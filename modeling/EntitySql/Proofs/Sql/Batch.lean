import EntitySql.Proofs.Sql.Acceptance
import EntitySql.Proofs.Sql.Numbering
import EntitySql.Proofs.Sql.StatementText

/-!
# A batch repeats the text of a single row

An update of a batch of rows is written as one update for each row, and so are most insertions and
merges. The builder puts such statements together from the same parts as that of a single row, and hands
the number of the row on to each part that names a parameter or gives back a key. `RowByRow` says that
no part drops it.

The main statement, **`batch_repeats`**, is about the texts themselves. The text of a batch is that of
the single row for each number in turn (`numbered`), and a batch is accepted if and only if the single
row is, there is a row, and the dialect allows as many parameters as the rows need.
-/

namespace EntitySql

/-- The operation on a batch of rows in place of one row. -/
def Operation.batch? (n : Int64) : Operation → Option Operation
  | .insert => some (.insertAll n)
  | .update => some (.updateAll n)
  | .merge => some (.mergeAll n)
  | _ => none

/-- The parameter name of the column is made of letters, numerals and underscores. -/
def Column.Plain (c : Column) : Prop := ∀ ch ∈ c.parameterName.toList, isNameChar ch = true

namespace Sql

variable {d : Dialect}

/-! ### Parts of a row -/

namespace Rowwise

theorem pathFragments (parts : List String) : Rowwise d fun _ => pathFragments parts :=
  .separated (by decide) fun _ _ => .name .nil

theorem table {t : TableRef} (ht : t.hints = none) : Rowwise d fun _ => t.fragments := by
  simp only [TableRef.fragments, ht, List.append_nil]
  exact pathFragments _

theorem columnList (names : List String) : Rowwise d fun _ => columnList names :=
  .commaList fun _ _ => .name .nil

theorem operandList {inputs : List Column} (hplain : ∀ c ∈ inputs, c.Plain) :
    Rowwise d fun row => operandList (placeholders inputs row) := by
  simp only [Sql.operandList, Sql.commaList, placeholders, List.map_map]
  exact .separated (by decide) fun c hc => .placeholder (hplain c hc) .nil

theorem row {inputs : List Column} (hplain : ∀ c ∈ inputs, c.Plain) :
    Rowwise d fun row => Sql.commaList rowFragments [placeholders inputs row] :=
  .text (by decide) ((operandList hplain).append (.text (by decide) .nil))

/-- A row that may meet one that is there already. -/
theorem insertValues {inputs : List Column} (hplain : ∀ c ∈ inputs, c.Plain) :
    Rowwise d fun row => Sql.commaList rowFragments [insertValues inputs row] := by
  have hvalues : Rowwise d fun row => Sql.operandList (Sql.insertValues inputs row) := by
    simp only [Sql.operandList, Sql.commaList, Sql.insertValues, List.map_map]
    refine .separated (by decide) fun c hc => ?_
    simp only [Function.comp_apply]
    cases c.identity with
    | true => exact .text (by decide) (.placeholder (hplain c hc) (.text (by decide) .nil))
    | false => exact .placeholder (hplain c hc) .nil
  exact .text (by decide) (hvalues.append (.text (by decide) .nil))

theorem assignments {set : List Column} (hplain : ∀ c ∈ set, c.Plain) :
    Rowwise d fun row => assignmentList (assignments set row) := by
  simp only [assignmentList, Sql.commaList, Sql.assignments, List.map_map]
  exact .separated (by decide) fun c hc =>
    .name (.text (by decide) (.placeholder (hplain c hc) .nil))

theorem whereKeys {keys : List Column} (hplain : ∀ k ∈ keys, k.Plain) :
    Rowwise d fun row => whereClause (some (keyCondition keys row)) := by
  have hitems (row : Option Nat) : SearchCondition.fragmentsOf
      (keys.map fun k => .compare [k.name] .equal true (k.parameterAt row)) =
        keys.map fun k => [.name k.name, .text " = ", .placeholder (k.parameterAt row)] := by
    clear hplain
    induction keys with
    | nil => rfl
    | cons k keys ih =>
      rw [List.map_cons, SearchCondition.fragmentsOf, ih]
      rfl
  have hcondition (row : Option Nat) : whereClause (some (keyCondition keys row)) =
      .text " WHERE " :: joined .and (keys.map fun k =>
        [.name k.name, .text " = ", .placeholder (k.parameterAt row)]) := by
    rw [← hitems]
    rfl
  simp only [hcondition, joined, List.isEmpty_map]
  cases keys with
  | nil => exact .text (by decide) (.text (by decide) .nil)
  | cons k keys =>
    exact .text (by decide) (.separated (by decide) fun k hk =>
      .name (.text (by decide) (.placeholder (hplain k hk) .nil)))

theorem returningClause (key : Option Column) :
    Rowwise d fun row => returningClause (key.map fun k => ⟨k.name, row⟩) := by
  cases key with
  | none => exact nil
  | some k =>
    have hresult := result (d := d) nil
    simp only [List.append_nil] at hresult
    exact .text (by decide) (.name hresult)

/-- What is assigned without a parameter is the same in every row. -/
theorem fixedAssignments {set : List Assignment}
    (h : ∀ x ∈ set, ∃ c, x.value = .excluded c ∨ x.value = .proposed c ∨ x.value = .column c ∨
      x.value = .remembered c) : Rowwise d fun _ => assignmentList set := by
  refine .commaList fun x hx => .name (.text (by decide) ?_)
  obtain ⟨c, hc⟩ := h x hx
  rcases hc with hc | hc | hc | hc
  · rw [hc]
    exact .text (by decide) (.name .nil)
  · rw [hc]
    exact .text (by decide) (.name (.text (by decide) .nil))
  · rw [hc]
    exact .name .nil
  · rw [hc]
    exact .text (by decide) (.name (.text (by decide) .nil))

end Rowwise

/-! ### Statements of a row -/

/-- The statements that are built for a row are as many for each row, and each is that of a single row
with the number of the row. -/
structure RowByRow (d : Dialect) (f : Option Nat → List Statement) : Prop where
  items : ∃ items : List (Option Nat → Statement), items ≠ [] ∧
    (∀ row, f row = items.map fun s => s row) ∧
      ∀ s ∈ items, (s none).Clean ∧ Rowwise d fun row => (s row).body

theorem RowByRow.one {s : Option Nat → Statement} (hclean : (s none).Clean)
    (h : Rowwise d fun row => (s row).body) : RowByRow d fun row => [s row] :=
  ⟨[s], List.cons_ne_nil _ _, fun _ => rfl, by simpa using ⟨hclean, h⟩⟩

theorem RowByRow.two {s t : Option Nat → Statement} (hs : (s none).Clean) (ht : (t none).Clean)
    (h : Rowwise d fun row => (s row).body) (h' : Rowwise d fun row => (t row).body) :
    RowByRow d fun row => [s row, t row] :=
  ⟨[s, t], List.cons_ne_nil _ _, fun _ => rfl, by simpa using ⟨⟨hs, h⟩, ht, h'⟩⟩

theorem RowByRow.ne_nil {f : Option Nat → List Statement} (h : RowByRow d f) (row : Option Nat) :
    f row ≠ [] := by
  obtain ⟨items, hne, heq, -⟩ := h.items
  rw [heq]
  simpa using hne

/-- The text of a row is that of a single row with its number. -/
theorem RowByRow.rawText {f : Option Nat → List Statement} (h : RowByRow d f) (i : Nat) :
    rawText d (f (some i)) = numbered d i (rawText d (f none)) := by
  obtain ⟨items, -, heq, hitems⟩ := h.items
  have hlist : Rowwise d fun row => statementList (f row) := by
    simp only [statementList, heq, List.map_map]
    exact .separated (by decide) fun s hs => (hitems s hs).2.append (.text (by decide) .nil)
  have hclean : ∀ s ∈ f none, s.Clean := by
    intro s hs
    rw [heq] at hs
    obtain ⟨t, ht, rfl⟩ := List.mem_map.mp hs
    exact (hitems t ht).1
  rw [Sql.rawText, Sql.rawText, numbered_render (spaced_statementList hclean) hlist.legible,
    hlist.inRow i none (by simp)]

theorem statementList_append {ss ss' : List Statement} (h : ss ≠ []) (h' : ss' ≠ []) :
    statementList (ss ++ ss') = statementList ss ++ .text " " :: statementList ss' := by
  induction ss with
  | nil => exact absurd rfl h
  | cons s ss ih =>
    cases ss with
    | nil =>
      obtain ⟨t, ts, rfl⟩ := List.exists_cons_of_ne_nil h'
      rfl
    | cons t ss =>
      have hcons : ∀ us, statementList (s :: t :: us) =
          s.fragments ++ .text " " :: statementList (t :: us) := fun _ => rfl
      have hrest := ih (List.cons_ne_nil t ss)
      rw [List.cons_append] at hrest
      rw [List.cons_append, List.cons_append, hcons, hcons, hrest, List.append_assoc,
        List.cons_append]

/-- The text of a batch is that of its rows, joined by blanks. -/
theorem rawText_eachRow {f : Option Nat → List Statement} (h : RowByRow d f) (n : Nat) :
    rawText d (eachRow (some n) f) = [' '].intercalate
      ((List.range n).map fun i => numbered d i (rawText d (f none))) := by
  have hall : ∀ is : List Nat, rawText d (is.flatMap fun i => f (some i)) =
      [' '].intercalate (is.map fun i => numbered d i (rawText d (f none))) := by
    intro is
    induction is with
    | nil => rfl
    | cons i is ih =>
      cases is with
      | nil =>
        rw [List.flatMap_singleton, h.rawText]
        simp
      | cons j is =>
        have hrest : (j :: is).flatMap (fun i => f (some i)) ≠ [] := by
          rw [List.flatMap_cons]
          exact fun hnil => h.ne_nil _ (List.append_eq_nil_iff.mp hnil).1
        rw [List.flatMap_cons, rawText, statementList_append (h.ne_nil _) hrest, Fragments.render,
          List.flatMap_append, List.flatMap_cons, ← Fragments.render, ← Fragments.render, ← rawText,
          ← rawText, ih, h.rawText, List.map_cons, List.map_cons, List.map_cons,
          List.intercalate_cons_cons]
        simp [Fragment.render]
  exact hall (List.range n)

/-! ### The rows of an operation -/

variable {r : Request}

theorem plain_of_mem (hplain : r.Plain) {c : Column} (hc : c ∈ r.fields) : c.Plain :=
  hplain c (List.mem_append_left _ hc)

theorem plain_of_key (hplain : r.Plain) {key : Column} (hkey : r.key = some key) : key.Plain :=
  hplain key (Request.mem_columns_of_mem_schema (Request.mem_schema_of_key hkey))

/-- The update of a row by its key. -/
def updateRow (d : Dialect) (r : Request) (u : Request.UpdateColumns) (row : Option Nat) :
    List Statement :=
  [.update (tableRef d r) (assignments u.set row) (keyCondition u.keys row)]

theorem rowByRow_update (hh : r.hints = none) (hplain : r.Plain) {u : Request.UpdateColumns}
    (hu : r.updateColumns = .ok u) : RowByRow d (updateRow d r u) := by
  have hfields := (Request.updateColumns_spec hu).1
  have htable := hints_tableRef hh d
  refine .one ⟨htable, clean_assignments _ _⟩ ?_
  have hset : ∀ c ∈ u.set, c.Plain :=
    fun c hc => plain_of_mem hplain (hfields c (List.mem_append_left _ hc))
  have hkeys : ∀ c ∈ u.keys, c.Plain :=
    fun c hc => plain_of_mem hplain (hfields c (List.mem_append_right _ hc))
  exact (((Rowwise.table htable).text (by decide)).append
    ((Rowwise.assignments hset).text (by decide))).append (Rowwise.whereKeys hkeys)

/-- An insertion of a row. -/
theorem rowwise_insert {table : TableRef} (ht : table.hints = none) (columns : List String)
    {values : Option Nat → List Operand} {conflict : Option Nat → Conflict}
    {returning : Option Nat → Option ReturnedKey}
    (hverb : ∃ verb, endsOutside verb = true ∧ ∀ row, (conflict row).verb = verb)
    (hvalues : Rowwise d fun row => commaList rowFragments [values row])
    (hconflict : Rowwise d fun row => (conflict row).clause)
    (hreturning : Rowwise d fun row => returningClause (returning row)) :
    Rowwise d fun row => (Statement.insert
      ⟨table, columns, [values row], conflict row, none, returning row⟩).body := by
  obtain ⟨verb, hends, hverb⟩ := hverb
  simp only [Statement.body, Insert.fragments, hverb, outputClause]
  exact ((((((Rowwise.table ht).text hends).append ((Rowwise.columnList columns).text (by decide))).append
    (.text (by decide) .nil)).append (hvalues.text (by decide))).append hconflict).append hreturning

/-- The selection of a key that was just written. -/
theorem rowwise_selectKey {value : Option Nat → Operand}
    (hvalue : Rowwise d fun row => (value row).fragments) :
    Rowwise d fun row => (Statement.selectKey (value row) row).body := by
  have hresult := Rowwise.result (d := d) .nil
  simp only [List.append_nil] at hresult
  simp only [Statement.body, List.append_assoc]
  exact (hvalue.append hresult).text (by decide)

/-- A statement of a row stays so with the selection of the key behind it. -/
theorem rowByRow_withTrailingKey (hplain : r.Plain) {call : String}
    (hcall : keyRetrieval d = .select call) (inputs : List Column) {s : Option Nat → Statement}
    (hclean : (s none).Clean) (h : Rowwise d fun row => (s row).body) :
    RowByRow d fun row => s row :: trailingKey r inputs call row := by
  have hselect := clean_trailingKey hcall r inputs none
  unfold trailingKey at hselect ⊢
  cases hkey : r.key with
  | none => exact .one hclean h
  | some key =>
    rw [hkey] at hselect
    simp only at hselect ⊢
    split
    · next hidentity =>
      rw [if_pos hidentity] at hselect
      have hends : endsOutside call = true := by cases d <;> cases hcall <;> decide
      exact .two hclean (hselect _ List.mem_cons_self) h (rowwise_selectKey (.text hends .nil))
    · split
      · exact .two hclean trivial h
          (rowwise_selectKey (.placeholder (plain_of_key hplain hkey) .nil))
      · exact .one hclean h

theorem rowByRow_insertRow (hh : r.hints = none) (hplain : r.Plain) (hd : d ≠ .sqlServer) :
    RowByRow d (insertRow d r r.insertable) := by
  have htable := hints_tableRef hh d
  have hinputs : ∀ c ∈ r.insertable, c.Plain :=
    fun c hc => plain_of_mem hplain (Request.mem_fields_of_insertable c hc)
  have hclean (row : Option Nat) : ∀ vs ∈ [placeholders r.insertable row], ∀ v ∈ vs, v.Clean := by
    intro vs hvs
    rw [List.mem_singleton.mp hvs]
    exact clean_placeholders _ _
  have hverb : ∃ verb, endsOutside verb = true ∧ ∀ _ : Option Nat, Conflict.fail.verb = verb :=
    ⟨"INSERT INTO ", by decide, fun _ => rfl⟩
  unfold insertRow
  cases hkey : keyRetrieval d with
  | output =>
    cases d with
    | sqlServer => exact absurd rfl hd
    | postgres | mySql | sqlite => cases hkey
  | returning =>
    exact .one ⟨htable, hclean none, trivial⟩
      (rowwise_insert htable _ hverb (.row hinputs) .nil (.returningClause r.key))
  | select call =>
    exact rowByRow_withTrailingKey hplain hkey _ ⟨htable, hclean none, trivial⟩
      (rowwise_insert htable _ hverb (.row hinputs) .nil .nil)

/-! ### Merges of a row -/

variable {m : Request.MergeColumns}

theorem rowwise_matched {table : TableRef} (ht : table.hints = none) {keys set : List Column}
    (hkeys : ∀ c ∈ keys, c.Plain) (hset : ∀ c ∈ set, c.Plain) (writable : List Column)
    (returned : String) (key : Bool) :
    Rowwise d fun row => UpdateOrInsert.matched ⟨table, keyCondition keys row, assignments set row,
      columnNames writable, placeholders writable row, returned, key, row⟩ := by
  have hempty (row : Option Nat) : (assignments set row).isEmpty = set.isEmpty := List.isEmpty_map
  simp only [UpdateOrInsert.matched, hempty]
  cases set.isEmpty with
  | true =>
    have hselect : Rowwise d fun _ => [.text "SELECT ", .name returned, .text " FROM "] :=
      .text (by decide) (.name (.text (by decide) .nil))
    exact (hselect.append (.table ht)).append (.whereKeys hkeys)
  | false =>
    exact ((((Rowwise.table ht).text (by decide)).append ((Rowwise.assignments hset).text
      (by decide))).append (.whereKeys hkeys)).append (.text (by decide) (.name .nil))

theorem rowwise_inserted {table : TableRef} (ht : table.hints = none) (keys set : List Column)
    {writable : List Column} (hwritable : ∀ c ∈ writable, c.Plain) (returned : String)
    (key : Bool) :
    Rowwise d fun row => UpdateOrInsert.inserted ⟨table, keyCondition keys row, assignments set row,
      columnNames writable, placeholders writable row, returned, key, row⟩ := by
  have hend : Rowwise d fun _ => [.text " WHERE NOT EXISTS (SELECT 1 FROM matched)"] :=
    .text (by decide) .nil
  simp only [UpdateOrInsert.inserted]
  cases (columnNames writable).isEmpty with
  | true =>
    exact (((Rowwise.table ht).text (by decide)).append (.text (by decide) .nil)).append hend
  | false =>
    have hvalues : Rowwise d fun row =>
        .text " (" :: columnList (columnNames writable) ++
          .text ") SELECT " :: operandList (placeholders writable row) :=
      ((Rowwise.columnList _).text (by decide)).append
        ((Rowwise.operandList hwritable).text (by decide))
    exact (((Rowwise.table ht).text (by decide)).append hvalues).append hend

theorem rowwise_updateOrInsert {table : TableRef} (ht : table.hints = none)
    {keys set writable : List Column} (hkeys : ∀ c ∈ keys, c.Plain) (hset : ∀ c ∈ set, c.Plain)
    (hwritable : ∀ c ∈ writable, c.Plain) (returned : String) (key : Bool) :
    Rowwise d fun row => UpdateOrInsert.fragments ⟨table, keyCondition keys row, assignments set row,
      columnNames writable, placeholders writable row, returned, key, row⟩ := by
  have hmatched := rowwise_matched (d := d) ht hkeys hset writable returned key
  have hinserted := rowwise_inserted (d := d) ht keys set hwritable returned key
  simp only [UpdateOrInsert.fragments]
  cases key with
  | false => exact (hmatched.text (by decide)).append (hinserted.text (by decide))
  | true =>
    have hresult := Rowwise.result (d := d) .nil
    simp only [List.append_nil] at hresult
    have hreturned : Rowwise d fun row =>
        [Fragment.name returned, .text " AS ", .name resultColumn] ++ rowNumber row := hresult.name
    have hreturning : Rowwise d fun _ => [.text " RETURNING ", .name returned, .text ") SELECT "] :=
      .text (by decide) (.name (.text (by decide) .nil))
    exact (((((hmatched.text (by decide)).append (hinserted.text (by decide))).append
      hreturning).append hreturned).append (hreturned.text (by decide))).append
        (.text (by decide) .nil)

theorem rowByRow_conflictRow (hh : r.hints = none) (hplain : r.Plain)
    (hm : r.mergeColumns = .ok m) : RowByRow d (conflictRow d r m) := by
  obtain ⟨hkeys, hinputs, -, hwritable, hset⟩ := Request.mergeColumns_spec hm
  have hplain : ∀ c ∈ m.inputs, c.Plain := fun c hc => plain_of_mem hplain (hinputs c hc)
  have htable := hints_tableRef hh d
  unfold conflictRow
  cases m.keys.find? fun k => k.readOnly with
  | some made =>
    exact .one ⟨htable, clean_assignments _ _, clean_placeholders _ _⟩
      (rowwise_updateOrInsert htable (fun c hc => hplain c (hkeys c hc))
        (fun c hc => hplain c (hset c hc)) (fun c hc => hplain c (hwritable c hc)) _ _)
  | none =>
    have hfixed : Rowwise d fun _ =>
        assignmentList (m.set.map fun c => ⟨c.name, .excluded c.name⟩) := by
      refine .fixedAssignments fun x hx => ?_
      obtain ⟨c, -, rfl⟩ := List.mem_map.mp hx
      exact ⟨c.name, .inl rfl⟩
    have hclause : Rowwise d fun _ => (Conflict.onKey (columnNames m.keys)
        (m.set.map fun c => ⟨c.name, .excluded c.name⟩)).clause := by
      refine Rowwise.append (.text (by decide) (.columnList _)) ?_
      split
      · exact .text (by decide) .nil
      · exact .text (by decide) hfixed
    refine .one ⟨htable, fun vs hvs => ?_, fun x hx => ?_⟩
      (rowwise_insert htable _ ⟨"INSERT INTO ", by decide, fun _ => rfl⟩ (.row hplain) hclause
        (.returningClause r.key))
    · rw [List.mem_singleton.mp hvs]
      exact clean_placeholders _ _
    · obtain ⟨c, -, rfl⟩ := List.mem_map.mp hx
      trivial

theorem rowByRow_upsertRow (hh : r.hints = none) (hplain : r.Plain) (hm : r.mergeColumns = .ok m)
    {call : String} (hcall : keyRetrieval d = .select call) {conflict : Conflict}
    (hverb : endsOutside conflict.verb = true) (hclean : conflict.Clean)
    (hclause : Rowwise d fun _ => conflict.clause) : RowByRow d (upsertRow d r m conflict) := by
  have hinputs := (Request.mergeColumns_spec hm).2.1
  have htable := hints_tableRef hh d
  simp only [funext fun row => show upsertRow d r m conflict row =
    .insert ⟨tableRef d r, columnNames m.inputs, [insertValues m.inputs row], conflict, none, none⟩ ::
      trailingKey r m.inputs call row by rw [upsertRow, hcall]]
  refine rowByRow_withTrailingKey hplain hcall _ ⟨htable, fun vs hvs => ?_, hclean⟩
    (rowwise_insert htable _ ⟨_, hverb, fun _ => rfl⟩
      (.insertValues fun c hc => plain_of_mem hplain (hinputs c hc)) hclause .nil)
  rw [List.mem_singleton.mp hvs]
  exact clean_insertValues _ _

theorem rowwise_duplicate (r : Request) (m : Request.MergeColumns) :
    Rowwise d fun _ => (Conflict.onDuplicate (duplicateAssignments r m)).clause := by
  refine .text (by decide) (.fixedAssignments fun x hx => ?_)
  rcases mem_duplicateAssignments hx with ⟨k, -, -, rfl⟩ | ⟨c, -, rfl⟩ | ⟨k, -, rfl, -⟩
  · exact ⟨k.name, .inr (.inr (.inr rfl))⟩
  · exact ⟨c.name, .inr (.inl rfl)⟩
  · exact ⟨k.name, .inr (.inr (.inl rfl))⟩

/-- A merge that is one statement for each row is so for one row and for a batch. -/
theorem exists_rowByRow_mergeRows (hh : r.hints = none) (hplain : r.Plain) (hd : d ≠ .sqlServer)
    (hm : r.mergeColumns = .ok m) {batch batch' : Option Nat} {ss ss' : List Statement}
    (h : mergeRows d r m batch = .ok ss) (h' : mergeRows d r m batch' = .ok ss') :
    ∃ f, RowByRow d f ∧ ss = eachRow batch f ∧ ss' = eachRow batch' f := by
  cases d with
  | sqlServer => exact absurd rfl hd
  | postgres =>
    cases h
    cases h'
    exact ⟨_, rowByRow_conflictRow hh hplain hm, rfl, rfl⟩
  | mySql =>
    cases h
    cases h'
    obtain ⟨hclean, -⟩ := clean_onDuplicate r m
    have hverb : endsOutside (Conflict.onDuplicate (duplicateAssignments r m)).verb = true :=
      show endsOutside "INSERT INTO " = true by decide
    exact ⟨_, rowByRow_upsertRow hh hplain hm rfl hverb hclean (rowwise_duplicate r m), rfl, rfl⟩
  | sqlite =>
    obtain ⟨_, -, h⟩ := bind_eq_ok_iff.mp h
    obtain ⟨_, -, h'⟩ := bind_eq_ok_iff.mp h'
    cases h
    cases h'
    have hclean : Conflict.replace.Clean := trivial
    exact ⟨_, rowByRow_upsertRow hh hplain hm rfl (by decide) hclean .nil, rfl, rfl⟩

/-! ### Acceptance -/

variable {op many : Operation} {n : Int64}

/-- The rows of a batch are some, and within the parameters of the dialect. -/
def RowsFit (d : Dialect) (n : Int64) (perRow : Nat) : Prop :=
  1 ≤ n.toInt ∧ n.toInt.toNat * perRow ≤ d.maxParameters

theorem rejectPredicate_ok (hnone : r.activePredicate = none) (op : Operation) :
    rejectPredicate r op = .ok () := by
  rw [rejectPredicate, hnone]
  rfl

theorem positive_ok {name : String} (h : 1 ≤ n.toInt) : positive name n = .ok n.toInt.toNat := by
  rw [positive, if_pos h]

/-- The rows pass the guards of a batch. -/
theorem RowsFit.guards {perRow : Nat} (h : RowsFit d n perRow) :
    positive "batch_size" n = .ok n.toInt.toNat ∧
      parameterLimit d n n.toInt.toNat perRow = .ok () := by
  obtain ⟨hpositive, hle⟩ := h
  exact ⟨positive_ok hpositive, by rw [parameterLimit, if_neg (by omega)]⟩

theorem update_iff (hnone : r.activePredicate = none) {ss : List Statement} :
    statements d .update r = .ok ss ↔
      ∃ u, queryGuards d r = .ok () ∧ r.updateColumns = .ok u ∧ ss = updateRow d r u none := by
  constructor
  · intro h
    obtain ⟨s, hs, rfl⟩ := map_eq_ok_iff.mp h
    obtain ⟨u, hguards, hu, ⟨-, -, rfl⟩ | ⟨g, hsome, -⟩⟩ := of_update hs
    · exact ⟨u, hguards, hu, rfl⟩
    · rw [hnone] at hsome
      cases hsome
  · rintro ⟨u, hguards, hu, rfl⟩
    simp only [statements, update, hguards, hu, ok_bind, hnone]
    rfl

theorem updateAll_iff (hnone : r.activePredicate = none) {ss : List Statement} :
    statements d (.updateAll n) r = .ok ss ↔
      ∃ u, queryGuards d r = .ok () ∧ r.updateColumns = .ok u ∧
        RowsFit d n (u.set.length + u.keys.length) ∧
          ss = eachRow (some n.toInt.toNat) (updateRow d r u) := by
  constructor
  · intro h
    obtain ⟨u, hguards, -, hu, hpositive, hle, rfl⟩ := of_updateAll h
    exact ⟨u, hguards, hu, ⟨hpositive, hle⟩, rfl⟩
  · rintro ⟨u, hguards, hu, hfits, rfl⟩
    obtain ⟨hrows, hlimit⟩ := hfits.guards
    simp only [statements, updateAll, hguards, rejectPredicate_ok hnone, hrows, hu, hlimit, ok_bind]
    rfl

theorem insertAll_accepted_iff (hnone : r.activePredicate = none) :
    (∃ ss, statements d (.insertAll n) r = .ok ss) ↔
      insertColumns d r = .ok r.insertable ∧ RowsFit d n r.insertable.length := by
  constructor
  · rintro ⟨ss, h⟩
    obtain ⟨hinputs, -, -, hpositive, hle, -⟩ := of_insertAll h
    exact ⟨hinputs, hpositive, hle⟩
  · rintro ⟨hinputs, hfits⟩
    obtain ⟨hrows, hlimit⟩ := hfits.guards
    simp only [statements, insertAll, hinputs, rejectPredicate_ok hnone, hrows, hlimit, ok_bind]
    split
    · exact ⟨_, rfl⟩
    · exact ⟨_, rfl⟩
    · exact ⟨_, rfl⟩

/-- Whether rows are merged does not depend on how many there are. -/
theorem mergeRows_accepted {m : Request.MergeColumns} {batch : Option Nat} {ss : List Statement}
    (h : mergeRows d r m batch = .ok ss) (batch' : Option Nat) :
    ∃ ss', mergeRows d r m batch' = .ok ss' := by
  cases d with
  | sqlServer | postgres | mySql => exact ⟨_, rfl⟩
  | sqlite =>
    obtain ⟨_, hkeys, -⟩ := bind_eq_ok_iff.mp h
    exact ⟨_, bind_eq_ok_iff.mpr ⟨_, hkeys, rfl⟩⟩

theorem mergeAll_iff (hnone : r.activePredicate = none) {ss : List Statement} :
    statements d (.mergeAll n) r = .ok ss ↔
      ∃ m, mergeColumns d r = .ok m ∧ RowsFit d n m.inputs.length ∧
        mergeRows d r m (some n.toInt.toNat) = .ok ss := by
  constructor
  · intro h
    obtain ⟨m, hm, -, hpositive, hle, h⟩ := of_mergeAll h
    exact ⟨m, hm, ⟨hpositive, hle⟩, h⟩
  · rintro ⟨m, hm, hfits, h⟩
    obtain ⟨hrows, hlimit⟩ := hfits.guards
    simp only [statements, mergeAll, hm, rejectPredicate_ok hnone, hrows, hlimit, ok_bind]
    exact h

/-- A batch is accepted if and only if one row is, and the rows fit. -/
theorem accepted_batch_iff (hnone : r.activePredicate = none) (hop : op.batch? n = some many) :
    (∃ ss, statements d many r = .ok ss) ↔
      (∃ ss, statements d op r = .ok ss) ∧
        ∃ inputs, r.boundColumns op = .ok inputs ∧ RowsFit d n inputs.length := by
  cases op with
  | insert =>
    cases hop
    rw [insertAll_accepted_iff hnone]
    constructor
    · rintro ⟨hinputs, hfits⟩
      exact ⟨⟨_, bind_eq_ok_iff.mpr ⟨_, hinputs, rfl⟩⟩, r.insertable, rfl, hfits⟩
    · rintro ⟨⟨ss, h⟩, inputs, hbound, hfits⟩
      obtain ⟨hinputs, -, -⟩ := of_insert h
      cases hbound
      exact ⟨hinputs, hfits⟩
  | update =>
    cases hop
    simp only [updateAll_iff hnone, update_iff hnone]
    constructor
    · rintro ⟨ss, u, hguards, hu, hfits, -⟩
      refine ⟨⟨_, u, hguards, hu, rfl⟩, u.set ++ u.keys, congrArg (Except.map _) hu, ?_⟩
      rw [List.length_append]
      exact hfits
    · rintro ⟨⟨ss, u, hguards, hu, -⟩, inputs, hbound, hfits⟩
      obtain ⟨v, hv, rfl⟩ := map_eq_ok_iff.mp hbound
      obtain rfl := Except.ok.inj (hu.symm.trans hv)
      rw [List.length_append] at hfits
      exact ⟨_, u, hguards, hu, hfits, rfl⟩
  | merge =>
    cases hop
    simp only [mergeAll_iff hnone]
    constructor
    · rintro ⟨ss, m, hm, hfits, h⟩
      obtain ⟨ss', h'⟩ := mergeRows_accepted h none
      exact ⟨⟨ss', bind_eq_ok_iff.mpr ⟨m, hm, h'⟩⟩, m.inputs,
        congrArg (Except.map _) (mergeColumns_of_guards hm), hfits⟩
    · rintro ⟨⟨ss, h⟩, inputs, hbound, hfits⟩
      obtain ⟨m, hm, h⟩ := of_merge h
      obtain ⟨m', hm', rfl⟩ := map_eq_ok_iff.mp hbound
      obtain rfl := Except.ok.inj ((mergeColumns_of_guards hm).symm.trans hm')
      obtain ⟨ss', h'⟩ := mergeRows_accepted h (some n.toInt.toNat)
      exact ⟨ss', m, hm, hfits, h'⟩
  | _ => cases hop

/-! ### The text of a batch -/

/-- Whether the dialect writes a batch of the operation as one text for each row. SQL Server inserts and
merges all rows at once, and an insertion does without a text for each row where no key is given back. -/
def rowByRow (d : Dialect) (op : Operation) (r : Request) : Bool :=
  match op with
  | .update => true
  | .insert => d ≠ .sqlServer && r.key.isSome
  | .merge => d ≠ .sqlServer
  | _ => false

theorem exists_rowByRow (hh : r.hints = none) (hplain : r.Plain) (hnone : r.activePredicate = none)
    (hop : op.batch? n = some many) (hrows : rowByRow d op r = true) {one ss : List Statement}
    (h : statements d op r = .ok one) (h' : statements d many r = .ok ss) :
    ∃ f, RowByRow d f ∧ one = f none ∧ ss = eachRow (some n.toInt.toNat) f := by
  cases op with
  | update =>
    cases hop
    obtain ⟨u, -, hu, rfl⟩ := (update_iff hnone).mp h
    obtain ⟨v, -, hv, -, rfl⟩ := (updateAll_iff hnone).mp h'
    obtain rfl := Except.ok.inj (hu.symm.trans hv)
    exact ⟨_, rowByRow_update hh hplain hu, rfl, rfl⟩
  | insert =>
    cases hop
    simp only [rowByRow, Bool.and_eq_true, decide_eq_true_eq] at hrows
    obtain ⟨hd, hkey⟩ := hrows
    obtain ⟨-, -, rfl⟩ := of_insert h
    obtain ⟨-, -, -, -, -, h'⟩ := of_insertAll h'
    refine ⟨_, rowByRow_insertRow hh hplain hd, rfl, ?_⟩
    obtain ⟨hnokey, -⟩ | ⟨_, -, hretrieval, -⟩ | hrow := h'
    · rw [hnokey] at hkey
      cases hkey
    · cases d with
      | sqlServer => exact absurd rfl hd
      | postgres | mySql | sqlite => cases hretrieval
    · exact hrow
  | merge =>
    cases hop
    have hd : d ≠ .sqlServer := by simpa [rowByRow] using hrows
    obtain ⟨m, hm, h⟩ := of_merge h
    obtain ⟨m', hm', -, h'⟩ := (mergeAll_iff hnone).mp h'
    obtain rfl := Except.ok.inj (hm.symm.trans hm')
    exact exists_rowByRow_mergeRows hh hplain hd (mergeColumns_of_guards hm) h h'
  | _ => cases hop

/-- **The text of a batch is the text of a single row repeated.** Without a filter and hints a batch is
accepted if and only if the single row is, there is at least one row, and all columns that are bound
for the rows are within the parameters of the dialect. Where it is written row by row, its text is that
of the single row with the number of each row in turn, joined by blanks. -/
theorem batch_repeats (hh : r.hints = none) (hplain : r.Plain) (hnone : r.activePredicate = none)
    (hop : op.batch? n = some many) :
    ((∃ ss, statements d many r = .ok ss) ↔ (∃ one, statements d op r = .ok one) ∧
      1 ≤ n.toInt ∧ ∃ inputs, r.boundColumns op = .ok inputs ∧
        n.toInt.toNat * inputs.length ≤ d.maxParameters) ∧
    (rowByRow d op r = true → ∀ one ss, statements d op r = .ok one →
      statements d many r = .ok ss → rawText d ss = [' '].intercalate
        ((List.range n.toInt.toNat).map fun i => numbered d i (rawText d one))) := by
  constructor
  · rw [accepted_batch_iff hnone hop]
    constructor
    · rintro ⟨hone, inputs, hbound, hpositive, hle⟩
      exact ⟨hone, hpositive, inputs, hbound, hle⟩
    · rintro ⟨hone, hpositive, inputs, hbound, hle⟩
      exact ⟨hone, inputs, hbound, hpositive, hle⟩
  · intro hrows one ss h h'
    obtain ⟨f, hf, rfl, rfl⟩ := exists_rowByRow hh hplain hnone hop hrows h h'
    exact rawText_eachRow hf _

namespace Sample

/-- Readings of meters. -/
def readings : Request :=
  let meter : Column :=
    ⟨"Meter", true, false, false, .text, none, none, none, none, false, false, none, none⟩
  let value : Column :=
    ⟨"Value", false, false, false, .int64, none, none, none, none, false, false, none, none⟩
  .make "Reading" [meter, value]

end Sample

/-- On Postgres a batch of two readings is two insertions, and a batch of none is refused. -/
theorem batch_repeats_readings :
    (∃ one ss, statements .postgres .insert Sample.readings = .ok one ∧
      statements .postgres (.insertAll 2) Sample.readings = .ok ss ∧
        rawText .postgres ss = numbered .postgres 0 (rawText .postgres one) ++
          ' ' :: numbered .postgres 1 (rawText .postgres one)) ∧
    ¬∃ ss, statements .postgres (.insertAll 0) Sample.readings = .ok ss := by
  have hplain : Sample.readings.Plain := Request.plain_make _ _
  have hbatch (n : Int64) : Operation.insert.batch? n = some (.insertAll n) := rfl
  constructor
  · obtain ⟨one, hone⟩ : ∃ one, statements .postgres .insert Sample.readings = .ok one := ⟨_, rfl⟩
    obtain ⟨haccepted, htext⟩ := batch_repeats (d := .postgres) rfl hplain rfl (hbatch 2)
    obtain ⟨ss, hss⟩ := haccepted.mpr ⟨⟨one, hone⟩, by decide, _, rfl, by decide⟩
    have hrange : List.range (Int64.toInt 2).toNat = [0, 1] := by decide
    refine ⟨one, ss, hone, hss, ?_⟩
    rw [htext rfl one ss hone hss, hrange]
    simp [List.intercalate_cons_cons]
  · obtain ⟨haccepted, -⟩ := batch_repeats (d := .postgres) rfl hplain rfl (hbatch 0)
    intro h
    obtain ⟨-, hpositive, -⟩ := haccepted.mp h
    exact absurd hpositive (by decide)

end Sql

end EntitySql
