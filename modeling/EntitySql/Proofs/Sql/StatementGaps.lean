import EntitySql.Proofs.Sql.KeptFragments
import EntitySql.Proofs.Sql.StatementText

/-!
# Tidying a statement closes the gap of its call

The statements of every operation are made of fragments that tidying keeps (**`gapless_statements`**), but
for those that count rows or call an aggregate function. The bracket around the columns of an insertion
comes with a blank, but there a quoted name stands in front of it and no word. So
**`tidied_statement`**: the text of an operation is what the builder wrote, and of a call it is that
without the one blank between the function and its bracket.
-/

namespace EntitySql.Sql

variable {d : Dialect} {fs : Fragments} {apart : Bool}

/-! ### Statements -/

theorem getLast?_pathFragments {parts : List String} (h : parts ≠ []) :
    ∃ n, (pathFragments parts).getLast? = some (.name n) := by
  induction parts with
  | nil => exact absurd rfl h
  | cons p rest ih =>
    cases rest with
    | nil => exact ⟨p, rfl⟩
    | cons q rest =>
      obtain ⟨n, hn⟩ := ih (List.cons_ne_nil _ _)
      refine ⟨n, ?_⟩
      change ([Fragment.name p] ++ .text "." :: pathFragments (q :: rest)).getLast? = _
      rw [List.getLast?_append, List.getLast?_cons, hn]
      rfl

theorem kept_table {t : TableRef} (h : t.hints = none) : t.fragments.Kept := by
  simp [TableRef.fragments, h]

theorem getLast?_table {t : TableRef} (h : t.hints = none) :
    ∃ n, t.fragments.getLast? = some (.name n) := by
  simp only [TableRef.fragments, h, List.append_nil]
  exact getLast?_pathFragments (nameParts_ne_nil _)

/-- A blank and a bracket behind a table make no gap. -/
theorem gapless_columns (apart : Bool) {verb : String} (hverb : (Fragment.text verb).isKept false = true)
    {t : TableRef} (ht : t.hints = none) (hfs : fs.Kept) :
    Gapless apart (.text verb :: t.fragments ++ .text " (" :: fs) := by
  obtain ⟨n, hn⟩ := getLast?_table ht
  have htable : Fragments.Kept (.text verb :: t.fragments) := kept_cons.mpr ⟨hverb, kept_table ht⟩
  refine htable.gapless.append ⟨?_, hfs.gapless⟩
  rw [List.getLast?_cons, hn]
  show (Fragment.text " (").isKept true = true
  decide

theorem Select.kept {s : Select} (ht : s.table.hints = none)
    (hi : ∀ i ∈ s.items, i.fragments.Kept) : s.fragments.Kept := by
  have hitems : (commaList SelectItem.fragments s.items).Kept := kept_commaList hi
  unfold Select.fragments
  cases s.top with
  | none => simp +decide [hitems, kept_table ht]
  | some n =>
    have htop := isKept_number (s := "TOP (") (t := ") ") (by decide) n (by decide) (by decide)
    rw [Nat.toString_eq_repr] at htop
    simp +decide [hitems, kept_table ht, htop]

theorem NumberedPage.kept {p : NumberedPage} (ht : p.table.hints = none) : p.fragments.Kept := by
  have hrows := isKept_number (t := ") ORDER BY ")
    (isKept_number (s := " BETWEEN ") (t := " AND ") (by decide) p.first (by decide) (by decide))
    p.last (by decide) (by decide)
  simp only [Nat.toString_eq_repr] at hrows
  simp +decide [NumberedPage.fragments, kept_table ht, hrows]

theorem Insert.gapless {i : Insert} (ht : i.table.hints = none)
    (hrows : ∀ row ∈ i.rows, ∀ v ∈ row, v.isCall = false) (hc : i.conflict.clause.Kept) :
    Gapless apart i.fragments := by
  have hverb : (Fragment.text i.conflict.verb).isKept false = true := by
    unfold Conflict.verb
    split <;> decide
  have hrest : Fragments.Kept (columnList i.columns ++ .text ")" :: outputClause false i.output ++
      .text " VALUES " :: commaList rowFragments i.rows ++ i.conflict.clause ++
        returningClause i.returning) := by
    simp +decide [kept_rows hrows, hc]
  simpa [Insert.fragments] using gapless_columns apart hverb ht hrest

theorem MergeSource.kept_row {columns : List Assignment}
    (h : ∀ x ∈ columns, x.value.isCall = false) : (MergeSource.row columns).fragments.Kept := by
  have hlist : (commaList (fun a => a.value.fragments ++ [Fragment.text " AS ", .name a.column])
      columns).Kept :=
    kept_commaList fun x hx => by simp +decide [Operand.kept (h x hx)]
  simp +decide [MergeSource.fragments, hlist]

theorem MergeSource.kept_rows {columns : List String} {rows : List (List Operand)}
    (h : ∀ row ∈ rows, ∀ v ∈ row, v.isCall = false) :
    (MergeSource.rows columns rows).fragments.Kept := by
  simp +decide [MergeSource.fragments, Sql.kept_rows h]

theorem Merge.kept {m : Merge} (ht : m.table.hints = none) (hs : m.source.fragments.Kept) :
    m.fragments.Kept := by
  simp +decide [Merge.fragments, kept_table ht, hs]

theorem UpdateOrInsert.kept_matched {u : UpdateOrInsert} (ht : u.table.hints = none)
    (hset : ∀ x ∈ u.set, x.value.isCall = false) : u.matched.Kept := by
  unfold UpdateOrInsert.matched
  split <;> simp +decide [kept_table ht, kept_assignmentList hset]

theorem UpdateOrInsert.gapless_inserted {u : UpdateOrInsert} (ht : u.table.hints = none)
    (hvalues : ∀ v ∈ u.values, v.isCall = false) (hfs : fs.Kept) :
    Gapless apart (u.inserted ++ fs) := by
  have hverb : (Fragment.text "INSERT INTO ").isKept false = true := by decide
  unfold UpdateOrInsert.inserted
  split
  · have hall : Fragments.Kept (.text "INSERT INTO " :: u.table.fragments ++ [.text " SELECT"] ++
        [.text " WHERE NOT EXISTS (SELECT 1 FROM matched)"] ++ fs) := by
      simp +decide [kept_table ht, hfs]
    exact hall.gapless
  · have hrest : Fragments.Kept (columnList u.columns ++ .text ") SELECT " ::
        operandList u.values ++ [.text " WHERE NOT EXISTS (SELECT 1 FROM matched)"] ++ fs) := by
      simp +decide [kept_operandList hvalues, hfs]
    simpa using gapless_columns apart hverb ht hrest

theorem UpdateOrInsert.gapless {u : UpdateOrInsert} (ht : u.table.hints = none)
    (hset : ∀ x ∈ u.set, x.value.isCall = false) (hvalues : ∀ v ∈ u.values, v.isCall = false) :
    Gapless apart u.fragments := by
  have hmatched (s : String) (hs : (Fragment.text s).isKept false = true) :
      Fragments.Kept (.text "WITH matched AS (" :: u.matched ++ [.text s]) := by
    simp +decide [kept_matched ht hset, hs]
  unfold UpdateOrInsert.fragments
  split
  · have hrest : Fragments.Kept ([.text " RETURNING ", .name u.returned, .text ") SELECT "] ++
        ([.name u.returned, .text " AS ", .name resultColumn] ++ rowNumber u.row) ++
          .text " FROM matched UNION ALL SELECT " ::
            ([.name u.returned, .text " AS ", .name resultColumn] ++ rowNumber u.row) ++
              [.text " FROM inserted"]) := by
      simp +decide
    have hfirst : Gapless apart _ := (hmatched "), inserted AS (" (by decide)).gapless
    simpa using hfirst.append (gapless_inserted ht hvalues hrest)
  · have hfirst : Gapless apart _ := (hmatched ") " (by decide)).gapless
    simpa using hfirst.append (gapless_inserted ht hvalues kept_nil)

/-! ### Operations -/

theorem isCall_placeholders (columns : List Column) (row : Option Nat) :
    ∀ v ∈ placeholders columns row, v.isCall = false := by
  intro v hv
  obtain ⟨c, -, rfl⟩ := List.mem_map.mp hv
  rfl

theorem isCall_assignments (columns : List Column) (row : Option Nat) :
    ∀ x ∈ assignments columns row, x.value.isCall = false := by
  intro x hx
  obtain ⟨c, -, rfl⟩ := List.mem_map.mp hx
  rfl

theorem isCall_insertValues (columns : List Column) (row : Option Nat) :
    ∀ v ∈ insertValues columns row, v.isCall = false := by
  intro v hv
  obtain ⟨c, -, rfl⟩ := List.mem_map.mp hv
  split <;> rfl

theorem isCall_numberedRows (columns : List Column) (n : Nat) :
    ∀ row ∈ numberedRows columns n, ∀ v ∈ row, v.isCall = false := by
  intro row hrow v hv
  obtain ⟨i, -, rfl⟩ := List.mem_map.mp hrow
  rcases List.mem_append.mp hv with hv | hv
  · exact isCall_placeholders columns _ v hv
  · rw [List.mem_singleton.mp hv]
    rfl

variable {r : Request} {ss : List Statement}

theorem kept_selectFields (hh : r.hints = none) (d : Dialect) (top : Option Nat)
    (limit : RowLimit) : (selectFields d r top limit).body.Kept :=
  Select.kept (hints_tableRef hh d) fun i hi => by
    obtain ⟨c, -, rfl⟩ := List.mem_map.mp hi
    simp [SelectItem.fragments]

theorem gapless_trailingKey {call : String} (hcall : keyRetrieval d = .select call)
    (inputs : List Column) (row : Option Nat) :
    ∀ s ∈ trailingKey r inputs call row, Gapless apart s.body := by
  have hkept {value : Operand} (hvalue : value.fragments.Kept) :
      (Statement.selectKey value row).body.Kept := by
    simp +decide [Statement.body, hvalue]
  have hfunction : (Operand.function call).fragments.Kept := by
    cases d <;> cases hcall <;> simp +decide [Operand.fragments]
  exact forall_mem_trailingKey (hkept hfunction).gapless
    fun _ _ _ => (hkept (Operand.kept rfl)).gapless

theorem gapless_eachRow {batch : Option Nat} {f : Option Nat → List Statement}
    (h : ∀ row, ∀ s ∈ f row, Gapless apart s.body) : ∀ s ∈ eachRow batch f, Gapless apart s.body := by
  rw [eachRow_eq_flatMap]
  intro s hs
  obtain ⟨row, -, hs⟩ := List.mem_flatMap.mp hs
  exact h row s hs

theorem gapless_insertRow (hh : r.hints = none) (inputs : List Column) (row : Option Nat) :
    ∀ s ∈ insertRow d r inputs row, Gapless apart s.body := by
  have hinsert (output : Option String) (returning : Option ReturnedKey) :
      Gapless apart (Statement.insert ⟨tableRef d r, columnNames inputs, [placeholders inputs row],
        .fail, output, returning⟩).body :=
    Insert.gapless (hints_tableRef hh d) (by simpa using isCall_placeholders inputs row) kept_nil
  unfold insertRow
  cases hkey : keyRetrieval d with
  | output | returning =>
    intro s hs
    rw [List.mem_singleton.mp hs]
    exact hinsert _ _
  | select call =>
    exact List.forall_mem_cons.mpr ⟨hinsert _ _, gapless_trailingKey hkey inputs row⟩

theorem gapless_insertAll (hh : r.hints = none) {n : Int64} (h : insertAll d r n = .ok ss) :
    ∀ s ∈ ss, Gapless apart s.body := by
  obtain ⟨-, -, -, -, -, h⟩ := of_insertAll h
  have htable := hints_tableRef hh d
  obtain ⟨-, rfl⟩ | ⟨key, -, -, rfl⟩ | rfl := h
  · refine List.forall_mem_singleton.mpr (Insert.gapless htable (fun row hrow => ?_) kept_nil)
    obtain ⟨i, -, rfl⟩ := List.mem_map.mp hrow
    exact isCall_placeholders r.insertable _
  · have hvalues := isCall_numberedRows r.insertable n.toInt.toNat
    exact List.forall_mem_singleton.mpr (Merge.kept htable (MergeSource.kept_rows hvalues)).gapless
  · exact gapless_eachRow (gapless_insertRow hh r.insertable)

theorem gapless_conflictRow (hh : r.hints = none) (m : Request.MergeColumns) (row : Option Nat) :
    ∀ s ∈ conflictRow d r m row, Gapless apart s.body := by
  have htable := hints_tableRef hh d
  unfold conflictRow
  intro s hs
  split at hs
  · rw [List.mem_singleton.mp hs]
    exact UpdateOrInsert.gapless htable (isCall_assignments m.set row)
      (isCall_placeholders m.writable row)
  · rw [List.mem_singleton.mp hs]
    have hset : ∀ x ∈ m.set.map fun c => Assignment.mk c.name (.excluded c.name),
        x.value.isCall = false := by simp [Operand.isCall]
    refine Insert.gapless htable (by simpa using isCall_placeholders m.inputs row) ?_
    unfold Conflict.clause
    simp only
    split <;> simp +decide [kept_assignmentList hset]

theorem gapless_upsertRow (hh : r.hints = none) (m : Request.MergeColumns) {conflict : Conflict}
    (hc : conflict.clause.Kept) (row : Option Nat) :
    ∀ s ∈ upsertRow d r m conflict row, Gapless apart s.body := by
  have hinsert : Gapless apart (Statement.insert ⟨tableRef d r, columnNames m.inputs,
      [insertValues m.inputs row], conflict, none, none⟩).body :=
    Insert.gapless (hints_tableRef hh d) (by simpa using isCall_insertValues m.inputs row) hc
  refine List.forall_mem_cons.mpr ⟨hinsert, ?_⟩
  split
  · next hkey => exact gapless_trailingKey hkey m.inputs row
  · nofun

theorem kept_onDuplicate (r : Request) (m : Request.MergeColumns) :
    (Conflict.onDuplicate (duplicateAssignments r m)).clause.Kept := by
  have hset : ∀ x ∈ duplicateAssignments r m, x.value.isCall = false := by
    intro x hx
    rcases mem_duplicateAssignments hx with ⟨key, -, -, rfl⟩ | ⟨c, -, rfl⟩ | ⟨k, -, rfl, -⟩ <;> rfl
  simp +decide [Conflict.clause, kept_assignmentList hset]

theorem gapless_mergeRows (hh : r.hints = none) {m : Request.MergeColumns} {batch : Option Nat}
    (h : mergeRows d r m batch = .ok ss) : ∀ s ∈ ss, Gapless apart s.body := by
  cases d with
  | sqlServer =>
    cases h
    intro s hs
    rw [List.mem_singleton.mp hs]
    refine (Merge.kept (hints_tableRef hh _) ?_).gapless
    cases batch with
    | none => exact MergeSource.kept_row (isCall_assignments m.inputs none)
    | some n => exact MergeSource.kept_rows (isCall_numberedRows m.inputs n)
  | postgres =>
    cases h
    exact gapless_eachRow (gapless_conflictRow hh m)
  | mySql =>
    cases h
    exact gapless_eachRow (gapless_upsertRow hh m (kept_onDuplicate r m))
  | sqlite =>
    obtain ⟨_, -, h⟩ := bind_eq_ok_iff.mp h
    cases h
    exact gapless_eachRow (gapless_upsertRow hh m kept_nil)

theorem gapless_update (hh : r.hints = none) (set : List Column) (row : Option Nat)
    (filter : SearchCondition) :
    Gapless apart (Statement.update (tableRef d r) (assignments set row) filter).body := by
  have h : (Statement.update (tableRef d r) (assignments set row) filter).body.Kept := by
    simp +decide [Statement.body, kept_table (hints_tableRef hh d),
      kept_assignmentList (isCall_assignments set row)]
  exact h.gapless

/-- The aggregate function that the statement of an operation calls. -/
def calledFunction? (d : Dialect) : Operation → Option String
  | .count => some (match d with | .sqlServer => "COUNT_BIG" | _ => "COUNT")
  | .aggregate function _ => some function.function
  | _ => none

/-- **Statements without the call of an aggregate function make no gap.** -/
theorem gapless_statements {op : Operation} (hop : calledFunction? d op = none)
    (hh : r.hints = none) (h : statements d op r = .ok ss) :
    ∀ s ∈ ss, Gapless apart s.body := by
  have htable := hints_tableRef hh d
  have hselect (top : Option Nat) (limit : RowLimit) :
      ∀ s ∈ [selectFields d r top limit], Gapless apart s.body := by
    simpa using (kept_selectFields hh d top limit).gapless
  have hdelete (filter : Option SearchCondition) (table : TableRef) (ht : table.hints = none) :
      ∀ s ∈ [Statement.delete table filter], Gapless apart s.body := by
    have h : (Statement.delete table filter).body.Kept := by
      simp +decide [Statement.body, kept_table ht]
    simpa using h.gapless
  cases op with
  | query top =>
    obtain ⟨s, hs, rfl⟩ := map_eq_ok_iff.mp h
    obtain ⟨_, _, rfl⟩ := of_query hs
    exact hselect _ _
  | pagedQuery page rows =>
    obtain ⟨s, hs, rfl⟩ := map_eq_ok_iff.mp h
    obtain ⟨-, _, _, rfl⟩ | ⟨-, _, rfl⟩ := of_pagedQuery hs
    · exact List.forall_mem_singleton.mpr (NumberedPage.kept htable).gapless
    · exact hselect _ _
  | skipQuery skip take =>
    obtain ⟨s, hs, rfl⟩ := map_eq_ok_iff.mp h
    obtain ⟨_, rfl⟩ := of_skipQuery hs
    exact hselect _ _
  | insert =>
    obtain ⟨-, -, rfl⟩ := of_insert h
    exact gapless_insertRow hh r.insertable none
  | insertAll n => exact gapless_insertAll hh h
  | update =>
    obtain ⟨s, hs, rfl⟩ := map_eq_ok_iff.mp h
    obtain ⟨u, -, -, ⟨-, -, rfl⟩ | ⟨g, -, -, rfl⟩⟩ := of_update hs
    · simpa using gapless_update hh u.set none _
    · simpa using gapless_update hh u.set none _
  | updateAll n =>
    obtain ⟨u, -, -, -, -, -, rfl⟩ := of_updateAll h
    exact gapless_eachRow fun row => by simpa using gapless_update hh u.set row _
  | merge | mergeAll n =>
    obtain ⟨m, batch, -, -, -, h⟩ := mergeRows_of_statements rfl h
    exact gapless_mergeRows hh h
  | delete =>
    obtain ⟨s, hs, rfl⟩ := map_eq_ok_iff.mp h
    obtain ⟨keys, -, ⟨-, -, rfl⟩ | ⟨g, -, -, rfl⟩⟩ := of_delete hs
    · exact hdelete _ _ htable
    · exact hdelete _ _ htable
  | deleteAll =>
    obtain ⟨s, hs, rfl⟩ := map_eq_ok_iff.mp h
    obtain ⟨-, rfl⟩ := of_deleteAll hs
    exact hdelete _ _ htable
  | «exists» =>
    obtain ⟨s, hs, rfl⟩ := map_eq_ok_iff.mp h
    obtain ⟨_, _, rfl⟩ := of_existsQuery hs
    have hone (top : Option Nat) (limit : RowLimit) : ∀ s ∈
        [selectValue d r top (.one "ExistsValue") limit], Gapless apart s.body := by
      have h : (selectValue d r top (.one "ExistsValue") limit).body.Kept :=
        Select.kept htable (by simp +decide [SelectItem.fragments])
      simpa using h.gapless
    exact hone _ _
  | count | aggregate function field => cases hop
  | truncate =>
    obtain ⟨s, hs, rfl⟩ := map_eq_ok_iff.mp h
    have htruncate (restart : Bool) :
        ∀ s ∈ [Statement.truncate ⟨r.table, none⟩ restart], Gapless apart s.body := by
      have h : (Statement.truncate ⟨r.table, none⟩ restart).body.Kept := by
        cases restart <;> simp +decide [Statement.body, kept_table]
      simpa using h.gapless
    obtain rfl | ⟨restart, rfl⟩ := of_truncate hs
    · exact hdelete none _ rfl
    · exact htruncate restart

/-- A semicolon and a blank between statements make no gap. -/
theorem gapless_statementList (h : ∀ s ∈ ss, Gapless false s.body) :
    Gapless apart (statementList ss) := by
  have hend {s : Statement} {apart : Bool} (hs : Gapless false s.body) :
      Gapless apart s.fragments :=
    hs.mono.append (Fragments.Kept.gapless (by simp +decide))
  rw [statementList]
  induction ss generalizing apart with
  | nil => trivial
  | cons s ss ih =>
    obtain ⟨hs, hss⟩ := List.forall_mem_cons.mp h
    cases ss with
    | nil => exact hend hs
    | cons t ss =>
      refine (hend hs).append ⟨?_, ih hss⟩
      rw [Statement.fragments, List.getLast?_concat]
      show (Fragment.text " ").isKept true = true
      decide

/-! ### Calls -/

/-- Tidying closes the gap between a function and its bracket. -/
theorem tidyChars_call {function : List Char} (hfunction : function ∈ aggregateWords)
    {rest : List Char} (hrest : rest.head? = some '(') :
    tidyChars ("SELECT ".toList ++ (function ++ ' ' :: rest)) =
      "SELECT ".toList ++ (function ++ tidied none [] rest) := by
  have hword : function.all isPlain = true ∧ callsIn [] function = false ∧
      wordBehind [] function = function.reverse := by
    have hall : ∀ f ∈ aggregateWords, f.all isPlain = true ∧ callsIn [] f = false ∧
      wordBehind [] f = f.reverse := by decide
    exact hall function hfunction
  have hselect : wordBehind [] "SELECT ".toList = [] := by decide
  have hdrop : dropsBlank function.reverse ' ' rest = true := by
    simp [dropsBlank, hrest, hfunction]
  have hblank : tidied none function.reverse (' ' :: rest) = tidied none [] rest := by
    rw [tidied_plain _ _ (by decide), hdrop]
    rfl
  calc tidyChars ("SELECT ".toList ++ (function ++ ' ' :: rest))
      = "SELECT ".toList ++ tidied none [] (function ++ ' ' :: rest) := by
        rw [← hselect]
        exact tidied_calm (by decide) (by decide) _
    _ = "SELECT ".toList ++ (function ++ tidied none [] rest) := by
        rw [tidied_calm hword.1 hword.2.1, hword.2.2, hblank]

/-- Tidying takes nothing from the statement of a call but the blank between the function and the
bracket. -/
theorem tidyChars_select {function text bracket : String} {fs : Fragments}
    (hfunction : function.toList ∈ aggregateWords)
    (htext : text.toList = function.toList ++ ' ' :: '(' :: bracket.toList)
    (hbracket : (Fragment.text ("(" ++ bracket)).isKept true = true)
    (hend : endsApart ("(" ++ bracket) = true)
    (hspaced : Spaced .loose (.text "SELECT " :: .text text :: fs) .tight) (hl : fs.Legible)
    (hfs : fs.Kept) :
    ∃ rest, Fragments.render d (.text "SELECT " :: .text text :: fs) =
        "SELECT ".toList ++ (function.toList ++ ' ' :: '(' :: rest) ∧
      tidyChars (Fragments.render d (.text "SELECT " :: .text text :: fs)) =
        "SELECT ".toList ++ (function.toList ++ '(' :: rest) := by
  have hrender : Fragments.render d (.text "SELECT " :: .text text :: fs) =
      "SELECT ".toList ++ (function.toList ++ ' ' :: '(' :: (bracket.toList ++ fs.render d)) := by
    simp [Fragments.render_cons, Fragment.render, htext]
  refine ⟨bracket.toList ++ fs.render d, hrender, ?_⟩
  obtain ⟨m, hplain, hrest⟩ : ∃ m, text.toList.all isPlain = true ∧ Spaced m fs .tight := by
    cases hspaced with
    | text _ _ _ hspaced =>
      cases hspaced with
      | text hplain _ _ hrest => exact ⟨_, hplain, hrest⟩
  have hbehind : Spaced .loose (.text ("(" ++ bracket) :: fs) .tight := by
    rw [htext] at hplain
    refine .text ?_ (fun hside => by cases hside) (fun _ => hend) hrest
    simp_all
  have hkept : Gapless true (.text ("(" ++ bracket) :: fs) := ⟨hbracket, hfs.gapless⟩
  have htidied : tidied none [] (Fragments.render d (.text ("(" ++ bracket) :: fs)) = _ :=
    tidied_render hbehind hl hkept fun _ => rfl
  have hopen : Fragments.render d (.text ("(" ++ bracket) :: fs) =
      '(' :: (bracket.toList ++ fs.render d) := by
    simp [Fragments.render_cons, Fragment.render]
  rw [hopen] at htidied
  rw [hrender, tidyChars_call hfunction rfl, htidied]

theorem statementList_selectValue {item : SelectItem} {text : String} {fs : Fragments}
    (hitem : item.fragments = .text text :: fs) (r : Request) :
    statementList [selectValue d r none item .all] = .text "SELECT " :: .text text ::
      (fs ++ .text " FROM " :: (tableRef d r).fragments ++ whereClause (filterCondition r) ++
        [.text ";"]) := by
  simp [statementList, separated, Statement.fragments, Statement.body, selectValue,
    Select.fragments, commaList, hitem, orderClause, RowLimit.fragments]

/-- The statement of an operation that calls an aggregate function. -/
theorem exists_call {op : Operation} {function : String}
    (hop : calledFunction? d op = some function) (h : statements d op r = .ok ss) :
    ∃ (item : SelectItem) (text bracket : String) (fs : Fragments),
      ss = [selectValue d r none item .all] ∧ item.fragments = .text text :: fs ∧ fs.Kept ∧
        function.toList ∈ aggregateWords ∧
          text.toList = function.toList ++ ' ' :: '(' :: bracket.toList ∧
            (Fragment.text ("(" ++ bracket)).isKept true = true ∧
              endsApart ("(" ++ bracket) = true := by
  cases op with
  | count =>
    cases hop
    obtain ⟨s, hs, rfl⟩ := map_eq_ok_iff.mp h
    obtain rfl := of_countQuery hs
    refine ⟨_, _, "1) AS ", _, rfl, rfl, by simp, ?_, ?_, by decide, by decide⟩
    · cases d <;> decide
    · cases d <;> rfl
  | aggregate aggregate field =>
    cases hop
    obtain ⟨s, hs, rfl⟩ := map_eq_ok_iff.mp h
    obtain rfl := of_aggregateQuery hs
    refine ⟨_, _, "", _, rfl, rfl, ?_, ?_, ?_, by decide, by decide⟩
    · simp +decide
    · cases aggregate <;> decide
    · cases aggregate <;> rfl
  | _ => cases hop

/-- **Tidying a statement closes the gap of its call and changes nothing else.** The text of an
operation is what the builder wrote, unless it counts rows or calls an aggregate function: there the one
blank between the function and its bracket goes. So every name and every placeholder is read as it was,
whatever tables, columns and parameters are called. -/
theorem tidied_statement {op : Operation} (hh : r.hints = none) (hplain : r.Plain)
    (h : statements d op r = .ok ss) :
    ∃ text, statementText d op r = .ok text ∧ lex d text.toList = lex d (rawText d ss) ∧
      match calledFunction? d op with
      | none => text.toList = rawText d ss
      | some function => ∃ rest,
        rawText d ss = "SELECT ".toList ++ (function.toList ++ ' ' :: '(' :: rest) ∧
          text.toList = "SELECT ".toList ++ (function.toList ++ '(' :: rest) := by
  obtain ⟨hspaced, hlegible⟩ := spaced_statements hh hplain h
  refine ⟨_, map_eq_ok_iff.mpr ⟨ss, h, rfl⟩, ?_, ?_⟩
  · rw [String.toList_ofList]
    exact lex_tidyChars hspaced hlegible
  · simp only [String.toList_ofList]
    split
    · next hop =>
      have hgapless : Gapless true (statementList ss) :=
        gapless_statementList (gapless_statements hop hh h)
      exact tidied_render hspaced hlegible hgapless fun _ => rfl
    · next function hop =>
      obtain ⟨item, text, bracket, fs, rfl, hitem, hfs, hfunction, htext, hkept, hend⟩ :=
        exists_call hop h
      have hlist := statementList_selectValue (d := d) hitem r
      rw [hlist] at hspaced hlegible
      rw [rawText, hlist]
      refine tidyChars_select hfunction htext hkept hend hspaced hlegible ?_
      simp +decide [hfs, kept_table (hints_tableRef hh d)]

namespace Sample

/-- Sales, with columns that are called like functions. -/
def sales : Request :=
  let count : Column :=
    ⟨"COUNT", true, false, false, .int64, none, none, none, none, false, false, none, none⟩
  let sum : Column :=
    ⟨"SUM (x)", false, false, false, .int64, none, none, none, none, false, false, none, none⟩
  .make "Sale" [count, sum]

end Sample

/-- The sum of a column that is called like a sum has one gap, and the insertion of such a column has
none. -/
theorem tidied_statement_sales :
    (∃ ss text rest, statements .sqlServer (.aggregate .sum "SUM (x)") Sample.sales = .ok ss ∧
      statementText .sqlServer (.aggregate .sum "SUM (x)") Sample.sales = .ok text ∧
        rawText .sqlServer ss = "SELECT SUM (".toList ++ rest ∧
          text.toList = "SELECT SUM(".toList ++ rest) ∧
    ∃ ss text, statements .sqlServer .insert Sample.sales = .ok ss ∧
      statementText .sqlServer .insert Sample.sales = .ok text ∧
        text.toList = rawText .sqlServer ss := by
  have hplain : Sample.sales.Plain := Request.plain_make _ _
  constructor
  · obtain ⟨ss, hss⟩ : ∃ ss,
      statements .sqlServer (.aggregate .sum "SUM (x)") Sample.sales = .ok ss := ⟨_, rfl⟩
    obtain ⟨text, htext, -, rest, hraw, htidied⟩ := tidied_statement rfl hplain hss
    exact ⟨ss, text, rest, hss, htext, hraw, htidied⟩
  · obtain ⟨ss, hss⟩ : ∃ ss, statements .sqlServer .insert Sample.sales = .ok ss := ⟨_, rfl⟩
    obtain ⟨text, htext, -, hraw⟩ := tidied_statement rfl hplain hss
    exact ⟨ss, text, hss, htext, hraw⟩

end EntitySql.Sql
