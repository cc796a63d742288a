import EntitySql.Proofs.Sql.Alignment
import EntitySql.Proofs.Sql.Batch
import EntitySql.Proofs.Sql.Restriction
import Mathlib.Data.Finset.Card
import Mathlib.Data.Finset.Prod

/-!
# A batch stays within the parameters of the dialect

The rows of a batch are counted before they are written: so many rows, each with so many columns, must
not need more parameters than the dialect allows. `guardedColumns` are the columns that are counted for a
row, and a batch that passes all guards before the count is refused by it exactly if there is no row or
the product, which is taken without a bound, is too large.

What is written is compared with what was counted. Every row writes the same columns, each with the
number of the row, and no two rows share a name (`card_boundNames`). These columns are among those that
were counted, but for one: MySQL and SQLite select the key of a row by the name that it has as a column of
the table, whatever name the column is written with (`selectedKey`). The two differ where the table has
columns whose names differ in case only. So **`batch_limit`** says that the text stays within the limit
if the selected key is written under its name, and otherwise tells how many names there are.
-/

namespace EntitySql

/-- The hints that are given have no quotes and no at signs. -/
def Request.PlainHints (r : Request) : Prop :=
  ∀ hints, r.hints = some hints → hints.toList.all Sql.isPlain = true

namespace Sql

variable {d : Dialect} {op : Operation} {r : Request} {n : Int64} {inputs cols : List Column}
  {ss : List Statement}

/-! ### Guards -/

/-- The columns that are counted for a row of a batch, if all guards in front of the count pass. -/
def guardedColumns (d : Dialect) (op : Operation) (r : Request) : Result (List Column) :=
  match op with
  | .insertAll n => do
    let inputs ← insertColumns d r
    rejectPredicate r (.insertAll n)
    return inputs
  | .updateAll n => do
    queryGuards d r
    rejectPredicate r (.updateAll n)
    let u ← r.updateColumns
    return u.set ++ u.keys
  | .mergeAll n => do
    let m ← mergeColumns d r
    rejectPredicate r (.mergeAll n)
    return m.inputs
  | op => r.boundColumns op

/-- The rows do not fit if there is none, or the parameters are too many. -/
theorem not_rowsFit_iff {perRow : Nat} : ¬RowsFit d n perRow ↔
    n.toInt < 1 ∨ (d.maxParameters : Int) < n.toInt * perRow := by
  by_cases hpositive : 1 ≤ n.toInt
  · have hproduct : (n.toInt.toNat * perRow : Nat) = n.toInt * perRow := by
      rw [Int.natCast_mul, Int.toNat_of_nonneg (by omega)]
    rw [RowsFit, ← hproduct]
    omega
  · rw [RowsFit]
    omega

/-- A batch is refused for its size if and only if its rows do not fit. -/
theorem refused_iff {α : Type} {perRow : Nat} {k : Nat → Result α}
    (hk : ∀ rows, k rows ≠ .error (.range "batch_size" n.toInt)) :
    (do
      let rows ← positive "batch_size" n
      parameterLimit d n rows perRow
      k rows) = .error (.range "batch_size" n.toInt) ↔ ¬RowsFit d n perRow := by
  by_cases hpositive : 1 ≤ n.toInt
  · rw [positive_ok hpositive, ok_bind, parameterLimit]
    split
    · next hlimit =>
      refine iff_of_true rfl ?_
      rintro ⟨-, hle⟩
      omega
    · next hlimit =>
      rw [ok_bind]
      exact iff_of_false (hk _) (not_not_intro ⟨hpositive, by omega⟩)
  · rw [positive, if_neg hpositive]
    exact iff_of_true rfl fun hfits => hpositive hfits.1

theorem mergeRows_ne_range {m : Request.MergeColumns} {batch : Option Nat} {name : String}
    {value : Int} : mergeRows d r m batch ≠ .error (.range name value) := by
  intro h
  cases d with
  | sqlServer | postgres | mySql => cases h
  | sqlite =>
    unfold mergeRows requirePrimaryQualifiers at h
    simp only at h
    split at h <;> cases h

/-- A batch that passes the guards in front of the count is refused for its size if and only if its rows
do not fit. -/
theorem statements_refused_iff (hop : op.batchSize? = some n)
    (h : guardedColumns d op r = .ok inputs) :
    statements d op r = .error (.range "batch_size" n.toInt) ↔ ¬RowsFit d n inputs.length := by
  cases op with
  | insertAll n =>
    cases hop
    obtain ⟨columns, hcolumns, h⟩ := bind_eq_ok_iff.mp h
    obtain ⟨⟨⟩, hreject, h⟩ := bind_eq_ok_iff.mp h
    cases h
    simp only [statements, insertAll, hcolumns, hreject, ok_bind]
    refine refused_iff fun rows hrefused => ?_
    split at hrefused <;> cases hrefused
  | updateAll n =>
    cases hop
    obtain ⟨⟨⟩, hguards, h⟩ := bind_eq_ok_iff.mp h
    obtain ⟨⟨⟩, hreject, h⟩ := bind_eq_ok_iff.mp h
    obtain ⟨u, hu, h⟩ := bind_eq_ok_iff.mp h
    cases h
    simp only [statements, updateAll, hguards, hreject, hu, ok_bind, List.length_append]
    exact refused_iff fun rows hrefused => by cases hrefused
  | mergeAll n =>
    cases hop
    obtain ⟨m, hm, h⟩ := bind_eq_ok_iff.mp h
    obtain ⟨⟨⟩, hreject, h⟩ := bind_eq_ok_iff.mp h
    cases h
    simp only [statements, mergeAll, hm, hreject, ok_bind]
    exact refused_iff fun rows => mergeRows_ne_range
  | _ => cases hop

/-! ### Names of rows -/

/-- No two rows share a name, so there are as many names as rows times names of a row. -/
theorem card_boundNames (cols : List Column) (n : Nat) :
    (boundNames cols (rowsOf (some n))).toFinset.card =
      n * (cols.map Column.parameterName).toFinset.card := by
  let numbered (x : Nat × String) : String := x.2 ++ "_" ++ toString x.1
  have himage : (boundNames cols (rowsOf (some n))).toFinset =
      ((Finset.range n) ×ˢ (cols.map Column.parameterName).toFinset).image numbered := by
    ext name
    simp only [List.mem_toFinset, mem_boundNames, Finset.mem_image, Finset.mem_product,
      Finset.mem_range, List.mem_map, rowsOf, List.mem_range]
    constructor
    · rintro ⟨row, ⟨i, hi, rfl⟩, c, hc, rfl⟩
      exact ⟨(i, c.parameterName), ⟨hi, c, hc, rfl⟩, rfl⟩
    · rintro ⟨⟨i, p⟩, ⟨hi, c, hc, rfl⟩, rfl⟩
      exact ⟨some i, ⟨i, hi, rfl⟩, c, hc, rfl⟩
  have hinj : Function.Injective numbered := by
    rintro ⟨i, p⟩ ⟨j, q⟩ h
    have hlist : p.toList ++ '_' :: Nat.toDigits 10 i = q.toList ++ '_' :: Nat.toDigits 10 j := by
      simpa [numbered] using congrArg String.toList h
    obtain ⟨hname, hdigits⟩ :=
      append_underscore_inj (underscore_notMem_digits i) (underscore_notMem_digits j) hlist
    rw [String.toList_inj.mp hname, digits_injective hdigits]
  rw [himage, Finset.card_image_of_injective _ hinj, Finset.card_product, Finset.card_range]

/-- The statements name these parameters, one after the other, and nothing in them runs together. -/
structure Spells (ss : List Statement) (names : List String) : Prop where
  spaced : ∀ s ∈ ss, Spaced .loose s.body .tight
  parameters : statementParameters ss = names

namespace Spells

theorem nil : Spells [] [] := ⟨nofun, rfl⟩

theorem cons {s : Statement} {names : List String} (hs : Spaced .loose s.body .tight)
    (h : Spells ss names) : Spells (s :: ss) (s.parameters ++ names) :=
  ⟨List.forall_mem_cons.mpr ⟨hs, h.spaced⟩, by rw [← h.parameters]; rfl⟩

theorem one {s : Statement} {names : List String} (hs : Spaced .loose s.body .tight)
    (h : s.parameters = names) : Spells [s] names := by
  have hone := Spells.nil.cons hs
  rwa [List.append_nil, h] at hone

/-- Statements for row after row name the columns of each row. -/
theorem eachRow {f : Option Nat → List Statement}
    (h : ∀ row, Spells (f row) (cols.map fun c => c.parameterAt row)) (n : Nat) :
    Spells (eachRow (some n) f) (boundNames cols (rowsOf (some n))) := by
  rw [eachRow_eq_flatMap]
  constructor
  · intro s hs
    obtain ⟨row, -, hs⟩ := List.mem_flatMap.mp hs
    exact (h row).spaced s hs
  · rw [statementParameters, List.flatMap_assoc]
    exact List.flatMap_congr fun row _ => (h row).parameters

end Spells

/-! ### Rows -/

theorem mem_of_mem_trim {c : Char} {s : String} (h : c ∈ (Text.trim s).toList) : c ∈ s.toList := by
  rw [Text.trim, String.toList_ofList, Text.trimChars, List.mem_reverse] at h
  exact (List.dropWhile_suffix _).subset (List.mem_reverse.mp ((List.dropWhile_suffix _).subset h))

/-- Plain hints are plain as they are written. -/
theorem plainHints_tableRef (hh : r.PlainHints) (d : Dialect) : (tableRef d r).PlainHints := by
  intro hints h
  unfold tableRef at h
  split at h
  · next given hgiven =>
    split at h
    · cases h
      have hplain := List.all_eq_true.mp (hh given hgiven)
      exact List.all_eq_true.mpr fun c hc => hplain c (mem_of_mem_trim hc)
    · cases h
  · cases h

/-- The key that is selected behind a row by the name that it has as a column of the table. -/
def selectedKey (d : Dialect) (op : Operation) (r : Request) (inputs : List Column) : List Column :=
  match keyRetrieval d, r.key with
  | .select _, some key =>
    if op.returnsKey && !key.identity && Request.contains inputs key then [key] else []
  | _, _ => []

/-- The columns that a row names, where `inputs` are bound for it and `selected` is the key that is
selected behind it. -/
structure RowColumns (inputs selected cols : List Column) : Prop where
  some : cols ≠ []
  known : ∀ c ∈ cols, c ∈ inputs ∨ c ∈ selected
  written : ∀ c ∈ inputs, c.readOnly = false → c ∈ cols
  asked : ∀ c ∈ selected, c ∈ cols

theorem RowColumns.append {selected : List Column} (h : inputs ≠ []) :
    RowColumns inputs selected (inputs ++ selected) :=
  ⟨by simp [h], fun c hc => List.mem_append.mp hc, fun c hc _ => List.mem_append_left _ hc,
    fun c hc => List.mem_append_right _ hc⟩

/-- Where every column that is counted is written, a row names these columns and the selected key. -/
theorem RowColumns.names_eq {selected : List Column} (h : RowColumns inputs selected cols)
    (hwritten : ∀ c ∈ inputs, c.readOnly = false) :
    (cols.map Column.parameterName).toFinset =
      ((inputs ++ selected).map Column.parameterName).toFinset := by
  have hmem (c : Column) : c ∈ cols ↔ c ∈ inputs ++ selected := by
    rw [List.mem_append]
    exact ⟨h.known c, fun hc => hc.elim (fun hc => h.written c hc (hwritten c hc)) (h.asked c)⟩
  ext name
  simp only [List.mem_toFinset, List.mem_map, hmem]

theorem spells_trailingKey {call : String} (hcall : keyRetrieval d = .select call)
    (hop : op.returnsKey = true) (r : Request) (inputs : List Column) (row : Option Nat) :
    Spells (trailingKey r inputs call row)
      ((selectedKey d op r inputs).map fun c => c.parameterAt row) := by
  refine ⟨fun s hs => Statement.spaced_body (clean_trailingKey hcall r inputs row s hs), ?_⟩
  unfold trailingKey selectedKey
  rw [hcall]
  cases r.key with
  | none => rfl
  | some key =>
    cases hidentity : key.identity <;> cases hcontains : Request.contains inputs key <;>
      simp [hop, hidentity, hcontains, statementParameters, Statement.parameters,
        Operand.parameters]

/-- A row that is inserted, and its key. -/
theorem spells_insertRow (hh : r.PlainHints) (hop : op.returnsKey = true) (inputs : List Column)
    (row : Option Nat) :
    Spells (insertRow d r inputs row)
      ((inputs ++ selectedKey d op r inputs).map fun c => c.parameterAt row) := by
  have hspaced (output : Option String) (returning : Option ReturnedKey) :
      Spaced .loose (Statement.insert ⟨tableRef d r, columnNames inputs, [placeholders inputs row],
        .fail, output, returning⟩).body .tight :=
    Insert.spaced (plainHints_tableRef hh d) (by simpa using clean_placeholders inputs row) trivial
  have hparameters : rowParameters [placeholders inputs row] ++ Conflict.fail.parameters =
      inputs.map fun c => c.parameterAt row := by
    simp [rowParameters, parameters_placeholders, Conflict.parameters]
  unfold insertRow
  cases hkey : keyRetrieval d with
  | output | returning =>
    refine .one (hspaced _ _) ?_
    simpa [selectedKey, hkey, Statement.parameters] using hparameters
  | select call =>
    have h := (spells_trailingKey hkey hop r inputs row).cons (hspaced none none)
    rw [List.map_append, ← hparameters]
    exact h

/-! ### Batches -/

theorem exists_spells_insertAll (hh : r.PlainHints) (h : insertAll d r n = .ok ss) :
    ∃ cols, RowColumns r.insertable (selectedKey d (.insertAll n) r r.insertable) cols ∧
      Spells ss (boundNames cols (rowsOf (some n.toInt.toNat))) := by
  obtain ⟨-, hne, -, -, -, h⟩ := of_insertAll h
  have htable := plainHints_tableRef hh d
  refine ⟨_, .append hne, ?_⟩
  obtain ⟨hkey, rfl⟩ | ⟨key, hkey, hretrieval, rfl⟩ | rfl := h
  · have hselected : selectedKey d (.insertAll n) r r.insertable = [] := by
      rw [selectedKey, hkey]
      cases keyRetrieval d <;> rfl
    rw [hselected, List.append_nil]
    refine .one (Insert.spaced htable (fun row hrow => ?_) trivial) ?_
    · obtain ⟨i, -, rfl⟩ := List.mem_map.mp hrow
      exact clean_placeholders _ _
    · simp [Statement.parameters, Conflict.parameters, rowParameters, boundNames, rowsOf,
        List.flatMap_map, parameters_placeholders]
  · have hselected : selectedKey d (.insertAll n) r r.insertable = [] := by
      rw [selectedKey, hkey, hretrieval]
    rw [hselected, List.append_nil]
    exact .one (Merge.spaced htable (clean_numberedRows _ _)) (parameters_numberedRows _ _)
  · exact .eachRow (spells_insertRow hh rfl r.insertable) _

theorem exists_spells_updateAll (hh : r.PlainHints) {u : Request.UpdateColumns}
    (hu : r.updateColumns = .ok u) (h : updateAll d r n = .ok ss) :
    ∃ cols, RowColumns (u.set ++ u.keys) (selectedKey d (.updateAll n) r (u.set ++ u.keys)) cols ∧
      Spells ss (boundNames cols (rowsOf (some n.toInt.toNat))) := by
  obtain ⟨v, -, -, hv, -, -, rfl⟩ := of_updateAll h
  obtain rfl := Except.ok.inj (hv.symm.trans hu)
  have hselected : selectedKey d (.updateAll n) r (v.set ++ v.keys) = [] := by
    unfold selectedKey
    cases keyRetrieval d <;> cases r.key <;> rfl
  have hne : v.set ++ v.keys ≠ [] := by simp [(Request.updateColumns_settable hu).1]
  refine ⟨_, .append hne, .eachRow (fun row => ?_) _⟩
  rw [hselected, List.append_nil]
  have htable := plainHints_tableRef hh d
  refine .one ?_ ?_
  · exact (Spaced.append (.lead (by decide) (spaced_table htable))
      (.lead (by decide) (spaced_assignmentList (clean_assignments _ _)))).append
        (spaced_whereClause _)
  · simp [Statement.parameters, parameters_assignments, parameters_keyCondition]

/-- A row that updates on conflict. Where a key cannot be inserted, the row names the columns that are
set, the keys and the columns that are inserted. -/
theorem exists_spells_conflictRow (hh : r.PlainHints) {m : Request.MergeColumns}
    (hm : r.mergeColumns = .ok m) (d : Dialect) :
    ∃ cols, RowColumns m.inputs [] cols ∧
      ∀ row, Spells (conflictRow d r m row) (cols.map fun c => c.parameterAt row) := by
  obtain ⟨hkeys, -, -, hwritable, hset⟩ := Request.mergeColumns_spec hm
  obtain ⟨hkeysNe, hne⟩ := ne_nil_of_mergeColumns hm
  have htable := plainHints_tableRef hh d
  unfold conflictRow
  split
  · have hcols : RowColumns m.inputs [] (m.set ++ m.keys ++ m.writable) := by
      constructor
      · simp [hkeysNe]
      · intro c hc
        rcases List.mem_append.mp hc with hc | hc
        · exact .inl ((List.mem_append.mp hc).elim (hset c) (hkeys c))
        · exact .inl (hwritable c hc)
      · intro c hc hreadOnly
        obtain ⟨keys, -, hm⟩ := bind_eq_ok_iff.mp hm
        cases hm
        exact List.mem_append_right _ (List.mem_filter.mpr ⟨hc, by simp [hreadOnly]⟩)
      · exact fun c hc => absurd hc List.not_mem_nil
    refine ⟨_, hcols, fun row => .one ?_ ?_⟩
    · exact UpdateOrInsert.spaced htable (clean_assignments _ _) (clean_placeholders _ _)
    · simp only [Statement.parameters, parameters_assignments, parameters_keyCondition,
        parameters_placeholders, List.map_append, columnNames, List.isEmpty_map]
      split
      · next hempty => rw [List.isEmpty_iff.mp hempty, List.map_nil]
      · rfl
  · have hrow : RowColumns m.inputs [] (m.inputs ++ []) := .append hne
    rw [List.append_nil] at hrow
    refine ⟨m.inputs, hrow, fun row => .one (Insert.spaced htable ?_ ?_) ?_⟩
    · simpa using clean_placeholders m.inputs row
    · intro x hx
      obtain ⟨c, -, rfl⟩ := List.mem_map.mp hx
      trivial
    · simp [Statement.parameters, Conflict.parameters, rowParameters, assignedParameters,
        List.flatMap_map, Operand.parameters, parameters_placeholders]

/-- A row that is inserted or meets one that is there, and its key. -/
theorem spells_upsertRow {call : String} (hcall : keyRetrieval d = .select call)
    (hop : op.returnsKey = true) (hh : r.PlainHints) (m : Request.MergeColumns)
    {conflict : Conflict} (hclean : conflict.Clean) (hnone : conflict.parameters = [])
    (row : Option Nat) :
    Spells (upsertRow d r m conflict row)
      ((m.inputs ++ selectedKey d op r m.inputs).map fun c => c.parameterAt row) := by
  have hspaced := Insert.spaced (i := ⟨tableRef d r, columnNames m.inputs,
    [insertValues m.inputs row], conflict, none, none⟩) (plainHints_tableRef hh d)
      (by simpa using clean_insertValues m.inputs row) hclean
  have hparameters : rowParameters [insertValues m.inputs row] ++ conflict.parameters =
      m.inputs.map fun c => c.parameterAt row := by
    simp [rowParameters, parameters_insertValues, hnone]
  have h := (spells_trailingKey hcall hop r m.inputs row).cons (s := .insert _) hspaced
  unfold upsertRow
  rw [hcall, List.map_append, ← hparameters]
  exact h

theorem exists_spells_mergeRows (hop : op.returnsKey = true) (hh : r.PlainHints)
    {m : Request.MergeColumns} (hm : r.mergeColumns = .ok m) {rows : Nat}
    (h : mergeRows d r m (some rows) = .ok ss) :
    ∃ cols, RowColumns m.inputs (selectedKey d op r m.inputs) cols ∧
      Spells ss (boundNames cols (rowsOf (some rows))) := by
  obtain ⟨-, hne⟩ := ne_nil_of_mergeColumns hm
  cases d with
  | sqlServer =>
    cases h
    refine ⟨_, .append hne, ?_⟩
    rw [show selectedKey .sqlServer op r m.inputs = [] from rfl, List.append_nil]
    exact .one (Merge.spaced (plainHints_tableRef hh _) (clean_numberedRows _ _))
      (parameters_numberedRows _ _)
  | postgres =>
    cases h
    obtain ⟨cols, hcols, hrow⟩ := exists_spells_conflictRow hh hm .postgres
    exact ⟨cols, hcols, .eachRow hrow rows⟩
  | mySql =>
    cases h
    obtain ⟨hclean, hnone⟩ := clean_onDuplicate r m
    exact ⟨_, .append hne, .eachRow (spells_upsertRow rfl hop hh m hclean hnone) rows⟩
  | sqlite =>
    obtain ⟨_, -, h⟩ := bind_eq_ok_iff.mp h
    cases h
    have hclean : Conflict.replace.Clean := trivial
    exact ⟨_, .append hne, .eachRow (spells_upsertRow rfl hop hh m hclean rfl) rows⟩

/-- The statements of a batch name the same columns for each row. -/
theorem exists_spells (hop : op.batchSize? = some n) (hh : r.PlainHints)
    (h : statements d op r = .ok ss) :
    ∃ inputs cols, r.boundColumns op = .ok inputs ∧
      RowColumns inputs (selectedKey d op r inputs) cols ∧
        Spells ss (boundNames cols (rowsOf (some n.toInt.toNat))) := by
  cases op with
  | insertAll n =>
    cases hop
    obtain ⟨cols, hcols, hspells⟩ := exists_spells_insertAll hh h
    exact ⟨_, cols, rfl, hcols, hspells⟩
  | updateAll n =>
    cases hop
    obtain ⟨inputs, hi⟩ := boundColumns_of_statements h
    obtain ⟨u, hu, rfl⟩ := map_eq_ok_iff.mp hi
    obtain ⟨cols, hcols, hspells⟩ := exists_spells_updateAll hh hu h
    exact ⟨_, cols, hi, hcols, hspells⟩
  | mergeAll n =>
    cases hop
    obtain ⟨m, hm, -, -, -, h⟩ := of_mergeAll h
    have hm := mergeColumns_of_guards hm
    have hreturns : (Operation.mergeAll n).returnsKey = true := rfl
    obtain ⟨cols, hcols, hspells⟩ := exists_spells_mergeRows hreturns hh hm h
    exact ⟨_, cols, map_eq_ok_iff.mpr ⟨m, hm, rfl⟩, hcols, hspells⟩
  | _ => cases hop

/-! ### The limit -/

/-- The columns that are counted for a row are those that are bound for it, and there are some. -/
theorem guardedColumns_spec (hop : op.batchSize? = some n)
    (h : guardedColumns d op r = .ok inputs) : r.boundColumns op = .ok inputs ∧ inputs ≠ [] := by
  cases op with
  | insertAll n =>
    obtain ⟨columns, hcolumns, h⟩ := bind_eq_ok_iff.mp h
    obtain ⟨_, -, h⟩ := bind_eq_ok_iff.mp h
    cases h
    obtain ⟨rfl, hne⟩ := of_insertColumns hcolumns
    exact ⟨rfl, hne⟩
  | updateAll n =>
    obtain ⟨_, -, h⟩ := bind_eq_ok_iff.mp h
    obtain ⟨_, -, h⟩ := bind_eq_ok_iff.mp h
    obtain ⟨u, hu, h⟩ := bind_eq_ok_iff.mp h
    cases h
    exact ⟨map_eq_ok_iff.mpr ⟨u, hu, rfl⟩, by simp [(Request.updateColumns_settable hu).1]⟩
  | mergeAll n =>
    obtain ⟨m, hm, h⟩ := bind_eq_ok_iff.mp h
    obtain ⟨_, -, h⟩ := bind_eq_ok_iff.mp h
    cases h
    have hm := mergeColumns_of_guards hm
    exact ⟨map_eq_ok_iff.mpr ⟨m, hm, rfl⟩, (ne_nil_of_mergeColumns hm).2⟩
  | _ => cases hop

/-- A batch that is accepted passes the guards, and its rows fit. -/
theorem exists_guardedColumns (hop : op.batchSize? = some n) (h : statements d op r = .ok ss) :
    ∃ inputs, guardedColumns d op r = .ok inputs ∧ RowsFit d n inputs.length := by
  cases op with
  | insertAll n =>
    cases hop
    obtain ⟨hinputs, -, hactive, hpositive, hle, -⟩ := of_insertAll h
    have hreject := rejectPredicate_ok hactive (.insertAll n)
    exact ⟨_, bind_eq_ok_iff.mpr ⟨_, hinputs, bind_eq_ok_iff.mpr ⟨_, hreject, rfl⟩⟩, hpositive, hle⟩
  | updateAll n =>
    cases hop
    obtain ⟨u, hguards, hactive, hu, hpositive, hle, -⟩ := of_updateAll h
    have hreject := rejectPredicate_ok hactive (.updateAll n)
    refine ⟨u.set ++ u.keys, bind_eq_ok_iff.mpr ⟨_, hguards, bind_eq_ok_iff.mpr ⟨_, hreject,
      bind_eq_ok_iff.mpr ⟨u, hu, rfl⟩⟩⟩, hpositive, ?_⟩
    rwa [List.length_append]
  | mergeAll n =>
    cases hop
    obtain ⟨m, hm, hactive, hpositive, hle, -⟩ := of_mergeAll h
    have hreject := rejectPredicate_ok hactive (.mergeAll n)
    exact ⟨m.inputs, bind_eq_ok_iff.mpr ⟨m, hm, bind_eq_ok_iff.mpr ⟨_, hreject, rfl⟩⟩, hpositive, hle⟩
  | _ => cases hop

/-- The names of a batch fit if those of a row are among the names that were counted. -/
theorem card_boundNames_le {rows : Nat} (h : rows * inputs.length ≤ d.maxParameters)
    (hcols : cols.map Column.parameterName ⊆ inputs.map Column.parameterName) :
    (boundNames cols (rowsOf (some rows))).toFinset.card ≤ d.maxParameters := by
  have hrow : (cols.map Column.parameterName).toFinset.card ≤ inputs.length := by
    calc (cols.map Column.parameterName).toFinset.card
        ≤ (inputs.map Column.parameterName).toFinset.card :=
          Finset.card_le_card fun p hp => List.mem_toFinset.mpr (hcols (List.mem_toFinset.mp hp))
      _ ≤ (inputs.map Column.parameterName).length := List.toFinset_card_le _
      _ = inputs.length := List.length_map _
  rw [card_boundNames]
  exact (Nat.mul_le_mul_left rows hrow).trans h

/-- The placeholders of a batch are the names of its rows. -/
theorem exists_placeholders (hop : op.batchSize? = some n) (hh : r.PlainHints) (hplain : r.Plain)
    (h : statements d op r = .ok ss) (hi : r.boundColumns op = .ok inputs) :
    ∃ cols, RowColumns inputs (selectedKey d op r inputs) cols ∧
      placeholdersIn d (String.ofList (tidyChars (rawText d ss))) =
        boundNames cols (rowsOf (some n.toInt.toNat)) := by
  obtain ⟨_, cols, hi', hcols, hspells⟩ := exists_spells hop hh h
  obtain rfl := Except.ok.inj (hi'.symm.trans hi)
  have hlegible : Fragments.Legible (statementList ss) := by
    intro name hname
    rw [placeholders_statementList, hspells.parameters] at hname
    obtain ⟨row, -, c, hc, rfl⟩ := mem_boundNames.mp hname
    refine Column.isNameChar_of_mem_parameterAt (hplain c ?_) row
    rcases hcols.known c hc with hc | hc
    · exact List.mem_append_left _ (Request.mem_fields_of_boundColumns hi c hc)
    · unfold selectedKey at hc
      split at hc
      · next key _ hkey =>
        split at hc
        · rw [List.mem_singleton.mp hc]
          exact Request.mem_columns_of_mem_schema (Request.mem_schema_of_key hkey)
        · cases hc
      · cases hc
  refine ⟨cols, hcols, ?_⟩
  rw [rawText, placeholders_tidyChars (spaced_separatedStatements hspells.spaced) hlegible,
    placeholders_statementList, hspells.parameters]

/-- **A batch stays within the parameters of the dialect**, unless it selects a key by a name that it does
not write. A batch that passes the guards in front of the count is refused if and only if there is no row
or the rows need more parameters than the dialect allows. The text of a batch that is accepted names the
same columns for each row from the first to the last, at least one, and no two rows share a name. So there
are as many names as rows times names of a row, and if the selected key has the name of a column that was
counted, they are within the limit. -/
theorem batch_limit (hop : op.batchSize? = some n) :
    (∀ inputs, guardedColumns d op r = .ok inputs →
      (statementText d op r = .error (.range "batch_size" n.toInt) ↔
        n.toInt < 1 ∨ (d.maxParameters : Int) < n.toInt * inputs.length)) ∧
    ∀ text, statementText d op r = .ok text →
      1 ≤ n.toInt ∧ n.toInt ≤ d.maxParameters ∧
        ∃ inputs, guardedColumns d op r = .ok inputs ∧ r.boundColumns op = .ok inputs ∧
          (r.PlainHints → r.Plain →
            ∃ cols, RowColumns inputs (selectedKey d op r inputs) cols ∧
              placeholdersIn d text = boundNames cols (rowsOf (some n.toInt.toNat)) ∧
              (placeholdersIn d text).toFinset.card =
                n.toInt.toNat * (cols.map Column.parameterName).toFinset.card ∧
              ((∀ key ∈ selectedKey d op r inputs,
                  key.parameterName ∈ inputs.map Column.parameterName) →
                (placeholdersIn d text).toFinset.card ≤ d.maxParameters)) := by
  constructor
  · intro inputs hguarded
    rw [← not_rowsFit_iff, ← statements_refused_iff hop hguarded]
    exact map_eq_error_iff
  · intro text htext
    obtain ⟨ss, hss, rfl⟩ := map_eq_ok_iff.mp htext
    obtain ⟨inputs, hguarded, hpositive, hle⟩ := exists_guardedColumns hop hss
    obtain ⟨hbound, hne⟩ := guardedColumns_spec hop hguarded
    have hlength : 1 ≤ inputs.length := List.length_pos_iff.mpr hne
    have hrows : n.toInt.toNat ≤ n.toInt.toNat * inputs.length := Nat.le_mul_of_pos_right _ hlength
    refine ⟨hpositive, by omega, inputs, hguarded, hbound, fun hh hplain => ?_⟩
    obtain ⟨cols, hcols, hnames⟩ := exists_placeholders hop hh hplain hss hbound
    refine ⟨cols, hcols, hnames, ?_, fun hkey => ?_⟩
    · rw [hnames, card_boundNames]
    · rw [hnames]
      refine card_boundNames_le hle fun name hname => ?_
      obtain ⟨c, hc, rfl⟩ := List.mem_map.mp hname
      exact (hcols.known c hc).elim (List.mem_map_of_mem ·) (hkey c)

namespace Sample

/-- Labels in a table with two columns whose names differ in case only. -/
def labels : Request :=
  let name : Column :=
    ⟨"Name", false, false, false, .text, none, none, none, none, false, false, none, none⟩
  let key : Column :=
    ⟨"NAME", true, false, false, .text, none, none, none, none, false, false, none, none⟩
  (Request.make "Label" [key]).withSchema [name, key]

end Sample

/-- In SQLite 999 labels are accepted, and one more is refused. Every row writes its key by one name and
selects it by another, so the text has twice as many names as SQLite allows. -/
theorem batch_limit_labels :
    (∃ text, statementText .sqlite (.insertAll 999) Sample.labels = .ok text ∧
      (placeholdersIn .sqlite text).toFinset.card = 1998) ∧
    statementText .sqlite (.insertAll 1000) Sample.labels = .error (.range "batch_size" 1000) := by
  have hbatch (n : Int64) : (Operation.insertAll n).batchSize? = some n := rfl
  have hguarded (n : Int64) : guardedColumns .sqlite (.insertAll n) Sample.labels =
      .ok Sample.labels.insertable := rfl
  have hplain : Sample.labels.Plain := Request.plain_withSchema (Request.plain_make _ _) _
  constructor
  · obtain ⟨-, haccepted⟩ := batch_limit (d := .sqlite) (r := Sample.labels) (hbatch 999)
    obtain ⟨text, htext⟩ : ∃ text,
      statementText .sqlite (.insertAll 999) Sample.labels = .ok text := ⟨_, rfl⟩
    obtain ⟨-, -, inputs, hinputs, -, hnames⟩ := haccepted text htext
    obtain rfl := Except.ok.inj (hinputs.symm.trans (hguarded 999))
    obtain ⟨cols, hcols, -, hcard, -⟩ := hnames nofun hplain
    have hwritten : ∀ c ∈ Sample.labels.insertable, c.readOnly = false := by decide +kernel
    have hrow : ((Sample.labels.insertable ++ selectedKey .sqlite (.insertAll 999) Sample.labels
        Sample.labels.insertable).map Column.parameterName).toFinset.card = 2 := by decide +kernel
    refine ⟨text, htext, ?_⟩
    rw [hcard, hcols.names_eq hwritten, hrow]
    rfl
  · obtain ⟨hrefused, -⟩ := batch_limit (d := .sqlite) (r := Sample.labels) (hbatch 1000)
    exact (hrefused _ (hguarded 1000)).mpr (.inr (by decide +kernel))

end Sql

end EntitySql
