import EntitySql.Proofs.Sql.Rendering

/-!
# Inserting and merging

An insertion and a merge write what they bind, in every dialect: as one statement, as one statement for
each row, or as one statement over all rows (`renders_insertRow`, `renders_insertAll`,
`renders_mergeRows`). Those of a single row do not write a filter, and those of a batch refuse it.
-/

namespace EntitySql.Sql

/-! ### Inserting -/

/-- A trailing selection asks for the key. -/
theorem parameters_trailingKey (r : Request) (inputs : List Column) (call : String)
    (row : Option Nat) :
    ∀ name ∈ statementParameters (trailingKey r inputs call row),
      name ∈ keyNames r inputs [row] := by
  intro name hname
  obtain ⟨s, hs, hname⟩ := List.mem_flatMap.mp hname
  refine forall_mem_trailingKey (p := fun s => ∀ name ∈ s.parameters, name ∈ keyNames r inputs [row])
    nofun (fun key hkey hcontains => ?_) s hs name hname
  simp [keyNames, hkey, hcontains, Statement.parameters, Operand.parameters]

theorem clean_trailingKey {d : Dialect} {call : String} (hcall : keyRetrieval d = .select call)
    (r : Request) (inputs : List Column) (row : Option Nat) :
    ∀ s ∈ trailingKey r inputs call row, s.Clean := by
  have hfits : textFits .loose call .tight = true := by
    cases d <;> cases hcall <;> decide
  exact forall_mem_trailingKey hfits fun _ _ _ => trivial

/-- A statement that writes the columns of a row, and the selection of its key. -/
theorem renders_withTrailingKey {r : Request} {inputs : List Column} {d : Dialect} {call : String}
    (hcall : keyRetrieval d = .select call) {row : Option Nat} {s : Statement} (hclean : s.Clean)
    (h : s.parameters = inputs.map fun c => c.parameterAt row) :
    Renders r inputs [row] none (s :: trailingKey r inputs call row) := by
  have hfirst : s.parameters = boundNames inputs [row] := by simpa [boundNames] using h
  refine ⟨?_, fun name hname => ?_, fun name hname => ?_, fun c hc => by cases hc⟩
  · exact List.forall_mem_cons.mpr ⟨hclean, clean_trailingKey hcall r inputs row⟩
  · rcases List.mem_append.mp hname with hname | hname
    · rw [append_filterParameters_none, ← hfirst]
      exact .inl hname
    · exact .inr (parameters_trailingKey r inputs call row name hname)
  · rw [append_filterParameters_none, ← hfirst] at hname
    exact List.mem_append_left _ hname

/-- The insertion of a row writes the columns of the row. -/
theorem renders_insertRow {r : Request} (hh : r.hints = none) (inputs : List Column) (d : Dialect)
    (row : Option Nat) :
    Renders r inputs [row] none (insertRow d r inputs row) := by
  have htable := hints_tableRef hh d
  have hrows : ∀ vs ∈ [placeholders inputs row], ∀ v ∈ vs, v.Clean := by
    intro vs hvs
    rw [List.mem_singleton.mp hvs]
    exact clean_placeholders inputs row
  have hparameters : rowParameters [placeholders inputs row] =
      inputs.map fun c => c.parameterAt row := by
    simp [rowParameters, parameters_placeholders]
  unfold insertRow
  cases hkey : keyRetrieval d with
  | output | returning =>
    refine .one ⟨htable, hrows, trivial⟩ ?_
    simp [Statement.parameters, Conflict.parameters, boundNames, hparameters]
  | select call =>
    refine renders_withTrailingKey hkey ⟨htable, hrows, trivial⟩ ?_
    simp [Statement.parameters, Conflict.parameters, hparameters]

/-- A numbered row binds its columns. -/
theorem parameters_numberedRows (inputs : List Column) (n : Nat) :
    rowParameters (numberedRows inputs n) = boundNames inputs (rowsOf (some n)) := by
  simp only [rowParameters, numberedRows, boundNames, rowsOf, List.flatMap_map,
    List.flatMap_append, parameters_placeholders]
  simp [Operand.parameters]

theorem clean_numberedRows (inputs : List Column) (n : Nat) :
    ∀ row ∈ numberedRows inputs n, ∀ v ∈ row, v.Clean := by
  intro row hrow v hv
  obtain ⟨i, -, rfl⟩ := List.mem_map.mp hrow
  rcases List.mem_append.mp hv with hv | hv
  · exact clean_placeholders inputs (some i) v hv
  · rw [List.mem_singleton.mp hv]
    trivial

theorem renders_insertAll {d : Dialect} {r : Request} (hh : r.hints = none) {n : Int64}
    {ss : List Statement} (h : insertAll d r n = .ok ss) :
    Renders r r.insertable (rowsOf (some n.toInt.toNat)) none ss ∧ r.activePredicate = none := by
  obtain ⟨-, -, hnone, -, -, hstatements⟩ := of_insertAll h
  refine ⟨?_, hnone⟩
  have htable := hints_tableRef hh d
  rcases hstatements with ⟨-, rfl⟩ | ⟨key, -, -, rfl⟩ | rfl
  · -- without a key, one insertion of all rows
    refine .one ⟨htable, fun row hrow => ?_, trivial⟩ ?_
    · obtain ⟨i, -, rfl⟩ := List.mem_map.mp hrow
      exact clean_placeholders _ _
    · simp [Statement.parameters, Conflict.parameters, rowParameters, boundNames, rowsOf,
        List.flatMap_map, parameters_placeholders]
  · -- a merge that matches nothing tells the row of each key
    refine .one ⟨htable, clean_numberedRows _ _⟩ ?_
    simp [Statement.parameters, MergeSource.parameters, parameters_numberedRows]
  · exact Renders.eachRow (renders_insertRow hh r.insertable d) (some _)

/-! ### Merging -/

/-- An update that inserts what it did not find writes every column: one that is not inserted is a
key, and the condition names all keys. -/
theorem renders_updateOrInsert {r : Request} (hf : r.FieldsApart) {m : Request.MergeColumns}
    (hm : r.mergeColumns = .ok m) {table : TableRef} (ht : table.hints = none) (row : Option Nat)
    (returned : String) (key : Bool) :
    Renders r m.inputs [row] none
      [.updateOrInsert ⟨table, keyCondition m.keys row, assignments m.set row,
        columnNames m.writable, placeholders m.writable row, returned, key, row⟩] := by
  obtain ⟨hkeys, hinputs, hbound, hwritable, hset⟩ := Request.mergeColumns_spec hm
  refine ⟨?_, fun name hname => .inl ?_, fun name hname => ?_, fun c hc => by cases hc⟩
  · intro s hs
    rw [List.mem_singleton.mp hs]
    exact ⟨ht, clean_assignments _ _, clean_placeholders _ _⟩
  · rw [append_filterParameters_none, mem_boundNames_one]
    simp only [statementParameters, Statement.parameters, List.flatMap_singleton,
      parameters_assignments, parameters_keyCondition, parameters_placeholders,
      List.mem_append] at hname
    rcases hname with (hname | hname) | hname
    · obtain ⟨c, hc, hname⟩ := List.mem_map.mp hname
      exact ⟨c, hset c hc, hname⟩
    · obtain ⟨c, hc, hname⟩ := List.mem_map.mp hname
      exact ⟨c, hkeys c hc, hname⟩
    · split at hname
      · cases hname
      · obtain ⟨c, hc, hname⟩ := List.mem_map.mp hname
        exact ⟨c, hwritable c hc, hname⟩
  · rw [append_filterParameters_none, mem_boundNames_one] at hname
    obtain ⟨c, hc, rfl⟩ := hname
    simp only [statementParameters, Statement.parameters, List.flatMap_singleton,
      parameters_assignments, parameters_keyCondition, parameters_placeholders, List.mem_append]
    rcases hbound c hc with hwrite | hkey
    · right
      rw [if_neg (by simpa [columnNames] using List.ne_nil_of_mem hwrite)]
      exact List.mem_map_of_mem hwrite
    · obtain ⟨k, hk, hnamed⟩ := List.any_eq_true.mp hkey
      obtain rfl := hf c (hinputs c hc) k (hinputs k (hkeys k hk)) hnamed
      exact .inl (.inr (List.mem_map_of_mem hk))

theorem renders_insertOnConflict {r : Request} {table : TableRef} (ht : table.hints = none)
    (inputs keys set : List Column) (returning : Option ReturnedKey) (row : Option Nat) :
    Renders r inputs [row] none
      [.insert ⟨table, columnNames inputs, [placeholders inputs row],
        .onKey (columnNames keys) (set.map fun c => ⟨c.name, .excluded c.name⟩), none,
        returning⟩] := by
  refine .one ⟨ht, fun vs hvs => ?_, fun x hx => ?_⟩ ?_
  · rw [List.mem_singleton.mp hvs]
    exact clean_placeholders _ _
  · obtain ⟨c, -, rfl⟩ := List.mem_map.mp hx
    trivial
  · simp [Statement.parameters, Conflict.parameters, rowParameters, assignedParameters,
      List.flatMap_map, Operand.parameters, parameters_placeholders, boundNames]

theorem renders_conflictRow {r : Request} (hh : r.hints = none) (hf : r.FieldsApart)
    {m : Request.MergeColumns} (hm : r.mergeColumns = .ok m) (d : Dialect) (row : Option Nat) :
    Renders r m.inputs [row] none (conflictRow d r m row) := by
  have htable := hints_tableRef hh d
  unfold conflictRow
  split
  · exact renders_updateOrInsert hf hm htable row _ _
  · exact renders_insertOnConflict htable _ _ _ _ _

/-- Whatever the columns are called, what such a merge names is bound for some columns. -/
theorem exists_renders_conflictRow {r : Request} (hh : r.hints = none) {m : Request.MergeColumns}
    (hm : r.mergeColumns = .ok m) (d : Dialect) :
    ∃ inputs, (∀ c ∈ inputs, c ∈ r.fields) ∧
      ∀ row, Renders r inputs [row] none (conflictRow d r m row) := by
  obtain ⟨hkeys, hinputs, -, hwritable, hset⟩ := Request.mergeColumns_spec hm
  have htable := hints_tableRef hh d
  unfold conflictRow
  split
  · refine ⟨m.set ++ m.keys ++ m.writable, fun c hc => ?_, fun row => ?_⟩
    · rcases List.mem_append.mp hc with hc | hc
      · exact hinputs c ((List.mem_append.mp hc).elim (hset c) (hkeys c))
      · exact hinputs c (hwritable c hc)
    · refine .one ⟨htable, clean_assignments _ _, clean_placeholders _ _⟩ ?_
      have hnone : m.writable.isEmpty = true → m.writable = [] := List.isEmpty_iff.mp
      simp only [Statement.parameters, parameters_assignments, parameters_keyCondition,
        parameters_placeholders, boundNames, List.flatMap_singleton, List.map_append, columnNames,
        List.isEmpty_map]
      split
      · next hempty => rw [hnone hempty, List.map_nil]
      · rfl
  · exact ⟨m.inputs, hinputs, fun row => renders_insertOnConflict htable _ _ _ _ row⟩

theorem renders_mergeStatement {r : Request} (hh : r.hints = none) (d : Dialect)
    (m : Request.MergeColumns) (batch : Option Nat) :
    Renders r m.inputs (rowsOf batch) none (mergeStatement d r m batch) := by
  have htable := hints_tableRef hh d
  cases batch with
  | none =>
    refine .one ⟨htable, clean_assignments _ _⟩ ?_
    simp [Statement.parameters, MergeSource.parameters, parameters_assignments, boundNames, rowsOf]
  | some n =>
    refine .one ⟨htable, clean_numberedRows _ _⟩ ?_
    simp [Statement.parameters, MergeSource.parameters, parameters_numberedRows]

theorem renders_upsertRow {d : Dialect} {call : String} (hcall : keyRetrieval d = .select call)
    {r : Request} (hh : r.hints = none) (m : Request.MergeColumns) {conflict : Conflict}
    (hclean : conflict.Clean) (hnone : conflict.parameters = []) (row : Option Nat) :
    Renders r m.inputs [row] none (upsertRow d r m conflict row) := by
  unfold upsertRow
  rw [hcall]
  refine renders_withTrailingKey hcall ⟨hints_tableRef hh d, ?_, hclean⟩ ?_
  · intro vs hvs
    rw [List.mem_singleton.mp hvs]
    exact clean_insertValues _ _
  · simp [Statement.parameters, rowParameters, parameters_insertValues, hnone]

/-- What is assigned on a duplicate key names no parameter. -/
theorem clean_onDuplicate (r : Request) (m : Request.MergeColumns) :
    (Conflict.onDuplicate (duplicateAssignments r m)).Clean ∧
      (Conflict.onDuplicate (duplicateAssignments r m)).parameters = [] := by
  have hall : ∀ x ∈ duplicateAssignments r m, x.value.Clean ∧ x.value.parameters = [] := by
    intro x hx
    rcases mem_duplicateAssignments hx with ⟨key, -, -, rfl⟩ | ⟨c, -, rfl⟩ | ⟨k, -, rfl, -⟩ <;>
      exact ⟨trivial, rfl⟩
  exact ⟨fun x hx => (hall x hx).1, List.flatMap_eq_nil_iff.mpr fun x hx => (hall x hx).2⟩

theorem renders_mergeRows_of_ne {d : Dialect} (hd : d ≠ .postgres) {r : Request}
    (hh : r.hints = none) {m : Request.MergeColumns} {batch : Option Nat} {ss : List Statement}
    (h : mergeRows d r m batch = .ok ss) : Renders r m.inputs (rowsOf batch) none ss := by
  cases d with
  | sqlServer =>
    cases h
    exact renders_mergeStatement hh _ m batch
  | postgres => exact absurd rfl hd
  | mySql =>
    cases h
    obtain ⟨hclean, hnone⟩ := clean_onDuplicate r m
    exact .eachRow (renders_upsertRow rfl hh m hclean hnone) batch
  | sqlite =>
    obtain ⟨_, -, h⟩ := bind_eq_ok_iff.mp h
    cases h
    have hclean : Conflict.replace.Clean := trivial
    exact .eachRow (renders_upsertRow rfl hh m hclean rfl) batch

theorem renders_mergeRows {d : Dialect} {r : Request} (hh : r.hints = none) (hf : r.FieldsApart)
    {m : Request.MergeColumns} (hm : r.mergeColumns = .ok m) {batch : Option Nat}
    {ss : List Statement} (h : mergeRows d r m batch = .ok ss) :
    Renders r m.inputs (rowsOf batch) none ss := by
  by_cases hd : d = .postgres
  · subst hd
    cases h
    exact .eachRow (renders_conflictRow hh hf hm _) batch
  · exact renders_mergeRows_of_ne hd hh h

/-- Whatever the columns are called, what a merge names is bound for some columns. -/
theorem exists_renders_mergeRows {d : Dialect} {r : Request} (hh : r.hints = none)
    {m : Request.MergeColumns} (hm : r.mergeColumns = .ok m) {batch : Option Nat}
    {ss : List Statement} (h : mergeRows d r m batch = .ok ss) :
    ∃ inputs, (∀ c ∈ inputs, c ∈ r.fields) ∧ Renders r inputs (rowsOf batch) none ss := by
  by_cases hd : d = .postgres
  · subst hd
    cases h
    obtain ⟨inputs, hinputs, hrow⟩ := exists_renders_conflictRow hh hm .postgres
    exact ⟨inputs, hinputs, .eachRow hrow batch⟩
  · exact ⟨m.inputs, (Request.mergeColumns_spec hm).2.1, renders_mergeRows_of_ne hd hh h⟩

theorem renders_merge {d : Dialect} {r : Request} (hh : r.hints = none) (hf : r.FieldsApart)
    {m : Request.MergeColumns} (hm : r.mergeColumns = .ok m) {ss : List Statement}
    (h : merge d r = .ok ss) : Renders r m.inputs (rowsOf none) none ss := by
  obtain ⟨m', hm', h⟩ := of_merge h
  obtain rfl := Except.ok.inj ((mergeColumns_of_guards hm').symm.trans hm)
  exact renders_mergeRows hh hf hm h

theorem renders_mergeAll {d : Dialect} {r : Request} (hh : r.hints = none) (hf : r.FieldsApart)
    {m : Request.MergeColumns} (hm : r.mergeColumns = .ok m) {n : Int64} {ss : List Statement}
    (h : mergeAll d r n = .ok ss) :
    Renders r m.inputs (rowsOf (some n.toInt.toNat)) none ss ∧ r.activePredicate = none := by
  obtain ⟨m', hm', hnone, -, -, h⟩ := of_mergeAll h
  obtain rfl := Except.ok.inj ((mergeColumns_of_guards hm').symm.trans hm)
  exact ⟨renders_mergeRows hh hf hm h, hnone⟩

end EntitySql.Sql
