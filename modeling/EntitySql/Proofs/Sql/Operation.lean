import EntitySql.Proofs.Sql.Writing

/-!
# What an operation writes and what it binds

**`statements_renders`** shows for every operation and dialect that the statements write what the columns
of `Request.boundColumns` bind in every row, and the filter, with one exception that the builder makes:
an insertion and a merge of one row and an emptying of a table do not write their filter
(`writesFilter`). A batch has no filter at all (`activePredicate_of_batch`).
-/

namespace EntitySql.Sql

/-! ### Reading -/

/-- A statement that binds no columns and writes the filter. -/
theorem renders_filtered {r : Request} {s : Statement} (hclean : s.Clean)
    (hfilter : s.filter? = filterCondition r)
    (h : s.parameters = filterParameters (filterCondition r)) :
    Renders r [] [none] (filterCondition r) [s] :=
  .of_filter hclean h fun _ hc => hfilter.trans hc

theorem renders_selectFields {r : Request} (hh : r.hints = none) (d : Dialect) (top : Option Nat)
    (limit : RowLimit) :
    Renders r [] [none] (filterCondition r) [selectFields d r top limit] := by
  refine renders_filtered ⟨hints_tableRef hh d, fun i hi => ?_⟩ rfl rfl
  obtain ⟨c, -, rfl⟩ := List.mem_map.mp hi
  trivial

theorem renders_selectValue {r : Request} (hh : r.hints = none) (d : Dialect) (top : Option Nat)
    {item : SelectItem} (hitem : item.Clean) (limit : RowLimit) :
    Renders r [] [none] (filterCondition r) [selectValue d r top item limit] := by
  refine renders_filtered ⟨hints_tableRef hh d, fun i hi => ?_⟩ rfl rfl
  rwa [List.mem_singleton.mp hi]

theorem renders_query {d : Dialect} {r : Request} (hh : r.hints = none) {top : Option Int64}
    {s : Statement} (h : query d r top = .ok s) :
    Renders r [] [none] (filterCondition r) [s] := by
  obtain ⟨_, _, rfl⟩ := of_query h
  exact renders_selectFields hh d _ _

theorem renders_pagedQuery {d : Dialect} {r : Request} (hh : r.hints = none) {page rows : Int64}
    {s : Statement} (h : pagedQuery d r page rows = .ok s) :
    Renders r [] [none] (filterCondition r) [s] := by
  obtain ⟨-, _, _, rfl⟩ | ⟨-, _, rfl⟩ := of_pagedQuery h
  · exact renders_filtered (hints_tableRef hh _) rfl rfl
  · exact renders_selectFields hh d _ _

theorem renders_skipQuery {d : Dialect} {r : Request} (hh : r.hints = none) {skip take : Int64}
    {s : Statement} (h : skipQuery d r skip take = .ok s) :
    Renders r [] [none] (filterCondition r) [s] := by
  obtain ⟨_, rfl⟩ := of_skipQuery h
  exact renders_selectFields hh d _ _

theorem renders_existsQuery {d : Dialect} {r : Request} (hh : r.hints = none) {s : Statement}
    (h : existsQuery d r = .ok s) : Renders r [] [none] (filterCondition r) [s] := by
  obtain ⟨_, _, rfl⟩ := of_existsQuery h
  have hitem : (SelectItem.one "ExistsValue").Clean := trivial
  exact renders_selectValue hh d _ hitem _

theorem renders_countQuery {d : Dialect} {r : Request} (hh : r.hints = none) {s : Statement}
    (h : countQuery d r = .ok s) : Renders r [] [none] (filterCondition r) [s] := by
  obtain rfl := of_countQuery h
  refine renders_selectValue hh d none ?_ _
  show textFits _ _ _ = true
  cases d <;> decide

theorem renders_aggregateQuery {d : Dialect} {r : Request} (hh : r.hints = none)
    {function : Aggregate} {field : String} {s : Statement}
    (h : aggregateQuery d r function field = .ok s) :
    Renders r [] [none] (filterCondition r) [s] := by
  obtain rfl := of_aggregateQuery h
  refine renders_selectValue hh d none ?_ _
  show textFits _ _ _ = true
  cases function <;> decide

/-! ### Updating and deleting -/

theorem renders_update {d : Dialect} {r : Request} (hh : r.hints = none)
    {u : Request.UpdateColumns} (hu : r.updateColumns = .ok u) {s : Statement}
    (h : update d r = .ok s) :
    Renders r (u.set ++ u.keys) [none]
      (activeCondition r.predicate ((u.set ++ u.keys).map Column.parameterName)) [s] := by
  obtain ⟨v, -, hv, h⟩ := of_update h
  obtain rfl := Except.ok.inj (hv.symm.trans hu)
  have htable := hints_tableRef hh d
  rw [activeCondition_eq]
  obtain ⟨hactive, -, rfl⟩ | ⟨g, hactive, hkeys, rfl⟩ := h
  · rw [hactive]
    refine .one ⟨htable, clean_assignments _ _⟩ ?_
    simp [Statement.parameters, parameters_assignments, parameters_keyCondition, boundNames]
  · -- under a filter the update binds no keys, so the filter keeps clear of what it sets
    rw [hactive, hkeys, List.append_nil]
    refine .of_filter ⟨htable, clean_assignments _ _⟩ ?_ fun _ hc => hc
    simp [Statement.parameters, parameters_assignments, boundNames]

theorem renders_updateAll {d : Dialect} {r : Request} (hh : r.hints = none)
    {u : Request.UpdateColumns} (hu : r.updateColumns = .ok u) {n : Int64} {ss : List Statement}
    (h : updateAll d r n = .ok ss) :
    Renders r (u.set ++ u.keys) (rowsOf (some n.toInt.toNat)) none ss ∧ r.activePredicate = none := by
  obtain ⟨v, -, hactive, hv, -, -, rfl⟩ := of_updateAll h
  obtain rfl := Except.ok.inj (hv.symm.trans hu)
  have htable := hints_tableRef hh d
  refine ⟨.eachRow (fun row => ?_) (some _), hactive⟩
  refine .one ⟨htable, clean_assignments _ _⟩ ?_
  simp [Statement.parameters, parameters_assignments, parameters_keyCondition, boundNames]

theorem renders_delete {d : Dialect} {r : Request} (hh : r.hints = none) {keys : List Column}
    (hkeys : r.deleteKeys = .ok keys) {s : Statement} (h : delete d r = .ok s) :
    Renders r keys [none] (activeCondition r.predicate (keys.map Column.parameterName)) [s] := by
  obtain ⟨ks, hks, h⟩ := of_delete h
  obtain rfl := Except.ok.inj (hks.symm.trans hkeys)
  obtain ⟨hactive, -, rfl⟩ | ⟨g, -, rfl, rfl⟩ := h
  · rw [activeCondition_none hactive]
    refine .one (hints_tableRef hh d) ?_
    simp [Statement.parameters, parameters_keyCondition, boundNames]
  · exact renders_filtered (hints_tableRef hh d) rfl rfl

theorem renders_deleteAll {d : Dialect} {r : Request} (hh : r.hints = none) {s : Statement}
    (h : deleteAll d r = .ok s) :
    Renders r [] [none] none [s] ∧ r.activePredicate = none := by
  obtain ⟨hactive, rfl⟩ := of_deleteAll h
  exact ⟨.one (hints_tableRef hh d) rfl, hactive⟩

theorem renders_truncate {d : Dialect} {r : Request} {s : Statement}
    (h : truncate d r = .ok s) : Renders r [] [none] none [s] := by
  obtain rfl | ⟨_, rfl⟩ := of_truncate h <;> exact .one rfl rfl

/-! ### All operations -/

/-- Whether the statements of the operation write the filter; the others leave it out. -/
def writesFilter : Operation → Bool
  | .insert => false
  | .merge => false
  | .truncate => false
  | _ => true

/-- A batch of rows refuses a filter. -/
theorem activePredicate_of_batch {d : Dialect} {op : Operation} {r : Request} {ss : List Statement}
    (h : statements d op r = .ok ss) (hbatch : op.isBatch = true) : r.activePredicate = none := by
  cases op with
  | insertAll n =>
    obtain ⟨-, -, hactive, -⟩ := of_insertAll h
    exact hactive
  | mergeAll n =>
    obtain ⟨-, -, hactive, -⟩ := of_mergeAll h
    exact hactive
  | updateAll n =>
    obtain ⟨-, -, hactive, -⟩ := of_updateAll h
    exact hactive
  | _ => cases hbatch

/-- The filter that the statements of the operation write. Its names keep clear of those of the
columns. -/
def writtenFilter (op : Operation) (r : Request) (inputs : List Column) : Option SearchCondition :=
  if writesFilter op then activeCondition r.predicate (inputs.map Column.parameterName) else none

/-- Without a filter none is written. -/
theorem writtenFilter_none {r : Request} (h : r.activePredicate = none) (op : Operation)
    (inputs : List Column) : writtenFilter op r inputs = none := by
  rw [writtenFilter, activeCondition_none h, ite_self]

/-- The rows that a command of the operation binds. -/
def operationRows (op : Operation) : List (Option Nat) :=
  rowsOf (op.batchSize?.map fun n => n.toInt.toNat)

theorem rowsOf_ne_nil {n : Int64} (h : 1 ≤ n.toInt) : rowsOf (some n.toInt.toNat) ≠ [] := by
  intro hnil
  have hzero := List.range_eq_nil.mp (List.map_eq_nil_iff.mp hnil)
  omega

/-- Whether the operation writes rows that may be there already. -/
def merges : Operation → Bool
  | .merge | .mergeAll _ => true
  | _ => false

/-- A merge writes its rows, of which there is at least one. -/
theorem mergeRows_of_statements {d : Dialect} {op : Operation} {r : Request} {ss : List Statement}
    (hop : merges op = true) (h : statements d op r = .ok ss) :
    ∃ m batch, r.mergeColumns = .ok m ∧ operationRows op = rowsOf batch ∧ rowsOf batch ≠ [] ∧
      mergeRows d r m batch = .ok ss := by
  cases op with
  | merge =>
    obtain ⟨m, hm, h⟩ := of_merge h
    exact ⟨m, none, mergeColumns_of_guards hm, rfl, List.cons_ne_nil _ _, h⟩
  | mergeAll n =>
    obtain ⟨m, hm, -, hpositive, -, h⟩ := of_mergeAll h
    exact ⟨m, some n.toInt.toNat, mergeColumns_of_guards hm, rfl, rowsOf_ne_nil hpositive, h⟩
  | _ => cases hop

/-- The columns that an operation binds are known where it has statements. -/
theorem boundColumns_of_statements {d : Dialect} {op : Operation} {r : Request}
    {ss : List Statement} (h : statements d op r = .ok ss) :
    ∃ inputs, r.boundColumns op = .ok inputs := by
  cases op with
  | update =>
    obtain ⟨_, hs, -⟩ := map_eq_ok_iff.mp h
    obtain ⟨u, -, hu, -⟩ := of_update hs
    exact ⟨_, map_eq_ok_iff.mpr ⟨u, hu, rfl⟩⟩
  | updateAll n =>
    obtain ⟨u, -, -, hu, -⟩ := of_updateAll h
    exact ⟨_, map_eq_ok_iff.mpr ⟨u, hu, rfl⟩⟩
  | merge | mergeAll n =>
    obtain ⟨m, -, hm, -⟩ := mergeRows_of_statements rfl h
    exact ⟨_, map_eq_ok_iff.mpr ⟨m, hm, rfl⟩⟩
  | delete =>
    obtain ⟨_, hs, -⟩ := map_eq_ok_iff.mp h
    obtain ⟨keys, hkeys, -⟩ := of_delete hs
    exact ⟨keys, hkeys⟩
  | _ => exact ⟨_, rfl⟩

/-- **What an operation writes is what it binds**, for every operation and dialect: the columns of every
row, and the filter where the operation writes it. Only a merge relies on the columns being apart. -/
theorem statements_renders {d : Dialect} {op : Operation} {r : Request} (hh : r.hints = none)
    (hf : merges op = true → r.FieldsApart) {ss : List Statement} (h : statements d op r = .ok ss)
    {inputs : List Column} (hi : r.boundColumns op = .ok inputs) :
    Renders r inputs (operationRows op) (writtenFilter op r inputs) ss := by
  cases op with
  | query top =>
    obtain ⟨s, hs, rfl⟩ := map_eq_ok_iff.mp h
    cases hi
    exact renders_query hh hs
  | pagedQuery page rows =>
    obtain ⟨s, hs, rfl⟩ := map_eq_ok_iff.mp h
    cases hi
    exact renders_pagedQuery hh hs
  | skipQuery skip take =>
    obtain ⟨s, hs, rfl⟩ := map_eq_ok_iff.mp h
    cases hi
    exact renders_skipQuery hh hs
  | insert =>
    obtain ⟨-, -, rfl⟩ := of_insert h
    cases hi
    exact renders_insertRow hh r.insertable d none
  | insertAll n =>
    obtain ⟨hrows, hnone⟩ := renders_insertAll hh h
    cases hi
    rw [writtenFilter_none hnone]
    exact hrows
  | update =>
    obtain ⟨s, hs, rfl⟩ := map_eq_ok_iff.mp h
    obtain ⟨u, hu, rfl⟩ := map_eq_ok_iff.mp hi
    exact renders_update hh hu hs
  | updateAll n =>
    obtain ⟨u, hu, rfl⟩ := map_eq_ok_iff.mp hi
    obtain ⟨hrows, hnone⟩ := renders_updateAll hh hu h
    rw [writtenFilter_none hnone]
    exact hrows
  | merge =>
    obtain ⟨m, hm, rfl⟩ := map_eq_ok_iff.mp hi
    exact renders_merge hh (hf rfl) hm h
  | mergeAll n =>
    obtain ⟨m, hm, rfl⟩ := map_eq_ok_iff.mp hi
    obtain ⟨hrows, hnone⟩ := renders_mergeAll hh (hf rfl) hm h
    rw [writtenFilter_none hnone]
    exact hrows
  | delete =>
    obtain ⟨s, hs, rfl⟩ := map_eq_ok_iff.mp h
    exact renders_delete hh hi hs
  | deleteAll =>
    obtain ⟨s, hs, rfl⟩ := map_eq_ok_iff.mp h
    obtain ⟨hrows, hnone⟩ := renders_deleteAll hh hs
    cases hi
    rw [writtenFilter_none hnone]
    exact hrows
  | «exists» =>
    obtain ⟨s, hs, rfl⟩ := map_eq_ok_iff.mp h
    cases hi
    exact renders_existsQuery hh hs
  | count =>
    obtain ⟨s, hs, rfl⟩ := map_eq_ok_iff.mp h
    cases hi
    exact renders_countQuery hh hs
  | aggregate function field =>
    obtain ⟨s, hs, rfl⟩ := map_eq_ok_iff.mp h
    cases hi
    exact renders_aggregateQuery hh hs
  | truncate =>
    obtain ⟨s, hs, rfl⟩ := map_eq_ok_iff.mp h
    cases hi
    exact renders_truncate hs

/-- Whatever the columns are called, what an operation names is bound for some columns. -/
theorem exists_renders {d : Dialect} {op : Operation} {r : Request} (hh : r.hints = none)
    {ss : List Statement} (h : statements d op r = .ok ss) :
    ∃ inputs, (∀ c ∈ inputs, c ∈ r.fields) ∧
      Renders r inputs (operationRows op) (writtenFilter op r inputs) ss := by
  cases hop : merges op with
  | false =>
    obtain ⟨inputs, hi⟩ := boundColumns_of_statements h
    have hf : merges op = true → r.FieldsApart := by
      rw [hop]
      nofun
    exact ⟨inputs, Request.mem_fields_of_boundColumns hi, statements_renders hh hf h hi⟩
  | true =>
    obtain ⟨m, batch, hm, hrows, -, hmerge⟩ := mergeRows_of_statements hop h
    obtain ⟨inputs, hinputs, hrenders⟩ := exists_renders_mergeRows hh hm hmerge
    have hfilter : writtenFilter op r inputs = none := by
      cases op with
      | merge => rfl
      | mergeAll n => exact writtenFilter_none (activePredicate_of_batch h rfl) _ _
      | _ => cases hop
    exact ⟨inputs, hinputs, by rwa [hfilter, hrows]⟩

end EntitySql.Sql
