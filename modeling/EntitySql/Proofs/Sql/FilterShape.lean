import EntitySql.Proofs.Sql.Operation
import EntitySql.Sql.Tidy

/-!
# What a statement takes from its filter

The builders look at a filter in two ways: whether there is one, and what is written of it. Neither
depends on its values, so a request and its `Request.skeleton`, in which the filter has lost them, have
the same columns and the same statements (**`statements_skeleton`**). Filters of one shape give one
skeleton.
-/

namespace EntitySql

/-- The request whose filter has lost its values; a filter without items is left out. -/
def Request.skeleton (r : Request) : Request :=
  { r with predicate := r.activePredicate.map Group.skeleton }

theorem Group.isEmpty_skeleton (g : Group) : g.skeleton.isEmpty = g.isEmpty := by
  obtain ⟨conjunction, negated, items⟩ := g
  cases items <;> rfl

namespace Request

theorem activePredicate_eq_filter (r : Request) :
    r.activePredicate = r.predicate.filter fun g => !g.isEmpty := by
  unfold activePredicate
  cases r.predicate with
  | none => rfl
  | some g =>
    rw [Option.filter_some]
    dsimp only
    cases g.isEmpty <;> rfl

theorem isEmpty_of_activePredicate {r : Request} {g : Group} (h : r.activePredicate = some g) :
    g.isEmpty = false := by
  rw [activePredicate_eq_filter, Option.filter_eq_some_iff] at h
  simpa using h.2

theorem activePredicate_skeleton (r : Request) :
    r.skeleton.activePredicate = r.activePredicate.map Group.skeleton := by
  have hpredicate : r.skeleton.predicate = r.activePredicate.map Group.skeleton := rfl
  rw [activePredicate_eq_filter, hpredicate]
  cases h : r.activePredicate with
  | none => rfl
  | some g =>
    rw [Option.map_some, Option.filter_some, g.isEmpty_skeleton, isEmpty_of_activePredicate h]
    rfl

theorem isSome_activePredicate_skeleton (r : Request) :
    r.skeleton.activePredicate.isSome = r.activePredicate.isSome := by
  rw [activePredicate_skeleton, Option.isSome_map]

theorem updateColumns_skeleton (r : Request) : r.skeleton.updateColumns = r.updateColumns := by
  simp only [updateColumns, isSome_activePredicate_skeleton]
  rfl

theorem deleteKeys_skeleton (r : Request) : r.skeleton.deleteKeys = r.deleteKeys := by
  simp only [deleteKeys, isSome_activePredicate_skeleton]
  rfl

theorem boundColumns_skeleton (r : Request) (op : Operation) :
    r.skeleton.boundColumns op = r.boundColumns op := by
  cases op with
  | update | updateAll n =>
    exact congrArg (Except.map fun u => u.set ++ u.keys) r.updateColumns_skeleton
  | delete => exact r.deleteKeys_skeleton
  | _ => rfl

end Request

namespace Sql

theorem ofGroup_skeleton (g : Group) (reserved : List String) :
    SearchCondition.ofGroup g.skeleton reserved = SearchCondition.ofGroup g reserved :=
  ofGroup_eq_of_shape g.shape_skeleton reserved

theorem filterCondition_skeleton (r : Request) : filterCondition r.skeleton = filterCondition r := by
  rw [filterCondition, filterCondition, activeCondition_eq, activeCondition_eq,
    r.activePredicate_skeleton, Option.map_map]
  exact congrArg (fun f => r.activePredicate.map f) (funext fun g => ofGroup_skeleton g [])

theorem rejectPredicate_skeleton (r : Request) (op : Operation) :
    rejectPredicate r.skeleton op = rejectPredicate r op := by
  simp only [rejectPredicate, r.isSome_activePredicate_skeleton]
  rfl

/-! ### Reading -/

theorem selectFields_skeleton (d : Dialect) (r : Request) (top : Option Nat) (limit : RowLimit) :
    selectFields d r.skeleton top limit = selectFields d r top limit := by
  simp only [selectFields, filterCondition_skeleton]
  rfl

theorem selectValue_skeleton (d : Dialect) (r : Request) (top : Option Nat) (item : SelectItem)
    (limit : RowLimit) : selectValue d r.skeleton top item limit = selectValue d r top item limit := by
  simp only [selectValue, filterCondition_skeleton]
  rfl

theorem query_skeleton (d : Dialect) (r : Request) (top : Option Int64) :
    query d r.skeleton top = query d r top := by
  simp only [query, selectFields_skeleton]
  rfl

theorem pagedQuery_skeleton (d : Dialect) (r : Request) (page rows : Int64) :
    pagedQuery d r.skeleton page rows = pagedQuery d r page rows := by
  simp only [pagedQuery, selectFields_skeleton, filterCondition_skeleton]
  rfl

theorem skipQuery_skeleton (d : Dialect) (r : Request) (skip take : Int64) :
    skipQuery d r.skeleton skip take = skipQuery d r skip take := by
  simp only [skipQuery, selectFields_skeleton]
  rfl

theorem existsQuery_skeleton (d : Dialect) (r : Request) :
    existsQuery d r.skeleton = existsQuery d r := by
  simp only [existsQuery, selectValue_skeleton]
  rfl

theorem countQuery_skeleton (d : Dialect) (r : Request) :
    countQuery d r.skeleton = countQuery d r := by
  simp only [countQuery, selectValue_skeleton]
  rfl

theorem aggregateQuery_skeleton (d : Dialect) (r : Request) (function : Aggregate) (field : String) :
    aggregateQuery d r.skeleton function field = aggregateQuery d r function field := by
  simp only [aggregateQuery, selectValue_skeleton]
  rfl

/-! ### Writing -/

theorem insertAll_skeleton (d : Dialect) (r : Request) (n : Int64) :
    insertAll d r.skeleton n = insertAll d r n := by
  simp only [insertAll, rejectPredicate_skeleton]
  rfl

theorem mergeAll_skeleton (d : Dialect) (r : Request) (n : Int64) :
    mergeAll d r.skeleton n = mergeAll d r n := by
  simp only [mergeAll, rejectPredicate_skeleton]
  rfl

theorem update_skeleton (d : Dialect) (r : Request) : update d r.skeleton = update d r := by
  simp only [update, r.updateColumns_skeleton, r.activePredicate_skeleton]
  cases r.activePredicate with
  | none => rfl
  | some g =>
    simp only [Option.map_some, ofGroup_skeleton]
    rfl

theorem updateAll_skeleton (d : Dialect) (r : Request) (n : Int64) :
    updateAll d r.skeleton n = updateAll d r n := by
  simp only [updateAll, rejectPredicate_skeleton, r.updateColumns_skeleton]
  rfl

theorem delete_skeleton (d : Dialect) (r : Request) : delete d r.skeleton = delete d r := by
  simp only [delete, r.deleteKeys_skeleton, filterCondition_skeleton]
  rfl

theorem deleteAll_skeleton (d : Dialect) (r : Request) : deleteAll d r.skeleton = deleteAll d r := by
  simp only [deleteAll, rejectPredicate_skeleton]
  rfl

/-! ### All operations -/

/-- **The statements of an operation do not depend on the values of the filter.** -/
theorem statements_skeleton (d : Dialect) (op : Operation) (r : Request) :
    statements d op r.skeleton = statements d op r := by
  cases op with
  | query top => simp only [statements, query_skeleton]
  | pagedQuery page rows => simp only [statements, pagedQuery_skeleton]
  | skipQuery skip take => simp only [statements, skipQuery_skeleton]
  | insertAll n => exact insertAll_skeleton d r n
  | update => simp only [statements, update_skeleton]
  | updateAll n => exact updateAll_skeleton d r n
  | mergeAll n => exact mergeAll_skeleton d r n
  | delete => simp only [statements, delete_skeleton]
  | deleteAll => simp only [statements, deleteAll_skeleton]
  | «exists» => simp only [statements, existsQuery_skeleton]
  | count => simp only [statements, countQuery_skeleton]
  | aggregate function field => simp only [statements, aggregateQuery_skeleton]
  | insert | merge | truncate => rfl

variable {r r' : Request}

theorem statementText_congr (h : r.skeleton = r'.skeleton) (d : Dialect) (op : Operation) :
    statementText d op r = statementText d op r' := by
  rw [statementText, ← statements_skeleton, h, statements_skeleton, statementText]

end Sql

theorem Request.boundColumns_congr {r r' : Request} (h : r.skeleton = r'.skeleton) (op : Operation) :
    r.boundColumns op = r'.boundColumns op := by
  rw [← r.boundColumns_skeleton, h, r'.boundColumns_skeleton]

end EntitySql
