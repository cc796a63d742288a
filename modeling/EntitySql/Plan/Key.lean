import EntitySql.Entity.Basic
import EntitySql.Predicate.Basic
import EntitySql.Sql.Dialect
import EntitySql.Sql.Operation

/-!
# Keys of plans

A `PlanRequest` asks for an operation on an entity. Names in it may be those of properties or of
columns; `PlanShape` holds the columns that they mean. Two requests with the same `PlanKey` have the
same plan: the key is everything that the plan depends on, and of a filter that is its shape.
-/

namespace EntitySql

/-- An operation on an entity. -/
structure PlanRequest where
  operation : Operation
  /-- The table, if it is not that of the entity. -/
  table : Option String
  /-- The properties or columns asked for, if not all properties. -/
  fields : Option (List String)
  qualifiers : Option (List String)
  predicate : Option Group
  orderBy : List OrderField
  hints : Option String

/-- The filter, if it has any item. -/
def PlanRequest.activePredicate (r : PlanRequest) : Option Group :=
  r.predicate.filter fun g => !g.isEmpty

/-- The shape of the filter. -/
def PlanRequest.predicateShape (r : PlanRequest) : Option (List ShapeWord) :=
  r.activePredicate.map Group.shape

/-- The names of a request as names of columns. -/
structure PlanShape where
  table : String
  fields : List String
  qualifiers : Option (List String)
  orderBy : List OrderField
deriving DecidableEq

/-- The columns that the names of a request mean. -/
def PlanRequest.shape (r : PlanRequest) (map : EntityMap) : PlanShape where
  table := r.table.getD map.table
  fields :=
    match r.fields with
    | some names => names.map map.columnName
    | none => map.columns
  qualifiers := r.qualifiers.map fun names => names.map map.columnName
  orderBy := r.orderBy.map fun o => { o with name := map.columnName o.name }

/-- Everything that a plan depends on. -/
structure PlanKey where
  map : EntityMap
  dialect : Dialect
  operation : Operation
  shape : PlanShape
  hints : Option String
  predicateShape : Option (List ShapeWord)
deriving DecidableEq

/-- The key of a request. -/
def PlanRequest.key (r : PlanRequest) (map : EntityMap) (dialect : Dialect) : PlanKey :=
  ⟨map, dialect, r.operation, r.shape map, r.hints, r.predicateShape⟩

end EntitySql
