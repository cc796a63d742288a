import EntitySql.Command
import EntitySql.Entity.Handler
import EntitySql.Options.Basic
import EntitySql.Plan.Key
import EntitySql.Sql.Tidy

/-!
# Plans

A `Plan` holds the text of an operation and how to run it: the columns that every row binds, the
filter it was made for, and the column whose value is put back into a row after it was written. It
is made once for a `PlanKey` and used for any number of rows.
-/

namespace EntitySql

/-- How a column is bound from a row. -/
structure ColumnBinder where
  column : Column
  property : Property
  handler : Option Handler
  repr : EnumRepr

/-- How a key is put back into a row. -/
structure KeySetter where
  column : Column
  property : Property
  handler : Option Handler

/-- The text of an operation and how to run it. -/
structure Plan where
  /-- Which plan of its engine it is. -/
  serial : Nat
  map : EntityMap
  operation : Operation
  table : String
  text : String
  inputs : List Column
  /-- The parameter names that a filter keeps clear of. -/
  reserved : List String
  predicateShape : Option (List ShapeWord)
  binders : List ColumnBinder
  keySetter : Option KeySetter

/-! ### Making a plan -/

/-- How a column of an entity is bound. -/
def ColumnBinder.make (map : EntityMap) (handlers : Handlers) (repr : EnumRepr) (c : Column) :
    Result ColumnBinder :=
  match map.propertyForColumn? c.name with
  | some p => .ok ⟨c, p, handlers.get? map.entity p.name, p.repr.getD repr⟩
  | none => .error (.binding (.unmappedColumn map.entity c.name))

/-- How the key of an entity is put back. -/
def KeySetter.make (map : EntityMap) (handlers : Handlers) (c : Column) : Result KeySetter :=
  match map.propertyForColumn? c.name with
  | some p =>
    if p.readOnly then .error (.binding (.readOnlyKey map.entity p.name))
    else .ok ⟨c, p, handlers.get? map.entity p.name⟩
  | none => .error (.binding (.unmappedKey map.entity c.name))

/-- The column of a table that a request asks for. -/
def requestedColumn (table : String) (columns : List Column) (name : String) : Result Column :=
  match Column.find? columns name with
  | some c => .ok c
  | none => .error (.argument (.unknownField name table))

/-- The request of a statement for a plan. -/
def PlanRequest.statement (r : PlanRequest) (shape : PlanShape) (policy : KeyPolicy)
    (fields columns : List Column) : Request :=
  ⟨shape.table, fields, columns, shape.qualifiers, r.predicate, shape.orderBy, r.hints, policy⟩

/-- Makes the plan of a request over a table with these columns. -/
def Plan.make (options : Options) (handlers : Handlers) (map : EntityMap) (r : PlanRequest)
    (columns : List Column) (serial : Nat) : Result Plan := do
  let shape := r.shape map
  let fields ← shape.fields.mapM (requestedColumn shape.table columns)
  let statement := r.statement shape options.keyPolicy fields columns
  let text ← Sql.statementText options.dialect r.operation statement
  let inputs ← statement.boundColumns r.operation
  let binders ← inputs.mapM (ColumnBinder.make map handlers options.repr)
  let keySetter ←
    match statement.key with
    | some key =>
      if r.operation.returnsKey then (KeySetter.make map handlers key).map some else .ok none
    | none => .ok none
  return ⟨serial, map, r.operation, shape.table, text, inputs, inputs.map Column.parameterName,
    r.predicateShape, binders, keySetter⟩

/-! ### Binding -/

/-- The value that a row has in a column. -/
def ColumnBinder.value (b : ColumnBinder) (map : EntityMap) (row : Row) : Result Value :=
  let v := map.get row b.property
  match b.handler with
  | some h => h.toColumn v b.column
  | none => .ok (v.stored b.repr)

/-- The parameter of a column for a row, with the number of the row in a batch. -/
def ColumnBinder.parameter (b : ColumnBinder) (map : EntityMap) (row : Row) (index : Option Nat) :
    Result BoundParameter :=
  (b.value map row).map fun v => ⟨b.column.parameterAt index, v, some b.column.type⟩

namespace Plan

/-- The parameters of a row. -/
def rowParameters (p : Plan) (index : Option Nat) (row : Row) : Result (List BoundParameter) :=
  p.binders.mapM fun b => b.parameter p.map row index

/-- The parameters of rows; the rows of a batch are numbered from `first`. -/
def rowsParameters (p : Plan) (first : Nat) : List Row → Result (List BoundParameter)
  | [] => .ok []
  | row :: rest => do
    let ps ← p.rowParameters (if p.operation.isBatch then some first else none) row
    let qs ← p.rowsParameters (first + 1) rest
    return ps ++ qs

/-- The command of the plan for rows and a filter. The filter has the shape that the plan was made
for, and there are as many rows as the plan binds, unless it binds no column. -/
def command (p : Plan) (rows : List Row) (predicate : Option Group) : Result Command :=
  let predicate := predicate.filter fun g => !g.isEmpty
  if predicate.map Group.shape ≠ p.predicateShape then
    .error (.argument (.filterMismatch p.operation.name p.table))
  else if !p.binders.isEmpty ∧ rows.length ≠ p.operation.rows then
    .error (.argument (.rowCount p.operation.name p.table p.operation.rows rows.length))
  else do
    let ps ← if p.binders.isEmpty then .ok [] else p.rowsParameters 0 rows
    let filter :=
      match predicate with
      | some g => g.parameters p.reserved
      | none => []
    return ((Command.make p.text).extend ps).extend filter

/-! ### Keys -/

end Plan

/-- Puts a key into a row. -/
def KeySetter.apply (k : KeySetter) (map : EntityMap) (row : Row) (v : Value) : Result Row :=
  match k.handler with
  | some h => do
    let v ← h.fromColumn v k.column
    map.set row k.property v
  | none => map.set row k.property v

namespace Plan

/-- The row with the key that the database gave back. -/
def applyKey (p : Plan) (row : Row) (v : Value) : Result Row :=
  match p.keySetter with
  | some k => k.apply p.map row v
  | none => .ok row

/-- The place among rows that the order value of a returned key means. -/
def orderIndex? (rows : List Row) (order : Value) : Option Nat :=
  match order with
  | .int n => if 0 ≤ n.toInt ∧ n.toInt.toNat < rows.length then some n.toInt.toNat else none
  | _ => none

/-- Puts returned keys into the rows that their order values mean, one after the other. Gives the
rows reached and the error that ended it, if there is one. -/
def applyKeysWith (p : Plan) (k : KeySetter) (rows : List Row) :
    List (Value × Value) → List Row × Option Error
  | [] => (rows, none)
  | (v, order) :: rest =>
    match orderIndex? rows order with
    | none => (rows, some (.argument (.unmatchedOrder order.display)))
    | some i =>
      match k.apply p.map (rows.getD i []) v with
      | .ok row => p.applyKeysWith k (List.set rows i row) rest
      | .error e => (rows, some e)

/-- The rows with the keys that the database gave back. -/
def applyKeys (p : Plan) (rows : List Row) (keys : List (Value × Value)) :
    List Row × Option Error :=
  match p.keySetter with
  | some k => p.applyKeysWith k rows keys
  | none => (rows, none)

end Plan

end EntitySql
