import EntitySql.Schema.KeyPolicy
import EntitySql.Sql.Operation

/-!
# Requests

A `Request` says what a statement is about: the table, the columns asked for, the filter, the order.
From it follow the sets of columns that the statement and the binding of its parameters share:
which columns are written, which of them match a row, and in which order they are bound.
-/

namespace EntitySql

/-- What a statement is about. -/
structure Request where
  table : String
  /-- The columns asked for. -/
  fields : List Column
  /-- All columns of the table; empty where the columns asked for are all that is known. -/
  tableColumns : List Column
  /-- The columns that tell which row is meant. -/
  qualifiers : Option (List String)
  predicate : Option Group
  orderBy : List OrderField
  hints : Option String
  keyPolicy : KeyPolicy

namespace Request

/-- The request for columns of a table that is not known otherwise. -/
def make (table : String) (fields : List Column) : Request :=
  ⟨table, Column.assignNames fields, [], none, none, [], none, .primaryOrElseIdentity⟩

/-- The request with all columns of the table, whose parameter names the columns asked for take. -/
def withSchema (r : Request) (columns : List Column) : Request :=
  let columns := Column.assignNames columns
  { r with fields := Column.syncNames r.fields columns, tableColumns := columns }

/-- The filter, if it has any item. -/
def activePredicate (r : Request) : Option Group :=
  match r.predicate with
  | some g => if g.isEmpty then none else some g
  | none => none

/-! ### Columns of the table -/

/-- The columns of the table. -/
def schema (r : Request) : List Column :=
  if r.tableColumns.isEmpty then r.fields else r.tableColumns

/-- The first primary column. -/
def primary (r : Request) : Option Column := r.schema.find? fun c => c.primary

/-- The column read back after a row was written. -/
def key (r : Request) : Option Column := r.keyPolicy.resolve r.schema

/-- The column of this name among those asked for. -/
def field? (r : Request) (name : String) : Option Column := Column.find? r.fields name

/-- Whether a column is in a set, by name. -/
def contains (set : List Column) (c : Column) : Bool := set.any fun d => d.isNamed c.name

/-! ### Sets of columns -/

/-- The columns written by an insertion. -/
def insertable (r : Request) : List Column := r.fields.filter fun c => !c.readOnly

/-- The column that a qualifier names. -/
def qualifier (r : Request) (name : String) : Result Column :=
  match r.field? name with
  | some c => .ok c
  | none => .error (.qualifier r.table name)

/-- The columns that the given qualifiers name. -/
def explicitQualifiers (r : Request) : Result (List Column) :=
  match r.qualifiers with
  | some names => names.mapM r.qualifier
  | none => .ok []

/-- The columns that tell which row is meant: the given ones, or else the primary column, which has
to be asked for. -/
def rowKeys (r : Request) : Result (List Column) := do
  let explicit ← r.explicitQualifiers
  if explicit.isEmpty then
    match r.primary with
    | some p => do
      let c ← r.qualifier p.name
      return [c]
    | none => .error (.qualifier r.table "<primary key>")
  else return explicit

/-- The columns of an update. -/
structure UpdateColumns where
  set : List Column
  /-- The columns that tell which row is meant; none under a filter. -/
  keys : List Column

/-- The columns of an update. Primary and read-only columns and qualifiers are not written. -/
def updateColumns (r : Request) : Result UpdateColumns := do
  let excluded ← if r.activePredicate.isSome then r.explicitQualifiers else r.rowKeys
  let set := r.fields.filter fun c => !c.readOnly && !c.primary && !contains excluded c
  if set.isEmpty then .error (.argument (.nothingUpdatable r.table))
  else return ⟨set, if r.activePredicate.isSome then [] else excluded⟩

/-- The columns of a merge. -/
structure MergeColumns where
  keys : List Column
  /-- The columns that are bound: those written and the keys. -/
  inputs : List Column
  /-- The columns written for a new row. -/
  writable : List Column
  /-- The columns written for a row that is there. -/
  set : List Column

/-- The columns of a merge. -/
def mergeColumns (r : Request) : Result MergeColumns := do
  let keys ← r.rowKeys
  let inputs := r.fields.filter fun c => !c.readOnly || contains keys c
  return ⟨keys, inputs, inputs.filter fun c => !c.readOnly,
    inputs.filter fun c => !c.primary && !contains keys c⟩

/-- The columns that tell which row is deleted; none under a filter. -/
def deleteKeys (r : Request) : Result (List Column) :=
  if r.activePredicate.isSome then .ok [] else r.rowKeys

/-- The columns bound for one row of an operation, in the order of their parameters. -/
def boundColumns (r : Request) (op : Operation) : Result (List Column) :=
  match op with
  | .insert => .ok r.insertable
  | .insertAll _ => .ok r.insertable
  | .update => r.updateColumns.map fun u => u.set ++ u.keys
  | .updateAll _ => r.updateColumns.map fun u => u.set ++ u.keys
  | .merge => r.mergeColumns.map MergeColumns.inputs
  | .mergeAll _ => r.mergeColumns.map MergeColumns.inputs
  | .delete => r.deleteKeys
  | _ => .ok []

/-- The parameter names that the columns of a row take. -/
def reservedNames (r : Request) (op : Operation) : Result (List String) :=
  (r.boundColumns op).map fun columns => columns.map Column.parameterName

end Request

/-- The parameter name of a column, with the number of the row in a batch. -/
def Column.parameterAt (c : Column) : (row : Option Nat) → String
  | none => c.parameterName
  | some i => c.parameterName ++ "_" ++ toString i

end EntitySql
