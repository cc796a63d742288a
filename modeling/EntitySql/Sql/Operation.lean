/-!
# Operations

What a statement is built for: reading rows in one of several ways, or writing one row or a batch
of rows.
-/

namespace EntitySql

/-- The direction of an order. -/
inductive SortOrder where
  | asc
  | desc
deriving DecidableEq, Repr

/-- A column that rows are ordered by. -/
structure OrderField where
  name : String
  order : SortOrder
deriving DecidableEq, Repr

/-- A function over the values of a column. -/
inductive Aggregate where
  | min | max | sum | avg
deriving DecidableEq, Repr

namespace Aggregate

/-- The name of the function in a statement. -/
def function : Aggregate → String
  | min => "MIN"
  | max => "MAX"
  | sum => "SUM"
  | avg => "AVG"

/-- The name of the column of the result. -/
def resultColumn : Aggregate → String
  | min => "MinValue"
  | max => "MaxValue"
  | sum => "SumValue"
  | avg => "AverageValue"

end Aggregate

/-- What a statement does. Pages count from zero. -/
inductive Operation where
  | query (top : Option Int64)
  | pagedQuery (page rowsPerBatch : Int64)
  | skipQuery (skip take : Int64)
  | insert
  | insertAll (batchSize : Int64)
  | update
  | updateAll (batchSize : Int64)
  | merge
  | mergeAll (batchSize : Int64)
  | delete
  | deleteAll
  | exists
  | count
  | aggregate (function : Aggregate) (field : String)
  | truncate
deriving DecidableEq

namespace Operation

/-- The name of the operation in messages. -/
def name : Operation → String
  | query _ => "Query"
  | pagedQuery .. => "PagedQuery"
  | skipQuery .. => "SkipQuery"
  | insert => "Insert"
  | insertAll _ => "InsertAll"
  | update => "Update"
  | updateAll _ => "UpdateAll"
  | merge => "Merge"
  | mergeAll _ => "MergeAll"
  | delete => "Delete"
  | deleteAll => "DeleteAll"
  | «exists» => "Exists"
  | count => "Count"
  | aggregate .. => "Aggregate"
  | truncate => "Truncate"

/-- The size of the batch, for an operation on several rows. -/
def batchSize? : Operation → Option Int64
  | insertAll n => some n
  | updateAll n => some n
  | mergeAll n => some n
  | _ => none

/-- Whether the operation writes several rows. -/
def isBatch (op : Operation) : Bool := op.batchSize?.isSome

/-- How many rows a command binds. -/
def rows (op : Operation) : Nat :=
  match op.batchSize? with
  | some n => n.toInt.toNat
  | none => 1

/-- Whether the statement gives back the keys of the rows. -/
def returnsKey : Operation → Bool
  | insert => true
  | insertAll _ => true
  | merge => true
  | mergeAll _ => true
  | _ => false

end Operation

end EntitySql
