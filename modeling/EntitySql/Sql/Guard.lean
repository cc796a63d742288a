import EntitySql.Sql.Dialect
import EntitySql.Sql.Request

/-!
# Guards

What a request has to fulfil before a statement is built from it. A request that fails a guard gives
an error and no text.
-/

namespace EntitySql.Sql

/-- Whether a text has only blanks. -/
def isBlankText (s : String) : Bool := s.toList.all Text.isBlank

/-- The table is named. -/
def requireTable (r : Request) : Result Unit :=
  if isBlankText r.table then .error (.argument .tableRequired) else .ok ()

/-- Hints are given only where the dialect knows them. -/
def checkHints (d : Dialect) (r : Request) : Result Unit :=
  match r.hints with
  | some hints =>
    if !isBlankText hints ∧ !d.supportsHints then .error (.unsupportedFeature (.hints d.name))
    else .ok ()
  | none => .ok ()

/-- Columns are asked for. -/
def requireFields (r : Request) : Result Unit :=
  if r.fields.isEmpty then .error (.argument (.fieldsRequired r.table)) else .ok ()

/-- An order is given. -/
def requireOrder (r : Request) : Result Unit :=
  if r.orderBy.isEmpty then .error (.argument (.orderRequired r.table)) else .ok ()

/-- There is no filter. -/
def rejectPredicate (r : Request) (op : Operation) : Result Unit :=
  if r.activePredicate.isSome then .error (.argument (.filterRejected op.name r.table)) else .ok ()

/-- A number that is not negative. -/
def nonNegative (name : String) (n : Int64) : Result Nat :=
  if 0 ≤ n.toInt then .ok n.toInt.toNat else .error (.range name n.toInt)

/-- A number above zero. -/
def positive (name : String) (n : Int64) : Result Nat :=
  if 1 ≤ n.toInt then .ok n.toInt.toNat else .error (.range name n.toInt)

/-- A position among rows, of which there are fewer than `2 ^ 64`. -/
def rowPosition (name : String) (n : Int64) (position : Nat) : Result Nat :=
  if position < twoTo 64 then .ok position else .error (.range name n.toInt)

/-- The parameters of a batch are no more than the dialect allows. -/
def parameterLimit (d : Dialect) (batchSize : Int64) (rows perRow : Nat) : Result Unit :=
  if d.maxParameters < rows * perRow then .error (.range "batch_size" batchSize.toInt) else .ok ()

/-- The primary column is asked for, unless the database fills it in. -/
def requirePrimary (r : Request) : Result Unit :=
  match r.primary with
  | some p =>
    if p.readOnly || p.hasDefault || (r.field? p.name).isSome then .ok ()
    else .error (.primaryFieldMissing r.table p.name)
  | none => .ok ()

end EntitySql.Sql
