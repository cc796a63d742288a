/-!
# Operators

The operators of a condition, with the word or sign that stands for each in a statement, its
logical complement, and the operator to use when the operands change sides.
-/

namespace EntitySql

/-- The operator of a condition on one column. -/
inductive Operator where
  | equal | notEqual
  | greaterThan | lessThan | greaterOrEqual | lessOrEqual
  | like | notLike
  | inList | notInList
  | isNull | isNotNull
deriving DecidableEq, Repr

namespace Operator

/-- The operator as it stands in a statement. -/
def symbol : Operator → String
  | equal => "="
  | notEqual => "<>"
  | greaterThan => ">"
  | lessThan => "<"
  | greaterOrEqual => ">="
  | lessOrEqual => "<="
  | like => "LIKE"
  | notLike => "NOT LIKE"
  | inList => "IN"
  | notInList => "NOT IN"
  | isNull => "IS NULL"
  | isNotNull => "IS NOT NULL"

/-- The logical complement. -/
def negate : Operator → Operator
  | equal => notEqual
  | notEqual => equal
  | greaterThan => lessOrEqual
  | lessThan => greaterOrEqual
  | greaterOrEqual => lessThan
  | lessOrEqual => greaterThan
  | like => notLike
  | notLike => like
  | inList => notInList
  | notInList => inList
  | isNull => isNotNull
  | isNotNull => isNull

/-- The operator that holds of `b` and `a` when this one holds of `a` and `b`; the operators that
are not orderings keep their sides. -/
def mirror : Operator → Operator
  | greaterThan => lessThan
  | lessThan => greaterThan
  | greaterOrEqual => lessOrEqual
  | lessOrEqual => greaterOrEqual
  | op => op

/-- Whether the operator compares with a list. -/
def isList : Operator → Bool
  | inList | notInList => true
  | _ => false

/-- Whether the operator tests for null and compares with nothing. -/
def isNullCheck : Operator → Bool
  | isNull | isNotNull => true
  | _ => false

theorem negate_negate (op : Operator) : op.negate.negate = op := by cases op <;> rfl

end Operator

end EntitySql
