import EntitySql.Predicate.Operator
import EntitySql.Value.Basic

/-!
# Predicates

A `Predicate` is a condition on one column, or a group of predicates joined by one conjunction and
possibly negated. A `Group` is what a statement is filtered by; a group without items filters
nothing. The shape of a group is all of it that shows in the statement: everything but the values,
of which only the lengths of lists count.
-/

namespace EntitySql

/-- A column, with its value type if it is known. -/
structure Field where
  name : String
  type : Option ValueType
deriving DecidableEq

/-- A condition on one column. -/
structure Condition where
  field : Field
  operator : Operator
  value : Value
  caseSensitive : Bool

/-- How the items of a group are joined. -/
inductive Conjunction where
  | and
  | or
deriving DecidableEq, Repr

/-- The word that joins the items of a group in a statement. -/
def Conjunction.keyword : Conjunction → String
  | and => "AND"
  | or => "OR"

/-- A condition, or predicates joined by one conjunction. -/
inductive Predicate where
  | condition (c : Condition)
  | group (conjunction : Conjunction) (negated : Bool) (items : List Predicate)

/-- Predicates joined by one conjunction. -/
structure Group where
  conjunction : Conjunction
  negated : Bool
  items : List Predicate

namespace Condition

/-- The condition that compares a column with a value. -/
def make (field : Field) (operator : Operator) (value : Value) : Condition :=
  ⟨field, operator, value, true⟩

/-- The condition with the complementary operator. -/
def negate (c : Condition) : Condition := { c with operator := c.operator.negate }

/-- The elements that a list operator compares with; a scalar is a list of one. -/
def listValues (c : Condition) : List Value :=
  match c.value with
  | .list items => items
  | .null => []
  | v => [v]

end Condition

namespace Group

/-- The group that filters nothing. -/
def empty : Group := ⟨.and, false, []⟩

/-- The group of these items. -/
def of (conjunction : Conjunction) (items : List Predicate) : Group := ⟨conjunction, false, items⟩

/-- The group of a single condition. -/
def single (c : Condition) : Group := of .and [.condition c]

/-- The negated group; negating twice changes nothing. -/
def negate (g : Group) : Group := { g with negated := !g.negated }

/-- Whether the group filters nothing. -/
def isEmpty (g : Group) : Bool := g.items.isEmpty

/-- The group as an item of another. -/
def toPredicate (g : Group) : Predicate := .group g.conjunction g.negated g.items

end Group

/-! ### The conditions of a predicate -/

mutual
/-- The conditions of a predicate from left to right. -/
def Predicate.conditions : Predicate → List Condition
  | .condition c => [c]
  | .group _ _ items => Predicate.conditionsOf items

/-- The conditions of a list of predicates from left to right. -/
def Predicate.conditionsOf : List Predicate → List Condition
  | [] => []
  | p :: rest => Predicate.conditions p ++ Predicate.conditionsOf rest
end

/-- The conditions of a group from left to right. -/
def Group.conditions (g : Group) : List Condition := Predicate.conditionsOf g.items

/-! ### Shapes -/

/-- A word of the encoding of a shape. -/
inductive ShapeWord where
  | number (n : Nat)
  | text (s : String)
deriving DecidableEq, Repr

/-- A truth value as a number. -/
def flag (b : Bool) : ShapeWord := .number (if b then 1 else 0)

/-- The place of an operator in their order. -/
def Operator.ordinal : Operator → Nat
  | .equal => 0
  | .notEqual => 1
  | .greaterThan => 2
  | .lessThan => 3
  | .greaterOrEqual => 4
  | .lessOrEqual => 5
  | .like => 6
  | .notLike => 7
  | .inList => 8
  | .notInList => 9
  | .isNull => 10
  | .isNotNull => 11

/-- The place of a conjunction in their order. -/
def Conjunction.ordinal : Conjunction → Nat
  | .and => 0
  | .or => 1

/-- The shape of a condition: its value counts by the length of a list only. -/
def Condition.shape (c : Condition) : List ShapeWord :=
  [.text c.field.name, .number c.operator.ordinal, flag c.caseSensitive] ++
    (if c.operator.isList then [.number c.listValues.length] else [])

/-- What a group says about itself before its items. -/
def shapeHead (conjunction : Conjunction) (negated : Bool) (count : Nat) : List ShapeWord :=
  [.number conjunction.ordinal, flag negated, .number count]

mutual
/-- The shape of a predicate, after a word that tells conditions and groups apart. -/
def Predicate.shape : Predicate → List ShapeWord
  | .condition c => .number 0 :: c.shape
  | .group conjunction negated items =>
    .number 1 :: shapeHead conjunction negated items.length ++ Predicate.shapeOf items

/-- The shapes of a list of predicates. -/
def Predicate.shapeOf : List Predicate → List ShapeWord
  | [] => []
  | p :: rest => Predicate.shape p ++ Predicate.shapeOf rest
end

/-- The shape of a group. -/
def Group.shape (g : Group) : List ShapeWord :=
  shapeHead g.conjunction g.negated g.items.length ++ Predicate.shapeOf g.items

end EntitySql
