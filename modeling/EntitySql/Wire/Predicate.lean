import EntitySql.Wire.Value

/-!
# Predicates in JSON

A group is written as a record of its items, its conjunction and whether it is negated; an item says
whether it is a condition or a group.
-/

namespace EntitySql.Wire

open Json (Document)

/-- A column. -/
def ofField (f : Field) : Json :=
  .object [("name", .string f.name), ("value_type", optional (name valueTypes) f.type)]

/-- A condition. -/
def ofCondition (c : Condition) : Json :=
  .object [("field", ofField c.field), ("operator", name operators c.operator),
    ("value", ofValue c.value), ("case_sensitive", .bool c.caseSensitive)]

/-- The record of a group. -/
def groupRecord (conjunction : Conjunction) (negated : Bool) (items : List Json) : Json :=
  .object [("items", .array items), ("conjunction", name conjunctions conjunction),
    ("negated", .bool negated)]

mutual
/-- A predicate. -/
def ofPredicate : Predicate → Json
  | .condition c => form "Node" (ofCondition c)
  | .group conjunction negated items =>
    form "Group" (groupRecord conjunction negated (ofPredicates items))

/-- The predicates of a list. -/
def ofPredicates : List Predicate → List Json
  | [] => []
  | p :: rest => ofPredicate p :: ofPredicates rest
end

/-- A group. -/
def ofGroup (g : Group) : Json := groupRecord g.conjunction g.negated (ofPredicates g.items)

/-- A column. -/
def readField (room : Nat) (d : Document) : Option Field := do
  let fields ← readRecord ["name", "value_type"] 0 room d
  let name ← fields.required "name" readString
  let type ← fields.optional "value_type" (readName valueTypes (room - 1))
  some ⟨name, type⟩

/-- A condition. -/
def readCondition (room : Nat) (d : Document) : Option Condition := do
  let fields ← readRecord ["field", "operator", "value", "case_sensitive"] 0 room d
  let field ← fields.required "field" (readField (room - 1))
  let operator ← fields.required "operator" (readName operators (room - 1))
  let value ← fields.required "value" (readValue (room - 1))
  let caseSensitive ← fields.required "case_sensitive" readBool
  some ⟨field, operator, value, caseSensitive⟩

/-- The record of a group, given how its items are read in the room that is left. -/
def readGroupRecord (room : Nat) (items : Nat → Document → Option Predicate) (d : Document) :
    Option Group := do
  let fields ← readRecord ["items", "conjunction", "negated"] 0 room d
  let items ← fields.required "items" (readList (room - 1) items)
  let conjunction ← fields.required "conjunction" (readName conjunctions (room - 1))
  let negated ← fields.required "negated" readBool
  some ⟨conjunction, negated, items⟩

/-- A predicate. `depth` counts the groups around it, each of which takes up room, so that it never
runs out before the room does. -/
def readPredicate : (depth room : Nat) → Document → Option Predicate
  | 0, _, _ => none
  | depth + 1, room, d =>
    match readForm room d with
    | some ("Node", some d) => (readCondition (room - 1) d).map .condition
    | some ("Group", some d) =>
      (readGroupRecord (room - 1) (readPredicate depth) d).map Group.toPredicate
    | _ => none

/-- A group. -/
def readGroup (room : Nat) (d : Document) : Option Group :=
  readGroupRecord room (readPredicate (room + 1)) d

end EntitySql.Wire
