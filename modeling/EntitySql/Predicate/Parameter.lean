import EntitySql.Predicate.Basic
import EntitySql.Text.LowerCase
import EntitySql.Text.Numeral

/-!
# Parameters of a predicate

Every value of a filter travels in a parameter. Its name is made of the column name: what is no
letter, digit or underscore becomes an underscore, a list numbers its elements, and a name that is
taken, whatever the case of its letters, gets the least number that makes it free. The text of a
statement and the values bound to it name the parameters by the same function.
-/

namespace EntitySql

/-- A value with the name and declared type of its parameter. -/
structure BoundParameter where
  name : String
  value : Value
  type : Option ValueType

/-- A character of a parameter name. -/
def parameterChar (c : Char) : Char := if Text.isLetterOrNumeral c || c = '_' then c else '_'

/-- The parameter name of a column name. -/
def parameterName (column : String) : String := String.ofList (column.toList.map parameterChar)

/-- A stem with its number; the number zero is not written. -/
def numberedStem (base : String) (n : Nat) : String :=
  if n = 0 then base else base ++ "_" ++ toString n

/-- The names that a stem gives: the stem itself, or a name for each of `count` elements. -/
def stemNames (stem : String) : (count : Option Nat) → List String
  | none => [stem]
  | some count => (List.range count).map fun i => stem ++ "_In_" ++ toString i

/-- The names for a base: those of the stem with the least number for which none is taken. `used`
holds the taken names in lower case; each of them rules out one number at most. -/
def freeNames (used : List String) (base : String) (count : Option Nat) : List String :=
  let names (n : Nat) := stemNames (numberedStem base n) count
  let isFree (n : Nat) := (names n).all fun name => !used.contains (Text.lower name)
  match (List.range (used.length + 1)).find? isFree with
  | some n => names n
  | none => names (used.length + 1)

/-- How many names a condition needs; `some none` stands for a scalar, and a test for null needs
none. -/
def Condition.nameCount (c : Condition) : Option (Option Nat) :=
  if c.operator.isNullCheck then none
  else if c.operator.isList then some (some c.listValues.length)
  else some none

/-- The names of a condition, given the names that are taken. -/
def Condition.parameterNames (used : List String) (c : Condition) : List String :=
  match c.nameCount with
  | none => []
  | some count => freeNames used (parameterName c.field.name) count

/-- The names of every condition in a list, one after the other. -/
def conditionNames (used : List String) : List Condition → List (List String)
  | [] => []
  | c :: rest =>
    let names := c.parameterNames used
    names :: conditionNames (names.map Text.lower ++ used) rest

/-- The names of every condition of a group; `reserved` names are taken from the start. -/
def Group.parameterNames (g : Group) (reserved : List String) : List (List String) :=
  conditionNames (reserved.map Text.lower) g.conditions

/-- The values of a condition under their names. -/
def Condition.bound (c : Condition) (names : List String) : List BoundParameter :=
  let values := if c.operator.isList then c.listValues else [c.value]
  (names.zip values).map fun (name, value) => ⟨name, value, c.field.type⟩

/-- The values of a group under their names. -/
def Group.parameters (g : Group) (reserved : List String) : List BoundParameter :=
  (g.conditions.zip (g.parameterNames reserved)).flatMap fun (c, names) => c.bound names

end EntitySql
