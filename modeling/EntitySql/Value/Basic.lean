import EntitySql.Calendar
import EntitySql.Json.Basic
import EntitySql.Number.Decimal
import EntitySql.Uuid

/-!
# Values

A `Value` is what a filter compares with and what a parameter carries: one of the column types of
a database, an element of an enumeration that has not been stored yet, or a list. `ValueType` is
the declared type of a column or property.
-/

namespace EntitySql

/-- The declared type of a property or column. -/
inductive ValueType where
  | bool | int16 | int32 | int64 | float32 | float64 | decimal | text | bytes | uuid
  | dateTime | date | time | json | enumeration
deriving DecidableEq, Repr

/-- Whether values of the type are integers. -/
def ValueType.isInteger : ValueType → Bool
  | int16 | int32 | int64 => true
  | _ => false

/-- An element of an enumeration: its name and its number. -/
structure EnumValue where
  name : String
  number : Int64
deriving DecidableEq

/-- How an element of an enumeration is stored: as its name or as its number. -/
inductive EnumRepr where
  | name
  | number
deriving DecidableEq, Repr

/-- A value in a filter or a parameter. -/
inductive Value where
  | null
  | bool (b : Bool)
  | int (n : Int64)
  | float (x : Binary64)
  | decimal (d : Decimal)
  | text (s : String)
  | bytes (bs : List UInt8)
  | uuid (u : Uuid)
  | dateTime (t : DateTime)
  | date (d : Date)
  | time (t : Time)
  | json (j : Json)
  | enumeration (e : EnumValue)
  | list (items : List Value)
deriving Inhabited

namespace Value

/-- Whether the value is null. -/
def isNull : Value → Bool
  | null => true
  | _ => false

/-- The text of a text value. -/
def asText : Value → Option String
  | text s => some s
  | _ => none

/-- The items of a list value. -/
def asList : Value → Option (List Value)
  | list items => some items
  | _ => none

/-- The word for the kind of a value in a conversion error. -/
def kind : Value → String
  | null => "null"
  | bool _ => "bool"
  | int _ => "int"
  | float _ => "float"
  | decimal _ => "decimal"
  | text _ => "text"
  | bytes _ => "bytes"
  | uuid _ => "uuid"
  | dateTime _ => "datetime"
  | date _ => "date"
  | time _ => "time"
  | json _ => "json"
  | enumeration _ => "enum"
  | list _ => "list"

/-! ### Equality -/

mutual
/-- Equality of values: binary numbers, decimals and JSON numbers are compared numerically, the rest
by structure. Values of different kinds are different. -/
def equal : Value → Value → Bool
  | null, null => true
  | bool a, bool b => a = b
  | int m, int n => m = n
  | float x, float y => x.equal y
  | decimal c, decimal d => c.equal d
  | text s, text t => s = t
  | bytes a, bytes b => a = b
  | uuid u, uuid v => u = v
  | dateTime a, dateTime b => a = b
  | date a, date b => a = b
  | time a, time b => a = b
  | json a, json b => a.equal b
  | enumeration a, enumeration b => a = b
  | list xs, list ys => equalItems xs ys
  | _, _ => false

/-- Equality of lists of values, item by item. -/
def equalItems : List Value → List Value → Bool
  | [], [] => true
  | x :: xs, y :: ys => equal x y && equalItems xs ys
  | _, _ => false
end

/-! ### Enumerations -/

mutual
/-- The stored form of a value: an element of an enumeration becomes its name or its number, also
inside lists, and everything else stays. -/
def stored (repr : EnumRepr) : Value → Value
  | enumeration e =>
    match repr with
    | .name => text e.name
    | .number => int e.number
  | list items => list (storedItems repr items)
  | v => v

/-- The stored forms of the items of a list. -/
def storedItems (repr : EnumRepr) : List Value → List Value
  | [] => []
  | v :: rest => stored repr v :: storedItems repr rest
end

/-! ### Text -/

/-- An integer in decimal digits. -/
def intText (n : Int) : String := String.ofList (Json.intChars n)

/-- A binary number with the fewest digits that read back and never an exponent; a tie between two
such texts goes up. -/
def floatText (x : Binary64) : String :=
  match x.read with
  | .nan => "NaN"
  | .infinite negative => if negative then "-inf" else "inf"
  | .finite negative m q =>
    String.ofList ((if negative then ['-'] else []) ++ (Number.shortest64 m q .up).positional)

/-- A text between quotes, with nothing escaped. -/
def quoted (s : String) : String := "\"" ++ s ++ "\""

mutual
/-- The value as it is shown in filters and messages. -/
def display : Value → String
  | null => "null"
  | bool b => if b then "true" else "false"
  | int n => intText n.toInt
  | float x => floatText x
  | decimal d => d.toText
  | text s => quoted s
  | bytes bs => "0x" ++ String.ofList (Text.hexBytes bs)
  | uuid u => quoted u.toText
  | dateTime t => quoted (t.toText ' ')
  | date d => quoted d.toText
  | time t => quoted t.toText
  | json j => j.toText
  | enumeration e => e.name
  | list items => "[" ++ displayItems true items ++ "]"

/-- The items of a list with commas between them; `first` tells that nothing stands before them. -/
def displayItems (first : Bool) : List Value → String
  | [] => ""
  | v :: rest => (if first then "" else ", ") ++ display v ++ displayItems false rest
end

end Value

end EntitySql
