import EntitySql.Number.Decimal
import EntitySql.Wire.Reading

/-!
# Values in JSON

A value is written as an object whose one member names its kind; null is the word alone. A decimal,
an identifier, a date or a time is written as its text, bytes as a list of numbers. A decimal is
also read from a number.
-/

namespace EntitySql.Wire

open Json (Document)

/-- A form with content. -/
def form (name : String) (content : Json) : Json := .object [(name, content)]

/-- An integer. -/
def integer (n : Int) : Json := .number (.integer n)

/-- An element of an enumeration, by its name. -/
def name {α : Type} [DecidableEq α] (table : Names α) (a : α) : Json := .string (table.nameOf a)

/-- A value, or null. -/
def optional {α : Type} (write : α → Json) : Option α → Json
  | some a => write a
  | none => .null

mutual
/-- A value. -/
def ofValue : Value → Json
  | .null => .string "Null"
  | .bool b => form "Bool" (.bool b)
  | .int n => form "Int" (integer n.toInt)
  | .float x => form "Float" (.number (.float x))
  | .decimal d => form "Decimal" (.string d.toText)
  | .text s => form "Text" (.string s)
  | .bytes bs => form "Bytes" (.array (bs.map fun b => integer b.toNat))
  | .uuid u => form "Uuid" (.string u.toText)
  | .dateTime t => form "DateTime" (.string (t.toText 'T'))
  | .date d => form "Date" (.string d.toText)
  | .time t => form "Time" (.string t.toText)
  | .json j => form "Json" j
  | .enumeration e =>
    form "Enum" (.object [("name", .string e.name), ("number", integer e.number.toInt)])
  | .list items => form "List" (.array (ofValues items))

/-- The values of a list. -/
def ofValues : List Value → List Json
  | [] => []
  | v :: rest => ofValue v :: ofValues rest
end

/-- Reads a text that spells something. -/
def readSpelled {α : Type} (read : List Char → Option α) (d : Document) : Option α :=
  (readString d).bind fun s => read s.toList

/-- A binary number. -/
def readFloat (d : Document) : Option Binary64 :=
  match readNumber d with
  | some (.integer n) => some (.ofInt n)
  | some (.float x) => some x
  | none => none

/-- A decimal, from its text or from a number. A number with a point counts as its shortest text. -/
def readDecimal (d : Document) : Option Decimal :=
  match d with
  | .string _ =>
    readSpelled (fun s => (Decimal.read? s).orElse fun _ => Decimal.readScientific? s) d
  | d =>
    match readNumber d with
    | some (.integer n) => Decimal.ofParts? n 0
    | some (.float x) => Decimal.read? (Value.floatText x).toList
    | none => none

/-- An element of an enumeration that stands for a value. -/
def readEnumValue (room : Nat) (d : Document) : Option EnumValue := do
  let fields ← readRecord ["name", "number"] 0 room d
  let name ← fields.required "name" readString
  let number ← fields.required "number" readInt64
  some ⟨name, number⟩

/-- The content of a form that needs no values inside. -/
def readContent (room : Nat) (name : String) (d : Document) : Option Value :=
  match name with
  | "Bool" => (readBool d).map .bool
  | "Int" => (readInt64 d).map .int
  | "Float" => (readFloat d).map .float
  | "Decimal" => (readDecimal d).map .decimal
  | "Text" => (readString d).map .text
  | "Bytes" => (readList room (fun _ => readByte) d).map .bytes
  | "Uuid" => (readSpelled Uuid.read? d).map .uuid
  | "DateTime" => (readSpelled DateTime.read? d).map .dateTime
  | "Date" => (readSpelled Date.read? d).map .date
  | "Time" => (readSpelled Time.read? d).map .time
  | "Json" => (d.toJson? room).map .json
  | "Enum" => (readEnumValue room d).map .enumeration
  | _ => none

/-- A value. -/
def readValue : (room : Nat) → Document → Option Value
  | 0, d =>
    match readForm 0 d with
    | some ("Null", none) => some .null
    | _ => none
  | room + 1, d =>
    match readForm (room + 1) d with
    | some ("Null", content) => if isBare content then some .null else none
    | some ("List", some (.array items)) =>
      match room with
      | 0 => none
      | room + 1 => (items.mapM (readValue room)).map .list
    | some (name, some content) => readContent room name content
    | _ => none

end EntitySql.Wire
