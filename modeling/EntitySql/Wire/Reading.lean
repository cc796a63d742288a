import EntitySql.Json.Document
import EntitySql.Wire.Names

/-!
# Reading parts of JSON documents

How the parts of a value are found in a document. One of several forms is an object of one member,
whose name says the form; a form without content may be its name alone. A record is an object of its
fields, in which other members are passed over and no field stands twice, or an array of all its
fields in their order. Every bracket that is entered uses up some room, and without room nothing is
read.
-/

namespace EntitySql.Wire

open Json (Document)

/-! ### Simple values -/

/-- A string. -/
def readString : Document → Option String
  | .string s => (Json.stringText? s).map String.ofList
  | _ => none

/-- A truth value. -/
def readBool : Document → Option Bool
  | .bool b => some b
  | _ => none

/-- A number. -/
def readNumber : Document → Option Json.Number
  | .number n => n.value?
  | _ => none

/-- An integer from `low` to `high`. A number with a point or an exponent is none. -/
def readInteger (low high : Int) (d : Document) : Option Int :=
  match readNumber d with
  | some (.integer n) => if low ≤ n ∧ n ≤ high then some n else none
  | _ => none

/-- An integer of 64 bits with a sign. -/
def readInt64 (d : Document) : Option Int64 :=
  (readInteger (-(twoTo 63 : Int)) ((twoTo 63 : Int) - 1) d).map Int64.ofInt

/-- A whole number of 32 bits without a sign. -/
def readWord (d : Document) : Option UInt32 :=
  (readInteger 0 ((twoTo 32 : Int) - 1) d).map fun n => UInt32.ofNat n.toNat

/-- A byte. -/
def readByte (d : Document) : Option UInt8 :=
  (readInteger 0 255 d).map fun n => UInt8.ofNat n.toNat

/-- A value, or null. -/
def readOptional {α : Type} (read : Document → Option α) : Document → Option (Option α)
  | .null => some none
  | d => (read d).map some

/-! ### Lists, forms and records -/

/-- A list, given how its items are read in the room that is left. -/
def readList {α : Type} (room : Nat) (read : Nat → Document → Option α) : Document → Option (List α)
  | .array items =>
    match room with
    | 0 => none
    | room + 1 => items.mapM (read room)
  | _ => none

/-- The name of a form and its content, if it stands in an object. -/
def readForm (room : Nat) : Document → Option (String × Option Document)
  | .string s => (Json.stringText? s).map fun t => (String.ofList t, none)
  | .object [(name, d)] =>
    match room with
    | 0 => none
    | _ + 1 => (Json.stringText? name).map fun t => (String.ofList t, some d)
  | _ => none

/-- Whether the content of a form is that of a form without content. -/
def isBare : Option Document → Bool
  | none => true
  | some .null => true
  | some _ => false

/-- An element of an enumeration. -/
def readName {α : Type} (table : Names α) (room : Nat) (d : Document) : Option α :=
  match readForm room d with
  | some (name, content) => if isBare content then table.find? name else none
  | none => none

/-- The fields of a record. -/
abbrev Fields := List (String × Document)

/-- Puts the members of an object into the fields of a record. -/
def fieldsOfMembers (names : List String) :
    List (List Json.StringPiece × Document) → Option Fields
  | [] => some []
  | (name, d) :: rest =>
    match Json.stringText? name, fieldsOfMembers names rest with
    | some name, some fields =>
      let name := String.ofList name
      if name ∉ names then some fields
      else if fields.any fun (n, _) => n = name then none
      else some ((name, d) :: fields)
    | _, _ => none

/-- The fields of a record with these names; an array may leave out the last `spare` of them. -/
def readFields (names : List String) (spare : Nat) : Document → Option Fields
  | .object members => fieldsOfMembers names members
  | .array items =>
    if items.length ≤ names.length ∧ names.length ≤ items.length + spare then some (names.zip items)
    else none
  | _ => none

/-- The fields of a record, whose bracket needs room; an array may leave out the last `spare` of
them. -/
def readRecord (names : List String) (spare : Nat) (room : Nat) (d : Document) : Option Fields :=
  match room with
  | 0 => none
  | _ + 1 => readFields names spare d

namespace Fields

/-- A field that has to be there. -/
def required {α : Type} (fields : Fields) (name : String) (read : Document → Option α) : Option α :=
  match List.find? (fun (n, _) => n = name) fields with
  | some (_, d) => read d
  | none => none

/-- A field that may be null or missing. -/
def optional {α : Type} (fields : Fields) (name : String) (read : Document → Option α) :
    Option (Option α) :=
  match List.find? (fun (n, _) => n = name) fields with
  | some (_, d) => readOptional read d
  | none => some none

end Fields

/-- A pair in an array. -/
def readPair : Document → Option (Document × Document)
  | .array [a, b] => some (a, b)
  | _ => none

/-! ### Texts -/

/-- What a text spells, given how its document is read in the room there is. -/
def readText {α : Type} (read : (room : Nat) → Document → Option α) (text : String) : Option α :=
  (Document.read? text).bind (read Json.maxNesting)

end EntitySql.Wire
