import EntitySql.Error
import EntitySql.Json.Document
import EntitySql.Value.Basic

/-!
# Conversion to a declared type

A property has a declared type, and a value that comes from a database or from a caller is
converted to it before it is put in place. The conversion widens and narrows numbers, reads
identifiers and JSON from text, and finds elements of an enumeration by name or number; a value
that does not fit is an error that names the type and what was found.
-/

namespace EntitySql

/-- An enumeration: its name and its elements in order. -/
structure EnumType where
  name : String
  elements : List EnumValue
deriving DecidableEq

/-- The declared type of a property that always has a value. -/
inductive ScalarType where
  | int64 | int32 | int16 | float64 | float32 | bool | text | decimal | uuid | dateTime | date
  | time | bytes | json
  | enumeration (type : EnumType)
deriving DecidableEq

/-- The declared type of a property; an optional property may be null. -/
structure PropertyType where
  scalar : ScalarType
  optional : Bool
deriving DecidableEq

namespace ScalarType

/-- The value type of columns of this type. -/
def valueType : ScalarType → ValueType
  | int64 => .int64
  | int32 => .int32
  | int16 => .int16
  | float64 => .float64
  | float32 => .float32
  | bool => .bool
  | text => .text
  | decimal => .decimal
  | uuid => .uuid
  | dateTime => .dateTime
  | date => .date
  | time => .time
  | bytes => .bytes
  | json => .json
  | enumeration _ => .enumeration

end ScalarType

namespace Value

/-- The error for a value of the wrong kind. -/
def mismatch {α : Type} (expected : String) (v : Value) : Result α :=
  .error (.conversion expected v.kind)

/-- Whether an integer has no more than so many bits, two's complement. -/
def fitsBits (bits : Nat) (n : Int) : Bool :=
  -(twoTo (bits - 1) : Int) ≤ n ∧ n < (twoTo (bits - 1) : Int)

/-- The integer nearest to `n` that has 64 bits. -/
def clamp64 (n : Int) : Int64 :=
  Int64.ofInt (max (-(twoTo 63 : Int)) (min n ((twoTo 63 : Int) - 1)))

/-- A 64-bit integer: an integer, a decimal or binary number without fraction part, or the number of
an element. A binary number beyond the range gives the end of the range, a decimal an error. -/
def toInt64 (v : Value) : Result Int64 :=
  match v with
  | int n => .ok n
  | decimal d =>
    match d.whole? with
    | some n => if fitsBits 64 n then .ok (Int64.ofInt n) else mismatch "i64" v
    | none => mismatch "i64" v
  | float x =>
    match x.whole? with
    | some n => .ok (clamp64 n)
    | none => mismatch "i64" v
  | enumeration e => .ok e.number
  | _ => mismatch "i64" v

/-- An integer of fewer bits: a 64-bit integer that lies in the range. -/
def toIntOf (bits : Nat) (name : String) (v : Value) : Result Int64 :=
  match toInt64 v with
  | .ok n => if fitsBits bits n.toInt then .ok n else .error (.conversion name (intText n.toInt))
  | .error e => .error e

/-- A binary number: itself, or the nearest to an integer or a decimal. -/
def toBinary64 (v : Value) : Result Binary64 :=
  match v with
  | float x => .ok x
  | int n => .ok (.ofInt n.toInt)
  | decimal d => .ok d.toBinary64
  | _ => mismatch "f64" v

/-- The element of an enumeration that a name, a number or an element denotes. -/
def toElement (type : EnumType) (v : Value) : Result EnumValue :=
  let found (e? : Option EnumValue) (text : String) : Result EnumValue :=
    match e? with
    | some e => .ok e
    | none => .error (.conversion type.name text)
  match v with
  | text s => found (type.elements.find? (·.name = s)) v.display
  | int n => found (type.elements.find? (·.number = n)) v.display
  | enumeration e => found (type.elements.find? (·.name = e.name)) e.name
  | _ => found none v.display

/-- Converts a value to a scalar type. -/
def toScalar (type : ScalarType) (v : Value) : Result Value :=
  match type with
  | .int64 => (toInt64 v).map int
  | .int32 => (toIntOf 32 "i32" v).map int
  | .int16 => (toIntOf 16 "i16" v).map int
  | .float64 => (toBinary64 v).map float
  | .float32 => (toBinary64 v).map fun x => float x.toSingle
  | .bool =>
    match v with
    | bool b => .ok (bool b)
    | int n => .ok (bool (n ≠ 0))
    | _ => mismatch "bool" v
  | .text =>
    match v with
    | text s => .ok (text s)
    | enumeration e => .ok (text e.name)
    | _ => mismatch "String" v
  | .decimal =>
    match v with
    | decimal d => .ok (decimal d)
    | int n => .ok (decimal (.ofInt64 n))
    | _ => mismatch "Decimal" v
  | .uuid =>
    match v with
    | uuid u => .ok (uuid u)
    | text s =>
      match Uuid.read? s.toList with
      | some u => .ok (uuid u)
      | none => .error (.conversion "Uuid" s)
    | _ => mismatch "Uuid" v
  | .dateTime =>
    match v with
    | dateTime t => .ok (dateTime t)
    | _ => mismatch "NaiveDateTime" v
  | .date =>
    match v with
    | date d => .ok (date d)
    | dateTime t => .ok (date t.date)
    | _ => mismatch "NaiveDate" v
  | .time =>
    match v with
    | time t => .ok (time t)
    | dateTime t => .ok (time t.time)
    | _ => mismatch "NaiveTime" v
  | .bytes =>
    match v with
    | bytes bs => .ok (bytes bs)
    | _ => mismatch "Vec<u8>" v
  | .json =>
    match v with
    | json j => .ok (json j)
    | text s =>
      match Json.read? s with
      | some j => .ok (json j)
      | none => .error (.conversion "json" s)
    | _ => mismatch "json" v
  | .enumeration type => (toElement type v).map enumeration

/-- Converts a value to a property type; null is a value of an optional one. -/
def toProperty (type : PropertyType) (v : Value) : Result Value :=
  if type.optional ∧ v.isNull then .ok null else toScalar type.scalar v

end Value

end EntitySql
