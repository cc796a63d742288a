import EntitySql.Text.Nearest
import EntitySql.Value.Conversion

/-!
# Entities

An `EntityMap` describes how the values of a type are kept in a table: its properties in order,
each with its column and declared type. A `Row` holds one value for every property, in that order.
Reading a property gives its value; writing converts a value to the declared type first, and
leaves the row as it was if that fails.
-/

namespace EntitySql

/-- A property of an entity and the column it is kept in. -/
structure Property where
  name : String
  column : String
  type : PropertyType
  /-- How elements of an enumeration are stored, where that is fixed for the property. -/
  repr : Option EnumRepr
  readOnly : Bool
deriving DecidableEq

/-- How an entity is kept in a table. -/
structure EntityMap where
  entity : String
  table : String
  properties : List Property
deriving DecidableEq

namespace Property

/-- The value type of the column. -/
def valueType (p : Property) : ValueType := p.type.scalar.valueType

/-- The value as it is stored in the column of the property; only elements of enumerations and
lists of them change. -/
def columnValue (p : Property) (fallback : EnumRepr) (v : Value) : Value :=
  v.stored (p.repr.getD fallback)

end Property

namespace EntityMap

/-- The property of this name. -/
def property? (map : EntityMap) (name : String) : Option Property :=
  map.properties.find? fun p => p.name = name

/-- The property kept in this column, whatever the case of its letters. -/
def propertyForColumn? (map : EntityMap) (column : String) : Option Property :=
  map.properties.find? fun p => Text.equalIgnoringCase p.column column

/-- The property of this name, or the error that suggests the nearest one. -/
def resolve (map : EntityMap) (member : String) : Result Property :=
  match map.property? member with
  | some p => .ok p
  | none =>
    .error (.propertyNotFound map.entity member
      (Text.nearest? member (map.properties.map Property.name)))

/-- The columns of the properties. -/
def columns (map : EntityMap) : List String := map.properties.map Property.column

/-- The column that a property or column name means; another name stands for itself. -/
def columnName (map : EntityMap) (name : String) : String :=
  match (map.property? name).orElse fun _ => map.propertyForColumn? name with
  | some p => p.column
  | none => name

end EntityMap

/-! ### Rows -/

/-- The values of the properties of an entity, in their order. -/
abbrev Row := List Value

/-- The value of a type before anything is assigned. -/
def ScalarType.initial : ScalarType → Value
  | .int64 | .int32 | .int16 => .int 0
  | .float64 | .float32 => .float (.ofInt 0)
  | .bool => .bool false
  | .text => .text ""
  | .decimal => .decimal default
  | .uuid => .uuid .nil
  | .dateTime => .dateTime ⟨.epoch, .midnight⟩
  | .date => .date .epoch
  | .time => .time .midnight
  | .bytes => .bytes []
  | .json => .json .null
  | .enumeration type =>
    match type.elements with
    | e :: _ => .enumeration e
    | [] => .null

/-- The value of a property before anything is assigned. -/
def PropertyType.initial (type : PropertyType) : Value :=
  if type.optional then .null else type.scalar.initial

namespace EntityMap

/-- The row before anything is assigned. -/
def initialRow (map : EntityMap) : Row := map.properties.map fun p => p.type.initial

/-- The place of a property among the properties of the entity. -/
def index (map : EntityMap) (p : Property) : Nat := map.properties.findIdx fun q => q = p

/-- The value of a property in a row. -/
def get (map : EntityMap) (row : Row) (p : Property) : Value := row.getD (map.index p) .null

/-- The row with a new value of a property, converted to the declared type. -/
def set (map : EntityMap) (row : Row) (p : Property) (v : Value) : Result Row :=
  (v.toProperty p.type).map fun v => List.set row (map.index p) v

end EntityMap

end EntitySql
