/-!
# Errors

Every failure of the library is one of the causes below. They are found while a filter, a
statement or a command is put together, before anything reaches a database. `Error.message` is the
one place that holds the wording.
-/

namespace EntitySql

/-- A required argument is missing, malformed or does not fit. -/
inductive ArgumentFault where
  /-- A column without a name. -/
  | emptyColumnName
  /-- A filter nests too deeply; the position is that of the character that goes too far. -/
  | nestingTooDeep (limit position : Nat)
  /-- A filter ends where more was expected. -/
  | filterEnds (position : Nat)
  /-- A filter goes on with text that does not fit. -/
  | filterText (position : Nat) (near : String)
  /-- The name of the filtered row stands alone. -/
  | rootWithoutProperty (name : String)
  | unknownIdentifier (name : String)
  | unknownMethod (name : String)
  | tableRequired
  | fieldsRequired (table : String)
  | orderRequired (table : String)
  | filterRejected (operation table : String)
  | nothingInsertable (table : String)
  | nothingUpdatable (table : String)
  | aggregateField (function table : String)
  | unknownField (field table : String)
  | filterMismatch (operation table : String)
  | rowCount (operation table : String) (rows given : Nat)
  | unmatchedOrder (order : String)
  /-- A conversion registered for a property refused a value. -/
  | refused (reason : String)
deriving DecidableEq

/-- The dialect cannot do what is asked. -/
inductive UnsupportedFault where
  | hints (dialect : String)
  | mergeQualifiers (dialect table : String)
deriving DecidableEq

/-- A plan's columns do not fit the properties of the entity. -/
inductive BindingFault where
  | unmappedColumn (entity column : String)
  | unmappedKey (entity column : String)
  | readOnlyKey (entity property : String)
deriving DecidableEq

/-- The source of table schemas has no answer. -/
inductive SchemaFault where
  | tableNotFound (table : String)
  | provider (reason : String)
deriving DecidableEq

/-- The engine options cannot be used. -/
inductive OptionsFault where
  | zeroCapacity
  /-- The text spells no options, or there is none. -/
  | unreadable
deriving DecidableEq

/-- The causes of failure. -/
inductive Error where
  | argument (fault : ArgumentFault)
  | unsupportedFeature (fault : UnsupportedFault)
  /-- A filter has a form that no condition expresses; the text shows the part concerned. -/
  | unsupportedExpression (text : String)
  | propertyNotFound (entity member : String) (suggestion : Option String)
  | primaryFieldMissing (table field : String)
  | qualifier (table field : String)
  | range (name : String) (value : Int)
  | binding (fault : BindingFault)
  | conversion (expected found : String)
  | schema (fault : SchemaFault)
  | options (fault : OptionsFault)
deriving DecidableEq

/-- The wording of an argument fault. -/
def ArgumentFault.message : ArgumentFault → String
  | emptyColumnName => "column name must not be empty"
  | nestingTooDeep limit position =>
    "Filter nests deeper than " ++ toString limit ++ " levels at position " ++ toString position
  | filterEnds position =>
    "Invalid filter at position " ++ toString position ++ ": unexpected end of input"
  | filterText position near =>
    "Invalid filter at position " ++ toString position ++ ": '" ++ near ++ "'"
  | rootWithoutProperty name => "'" ++ name ++ "' must be followed by a property"
  | unknownIdentifier name => "Unknown identifier '" ++ name ++ "'"
  | unknownMethod name => "Unknown method '" ++ name ++ "'"
  | tableRequired => "table name is required"
  | fieldsRequired table => "field list is required for table '" ++ table ++ "'"
  | orderRequired table => "ORDER BY is required for a paged query on table '" ++ table ++ "'"
  | filterRejected operation table =>
    operation ++ " on table '" ++ table ++ "' does not accept a filter"
  | nothingInsertable table => "no insertable fields for table '" ++ table ++ "'"
  | nothingUpdatable table => "no updatable fields for table '" ++ table ++ "'"
  | aggregateField function table => function ++ " requires a field on table '" ++ table ++ "'"
  | unknownField field table => "field '" ++ field ++ "' not found on table '" ++ table ++ "'"
  | filterMismatch operation table =>
    "filter does not match the compiled " ++ operation ++ " plan on '" ++ table ++ "'"
  | rowCount operation table rows given =>
    operation ++ " plan on '" ++ table ++ "' binds " ++ toString rows ++ " row(s), got " ++
      toString given
  | unmatchedOrder order => "order value " ++ order ++ " matches no entity"
  | refused reason => reason

/-- The wording of a feature that is not supported. -/
def UnsupportedFault.message : UnsupportedFault → String
  | hints dialect => dialect ++ " does not support table hints"
  | mergeQualifiers dialect table =>
    dialect ++ " cannot merge on non-primary qualifiers of table '" ++ table ++
      "'; use an insert/replace pattern"

/-- The wording of a binding fault. -/
def BindingFault.message : BindingFault → String
  | unmappedColumn entity column =>
    "no property of '" ++ entity ++ "' maps to column '" ++ column ++ "'"
  | unmappedKey entity column =>
    "no property of '" ++ entity ++ "' maps to key column '" ++ column ++ "'"
  | readOnlyKey entity property =>
    "property '" ++ property ++ "' of '" ++ entity ++ "' has no setter for the returned key"

/-- The wording of a schema fault. -/
def SchemaFault.message : SchemaFault → String
  | tableNotFound table => "Table '" ++ table ++ "' not found"
  | provider reason => "Schema provider error: " ++ reason

/-- The wording of an options fault. -/
def OptionsFault.message : OptionsFault → String
  | zeroCapacity => "plan_cache_capacity must be at least 1"
  | unreadable => "no options can be read"

/-- The wording of an error. -/
def Error.message : Error → String
  | argument fault => "Invalid argument: " ++ fault.message
  | unsupportedFeature fault => "Unsupported feature: " ++ fault.message
  | unsupportedExpression text => "Unsupported expression: " ++ text
  | propertyNotFound entity member suggestion =>
    "Property '" ++ member ++ "' not found on '" ++ entity ++ "'" ++
      (match suggestion with
        | some name => ". Did you mean '" ++ name ++ "'?"
        | none => "")
  | primaryFieldMissing table field =>
    "Primary field '" ++ field ++ "' of table '" ++ table ++ "' must be present in the field list"
  | qualifier table field => "Invalid qualifier '" ++ field ++ "' for table '" ++ table ++ "'"
  | range name value => "Value " ++ toString value ++ " is out of range for '" ++ name ++ "'"
  | binding fault => "Compile error: " ++ fault.message
  | conversion expected found => "Cannot convert " ++ found ++ " into " ++ expected
  | schema fault => fault.message
  | options fault => "Configuration error: " ++ fault.message

/-- A result or the cause of its absence. -/
abbrev Result (α : Type) := Except Error α

end EntitySql
