import EntitySql.Error
import EntitySql.Predicate.Parameter
import EntitySql.Text.Nearest

/-!
# Columns

A `Column` is a column of a table as the database describes it. Columns are found by name, whatever
the case of the letters from A to Z. The columns of a table get distinct parameter names, again
whatever the case: where the plain name is taken, the column keeps a name of its own.
-/

namespace EntitySql

/-- A column of a table. -/
structure Column where
  name : String
  primary : Bool
  identity : Bool
  nullable : Bool
  type : ValueType
  size : Option UInt32
  precision : Option UInt8
  scale : Option UInt8
  databaseType : Option String
  hasDefault : Bool
  generated : Bool
  provider : Option String
  /-- The parameter name, where the name of the column does not give it. -/
  parameter : Option String
deriving DecidableEq

namespace Column

/-- A plain column. Its name is not blank. -/
def make (name : String) (type : ValueType) : Result Column :=
  if (Text.trim name).isEmpty then .error (.argument .emptyColumnName)
  else .ok ⟨name, false, false, false, type, none, none, none, none, false, false, none, none⟩

/-- The parameter name of the column. -/
def parameterName (c : Column) : String := c.parameter.getD (EntitySql.parameterName c.name)

/-- The precision and scale of a number, if both are known. -/
def numericPrecision (c : Column) : Option (UInt8 × UInt8) :=
  match c.precision, c.scale with
  | some p, some s => some (p, s)
  | _, _ => none

/-- Whether the database alone writes the column. -/
def readOnly (c : Column) : Bool := c.generated || c.identity

/-- Whether the column has this name, whatever the case of its letters. -/
def isNamed (c : Column) (name : String) : Bool := Text.equalIgnoringCase c.name name

/-- The column of this name. -/
def find? (columns : List Column) (name : String) : Option Column :=
  columns.find? fun c => c.isNamed name

/-- Gives every column a parameter name that no column before it has; `used` holds the taken names
in lower case. -/
def assignNamesFrom (used : List String) : List Column → List Column
  | [] => []
  | c :: rest =>
    let base := EntitySql.parameterName c.name
    let name := (freeNames used base none).headD base
    { c with parameter := if name = base then none else some name } ::
      assignNamesFrom (Text.lower name :: used) rest

/-- Gives every column of a table a parameter name of its own. -/
def assignNames (columns : List Column) : List Column := assignNamesFrom [] columns

/-- Gives columns the parameter names that the columns of the same names have in the table. -/
def syncNames (columns schema : List Column) : List Column :=
  columns.map fun c =>
    match find? schema c.name with
    | some s => { c with parameter := s.parameter }
    | none => c

end Column

end EntitySql
