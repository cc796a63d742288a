import EntitySql.Options.Basic
import EntitySql.Toml.Document
import EntitySql.Wire.Names

/-!
# Options in a document

Options are read from a TOML document whose keys are their names. An option that is not there keeps
its standard value, and keys that name no option are passed over, but an option of the wrong kind
spoils the document. An element of an enumeration is given by its name, or as a table whose one key
is the name and whose one value holds nothing.
-/

namespace EntitySql

open Toml (Entries)

/-! ### The names -/

/-- The names of the ways to treat null. -/
def nullSemanticsNames : Names NullSemantics :=
  [("two_valued", .twoValued), ("three_valued", .threeValued)]

/-- The names of the policies for keys. -/
def keyPolicyNames : Names KeyPolicy :=
  [("primary", .primary), ("identity", .identity),
    ("primary_or_else_identity", .primaryOrElseIdentity),
    ("identity_or_else_primary", .identityOrElsePrimary)]

/-- The names of the ways to store elements of enumerations. -/
def enumReprNames : Names EnumRepr := [("name", .name), ("number", .number)]

namespace Options

/-! ### The kinds of options -/

/-- Whether a value holds nothing. -/
def holdsNothing : Toml.Value → Bool
  | .array items => items.isEmpty
  | .table _ entries => entries.isEmpty
  | _ => false

/-- An element of an enumeration. -/
def readElement {α : Type} (names : Names α) : Toml.Value → Option α
  | .string s => names.find? s
  | .table _ [(key, value)] => if holdsNothing value then names.find? key else none
  | _ => none

/-- A number of plans. -/
def readCapacity : Toml.Value → Option (Option Nat)
  | .integer n => if n < 0 then none else some (some n.toNat)
  | _ => none

/-- A truth value. -/
def readFlag : Toml.Value → Option Bool
  | .boolean b => some b
  | _ => none

/-- The value of an option, or its standard value where the table has no such key. -/
def option {α : Type} (entries : Entries) (key : String) (read : Toml.Value → Option α)
    (standard : α) : Option α :=
  match entries.find? key with
  | some value => read value
  | none => some standard

/-! ### Documents -/

/-- The options of a table, which may still be of no use. -/
def ofEntries? (entries : Entries) : Option Options := do
  let dialect ← option entries "dialect" (readElement Wire.dialects) standard.dialect
  let nulls ← option entries "null_semantics" (readElement nullSemanticsNames) standard.nulls
  let keyPolicy ← option entries "key_return" (readElement keyPolicyNames) standard.keyPolicy
  let repr ← option entries "enum_repr" (readElement enumReprNames) standard.repr
  let planCapacity ← option entries "plan_cache_capacity" readCapacity standard.planCapacity
  let schemaCache ← option entries "schema_cache" readFlag standard.schemaCache
  some ⟨dialect, nulls, keyPolicy, repr, planCapacity, schemaCache⟩

/-- The options that the text of a document spells. -/
def ofText (text : String) : Result Options :=
  match (Toml.read? text).bind ofEntries? with
  | some o => o.checked
  | none => .error (.options .unreadable)

/-- The options of a file, given its text if the file is there. -/
def ofFile (text : Option String) : Result Options :=
  match text with
  | some text => ofText text
  | none => .error (.options .unreadable)

/-- The options of a file that need not be there. -/
def ofFileOrStandard (text : Option String) : Result Options :=
  match text with
  | some text => ofText text
  | none => .ok standard

end Options

end EntitySql
