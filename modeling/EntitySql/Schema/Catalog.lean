import EntitySql.Schema.Column

/-!
# Catalogs

A catalog is a fixed description of tables and views. Its columns are found by the full name of the
table, whatever the case of its letters; a later description of a name replaces the columns of an
earlier one, and both stay in the list of objects. A `SchemaSource` is whatever answers for the
columns of a table.
-/

namespace EntitySql

/-- Tables and views. -/
inductive ObjectKind where
  | table
  | view
deriving DecidableEq, Repr

/-- A table or view, with the schema it is in if one is named. -/
structure SchemaObject where
  kind : ObjectKind
  name : String
  schema : Option String
deriving DecidableEq

/-- Gives the columns of a table, in order, or the reason why not. -/
abbrev SchemaSource := String → Except SchemaFault (List Column)

/-- A fixed description of tables and views. -/
structure Catalog where
  objects : List SchemaObject
  /-- The columns under the names in lower case, the latest first. -/
  columns : List (String × List Column)

namespace Catalog

/-- The catalog of nothing. -/
def empty : Catalog := ⟨[], []⟩

/-- The object of a full name; what stands before the first point is its schema. -/
def object (kind : ObjectKind) (name : String) : SchemaObject :=
  let s := name.toList
  match s.dropWhile (fun c => c ≠ '.') with
  | _ :: rest => ⟨kind, String.ofList rest, some (String.ofList (s.takeWhile (fun c => c ≠ '.')))⟩
  | [] => ⟨kind, name, none⟩

/-- Adds a table or view. -/
def add (c : Catalog) (kind : ObjectKind) (name : String) (columns : List Column) : Catalog :=
  ⟨c.objects ++ [object kind name], (Text.lower name, columns) :: c.columns⟩

/-- The columns of a table. -/
def source (c : Catalog) : SchemaSource := fun table =>
  match c.columns.find? fun (name, _) => name = Text.lower table with
  | some (_, columns) => .ok columns
  | none => .error (.tableNotFound table)

end Catalog

end EntitySql
