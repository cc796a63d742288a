import EntitySql.Schema.Catalog

/-!
# The cache of schemas

The columns of a table are fetched from their source once and then kept, with their parameter names,
under the name of the table in lower case. A cache that is turned off keeps nothing and fetches
every time. The count of fetches goes up when the source is asked, whether it answers or not.
-/

namespace EntitySql

/-- Columns of tables that have been fetched. -/
structure SchemaCache where
  enabled : Bool
  entries : List (String × List Column)
  fetches : Nat

namespace SchemaCache

/-- The cache before anything is fetched. -/
def empty (enabled : Bool) : SchemaCache := ⟨enabled, [], 0⟩

/-- The columns that are kept for a table. -/
def lookup? (c : SchemaCache) (table : String) : Option (List Column) :=
  if c.enabled then (c.entries.find? fun (name, _) => name = Text.lower table).map Prod.snd
  else none

/-- The cache after the source was asked. -/
def asked (c : SchemaCache) : SchemaCache := { c with fetches := c.fetches + 1 }

/-- Keeps the columns of a table. -/
def keep (c : SchemaCache) (table : String) (columns : List Column) : SchemaCache :=
  if c.enabled then { c with entries := (Text.lower table, columns) :: c.entries } else c

/-- The columns of a table, fetched if they are not kept. -/
def columns (c : SchemaCache) (source : SchemaSource) (table : String) :
    Except SchemaFault (List Column) × SchemaCache :=
  match c.lookup? table with
  | some columns => (.ok columns, c)
  | none =>
    match source table with
    | .ok columns =>
      let columns := Column.assignNames columns
      (.ok columns, c.asked.keep table columns)
    | .error fault => (.error fault, c.asked)

/-- Forgets the columns of a table. -/
def invalidate (c : SchemaCache) (table : String) : SchemaCache :=
  { c with entries := c.entries.filter fun (name, _) => name ≠ Text.lower table }

/-- Forgets the columns of all tables. -/
def clear (c : SchemaCache) : SchemaCache := { c with entries := [] }

/-- How many tables have columns kept. -/
def size (c : SchemaCache) : Nat := c.entries.length

/-- Whether no columns are kept. -/
def isEmpty (c : SchemaCache) : Bool := c.entries.isEmpty

end SchemaCache

end EntitySql
