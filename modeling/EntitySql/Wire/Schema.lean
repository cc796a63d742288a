import EntitySql.Wire.Value

/-!
# Columns, operations and orders in JSON

The records and forms that say what a statement is about. A column may leave out the last of its
fields, its parameter name, which is written only where the column has one.
-/

namespace EntitySql.Wire

open Json (Document)

/-! ### Columns -/

/-- The fields of a column, in order. -/
def columnFields : List String :=
  ["name", "is_primary", "is_identity", "is_nullable", "value_type", "size", "precision", "scale",
    "database_type", "has_default_value", "is_generated", "provider", "parameter"]

/-- A column. -/
def ofColumn (c : Column) : Json :=
  .object ([("name", .string c.name),
    ("is_primary", .bool c.primary), ("is_identity", .bool c.identity),
    ("is_nullable", .bool c.nullable), ("value_type", name valueTypes c.type),
    ("size", optional (fun n => integer n.toNat) c.size),
    ("precision", optional (fun n => integer n.toNat) c.precision),
    ("scale", optional (fun n => integer n.toNat) c.scale),
    ("database_type", optional .string c.databaseType), ("has_default_value", .bool c.hasDefault),
    ("is_generated", .bool c.generated), ("provider", optional .string c.provider)] ++
    (c.parameter.map fun p => ("parameter", .string p)).toList)

/-- A column. -/
def readColumn (room : Nat) (d : Document) : Option Column := do
  let fields ← readRecord columnFields 1 room d
  let name ← fields.required "name" readString
  let primary ← fields.required "is_primary" readBool
  let identity ← fields.required "is_identity" readBool
  let nullable ← fields.required "is_nullable" readBool
  let type ← fields.required "value_type" (readName valueTypes (room - 1))
  let size ← fields.optional "size" readWord
  let precision ← fields.optional "precision" readByte
  let scale ← fields.optional "scale" readByte
  let databaseType ← fields.optional "database_type" readString
  let hasDefault ← fields.required "has_default_value" readBool
  let generated ← fields.required "is_generated" readBool
  let provider ← fields.optional "provider" readString
  let parameter ← fields.optional "parameter" readString
  some ⟨name, primary, identity, nullable, type, size, precision, scale, databaseType, hasDefault,
    generated, provider, parameter⟩

/-! ### Operations -/

/-- The operations without content. -/
def plainOperations : Names Operation :=
  [("Insert", .insert), ("Update", .update), ("Merge", .merge), ("Delete", .delete),
    ("DeleteAll", .deleteAll), ("Exists", .exists), ("Count", .count), ("Truncate", .truncate)]

/-- A whole number of 64 bits. -/
def int64 (n : Int64) : Json := integer n.toInt

/-- An operation. -/
def ofOperation (op : Operation) : Json :=
  let content : List (String × Json) :=
    match op with
    | .query top => [("top", optional int64 top)]
    | .pagedQuery page rows => [("page", int64 page), ("rows_per_batch", int64 rows)]
    | .skipQuery skip take => [("skip", int64 skip), ("take", int64 take)]
    | .insertAll n | .updateAll n | .mergeAll n => [("batch_size", int64 n)]
    | .aggregate f field => [("function", name aggregates f), ("field", .string field)]
    | _ => []
  if content.isEmpty then .string op.name else form op.name (.object content)

/-- The content of an operation that has one. -/
def readOperationContent (room : Nat) (form : String) (d : Document) : Option Operation :=
  let number (fields : Fields) (name : String) := fields.required name readInt64
  match form with
  | "Query" => do
    let fields ← readRecord ["top"] 0 room d
    let top ← fields.optional "top" readInt64
    some (.query top)
  | "PagedQuery" => do
    let fields ← readRecord ["page", "rows_per_batch"] 0 room d
    some (.pagedQuery (← number fields "page") (← number fields "rows_per_batch"))
  | "SkipQuery" => do
    let fields ← readRecord ["skip", "take"] 0 room d
    some (.skipQuery (← number fields "skip") (← number fields "take"))
  | "InsertAll" => do
    let fields ← readRecord ["batch_size"] 0 room d
    some (.insertAll (← number fields "batch_size"))
  | "UpdateAll" => do
    let fields ← readRecord ["batch_size"] 0 room d
    some (.updateAll (← number fields "batch_size"))
  | "MergeAll" => do
    let fields ← readRecord ["batch_size"] 0 room d
    some (.mergeAll (← number fields "batch_size"))
  | "Aggregate" => do
    let fields ← readRecord ["function", "field"] 0 room d
    let f ← fields.required "function" (readName aggregates (room - 1))
    let field ← fields.required "field" readString
    some (.aggregate f field)
  | _ => none

/-- An operation. -/
def readOperation (room : Nat) (d : Document) : Option Operation :=
  match readForm room d with
  | some (form, content) =>
    match plainOperations.find? form, content with
    | some op, content => if isBare content then some op else none
    | none, some d => readOperationContent (room - 1) form d
    | none, none => none
  | none => none

/-! ### Orders and schema objects -/

/-- A column that rows are ordered by. -/
def ofOrderField (o : OrderField) : Json :=
  .object [("name", .string o.name), ("order", name sortOrders o.order)]

/-- A column that rows are ordered by. -/
def readOrderField (room : Nat) (d : Document) : Option OrderField := do
  let fields ← readRecord ["name", "order"] 0 room d
  let name ← fields.required "name" readString
  let order ← fields.required "order" (readName sortOrders (room - 1))
  some ⟨name, order⟩

/-- A table or view. -/
def ofSchemaObject (o : SchemaObject) : Json :=
  .object [("kind", name objectKinds o.kind), ("name", .string o.name),
    ("schema", optional .string o.schema)]

/-- A table or view. -/
def readSchemaObject (room : Nat) (d : Document) : Option SchemaObject := do
  let fields ← readRecord ["kind", "name", "schema"] 0 room d
  let kind ← fields.required "kind" (readName objectKinds (room - 1))
  let name ← fields.required "name" readString
  let schema ← fields.optional "schema" readString
  some ⟨kind, name, schema⟩

/-! ### Dialects -/

/-- A dialect. -/
def ofDialect (d : Dialect) : Json := name dialects d

/-- A dialect. -/
def readDialect (room : Nat) (d : Document) : Option Dialect := readName dialects room d

end EntitySql.Wire
