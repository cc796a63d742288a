import EntitySql.Sql.Guard
import EntitySql.Sql.Statement

/-!
# Building statements

`statements` gives the statements of an operation in a dialect. The dialects differ in how they
limit rows, how a statement gives back the key of a row, and how a row is inserted or updated; a
batch is one statement over all its rows where the dialect allows that, otherwise one for each row.
-/

namespace EntitySql.Sql

/-- How a statement gives back the key of the row that it wrote. -/
inductive KeyRetrieval where
  /-- By a clause in front of the values. -/
  | output
  /-- By a clause at the end. -/
  | returning
  /-- By a second statement, which calls a function for a key that the database made. -/
  | select (call : String)
deriving DecidableEq, Repr

/-- How a dialect gives back keys. -/
def keyRetrieval : Dialect → KeyRetrieval
  | .sqlServer => .output
  | .postgres => .returning
  | .mySql => .select "LAST_INSERT_ID()"
  | .sqlite => .select "last_insert_rowid()"

/-- The table of a request with the hints that the dialect knows. -/
def tableRef (d : Dialect) (r : Request) : TableRef :=
  match r.hints with
  | some hints =>
    if !isBlankText hints ∧ d.supportsHints then ⟨r.table, some (Text.trim hints)⟩
    else ⟨r.table, none⟩
  | none => ⟨r.table, none⟩

/-- The names of columns. -/
def columnNames (columns : List Column) : List String := columns.map Column.name

/-- The placeholders of columns. -/
def placeholders (columns : List Column) (row : Option Nat) : List Operand :=
  columns.map fun c => .placeholder (c.parameterAt row)

/-- The columns, each with its placeholder. -/
def assignments (columns : List Column) (row : Option Nat) : List Assignment :=
  columns.map fun c => ⟨c.name, .placeholder (c.parameterAt row)⟩

/-- The condition that key columns have the values of their placeholders. -/
def keyCondition (keys : List Column) (row : Option Nat) : SearchCondition :=
  .ofKeys keys fun k => k.parameterAt row

/-- The condition of the filter of a statement that writes nothing. -/
def filterCondition (r : Request) : Option SearchCondition := activeCondition r.predicate []

/-- The statements of every row of a batch, or of a single row. -/
def eachRow (batch : Option Nat) (row : Option Nat → List Statement) : List Statement :=
  match batch with
  | some n => (List.range n).flatMap fun i => row (some i)
  | none => row none

/-! ### Reading -/

/-- Guards of a query for rows. -/
def queryGuards (d : Dialect) (r : Request) : Result Unit := do
  requireTable r
  checkHints d r
  requireFields r

/-- Guards of a query for a part of an order. -/
def pageGuards (d : Dialect) (r : Request) : Result Unit := do
  queryGuards d r
  requireOrder r

/-- Guards of a statement that names no columns. -/
def tableGuards (d : Dialect) (r : Request) : Result Unit := do
  requireTable r
  checkHints d r

/-- The query for the columns asked for. -/
def selectFields (d : Dialect) (r : Request) (top : Option Nat) (limit : RowLimit) : Statement :=
  .select
    ⟨top, (columnNames r.fields).map .column, tableRef d r, filterCondition r, r.orderBy, limit⟩

/-- The query for a single value. -/
def selectValue (d : Dialect) (r : Request) (top : Option Nat) (item : SelectItem)
    (limit : RowLimit) : Statement :=
  .select ⟨top, [item], tableRef d r, filterCondition r, [], limit⟩

/-- The query for all rows, or for the first of them. -/
def query (d : Dialect) (r : Request) (top : Option Int64) : Result Statement := do
  queryGuards d r
  match top with
  | none => return selectFields d r none .all
  | some n => do
    let n ← positive "top" n
    match d with
    | .sqlServer => return selectFields d r (some n) .all
    | _ => return selectFields d r none (.limit n)

/-- The query for a page. The rows of the page are numbered from one, or counted from zero. -/
def pagedQuery (d : Dialect) (r : Request) (page rowsPerBatch : Int64) : Result Statement := do
  pageGuards d r
  let index ← nonNegative "page" page
  let rows ← positive "rows_per_batch" rowsPerBatch
  match d with
  | .sqlServer => do
    let first ← rowPosition "page" page (index * rows + 1)
    let last ← rowPosition "page" page (first + (rows - 1))
    return .page ⟨columnNames r.fields, tableRef d r, filterCondition r, r.orderBy, first, last⟩
  | _ => do
    let skip ← rowPosition "page" page (index * rows)
    return selectFields d r none (.limitOffset rows skip)

/-- The query for some rows after others. -/
def skipQuery (d : Dialect) (r : Request) (skip take : Int64) : Result Statement := do
  pageGuards d r
  let skip ← nonNegative "skip" skip
  let take ← positive "take" take
  match d with
  | .sqlServer => return selectFields d r none (.offsetFetch skip take)
  | _ => return selectFields d r none (.limitOffset take skip)

/-- The query whether there is a row. -/
def existsQuery (d : Dialect) (r : Request) : Result Statement := do
  tableGuards d r
  let item := SelectItem.one "ExistsValue"
  match d with
  | .sqlServer => return selectValue d r (some 1) item .all
  | _ => return selectValue d r none item (.limit 1)

/-- The query for the number of rows. -/
def countQuery (d : Dialect) (r : Request) : Result Statement := do
  tableGuards d r
  let function := match d with | .sqlServer => "COUNT_BIG" | _ => "COUNT"
  return selectValue d r none (.count function "CountValue") .all

/-- The query for a function of the values of a column. -/
def aggregateQuery (d : Dialect) (r : Request) (function : Aggregate) (field : String) :
    Result Statement := do
  tableGuards d r
  if isBlankText field then .error (.argument (.aggregateField function.function r.table))
  else if !r.schema.isEmpty ∧ (Column.find? r.schema field).isNone then
    .error (.argument (.unknownField field r.table))
  else
    return selectValue d r none
      (.aggregate function.function (nameParts field) function.resultColumn) .all

/-! ### Inserting -/

/-- The columns that an insertion writes, after its guards. -/
def insertColumns (d : Dialect) (r : Request) : Result (List Column) := do
  requireTable r
  checkHints d r
  requireFields r
  requirePrimary r
  if r.insertable.isEmpty then .error (.argument (.nothingInsertable r.table))
  else return r.insertable

/-- The statement that selects the key of the row just written: the value of a function where the
database made the key, the parameter of the key where it was bound. -/
def trailingKey (r : Request) (inputs : List Column) (call : String) (row : Option Nat) :
    List Statement :=
  match r.key with
  | some key =>
    if key.identity then [.selectKey (.function call) row]
    else if Request.contains inputs key then [.selectKey (.placeholder (key.parameterAt row)) row]
    else []
  | none => []

/-- The insertion of one row. -/
def insertRow (d : Dialect) (r : Request) (inputs : List Column) (row : Option Nat) :
    List Statement :=
  let plain : Insert :=
    ⟨tableRef d r, columnNames inputs, [placeholders inputs row], .fail, none, none⟩
  match keyRetrieval d with
  | .output => [.insert { plain with output := r.key.map Column.name }]
  | .returning => [.insert { plain with returning := r.key.map fun k => ⟨k.name, row⟩ }]
  | .select call => .insert plain :: trailingKey r inputs call row

/-- The rows of a batch, each with its number at the end. -/
def numberedRows (inputs : List Column) (rows : Nat) : List (List Operand) :=
  (List.range rows).map fun i => placeholders inputs (some i) ++ [.number i]

/-- The insertion of one row. -/
def insert (d : Dialect) (r : Request) : Result (List Statement) := do
  let inputs ← insertColumns d r
  return insertRow d r inputs none

/-- The insertion of a batch of rows. -/
def insertAll (d : Dialect) (r : Request) (batchSize : Int64) : Result (List Statement) := do
  let inputs ← insertColumns d r
  rejectPredicate r (.insertAll batchSize)
  let rows ← positive "batch_size" batchSize
  parameterLimit d batchSize rows inputs.length
  match r.key, keyRetrieval d with
  | none, _ =>
    return [.insert ⟨tableRef d r, columnNames inputs,
      (List.range rows).map fun i => placeholders inputs (some i), .fail, none, none⟩]
  | some key, .output =>
    return [.merge ⟨tableRef d r,
      .rows (columnNames inputs ++ [sourceOrderColumn]) (numberedRows inputs rows), none,
      columnNames inputs, [], some key.name, true⟩]
  | some _, _ => return eachRow (some rows) (insertRow d r inputs)

/-! ### Merging -/

/-- The columns of a merge, after its guards. -/
def mergeColumns (d : Dialect) (r : Request) : Result Request.MergeColumns := do
  requireTable r
  checkHints d r
  requireFields r
  requirePrimary r
  r.mergeColumns

/-- The values of an insertion that may meet a row with the same key. An identity of zero, which a
row has before it is stored, becomes null, so that the database makes one. -/
def insertValues (inputs : List Column) (row : Option Nat) : List Operand :=
  inputs.map fun c =>
    if c.identity then .placeholderOrNull (c.parameterAt row) else .placeholder (c.parameterAt row)

/-- The merge of one row or of a batch as one statement. -/
def mergeStatement (d : Dialect) (r : Request) (m : Request.MergeColumns) (batch : Option Nat) :
    List Statement :=
  let source : MergeSource :=
    match batch with
    | none => .row (assignments m.inputs none)
    | some n => .rows (columnNames m.inputs ++ [sourceOrderColumn]) (numberedRows m.inputs n)
  [.merge ⟨tableRef d r, source, some (columnNames m.keys), columnNames m.writable,
    columnNames m.set, r.key.map Column.name, batch.isSome⟩]

/-- The merge of one row by an insertion that updates on conflict. A key that the database writes
cannot be inserted, so such a row is updated, or inserted without the key where none matched. -/
def conflictRow (d : Dialect) (r : Request) (m : Request.MergeColumns) (row : Option Nat) :
    List Statement :=
  match m.keys.find? fun k => k.readOnly with
  | some made =>
    [.updateOrInsert ⟨tableRef d r, keyCondition m.keys row, assignments m.set row,
      columnNames m.writable, placeholders m.writable row, (r.key.getD made).name, r.key.isSome,
      row⟩]
  | none =>
    [.insert ⟨tableRef d r, columnNames m.inputs, [placeholders m.inputs row],
      .onKey (columnNames m.keys) (m.set.map fun c => ⟨c.name, .excluded c.name⟩), none,
      r.key.map fun k => ⟨k.name, row⟩⟩]

/-- What a merge assigns on a duplicate key: an identity is remembered as the last key, and without
anything else to write the first key stays as it is. -/
def duplicateAssignments (r : Request) (m : Request.MergeColumns) : List Assignment :=
  let identity :=
    (r.key.filter fun k => k.identity).toList.map fun k => ⟨k.name, .remembered k.name⟩
  let set := identity ++ m.set.map fun c => ⟨c.name, .proposed c.name⟩
  if set.isEmpty then (m.keys.take 1).map fun k => ⟨k.name, .column k.name⟩ else set

/-- The merge of one row by an insertion that updates on a duplicate key, or that replaces. -/
def upsertRow (d : Dialect) (r : Request) (m : Request.MergeColumns) (conflict : Conflict)
    (row : Option Nat) : List Statement :=
  .insert ⟨tableRef d r, columnNames m.inputs, [insertValues m.inputs row], conflict, none, none⟩ ::
    (match keyRetrieval d with
      | .select call => trailingKey r m.inputs call row
      | _ => [])

/-- Replacement deletes a row that meets any unique constraint, so it may stand for a merge only if
the qualifiers are exactly the primary columns. -/
def requirePrimaryQualifiers (d : Dialect) (r : Request) (keys : List Column) : Result Unit :=
  let primaries := r.schema.filter fun c => c.primary
  if !primaries.isEmpty ∧ primaries.length = keys.length ∧
      keys.all (Request.contains primaries) then
    .ok ()
  else .error (.unsupportedFeature (.mergeQualifiers d.name r.table))

/-- The merge of one row or of a batch. -/
def mergeRows (d : Dialect) (r : Request) (m : Request.MergeColumns) (batch : Option Nat) :
    Result (List Statement) :=
  match d with
  | .sqlServer => .ok (mergeStatement d r m batch)
  | .postgres => .ok (eachRow batch (conflictRow d r m))
  | .mySql => .ok (eachRow batch (upsertRow d r m (.onDuplicate (duplicateAssignments r m))))
  | .sqlite => do
    requirePrimaryQualifiers d r m.keys
    return eachRow batch (upsertRow d r m .replace)

/-- The merge of one row. -/
def merge (d : Dialect) (r : Request) : Result (List Statement) := do
  let m ← mergeColumns d r
  mergeRows d r m none

/-- The merge of a batch of rows. -/
def mergeAll (d : Dialect) (r : Request) (batchSize : Int64) : Result (List Statement) := do
  let m ← mergeColumns d r
  rejectPredicate r (.mergeAll batchSize)
  let rows ← positive "batch_size" batchSize
  parameterLimit d batchSize rows m.inputs.length
  mergeRows d r m (some rows)

/-! ### Updating and deleting -/

/-- The update of the rows of a filter, or of the row with a key. -/
def update (d : Dialect) (r : Request) : Result Statement := do
  queryGuards d r
  let u ← r.updateColumns
  let filter :=
    match r.activePredicate with
    | some g => .ofGroup g (u.set.map Column.parameterName)
    | none => keyCondition u.keys none
  return .update (tableRef d r) (assignments u.set none) filter

/-- The update of a batch of rows, each by its key. -/
def updateAll (d : Dialect) (r : Request) (batchSize : Int64) : Result (List Statement) := do
  queryGuards d r
  rejectPredicate r (.updateAll batchSize)
  let rows ← positive "batch_size" batchSize
  let u ← r.updateColumns
  parameterLimit d batchSize rows (u.set.length + u.keys.length)
  return eachRow (some rows) fun row =>
    [.update (tableRef d r) (assignments u.set row) (keyCondition u.keys row)]

/-- The deletion of the rows of a filter, or of the row with a key. -/
def delete (d : Dialect) (r : Request) : Result Statement := do
  tableGuards d r
  let keys ← r.deleteKeys
  let filter := if keys.isEmpty then filterCondition r else some (keyCondition keys none)
  return .delete (tableRef d r) filter

/-- The deletion of all rows. -/
def deleteAll (d : Dialect) (r : Request) : Result Statement := do
  tableGuards d r
  rejectPredicate r .deleteAll
  return .delete (tableRef d r) none

/-- The emptying of a table, by a deletion where the dialect has nothing else. Hints do not
apply. -/
def truncate (d : Dialect) (r : Request) : Result Statement := do
  tableGuards d r
  match d with
  | .sqlite => return .delete ⟨r.table, none⟩ none
  | .postgres => return .truncate ⟨r.table, none⟩ true
  | _ => return .truncate ⟨r.table, none⟩ false

/-! ### All operations -/

/-- The statements of an operation. -/
def statements (d : Dialect) (op : Operation) (r : Request) : Result (List Statement) :=
  let one (s : Result Statement) : Result (List Statement) := s.map fun s => [s]
  match op with
  | .query top => one (query d r top)
  | .pagedQuery page rows => one (pagedQuery d r page rows)
  | .skipQuery skip take => one (skipQuery d r skip take)
  | .insert => insert d r
  | .insertAll n => insertAll d r n
  | .update => one (update d r)
  | .updateAll n => updateAll d r n
  | .merge => merge d r
  | .mergeAll n => mergeAll d r n
  | .delete => one (delete d r)
  | .deleteAll => one (deleteAll d r)
  | .exists => one (existsQuery d r)
  | .count => one (countQuery d r)
  | .aggregate function field => one (aggregateQuery d r function field)
  | .truncate => one (truncate d r)

end EntitySql.Sql
