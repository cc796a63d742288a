import EntitySql.Sql.Operation
import EntitySql.Sql.SearchCondition

/-!
# Statements

A `Statement` is a statement before it is text: which columns it writes, from which values, under
which condition, and which key it gives back. `Statement.fragments` writes it. The forms are those
that the four dialects need for the same operations.
-/

namespace EntitySql.Sql

/-! ### Parts -/

/-- The name of the column that returned keys stand in. -/
def resultColumn : String := "Result"

/-- The name of the column that tells which row of a batch a returned key belongs to. -/
def orderColumn : String := "OrderColumn"

/-- The name of the column that numbers the rows of a batch in the source of a merge. -/
def sourceOrderColumn : String := "__OrderColumn"

/-- A table, with its hints if there are any. -/
structure TableRef where
  name : String
  hints : Option String
deriving DecidableEq

/-- A value in a statement. -/
inductive Operand where
  | placeholder (parameter : String)
  /-- The value of a parameter, or null where it is zero. -/
  | placeholderOrNull (parameter : String)
  | number (n : Nat)
  | function (call : String)
  | column (name : String)
  /-- A column of the source of a merge. -/
  | source (name : String)
  /-- A column of the row that was to be inserted, as one dialect says it, and as another does. -/
  | excluded (name : String)
  | proposed (name : String)
  /-- The value of a column, remembered as the last key. -/
  | remembered (name : String)
deriving DecidableEq

/-- A column that is given a value. -/
structure Assignment where
  column : String
  value : Operand
deriving DecidableEq

/-- A column of a result. -/
inductive SelectItem where
  | column (name : String)
  /-- The number one under a name. -/
  | one (resultName : String)
  | count (function resultName : String)
  | aggregate (function : String) (column : List String) (resultName : String)
deriving DecidableEq

/-- Which rows of a result are taken, at the end of a query. -/
inductive RowLimit where
  | all
  | limit (n : Nat)
  | limitOffset (n skip : Nat)
  | offsetFetch (skip n : Nat)
deriving DecidableEq

/-- A query. -/
structure Select where
  top : Option Nat
  items : List SelectItem
  table : TableRef
  filter : Option SearchCondition
  order : List OrderField
  limit : RowLimit

/-- A query for the rows `first` to `last` of an order, by numbering the rows. -/
structure NumberedPage where
  columns : List String
  table : TableRef
  filter : Option SearchCondition
  order : List OrderField
  first : Nat
  last : Nat

/-- What an insertion does with a row that is there already. -/
inductive Conflict where
  | fail
  | replace
  /-- Updates the row with the same key, or leaves it if nothing is assigned. -/
  | onKey (keys : List String) (set : List Assignment)
  | onDuplicate (set : List Assignment)

/-- A key that is given back, with the number of its row in a batch. -/
structure ReturnedKey where
  column : String
  row : Option Nat
deriving DecidableEq

/-- An insertion of rows. -/
structure Insert where
  table : TableRef
  columns : List String
  rows : List (List Operand)
  conflict : Conflict
  /-- The key given back by the clause in front of the values. -/
  output : Option String
  /-- The key given back by the clause at the end. -/
  returning : Option ReturnedKey

/-- The source of a merge. -/
inductive MergeSource where
  /-- One row of named values. -/
  | row (columns : List Assignment)
  /-- Rows of values, the last of which is the number of the row. -/
  | rows (columns : List String) (rows : List (List Operand))

/-- A merge of a source into a table. -/
structure Merge where
  table : TableRef
  source : MergeSource
  /-- The columns that rows are matched by; without any, no row matches. -/
  matchOn : Option (List String)
  /-- The columns written for a row without a match. -/
  columns : List String
  /-- The columns written for a row with a match. -/
  set : List String
  /-- The key given back, and whether with the number of its row. -/
  output : Option String
  batch : Bool

/-- An update of the rows with a key, and an insertion where there are none. -/
structure UpdateOrInsert where
  table : TableRef
  filter : SearchCondition
  set : List Assignment
  columns : List String
  values : List Operand
  /-- The column that shows whether a row matched, and is given back if `key` says so. -/
  returned : String
  key : Bool
  row : Option Nat

/-- A statement. -/
inductive Statement where
  | select (s : Select)
  | page (p : NumberedPage)
  | insert (i : Insert)
  | merge (m : Merge)
  | updateOrInsert (u : UpdateOrInsert)
  | update (table : TableRef) (set : List Assignment) (filter : SearchCondition)
  | delete (table : TableRef) (filter : Option SearchCondition)
  | truncate (table : TableRef) (restart : Bool)
  /-- Selects the key of the row written just before. -/
  | selectKey (value : Operand) (row : Option Nat)

/-! ### Writing the parts -/

/-- A table and its hints. -/
def TableRef.fragments (t : TableRef) : Fragments :=
  dottedName t.name ++
    (match t.hints with
      | some hints => [.text (hintClause hints)]
      | none => [])

/-- A value. -/
def Operand.fragments : Operand → Fragments
  | .placeholder p => [.placeholder p]
  | .placeholderOrNull p => [.text "NULLIF(", .placeholder p, .text ", 0)"]
  | .number n => [.text (toString n)]
  | .function call => [.text call]
  | .column c => [.name c]
  | .source c => [.text "S.", .name c]
  | .excluded c => [.text "EXCLUDED.", .name c]
  | .proposed c => [.text "VALUES(", .name c, .text ")"]
  | .remembered c => [.text "LAST_INSERT_ID(", .name c, .text ")"]

/-- Names separated by commas. -/
def columnList (names : List String) : Fragments := commaList (fun c => [.name c]) names

/-- Values separated by commas. -/
def operandList (values : List Operand) : Fragments := commaList Operand.fragments values

/-- A row of values in brackets. -/
def rowFragments (values : List Operand) : Fragments :=
  .text "(" :: operandList values ++ [.text ")"]

/-- Assignments separated by commas. -/
def assignmentList (set : List Assignment) : Fragments :=
  commaList (fun a => .name a.column :: .text " = " :: a.value.fragments) set

/-- A column of a result. -/
def SelectItem.fragments : SelectItem → Fragments
  | .column c => [.name c]
  | .one resultName => [.text "1 AS ", .name resultName]
  | .count function resultName => [.text (function ++ " (1) AS "), .name resultName]
  | .aggregate function path resultName =>
    .text (function ++ " (") :: pathFragments path ++ [.text ") AS ", .name resultName]

/-- A column of an order with its direction. -/
def orderFragments (o : OrderField) : Fragments :=
  dottedName o.name ++ [.text (match o.order with | .asc => " ASC" | .desc => " DESC")]

/-- The columns of an order. -/
def orderList (order : List OrderField) : Fragments := commaList orderFragments order

/-- The clause of an order; none without columns. -/
def orderClause (order : List OrderField) : Fragments :=
  if order.isEmpty then [] else .text " ORDER BY " :: orderList order

/-- The clause that takes some rows of a result. -/
def RowLimit.fragments : RowLimit → Fragments
  | .all => []
  | .limit n => [.text (" LIMIT " ++ toString n)]
  | .limitOffset n skip => [.text (" LIMIT " ++ toString n ++ " OFFSET " ++ toString skip)]
  | .offsetFetch skip n =>
    [.text (" OFFSET " ++ toString skip ++ " ROWS FETCH NEXT " ++ toString n ++ " ROWS ONLY")]

/-- The number of a row next to its key. -/
def rowNumber : Option Nat → Fragments
  | some i => [.text (", " ++ toString i ++ " AS "), .name orderColumn]
  | none => []

/-- A key given back by the clause in front of the values. -/
def outputClause (batch : Bool) : Option String → Fragments
  | some key =>
    [.text " OUTPUT INSERTED.", .name key, .text " AS ", .name resultColumn] ++
      (if batch then [.text ", S.", .name sourceOrderColumn, .text " AS ", .name orderColumn]
        else [])
  | none => []

/-- A key given back by the clause at the end. -/
def returningClause : Option ReturnedKey → Fragments
  | some key =>
    [.text " RETURNING ", .name key.column, .text " AS ", .name resultColumn] ++ rowNumber key.row
  | none => []

/-- The clause for a row that is there already. -/
def Conflict.clause : Conflict → Fragments
  | .fail => []
  | .replace => []
  | .onKey keys set =>
    .text " ON CONFLICT (" :: columnList keys ++
      (if set.isEmpty then [.text ") DO NOTHING"]
        else .text ") DO UPDATE SET " :: assignmentList set)
  | .onDuplicate set => .text " ON DUPLICATE KEY UPDATE " :: assignmentList set

/-- The words that start an insertion. -/
def Conflict.verb : Conflict → String
  | .replace => "INSERT OR REPLACE INTO "
  | _ => "INSERT INTO "

/-! ### Writing the statements -/

/-- A query without the semicolon at its end. -/
def Select.fragments (s : Select) : Fragments :=
  .text "SELECT " ::
    (match s.top with
      | some n => [.text ("TOP (" ++ toString n ++ ") ")]
      | none => []) ++
    commaList SelectItem.fragments s.items ++ .text " FROM " :: s.table.fragments ++
    whereClause s.filter ++ orderClause s.order ++ s.limit.fragments

/-- The name of the column that numbers rows. -/
def rowNumberColumn : String := "RowNumber"

/-- A query for numbered rows. -/
def NumberedPage.fragments (p : NumberedPage) : Fragments :=
  .text "WITH CTE AS (SELECT ROW_NUMBER() OVER (ORDER BY " :: orderList p.order ++
    [.text ") AS ", .name rowNumberColumn, .text ", "] ++ columnList p.columns ++
    .text " FROM " :: p.table.fragments ++ whereClause p.filter ++
    .text ") SELECT " :: columnList p.columns ++
    [.text " FROM CTE WHERE (", .name rowNumberColumn,
      .text (" BETWEEN " ++ toString p.first ++ " AND " ++ toString p.last ++ ") ORDER BY "),
      .name rowNumberColumn, .text " ASC"]

/-- An insertion. -/
def Insert.fragments (i : Insert) : Fragments :=
  .text i.conflict.verb :: i.table.fragments ++ .text " (" :: columnList i.columns ++ .text ")" ::
    outputClause false i.output ++ .text " VALUES " :: commaList rowFragments i.rows ++
    i.conflict.clause ++ returningClause i.returning

/-- The source of a merge, named `S`. -/
def MergeSource.fragments : MergeSource → Fragments
  | .row columns =>
    .text "(SELECT " ::
      commaList (fun a => a.value.fragments ++ [.text " AS ", .name a.column]) columns ++
      [.text ") AS S"]
  | .rows columns values =>
    .text "(VALUES " :: commaList rowFragments values ++ .text ") AS S (" :: columnList columns ++
      [.text ")"]

/-- The condition of a merge. -/
def matchFragments : Option (List String) → Fragments
  | some columns =>
    .text "(" ::
      separated " AND " (columns.map fun c => [.text "S.", .name c, .text " = T.", .name c]) ++
      [.text ")"]
  | none => [.text "1 = 0"]

/-- The insertion in a merge. -/
def mergeInsert (columns : List String) : Fragments :=
  if columns.isEmpty then [.text "INSERT DEFAULT VALUES"]
  else
    .text "INSERT (" :: columnList columns ++ .text ") VALUES (" ::
      operandList (columns.map .source) ++ [.text ")"]

/-- The update in a merge; none without columns. -/
def mergeUpdate (columns : List String) : Fragments :=
  if columns.isEmpty then []
  else
    .text " WHEN MATCHED THEN UPDATE SET " ::
      commaList (fun c => [.text "T.", .name c, .text " = S.", .name c]) columns

/-- A merge. -/
def Merge.fragments (m : Merge) : Fragments :=
  .text "MERGE " :: m.table.fragments ++ .text " AS T USING " :: m.source.fragments ++
    .text " ON " :: matchFragments m.matchOn ++ .text " WHEN NOT MATCHED THEN " ::
    mergeInsert m.columns ++ mergeUpdate m.set ++ outputClause m.batch m.output

/-- The first step of an update or insertion: it tells which rows matched. -/
def UpdateOrInsert.matched (u : UpdateOrInsert) : Fragments :=
  if u.set.isEmpty then
    [.text "SELECT ", .name u.returned, .text " FROM "] ++ u.table.fragments ++
      whereClause (some u.filter)
  else
    .text "UPDATE " :: u.table.fragments ++ .text " SET " :: assignmentList u.set ++
      whereClause (some u.filter) ++ [.text " RETURNING ", .name u.returned]

/-- The second step of an update or insertion. -/
def UpdateOrInsert.inserted (u : UpdateOrInsert) : Fragments :=
  .text "INSERT INTO " :: u.table.fragments ++
    (if u.columns.isEmpty then [.text " SELECT"]
      else .text " (" :: columnList u.columns ++ .text ") SELECT " :: operandList u.values) ++
    [.text " WHERE NOT EXISTS (SELECT 1 FROM matched)"]

/-- An update or insertion. -/
def UpdateOrInsert.fragments (u : UpdateOrInsert) : Fragments :=
  if u.key then
    let result := [.name u.returned, .text " AS ", .name resultColumn] ++ rowNumber u.row
    .text "WITH matched AS (" :: u.matched ++ .text "), inserted AS (" :: u.inserted ++
      [.text " RETURNING ", .name u.returned, .text ") SELECT "] ++ result ++
      .text " FROM matched UNION ALL SELECT " :: result ++ [.text " FROM inserted"]
  else .text "WITH matched AS (" :: u.matched ++ .text ") " :: u.inserted

/-- A statement without the semicolon at its end. -/
def Statement.body : Statement → Fragments
  | .select s => s.fragments
  | .page p => p.fragments
  | .insert i => i.fragments
  | .merge m => m.fragments
  | .updateOrInsert u => u.fragments
  | .update table set filter =>
    .text "UPDATE " :: table.fragments ++ .text " SET " :: assignmentList set ++
      whereClause (some filter)
  | .delete table filter => .text "DELETE FROM " :: table.fragments ++ whereClause filter
  | .truncate table restart =>
    .text "TRUNCATE TABLE " :: table.fragments ++
      (if restart then [.text " RESTART IDENTITY"] else [])
  | .selectKey value row =>
    .text "SELECT " :: value.fragments ++ [.text " AS ", .name resultColumn] ++ rowNumber row

/-- A statement. -/
def Statement.fragments (s : Statement) : Fragments := s.body ++ [.text ";"]

/-- Statements one after the other. -/
def statementList (statements : List Statement) : Fragments :=
  separated " " (statements.map Statement.fragments)

end EntitySql.Sql
