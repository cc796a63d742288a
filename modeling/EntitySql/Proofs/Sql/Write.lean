import EntitySql.Proofs.Sql.Statement
import EntitySql.Proofs.Sql.TokenReading
import EntitySql.Proofs.Sql.WhereClause

/-!
# What the text of an insertion or a merge writes

The dialects insert and merge rows with statements of many shapes. What such a statement writes is in
all of them a `Write`: the columns of the new rows with the rows of values for them, and the columns of
a row that is there already, each with the value by which it is matched or the value that it is given.
A merge has a source, and its values are columns of the source.

`Statement.write?` takes this from a statement, and `readWrites` takes it from the tokens of a text,
without a look at the statements that the text is made of. A reader knows the words of the language
only: it tells a column from a parameter by its quotes and its sign, and a value by the word in front
of it.
-/

namespace EntitySql.Sql

/-! ### Writes -/

/-- What an insertion or a merge writes: the columns of new rows with the rows of values for them, and
the columns of a row that is there, each with the value it is matched by or given. The values of a merge
may be columns of its source. -/
structure Write where
  source : Option MergeSource
  columns : List String
  rows : List (List Operand)
  matched : List (String × Operand)
  set : List (String × Operand)

/-- A column and what is assigned to it. -/
def Assignment.pair (a : Assignment) : String × Operand := (a.column, a.value)

/-- The condition that columns equal parameters. -/
def equalities (tests : List (String × String)) : SearchCondition :=
  .group .and false (tests.map fun t => .compare [t.1] .equal true t.2)

/-- The columns of a condition of equalities, each with its placeholder. -/
def SearchCondition.tests : SearchCondition → List (String × Operand)
  | .group .and false items =>
    items.filterMap fun
      | .compare [column] .equal true p => some (column, .placeholder p)
      | _ => none
  | _ => []

/-- What an insertion does with a row that is there: the columns that it is matched by, and those that
are set. -/
def Conflict.matched : Conflict → List (String × Operand)
  | .onKey keys _ => keys.map fun c => (c, .excluded c)
  | _ => []

/-- What an insertion assigns in a row that is there. -/
def Conflict.set : Conflict → List (String × Operand)
  | .onKey _ set => set.map Assignment.pair
  | .onDuplicate set => set.map Assignment.pair
  | _ => []

/-- Columns, each with the column of the source that has its name. -/
def fromSource (columns : List String) : List (String × Operand) := columns.map fun c => (c, .source c)

/-- What an insertion or a merge writes. The other statements have nothing of this kind. -/
def Statement.write? : Statement → Option Write
  | .insert i => some ⟨none, i.columns, i.rows, i.conflict.matched, i.conflict.set⟩
  | .merge m =>
    some ⟨some m.source, m.columns, [m.columns.map .source], fromSource (m.matchOn.getD []),
      fromSource m.set⟩
  | .updateOrInsert u =>
    some ⟨none, u.columns, [u.values], u.filter.tests, u.set.map Assignment.pair⟩
  | _ => none

/-- What statements write. -/
def writes (ss : List Statement) : List Write := ss.filterMap Statement.write?

/-! ### Reading -/

/-- Reads the name of a table. -/
def readTable : Reading (List String) := readPath

/-- Reads a value that starts with a word. -/
def readCall : String → Reading Operand
  | "NULLIF", .sign "(" :: .placeholder p :: .sign "," :: .word "0" :: .sign ")" :: rest =>
    some (.placeholderOrNull p, rest)
  | "S", .sign "." :: .name c :: rest => some (.source c, rest)
  | "EXCLUDED", .sign "." :: .name c :: rest => some (.excluded c, rest)
  | "VALUES", .sign "(" :: .name c :: .sign ")" :: rest => some (.proposed c, rest)
  | "LAST_INSERT_ID", .sign "(" :: .name c :: .sign ")" :: rest => some (.remembered c, rest)
  | _, _ => none

/-- Reads a value. -/
def readOperand : Reading Operand
  | .placeholder p :: rest => some (.placeholder p, rest)
  | .name c :: rest => some (.column c, rest)
  | .word w :: rest =>
    if w.toList.all Char.isDigit then some (.number (Nat.ofDigitChars 10 w.toList 0), rest)
    else readCall w rest
  | _ => none

/-- Reads a row of values. -/
def readRow : Reading (List Operand) := readBrackets (readCommas readOperand)

/-- Reads the names of columns in brackets. -/
def readColumns : Reading (List String) := readBrackets (readCommas readName)

/-- Reads a column and the value that it equals or is set to. -/
def readPair : Reading (String × Operand) := do
  let c ← readName
  token (.sign "=")
  let v ← readOperand
  return (c, v)

/-- Reads what an insertion does with a row that is there. -/
def readConflict : Reading (List (String × Operand) × List (String × Operand)) := do
  if ← optionally (tokens [.word "ON", .word "CONFLICT"]) then
    let keys ← readColumns
    let matched := keys.map fun c => (c, Operand.excluded c)
    token (.word "DO")
    if ← optionally (token (.word "NOTHING")) then return (matched, [])
    else
      tokens [.word "UPDATE", .word "SET"]
      let set ← readCommas readPair
      return (matched, set)
  else if ← optionally (tokens [.word "ON", .word "DUPLICATE", .word "KEY", .word "UPDATE"]) then
    let set ← readCommas readPair
    return ([], set)
  else return ([], [])

/-- Reads an insertion behind the word in front of its table. -/
def readInto : Reading Write := do
  let _ ← readTable
  let columns ← readColumns
  skipTo (.word "VALUES")
  token (.word "VALUES")
  let rows ← readCommas readRow
  let (matched, set) ← readConflict
  return ⟨none, columns, rows, matched, set⟩

/-- Reads an insertion behind its first word. -/
def readInsert : Reading Write := do
  let _ ← optionally (tokens [.word "OR", .word "REPLACE"])
  token (.word "INTO")
  readInto

/-- Reads a value and its name in the source of a merge. -/
def readNamed : Reading Assignment := do
  let v ← readOperand
  token (.word "AS")
  let c ← readName
  return ⟨c, v⟩

/-- Reads the source of a merge. -/
def readSource : Reading MergeSource := do
  token (.sign "(")
  if ← optionally (token (.word "SELECT")) then
    let columns ← readCommas readNamed
    tokens [.sign ")", .word "AS", .word "S"]
    return .row columns
  else
    token (.word "VALUES")
    let rows ← readCommas readRow
    tokens [.sign ")", .word "AS", .word "S"]
    let columns ← readColumns
    return .rows columns rows

/-- Reads a column of the target of a merge behind a column of the source that it equals. -/
def readMatch : Reading (String × Operand) := do
  let v ← readOperand
  tokens [.sign "=", .word "T", .sign "."]
  let c ← readName
  return (c, v)

/-- Reads a column of the target of a merge and the value that it is set to. -/
def readTarget : Reading (String × Operand) := do
  tokens [.word "T", .sign "."]
  readPair

/-- Reads the condition of a merge. -/
def readMatches : Reading (List (String × Operand)) := do
  if ← optionally (tokens [.word "1", .sign "=", .word "0"]) then return []
  else readBrackets (readSeparated (.word "AND") readMatch)

/-- Reads the insertion in a merge: the columns of new rows and a row of values. -/
def readNewRow : Reading (List String × List Operand) := do
  token (.word "INSERT")
  if ← optionally (tokens [.word "DEFAULT", .word "VALUES"]) then return ([], [])
  else
    let columns ← readColumns
    token (.word "VALUES")
    let row ← readRow
    return (columns, row)

/-- Reads the update in a merge. -/
def readUpdated : Reading (List (String × Operand)) := do
  if ← optionally
      (tokens [.word "WHEN", .word "MATCHED", .word "THEN", .word "UPDATE", .word "SET"]) then
    readCommas readTarget
  else return []

/-- Reads a merge behind its first word. -/
def readMerge : Reading Write := do
  let _ ← readTable
  tokens [.word "AS", .word "T", .word "USING"]
  let source ← readSource
  token (.word "ON")
  let matched ← readMatches
  tokens [.word "WHEN", .word "NOT", .word "MATCHED", .word "THEN"]
  let (columns, row) ← readNewRow
  let set ← readUpdated
  return ⟨some source, columns, [row], matched, set⟩

/-- Reads the condition that columns equal values. -/
def readTests : Reading (List (String × Operand)) := do
  token (.word "WHERE")
  readSeparated (.word "AND") readPair

/-- Reads the first step of an update or insertion: what is set and which rows are matched. -/
def readMatched : Reading (List (String × Operand) × List (String × Operand)) := do
  if ← optionally (token (.word "SELECT")) then
    let _ ← readName
    token (.word "FROM")
    let _ ← readTable
    let matched ← readTests
    return (matched, [])
  else
    token (.word "UPDATE")
    let _ ← readTable
    token (.word "SET")
    let set ← readCommas readPair
    let matched ← readTests
    token (.word "RETURNING")
    let _ ← readName
    return (matched, set)

/-- Reads the columns of a new row and the query for its values. -/
def readSelected : Reading (List String × List Operand) := do
  if ← optionally (token (.word "SELECT")) then return ([], [])
  else
    let columns ← readColumns
    token (.word "SELECT")
    let values ← readCommas readOperand
    return (columns, values)

/-- Reads the second step of an update or insertion. -/
def readInserted : Reading (List String × List Operand) := do
  tokens [.word "INSERT", .word "INTO"]
  let _ ← readTable
  let row ← readSelected
  tokens [.word "WHERE", .word "NOT", .word "EXISTS", .sign "(", .word "SELECT", .word "1",
    .word "FROM", .word "matched", .sign ")"]
  return row

/-- Reads an update or insertion behind its first word. -/
def readUpdateOrInsert : Reading Write := do
  tokens [.word "matched", .word "AS"]
  let (matched, set) ← readBrackets readMatched
  let _ ← optionally (tokens [.sign ",", .word "inserted", .word "AS", .sign "("])
  let (columns, values) ← readInserted
  return ⟨none, columns, [values], matched, set⟩

/-- Reads what a statement writes. A query writes nothing. -/
def readWrite : Reading (Option Write)
  | .word "INSERT" :: rest => (some <$> readInsert) rest
  | .word "MERGE" :: rest => (some <$> readMerge) rest
  | .word "WITH" :: rest => (some <$> readUpdateOrInsert) rest
  | .word "SELECT" :: rest => some (none, rest)
  | _ => none

/-- Reads what a statement writes, up to the semicolon at its end. -/
def readStatement : Reading (Option Write) := do
  let w ← readWrite
  skipTo (.sign ";")
  token (.sign ";")
  return w

/-- Reads what at most `n` statements write. -/
def readStatements : Nat → List Token → Option (List Write)
  | _, [] => some []
  | 0, _ :: _ => none
  | n + 1, ts => do
    let (w, rest) ← readStatement ts
    let ws ← readStatements n rest
    return w.toList ++ ws

/-- What the statements of a text write. -/
def readWrites (ts : List Token) : Option (List Write) := readStatements ts.length ts

end EntitySql.Sql
