import EntitySql.Toml.Scalar

/-!
# TOML documents

Reading the text of a document: keys, values, lines. A comment runs from `#` to the end of its line.
Brackets nest no deeper than `maxNesting`, and no path of keys is longer.
-/

namespace EntitySql.Toml

/-- The greatest depth of brackets and the greatest length of a path. -/
def maxNesting : Nat := 79

/-! ### Keys -/

/-- A character of a key without quotes. -/
def isKeyChar (c : Char) : Bool := c.isAlphanum || c = '-' || c = '_'

/-- Reads one key. -/
def readSimpleKey (s : List Char) : Option (String × List Char) :=
  match readLine s with
  | some r => some r
  | none =>
    let key := s.takeWhile isKeyChar
    if key.isEmpty then none else some (String.ofList key, s.dropWhile isKeyChar)

/-- Reads a path of at most `limit` keys with points between them and blanks around each: the path
to a table, and the last key. -/
def readPath : (limit : Nat) → List Char → Option ((List String × String) × List Char)
  | 0, _ => none
  | limit + 1, s => do
    let (key, s) ← readSimpleKey (s.dropWhile isBlank)
    match s.dropWhile isBlank with
    | '.' :: s => do
      let ((path, last), s) ← readPath limit s
      some ((key :: path, last), s)
    | s => some (([], key), s)

/-! ### Values -/

/-- The text after blanks, line ends and comments; `comment` tells that a comment has begun. -/
def skipLines : (comment : Bool) → List Char → List Char
  | _, [] => []
  | false, c :: rest =>
    if c = '#' then skipLines true rest
    else if isBlank c ∨ c = '\n' then skipLines false rest
    else c :: rest
  | true, c :: rest =>
    if c = '\n' then skipLines false rest
    else if isPrintable c then skipLines true rest
    else c :: rest

/-- Reads the items of an array up to and with its closing bracket, given how one is read. -/
def readItems (item : List Char → Option (Value × List Char)) :
    (limit : Nat) → List Char → Option (List Value × List Char)
  | 0, _ => none
  | limit + 1, s =>
    match skipLines false s with
    | ']' :: s => some ([], s)
    | s => do
      let (v, s) ← item s
      match skipLines false s with
      | ',' :: s => do
        let (vs, s) ← readItems item limit s
        some (v :: vs, s)
      | ']' :: s => some ([v], s)
      | _ => none

/-- Reads a path, the sign of equality and a value, given how the value is read. -/
def readEntry (value : List Char → Option (Value × List Char)) (s : List Char) :
    Option ((List String × String × Value) × List Char) := do
  let ((path, key), s) ← readPath maxNesting s
  let s ← after? '=' s
  let (v, s) ← value (s.dropWhile isBlank)
  some ((path, key, v), s)

/-- Reads the entries of a table in braces up to and with its closing brace, given how a value is
read. There is at least one, and they all stand on one line. -/
def readEntries (value : List Char → Option (Value × List Char)) :
    (limit : Nat) → List Char → Option (List (List String × String × Value) × List Char)
  | 0, _ => none
  | limit + 1, s => do
    let (e, s) ← readEntry value s
    match s.dropWhile isBlank with
    | ',' :: s => do
      let (es, s) ← readEntries value limit s
      some (e :: es, s)
    | '\x7d' :: s => some ([e], s)
    | _ => none

/-- Reads a value; `room` says how many brackets may be opened inside each other. -/
def readValue : (room : Nat) → List Char → Option (Value × List Char)
  | 0, s => match s with
    | '"' :: _ | '\'' :: _ => (readString s).map fun (t, s) => (.string t, s)
    | s => readWord s
  | room + 1, s =>
    match s with
    | '"' :: _ | '\'' :: _ => (readString s).map fun (t, s) => (.string t, s)
    | '[' :: s => (readItems (readValue room) s.length s).map fun (vs, s) => (.array vs, s)
    | '\x7b' :: s =>
      match s.dropWhile isBlank with
      | '\x7d' :: s => some (.table .inBraces [], s)
      | s => do
        let (es, s) ← readEntries (readValue room) s.length s
        let table ← Entries.ofPairs es []
        some (.table .inBraces table, s)
    | s => readWord s

/-! ### Lines -/

/-- Reads what may follow on a line: blanks, a comment, and the line end unless the text ends. -/
def readLineEnd (s : List Char) : Option (List Char) :=
  let s := s.dropWhile isBlank
  let s := match s with | '#' :: rest => rest.dropWhile isPrintable | s => s
  match s with
  | [] => some []
  | '\n' :: rest => some rest
  | _ => none

/-- Reads an entry or a header, up to the end of its line. -/
def readStatement : List Char → Option (Line × List Char)
  | '[' :: '[' :: s => do
    let ((path, key), s) ← readPath maxNesting s
    let s ← after? ']' s
    let s ← after? ']' s
    some (.item path key, s)
  | '[' :: s => do
    let ((path, key), s) ← readPath maxNesting s
    let s ← after? ']' s
    some (.table path key, s)
  | s => do
    let ((path, key, v), s) ← readEntry (readValue maxNesting) s
    some (.entry path key v, s)

/-- Reads at most `limit` lines that are not empty. -/
def readLines : (limit : Nat) → List Char → Option (List Line)
  | limit, s =>
    match skipLines false s with
    | [] => some []
    | c :: rest =>
      match limit with
      | 0 => none
      | limit + 1 => do
        let (line, s) ← readStatement (c :: rest)
        let s ← readLineEnd s
        let lines ← readLines limit s
        some (line :: lines)

/-- The text with single line feeds as line ends, without a mark of the byte order in front. -/
def unifyLineEnds : List Char → List Char
  | '\r' :: '\n' :: rest => '\n' :: unifyLineEnds rest
  | c :: rest => c :: unifyLineEnds rest
  | [] => []

/-- The table that the text of a document spells. There are no more lines than characters. -/
def read? (text : String) : Option Entries :=
  let s := match text.toList with | '\uFEFF' :: rest => rest | s => s
  let s := unifyLineEnds s
  (readLines s.length s).bind ofLines

end EntitySql.Toml
