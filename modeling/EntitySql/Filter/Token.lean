import EntitySql.Number.Binary64
import EntitySql.Text.Numeral

/-!
# Tokens of a filter

A filter is cut into lexemes. Each keeps the text from its first character on, which is where an
error about it is reported, and whether a blank stands before it. Text that starts no token is
`junk`; nothing after it is read.
-/

namespace EntitySql.Filter

/-- A token of a filter. -/
inductive Token where
  | openGroup | closeGroup | openList | closeList
  | comma | dot | arrow
  /-- `!` -/
  | bang
  /-- `&&` -/
  | conjoin
  /-- `||` -/
  | disjoin
  /-- `??` -/
  | fallback
  /-- `==` -/
  | equal
  /-- `!=` -/
  | notEqual
  | greaterOrEqual | lessOrEqual | greater | less
  | word (name : String)
  | text (s : String)
  | integer (n : Int64)
  | real (x : Binary64)
  | junk
deriving DecidableEq

/-- A token in its place. -/
structure Lexeme where
  token : Token
  /-- Whether a blank stands before the token. -/
  spaced : Bool
  /-- The text from the first character of the token on. -/
  start : List Char
deriving DecidableEq

/-- A blank between tokens. -/
def isBlank (c : Char) : Bool := c = ' ' || c = '\t' || c = '\r' || c = '\n'

/-- Whether a word may start with the character. -/
def startsWord (c : Char) : Bool := Text.isLetter c || c = '_'

/-- Whether a word may go on with the character. -/
def continuesWord (c : Char) : Bool := Text.isLetterOrNumeral c || c = '_'

/-- Reads a string after its opening quote, up to and with its closing quote. Four escapes exist:
a backslash, a quote, a line feed and a tab. -/
def lexText : List Char → Option (List Char × List Char)
  | [] => none
  | '"' :: rest => some ([], rest)
  | '\\' :: c :: rest =>
    let escaped (x : Char) := (lexText rest).map fun (s, rest) => (x :: s, rest)
    if c = '\\' ∨ c = '"' then escaped c
    else if c = 'n' then escaped '\n'
    else if c = 't' then escaped '\t'
    else none
  | c :: rest =>
    if c = '\\' then none else (lexText rest).map fun (s, rest) => (c :: s, rest)

/-- The value of a list of decimal digits. -/
def digitsValue (ds : List Char) : Nat := ds.foldl (fun n c => n * 10 + (c.toNat - '0'.toNat)) 0

/-- The token of a number without its sign: an integer, which has to fit into 64 bits, or the binary
number nearest to a decimal fraction. -/
def numberToken (negative : Bool) (whole : List Char) : Option (List Char) → Token
  | none =>
    let n : Int := if negative then -(digitsValue whole : Int) else digitsValue whole
    if -(twoTo 63 : Int) ≤ n ∧ n < (twoTo 63 : Int) then .integer (Int64.ofInt n) else .junk
  | some fraction =>
    .real (.ofRatio negative (digitsValue (whole ++ fraction)) (tenTo fraction.length))

/-- Reads a number without its sign. A point belongs to it only if a digit follows. -/
def lexNumber (negative : Bool) (s : List Char) : Token × List Char :=
  let whole := s.takeWhile Char.isDigit
  let rest := s.dropWhile Char.isDigit
  if whole.isEmpty then (.junk, [])
  else
    match rest with
    | '.' :: more =>
      let fraction := more.takeWhile Char.isDigit
      if fraction.isEmpty then (numberToken negative whole none, rest)
      else (numberToken negative whole (some fraction), more.dropWhile Char.isDigit)
    | _ => (numberToken negative whole none, rest)

/-- Reads one token from a text that is not empty and does not start with a blank. -/
def lexToken : List Char → Token × List Char
  | '(' :: rest => (.openGroup, rest)
  | ')' :: rest => (.closeGroup, rest)
  | '[' :: rest => (.openList, rest)
  | ']' :: rest => (.closeList, rest)
  | ',' :: rest => (.comma, rest)
  | '.' :: rest => (.dot, rest)
  | '&' :: '&' :: rest => (.conjoin, rest)
  | '|' :: '|' :: rest => (.disjoin, rest)
  | '?' :: '?' :: rest => (.fallback, rest)
  | '=' :: '=' :: rest => (.equal, rest)
  | '=' :: '>' :: rest => (.arrow, rest)
  | '!' :: '=' :: rest => (.notEqual, rest)
  | '!' :: rest => (.bang, rest)
  | '>' :: '=' :: rest => (.greaterOrEqual, rest)
  | '>' :: rest => (.greater, rest)
  | '<' :: '=' :: rest => (.lessOrEqual, rest)
  | '<' :: rest => (.less, rest)
  | '"' :: rest =>
    match lexText rest with
    | some (s, rest) => (.text (String.ofList s), rest)
    | none => (.junk, [])
  | '-' :: rest => lexNumber true rest
  | c :: rest =>
    if c.isDigit then lexNumber false (c :: rest)
    else if startsWord c then
      (.word (String.ofList (c :: rest.takeWhile continuesWord)), rest.dropWhile continuesWord)
    else (.junk, [])
  | [] => (.junk, [])

/-- Cuts a text into at most `limit` lexemes. -/
def lexUpTo : (limit : Nat) → List Char → List Lexeme
  | 0, _ => []
  | limit + 1, s =>
    match s.dropWhile isBlank with
    | [] => []
    | c :: rest =>
      let (token, after) := lexToken (c :: rest)
      ⟨token, s.head?.any isBlank, c :: rest⟩ ::
        (if token = .junk then [] else lexUpTo limit after)

/-- Cuts a text into lexemes. There are no more of them than characters. -/
def lex (s : List Char) : List Lexeme := lexUpTo s.length s

end EntitySql.Filter
