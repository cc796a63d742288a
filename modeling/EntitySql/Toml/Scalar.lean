import EntitySql.Calendar
import EntitySql.Text.Hex
import EntitySql.Toml.Basic

/-!
# TOML strings, numbers and moments

Strings stand between one or three quotes of either kind: in straight quotes a backslash starts an
escape, in apostrophes every character is itself. Between three quotes a string may have several
lines. Everything else that has no bracket is a word of letters, digits, signs, points, colons and
underscores. Line ends are single line feeds here.
-/

namespace EntitySql.Toml

/-- A character that may stand for itself. -/
def isPrintable (c : Char) : Bool := c = '\t' || (0x20 ≤ c.toNat && c.toNat ≠ 0x7F)

/-- A blank inside a line. -/
def isBlank (c : Char) : Bool := c = ' ' || c = '\t'

/-! ### Strings -/

/-- The character that a letter after a backslash stands for. -/
def escape? : Char → Option Char
  | '"' => some '"'
  | '\\' => some '\\'
  | 'b' => some '\x08'
  | 'f' => some '\x0c'
  | 'n' => some '\n'
  | 'r' => some '\r'
  | 't' => some '\t'
  | _ => none

/-- The character with a code of hexadecimal digits. -/
def charOfHex? (digits : List Char) : Option Char := do
  let values ← digits.mapM Text.hexValue?
  let n := values.foldl (fun n d => n * 16 + d) 0
  if h : n.isValidChar then some (Char.ofNatAux n h) else none

/-- What follows three closing quotes: up to two more of them belong to the string. -/
def closeLines (quote : Char) : List Char → List Char × List Char
  | a :: b :: rest =>
    if a = quote ∧ b = quote then ([quote, quote], rest)
    else if a = quote then ([quote], b :: rest)
    else ([], a :: b :: rest)
  | [a] => if a = quote then ([quote], []) else ([], [a])
  | [] => ([], [])

/-- Whether a line ends here, but for blanks. -/
def atLineEnd (s : List Char) : Bool := (s.dropWhile isBlank).head? = some '\n'

/-- Reads a string in straight quotes after its opening, up to and with its closing. `lines` tells
that it stands between three quotes, and `skipping` that blanks and line ends are passed over, as
they are after a backslash at the end of a line. -/
def readQuoted (lines : Bool) : (skipping : Bool) → List Char → Option (List Char × List Char)
  | _, [] => none
  | _, '"' :: '"' :: '"' :: rest =>
    if lines then some (closeLines '"' rest) else some ([], '"' :: '"' :: rest)
  | _, '"' :: rest =>
    if lines then (readQuoted lines false rest).map fun (s, rest) => ('"' :: s, rest)
    else some ([], rest)
  | _, '\\' :: 'u' :: a :: b :: c :: d :: rest =>
    match charOfHex? [a, b, c, d], readQuoted lines false rest with
    | some c, some (s, rest) => some (c :: s, rest)
    | _, _ => none
  | _, '\\' :: 'U' :: a :: b :: c :: d :: e :: f :: g :: h :: rest =>
    match charOfHex? [a, b, c, d, e, f, g, h], readQuoted lines false rest with
    | some c, some (s, rest) => some (c :: s, rest)
    | _, _ => none
  | _, '\\' :: c :: rest =>
    if lines ∧ atLineEnd (c :: rest) then readQuoted lines true rest
    else match escape? c, readQuoted lines false rest with
      | some c, some (s, rest) => some (c :: s, rest)
      | _, _ => none
  | skipping, c :: rest =>
    if skipping ∧ (isBlank c ∨ c = '\n') then readQuoted lines true rest
    else if c ≠ '\\' ∧ (isPrintable c ∨ (lines ∧ c = '\n')) then
      (readQuoted lines false rest).map fun (s, rest) => (c :: s, rest)
    else none

/-- Reads a string in apostrophes after its opening, up to and with its closing. `lines` tells that
it stands between three of them. -/
def readLiteral (lines : Bool) : List Char → Option (List Char × List Char)
  | [] => none
  | '\'' :: '\'' :: '\'' :: rest =>
    if lines then some (closeLines '\'' rest) else some ([], '\'' :: '\'' :: rest)
  | '\'' :: rest =>
    if lines then (readLiteral lines rest).map fun (s, rest) => ('\'' :: s, rest)
    else some ([], rest)
  | c :: rest =>
    if isPrintable c ∨ (lines ∧ c = '\n') then
      (readLiteral lines rest).map fun (s, rest) => (c :: s, rest)
    else none

/-- A line end right after the three quotes that open a string is not part of it. -/
def dropLineEnd : List Char → List Char
  | '\n' :: rest => rest
  | s => s

/-- Reads a string of one line, with its quotes. -/
def readLine : List Char → Option (String × List Char)
  | '"' :: rest => (readQuoted false false rest).map fun (s, rest) => (String.ofList s, rest)
  | '\'' :: rest => (readLiteral false rest).map fun (s, rest) => (String.ofList s, rest)
  | _ => none

/-- Reads a string, with its quotes. -/
def readString : List Char → Option (String × List Char)
  | '"' :: '"' :: '"' :: rest =>
    (readQuoted true false (dropLineEnd rest)).map fun (s, rest) => (String.ofList s, rest)
  | '\'' :: '\'' :: '\'' :: rest =>
    (readLiteral true (dropLineEnd rest)).map fun (s, rest) => (String.ofList s, rest)
  | s => readLine s

/-! ### Numbers -/

/-- Digits without the underscores, each of which has to stand between two of them. -/
def ungroup (digit : Char → Bool) : List Char → Option (List Char)
  | [] => none
  | [c] => if digit c then some [c] else none
  | c :: '_' :: rest => if digit c then (ungroup digit rest).map (c :: ·) else none
  | c :: rest => if digit c then (ungroup digit rest).map (c :: ·) else none

/-- The number of digits in a base, if there are digits and none is too large. -/
def digitsIn? (base : Nat) (s : List Char) : Option Nat :=
  (ungroup (fun c => (Text.hexValue? c).any (· < base)) s).map fun ds =>
    ds.foldl (fun n c => n * base + (Text.hexValue? c).getD 0) 0

/-- Decimal digits without a sign, and without a zero in front of others. -/
def wholeDigits? (s : List Char) : Option (List Char) :=
  match ungroup Char.isDigit s with
  | some ds => if ds.head? = some '0' ∧ ds.length ≠ 1 then none else some ds
  | none => none

/-- A text without its sign, and whether that is a minus. -/
def splitSign : List Char → Bool × List Char
  | '-' :: rest => (true, rest)
  | '+' :: rest => (false, rest)
  | s => (false, s)

/-- An integer, in one of four bases. -/
def integer? (s : List Char) : Option Int :=
  match s with
  | '0' :: 'x' :: ds => (digitsIn? 16 ds).map Int.ofNat
  | '0' :: 'o' :: ds => (digitsIn? 8 ds).map Int.ofNat
  | '0' :: 'b' :: ds => (digitsIn? 2 ds).map Int.ofNat
  | s =>
    let (negative, ds) := splitSign s
    match wholeDigits? ds, digitsIn? 10 ds with
    | some _, some n => some (if negative then -(n : Int) else n)
    | _, _ => none

/-- Whether `digits * 10 ^ exponent` lies beyond the binary numbers of 64 bits, all of which are
below `2 ^ 1024 - 2 ^ 970`. -/
def isBeyondBinary (digits : List Char) (exponent : Int) : Bool :=
  let ds := digits.dropWhile (fun c => c = '0')
  let n := Calendar.digitsValue ds
  let top : Int := ds.length + exponent
  if ds.isEmpty ∨ top < 309 then false
  else if 309 < top then true
  else if exponent ≤ 0 then (twoTo 1024 - twoTo 970) * tenTo exponent.natAbs ≤ n
  else twoTo 1024 - twoTo 970 ≤ n * tenTo exponent.natAbs

/-- A number with a point or an exponent, not too large, or one of the words for no finite
number. -/
def isFloat (s : List Char) : Bool :=
  let (negative, s) := splitSign s
  let exponential (c : Char) : Bool := c = 'e' || c = 'E'
  let mantissa := s.takeWhile (!exponential ·)
  let whole := mantissa.takeWhile (· ≠ '.')
  let fraction : Option (List Char) :=
    match mantissa.dropWhile (· ≠ '.') with
    | _ :: ds => ungroup Char.isDigit ds
    | [] => some []
  let exponent : Option Int :=
    match s.dropWhile (!exponential ·) with
    | _ :: ds =>
      let (negative, ds) := splitSign ds
      (digitsIn? 10 ds).map fun n => if negative then -(n : Int) else n
    | [] => some 0
  if s = "inf".toList ∨ s = "nan".toList then true
  else if whole.length = s.length then false
  else
    match wholeDigits? whole, fraction, exponent with
    | some ws, some fs, some e => negative || !isBeyondBinary (ws ++ fs) (e - fs.length)
    | _, _, _ => false

/-! ### Moments in time -/

/-- Two digits at the front, as a number. -/
def twoDigits? : List Char → Option (Nat × List Char)
  | a :: b :: rest =>
    if a.isDigit ∧ b.isDigit then some (Calendar.digitsValue [a, b], rest) else none
  | _ => none

/-- What follows a mark at the front. -/
def after? (mark : Char) : List Char → Option (List Char)
  | c :: rest => if c = mark then some rest else none
  | [] => none

/-- What follows `hour:minute`. -/
def minutes? (s : List Char) : Option (List Char) := do
  let (hour, s) ← twoDigits? s
  let s ← after? ':' s
  let (minute, s) ← twoDigits? s
  if hour < 24 ∧ minute < 60 then some s else none

/-- What follows a time: hour, minute and second, and a fraction with at least one digit. -/
def time? (s : List Char) : Option (List Char) := do
  let s ← minutes? s
  let s ← after? ':' s
  let (second, s) ← twoDigits? s
  if 60 < second then none
  else
    match s with
    | '.' :: rest =>
      if (rest.takeWhile Char.isDigit).isEmpty then none else some (rest.dropWhile Char.isDigit)
    | s => some s

/-- What follows `year-month-day`, a day of the calendar. -/
def date? (s : List Char) : Option (List Char) := do
  let (century, s) ← twoDigits? s
  let (year, s) ← twoDigits? s
  let s ← after? '-' s
  let (month, s) ← twoDigits? s
  let s ← after? '-' s
  let (day, s) ← twoDigits? s
  if (Date.ofNumbers? (century * 100 + year : Nat) month day).isSome then some s else none

/-- Whether a text is nothing, or the distance of a time from the universal one. -/
def isOffset : List Char → Bool
  | [] => true
  | c :: rest =>
    if c = 'Z' ∨ c = 'z' then rest.isEmpty
    else (c = '+' || c = '-') && minutes? rest = some []

/-- Whether a text is a time with or without an offset. -/
def isOffsetTime (s : List Char) : Bool := (time? s).any isOffset

/-- Whether a text is a date, a time, or a date and a time with or without an offset. -/
def isMoment (s : List Char) : Bool :=
  match date? s with
  | some [] => true
  | some (c :: rest) => (c = 'T' || c = 't' || c = ' ') && isOffsetTime rest
  | none => time? s = some []

/-! ### Words -/

/-- A character of a word. -/
def isWordChar (c : Char) : Bool :=
  c.isAlphanum || c = '+' || c = '-' || c = '_' || c = '.' || c = ':'

/-- The value of a word. An integer has at most 64 bits with its sign. -/
def valueOfWord? (s : List Char) : Option Value :=
  match integer? s with
  | some n => if -(twoTo 63 : Int) ≤ n ∧ n < (twoTo 63 : Int) then some (.integer n) else none
  | none =>
    if s = "true".toList then some (.boolean true)
    else if s = "false".toList then some (.boolean false)
    else if isFloat s then some (.float (String.ofList s))
    else if isMoment s then some (.moment (String.ofList s))
    else none

/-- Reads a word, or a date and a time with a blank between them, which is the one value of two
words. -/
def readWord (s : List Char) : Option (Value × List Char) :=
  let word := s.takeWhile isWordChar
  match s.dropWhile isWordChar with
  | ' ' :: c :: rest =>
    if date? word = some [] ∧ c.isDigit then
      let time := (c :: rest).takeWhile isWordChar
      (valueOfWord? (word ++ ' ' :: time)).map fun v => (v, (c :: rest).dropWhile isWordChar)
    else (valueOfWord? word).map fun v => (v, ' ' :: c :: rest)
  | rest => (valueOfWord? word).map fun v => (v, rest)

end EntitySql.Toml
