import EntitySql.Json.Basic
import EntitySql.Text.Hex

/-!
# JSON text

Reading JSON takes three steps. `lex` cuts the text into tokens, `Document.ofTokens?` assembles
them, and `Document.toJson?` gives the value. A `Document` is what the grammar says about a text:
its numbers are still digits and its strings still hold escapes, so a part that nobody asks for may
hold a number that is too large or half of a surrogate pair without harm. The value step refuses
both, and refuses brackets nested deeper than the room it is given.
-/

namespace EntitySql.Json

/-! ### Tokens -/

/-- A number as it is written. -/
structure NumberText where
  negative : Bool
  whole : List Char
  fraction : List Char
  /-- Whether the exponent has a minus sign, and its digits, if there is one. -/
  exponent : Option (Bool × List Char)
deriving DecidableEq

/-- A piece of a string: a character, or a sixteen-bit unit given by its code. -/
inductive StringPiece where
  | char (c : Char)
  | unit (n : Nat)
deriving DecidableEq

/-- A token. -/
inductive Token where
  | openArray | closeArray | openObject | closeObject | colon | comma
  | null
  | bool (b : Bool)
  | number (n : NumberText)
  | string (s : List StringPiece)
deriving DecidableEq

/-- The character that a letter after a backslash stands for. -/
def escape? : Char → Option Char
  | '"' => some '"'
  | '\\' => some '\\'
  | '/' => some '/'
  | 'b' => some '\x08'
  | 'f' => some '\x0c'
  | 'n' => some '\n'
  | 'r' => some '\r'
  | 't' => some '\t'
  | _ => none

/-- The value of four hexadecimal digits. -/
def hexUnit? (a b c d : Char) : Option Nat := do
  let a ← Text.hexValue? a
  let b ← Text.hexValue? b
  let c ← Text.hexValue? c
  let d ← Text.hexValue? d
  some (((a * 16 + b) * 16 + c) * 16 + d)

/-- Reads a string after its opening quote, up to and with its closing quote. -/
def lexString : List Char → Option (List StringPiece × List Char)
  | [] => none
  | '"' :: rest => some ([], rest)
  | '\\' :: 'u' :: a :: b :: c :: d :: rest =>
    match hexUnit? a b c d, lexString rest with
    | some n, some (s, rest) => some (.unit n :: s, rest)
    | _, _ => none
  | '\\' :: c :: rest =>
    match escape? c, lexString rest with
    | some c, some (s, rest) => some (.char c :: s, rest)
    | _, _ => none
  | c :: rest =>
    if c = '\\' ∨ c.toNat < 0x20 then none
    else match lexString rest with
      | some (s, rest) => some (.char c :: s, rest)
      | none => none

/-- Reads the digits at the front. -/
def spanDigits (s : List Char) : List Char × List Char :=
  (s.takeWhile Char.isDigit, s.dropWhile Char.isDigit)

/-- Reads the exponent of a number, if there is one. -/
def lexExponent (s : List Char) : Option (Option (Bool × List Char) × List Char) :=
  match s with
  | c :: rest =>
    if c = 'e' ∨ c = 'E' then
      let (negative, rest) :=
        match rest with
        | '-' :: rest => (true, rest)
        | '+' :: rest => (false, rest)
        | rest => (false, rest)
      let (ds, rest) := spanDigits rest
      if ds.isEmpty then none else some (some (negative, ds), rest)
    else some (none, s)
  | [] => some (none, s)

/-- Reads a number. Its whole part has no leading zero, and a point is followed by a digit. -/
def lexNumber (s : List Char) : Option (NumberText × List Char) :=
  let (negative, s) := match s with | '-' :: rest => (true, rest) | s => (false, s)
  let (whole, s) := spanDigits s
  if whole.isEmpty ∨ (whole.head? = some '0' ∧ whole.length ≠ 1) then none
  else
    match s with
    | '.' :: rest =>
      let (fraction, rest) := spanDigits rest
      if fraction.isEmpty then none
      else (lexExponent rest).map fun (e, rest) => (⟨negative, whole, fraction, e⟩, rest)
    | s => (lexExponent s).map fun (e, rest) => (⟨negative, whole, [], e⟩, rest)

/-- Reads one token from a text that does not start with a blank. -/
def lexToken : List Char → Option (Token × List Char)
  | '[' :: rest => some (.openArray, rest)
  | ']' :: rest => some (.closeArray, rest)
  | '{' :: rest => some (.openObject, rest)
  | '}' :: rest => some (.closeObject, rest)
  | ':' :: rest => some (.colon, rest)
  | ',' :: rest => some (.comma, rest)
  | 'n' :: 'u' :: 'l' :: 'l' :: rest => some (.null, rest)
  | 't' :: 'r' :: 'u' :: 'e' :: rest => some (.bool true, rest)
  | 'f' :: 'a' :: 'l' :: 's' :: 'e' :: rest => some (.bool false, rest)
  | '"' :: rest => (lexString rest).map fun (s, rest) => (.string s, rest)
  | s => (lexNumber s).map fun (n, rest) => (.number n, rest)

/-- A blank between tokens. -/
def isBlank (c : Char) : Bool := c = ' ' || c = '\n' || c = '\t' || c = '\r'

/-- Cuts a text into at most `limit` tokens. -/
def lexUpTo : (limit : Nat) → List Char → Option (List Token)
  | limit, s =>
    match s.dropWhile isBlank with
    | [] => some []
    | c :: rest =>
      match limit with
      | 0 => none
      | limit + 1 =>
        match lexToken (c :: rest) with
        | some (t, rest) => (lexUpTo limit rest).map (t :: ·)
        | none => none

/-- Cuts a text into tokens. There are no more of them than characters. -/
def lex (s : List Char) : Option (List Token) := lexUpTo s.length s

/-! ### Documents -/

/-- A JSON text as the grammar sees it. -/
inductive Document where
  | null
  | bool (b : Bool)
  | number (n : NumberText)
  | string (s : List StringPiece)
  | array (items : List Document)
  | object (members : List (List StringPiece × Document))
deriving Inhabited

namespace Document

/-- An open bracket around the value being read: what stands before that value, last first. -/
inductive Frame where
  | array (items : List Document)
  | member (members : List (List StringPiece × Document)) (name : List StringPiece)

/-- What the next token has to be. -/
inductive Expect where
  | value
  | firstItem
  | firstName
  | nextName (members : List (List StringPiece × Document))
  | colon (members : List (List StringPiece × Document)) (name : List StringPiece)
  | afterItem (items : List Document)
  | afterMember (members : List (List StringPiece × Document))
  | finish (d : Document)

/-- Hands a complete value to the bracket around it. -/
def complete (d : Document) : List Frame → List Frame × Expect
  | [] => ([], .finish d)
  | .array items :: stack => (stack, .afterItem (d :: items))
  | .member members name :: stack => (stack, .afterMember ((name, d) :: members))

/-- Reads the first token of a value. -/
def startValue (stack : List Frame) : Token → Option (List Frame × Expect)
  | .null => some (complete .null stack)
  | .bool b => some (complete (.bool b) stack)
  | .number n => some (complete (.number n) stack)
  | .string s => some (complete (.string s) stack)
  | .openArray => some (stack, .firstItem)
  | .openObject => some (stack, .firstName)
  | _ => none

/-- Reads one token. -/
def advance (stack : List Frame) : Expect → Token → Option (List Frame × Expect)
  | .value, t => startValue stack t
  | .firstItem, .closeArray => some (complete (.array []) stack)
  | .firstItem, t => startValue (.array [] :: stack) t
  | .firstName, .closeObject => some (complete (.object []) stack)
  | .firstName, .string s => some (stack, .colon [] s)
  | .nextName members, .string s => some (stack, .colon members s)
  | .colon members name, .colon => some (.member members name :: stack, .value)
  | .afterItem items, .comma => some (.array items :: stack, .value)
  | .afterItem items, .closeArray => some (complete (.array items.reverse) stack)
  | .afterMember members, .comma => some (stack, .nextName members)
  | .afterMember members, .closeObject => some (complete (.object members.reverse) stack)
  | _, _ => none

/-- Reads tokens to their end, which has to come right after the outermost value. -/
def assemble (stack : List Frame) (expect : Expect) : List Token → Option Document
  | [] => match expect with | .finish d => some d | _ => none
  | t :: rest =>
    match advance stack expect t with
    | some (stack, expect) => assemble stack expect rest
    | none => none

/-- The document that tokens spell. -/
def ofTokens? (tokens : List Token) : Option Document := assemble [] .value tokens

/-- The document that a text spells. -/
def read? (s : String) : Option Document := (lex s.toList).bind ofTokens?

end Document

/-! ### Values -/

/-- The text of a string. A unit outside the surrogates is a character, a high surrogate needs a low
one right after it, and a low one may not stand alone. -/
def stringText? : List StringPiece → Option (List Char)
  | [] => some []
  | .char c :: rest => (stringText? rest).map (c :: ·)
  | .unit n :: rest =>
    if 0xD800 ≤ n ∧ n < 0xDC00 then
      match rest with
      | .unit low :: rest =>
        if 0xDC00 ≤ low ∧ low < 0xE000 then
          (stringText? rest).map (Char.ofNat (0x10000 + (n - 0xD800) * 0x400 + (low - 0xDC00)) :: ·)
        else none
      | _ => none
    else if 0xDC00 ≤ n ∧ n < 0xE000 then none
    else (stringText? rest).map (Char.ofNat n :: ·)

/-- The value of a digit. -/
def digitValue (c : Char) : Nat := c.toNat - '0'.toNat

/-- Takes digits into a significand of 64 bits for as long as they fit. Gives the significand and
the digits left over. -/
def takeSignificand (significand : Nat) : List Char → Nat × List Char
  | [] => (significand, [])
  | c :: rest =>
    let next := significand * 10 + digitValue c
    if next < twoTo 64 then takeSignificand next rest else (significand, c :: rest)

/-- `significand * 10 ^ exponent` as a binary number. The significand is rounded first, then scaled
by powers of ten of at most 308, each step rounded; none if the result is too large. -/
def scaleSignificand (significand : Nat) (exponent : Int) : Option Binary64 :=
  let start := Binary64.ofRatio false significand 1
  let power (n : Nat) : Binary64 := Binary64.ofRatio false (tenTo n) 1
  let finish (x : Binary64) (e : Int) : Option Binary64 :=
    if 0 ≤ e then
      let y := x.mulMagnitudes (power e.toNat)
      if y.isFinite then some y else none
    else some (x.divMagnitudes (power (-e).toNat))
  if significand = 0 then some start
  else if exponent.natAbs ≤ 308 then finish start exponent
  else if 0 < exponent then none
  else if (-exponent).toNat ≤ 616 then finish (start.divMagnitudes (power 308)) (exponent + 308)
  else some (Binary64.ofRatio false 0 1)

/-- The value of a number. Without point and exponent it is an integer if it has at most 64 bits,
`-0` apart; every other number is binary. Digits beyond a significand of 64 bits are dropped. -/
def NumberText.value? (n : NumberText) : Option Number :=
  let (significand, dropped) := takeSignificand 0 n.whole
  let signed (x : Binary64) : Number := .float (if n.negative then x.neg else x)
  if dropped.isEmpty ∧ n.fraction.isEmpty ∧ n.exponent.isNone then
    if !n.negative then some (.integer significand)
    else if 0 < significand ∧ significand ≤ twoTo 63 then some (.integer (-(significand : Int)))
    else some (signed (Binary64.ofRatio false significand 1))
  else
    let (significand, rest) := takeSignificand significand n.fraction
    let exponent : Int := (dropped.length : Int) - ((n.fraction.length - rest.length : Nat) : Int)
    match n.exponent with
    | none => (scaleSignificand significand exponent).map signed
    | some (negative, ds) =>
      let e : Int := (ds.foldl (fun e c => e * 10 + digitValue c) 0 : Nat)
      (scaleSignificand significand (if negative then exponent - e else exponent + e)).map signed

mutual
/-- The value of a document, with at most `room` brackets around any point of it. -/
def Document.toJson? (room : Nat) : Document → Option Json
  | .null => some .null
  | .bool b => some (.bool b)
  | .number n => n.value?.map .number
  | .string s => (stringText? s).map fun s => .string (String.ofList s)
  | .array items =>
    match room with
    | 0 => none
    | room + 1 => (Document.itemsToJson? room items).map .array
  | .object members =>
    match room with
    | 0 => none
    | room + 1 => (Document.membersToJson? room members).map ofMembers

/-- The values of the items of an array. -/
def Document.itemsToJson? (room : Nat) : List Document → Option (List Json)
  | [] => some []
  | d :: rest =>
    match Document.toJson? room d, Document.itemsToJson? room rest with
    | some x, some xs => some (x :: xs)
    | _, _ => none

/-- The values of the members of an object. -/
def Document.membersToJson? (room : Nat) :
    List (List StringPiece × Document) → Option (List (String × Json))
  | [] => some []
  | (name, d) :: rest =>
    match stringText? name, Document.toJson? room d, Document.membersToJson? room rest with
    | some k, some x, some xs => some ((String.ofList k, x) :: xs)
    | _, _, _ => none
end

/-- The deepest nesting of brackets that is read. -/
def maxNesting : Nat := 127

/-- The value of a JSON text. -/
def read? (s : String) : Option Json := (Document.read? s).bind (Document.toJson? maxNesting)

end EntitySql.Json
