import EntitySql.Number.Shortest

/-!
# JSON values

A JSON number is an integer of at most 64 bits, signed or unsigned, or a finite binary number. The
members of an object that is read stand in the order of their names by code points, each name once
(`ofMembers`); whoever makes an object to be written chooses the order of its members.
`toChars` is the compact written form: no blanks, control characters, quotes and backslashes
escaped, and a binary number with a point or an exponent, so that it reads back as one.
-/

namespace EntitySql

/-- A JSON number. -/
inductive Json.Number where
  | integer (n : Int)
  | float (x : Binary64)
deriving DecidableEq, Inhabited

/-- A JSON value. -/
inductive Json where
  | null
  | bool (b : Bool)
  | number (n : Json.Number)
  | string (s : String)
  | array (items : List Json)
  | object (members : List (String × Json))
deriving Inhabited

namespace Json

/-! ### Equality -/

/-- Numeric equality of numbers of the same kind. -/
def Number.equal : Number → Number → Bool
  | .integer m, .integer n => m = n
  | .float x, .float y => x.equal y
  | _, _ => false

mutual
/-- Equality of values: numbers of the same kind are compared numerically, the rest by structure. -/
def equal : Json → Json → Bool
  | .null, .null => true
  | .bool a, .bool b => a = b
  | .number m, .number n => m.equal n
  | .string s, .string t => s = t
  | .array xs, .array ys => equalItems xs ys
  | .object xs, .object ys => equalMembers xs ys
  | _, _ => false

/-- Equality of the items of two arrays. -/
def equalItems : List Json → List Json → Bool
  | [], [] => true
  | x :: xs, y :: ys => equal x y && equalItems xs ys
  | _, _ => false

/-- Equality of the members of two objects. -/
def equalMembers : List (String × Json) → List (String × Json) → Bool
  | [], [] => true
  | (j, x) :: xs, (k, y) :: ys => j = k && equal x y && equalMembers xs ys
  | _, _ => false
end

/-! ### Objects -/

/-- Puts a member in its place; a member of the same name is replaced. -/
def insertMember (name : String) (value : Json) : List (String × Json) → List (String × Json)
  | [] => [(name, value)]
  | (k, v) :: rest =>
    if name < k then (name, value) :: (k, v) :: rest
    else if name = k then (name, value) :: rest
    else (k, v) :: insertMember name value rest

/-- The object with the given members; of two with one name the later wins. -/
def ofMembers (members : List (String × Json)) : Json :=
  .object (members.foldl (fun acc (k, v) => insertMember k v acc) [])

/-! ### Writing -/

/-- The written form of a character inside a string. -/
def escapeChar (c : Char) : List Char :=
  if c = '"' then ['\\', '"']
  else if c = '\\' then ['\\', '\\']
  else if c = '\n' then ['\\', 'n']
  else if c = '\r' then ['\\', 'r']
  else if c = '\t' then ['\\', 't']
  else if c = '\x08' then ['\\', 'b']
  else if c = '\x0c' then ['\\', 'f']
  else if c.toNat < 0x20 then
    ['\\', 'u', '0', '0', Char.ofNat (48 + c.toNat / 16), Nat.digitChar (c.toNat % 16)]
  else [c]

/-- A string between quotes. -/
def stringChars (s : String) : List Char := '"' :: s.toList.flatMap escapeChar ++ ['"']

/-- An integer in decimal digits. -/
def intChars (n : Int) : List Char := (if n < 0 then ['-'] else []) ++ Nat.toDigits 10 n.natAbs

/-- A shortest decimal as a JSON number that is not an integer: positional with a point while the
leading digit stands between `10 ^ -5` and `10 ^ 15`, otherwise with an exponent. -/
def decimalChars (d : Number.PlainDecimal) : List Char :=
  let ds := Nat.toDigits 10 d.digits
  let point : Int := ds.length + d.exponent
  if 0 ≤ d.exponent ∧ point ≤ 16 then d.positional ++ ['.', '0']
  else if -5 < point ∧ point ≤ 16 then d.positional
  else
    ds.take 1 ++ (if ds.length = 1 then [] else '.' :: ds.drop 1) ++ 'e' :: intChars (point - 1)

/-- A number; a finite binary number is written with the fewest digits that read back, a tie going
to the even digit, and one that is not finite as `null`. -/
def numberChars : Number → List Char
  | .integer n => intChars n
  | .float x =>
    match x.read with
    | .finite negative m q =>
      (if negative then ['-'] else []) ++ decimalChars (Number.shortest64 m q .even)
    | _ => ['n', 'u', 'l', 'l']

/-- A literal name. -/
def boolChars (b : Bool) : List Char := if b then "true".toList else "false".toList

mutual
/-- The compact written form of a value. -/
def toChars : Json → List Char
  | .null => "null".toList
  | .bool b => boolChars b
  | .number n => numberChars n
  | .string s => stringChars s
  | .array items => '[' :: itemsChars true items ++ [']']
  | .object members => '{' :: membersChars true members ++ ['}']

/-- Items with commas between them; `first` tells that nothing stands before them. -/
def itemsChars (first : Bool) : List Json → List Char
  | [] => []
  | x :: xs => (if first then [] else [',']) ++ toChars x ++ itemsChars false xs

/-- Members with commas between them; `first` tells that nothing stands before them. -/
def membersChars (first : Bool) : List (String × Json) → List Char
  | [] => []
  | (k, x) :: xs =>
    (if first then [] else [',']) ++ stringChars k ++ ':' :: toChars x ++ membersChars false xs
end

/-- The compact written form of a value. -/
def toText (j : Json) : String := String.ofList j.toChars

end Json

end EntitySql
