/-!
# Hexadecimal text

Bytes and long words as lower-case hexadecimal digits, two digits a byte.
-/

namespace EntitySql.Text

/-- The lower-case digit of a number below sixteen. -/
def hexDigit (n : Nat) : Char := if n < 10 then Char.ofNat (48 + n) else Char.ofNat (87 + n)

/-- The value of a hexadecimal digit of either case. -/
def hexValue? (c : Char) : Option Nat :=
  if c.isDigit then some (c.toNat - 48)
  else if 'a' ≤ c ∧ c ≤ 'f' then some (c.toNat - 87)
  else if 'A' ≤ c ∧ c ≤ 'F' then some (c.toNat - 55)
  else none

/-- A byte in two digits. -/
def hexByte (b : UInt8) : List Char := [hexDigit (b.toNat / 16), hexDigit (b.toNat % 16)]

/-- Bytes in two digits each. -/
def hexBytes (bs : List UInt8) : List Char := bs.flatMap hexByte

/-- The bytes of a text of hexadecimal digits. -/
def readHexBytes? : List Char → Option (List UInt8)
  | [] => some []
  | [_] => none
  | a :: b :: rest => do
    let high ← hexValue? a
    let low ← hexValue? b
    let bytes ← readHexBytes? rest
    some (UInt8.ofNat (high * 16 + low) :: bytes)

end EntitySql.Text
