import EntitySql.Text.Ranges

/-!
# Blanks

The characters with the Unicode property White_Space, and trimming by them.
-/

namespace EntitySql.Text

/-- Ranges of the property White_Space, ascending and apart. -/
def blankRanges : List (Nat × Nat) := [
  (0x9, 0xD), (0x20, 0x20), (0x85, 0x85), (0xA0, 0xA0), (0x1680, 0x1680), (0x2000, 0x200A),
  (0x2028, 0x2029), (0x202F, 0x202F), (0x205F, 0x205F), (0x3000, 0x3000)]

/-- A blank of any script. -/
def isBlank (c : Char) : Bool := inRanges blankRanges c.toNat

/-- The characters between the first and the last one that is not blank. -/
def trimChars (s : List Char) : List Char :=
  ((s.dropWhile isBlank).reverse.dropWhile isBlank).reverse

/-- The text without its leading and trailing blanks. -/
def trim (s : String) : String := String.ofList (trimChars s.toList)

end EntitySql.Text
