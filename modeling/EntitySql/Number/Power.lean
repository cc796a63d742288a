/-!
# Powers of the bases

Binary numbers step by powers of two and written numbers by powers of ten, and one side is compared
with the other through five times two. All of them are natural numbers; a negative exponent is a
denominator wherever it arises.
-/

namespace EntitySql

/-- The `n`th power of two. -/
def twoTo (n : Nat) : Nat := Nat.pow 2 n

/-- The `n`th power of five. -/
def fiveTo (n : Nat) : Nat := Nat.pow 5 n

/-- The `n`th power of ten. -/
def tenTo (n : Nat) : Nat := Nat.pow 10 n

end EntitySql
