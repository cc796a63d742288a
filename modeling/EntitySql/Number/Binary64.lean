import EntitySql.Number.Power

/-!
# Binary floating point numbers

A `Binary64` is its 64 bits: a sign, eleven bits of exponent and 52 bits of fraction. Whatever the
library does with such a number it does in exact arithmetic on naturals: `read` gives the number
as `± m * 2 ^ q`, an operation is carried out on fractions, and `ofRatio` goes back to the nearest
number of the format, ties to the even mantissa.

Not modelled: signalling of exceptions, and the payload of a NaN.
-/

namespace EntitySql

/-- A binary64 number, given by its bits. -/
structure Binary64 where
  bits : UInt64
deriving DecidableEq, Repr, Inhabited

namespace Binary64

/-! ### Rounding a fraction -/

/-- `num / den` rounded to the nearest natural number, ties to the even one. -/
def roundHalfEven (num den : Nat) : Nat :=
  let whole := num / den
  let rest := num % den
  if 2 * rest < den ∨ (2 * rest = den ∧ whole % 2 = 0) then whole else whole + 1

/-- `num / den` rounded to the nearest natural number, ties upwards. -/
def roundHalfUp (num den : Nat) : Nat := (2 * num + den) / (2 * den)

/-- The greatest `e` with `2 ^ e ≤ num / den`, for positive `num` and `den`. -/
def leadingExponent (num den : Nat) : Int :=
  let e : Int := (num.log2 : Int) - (den.log2 : Int)
  if den * twoTo e.toNat ≤ num * twoTo (-e).toNat then e else e - 1

/-- The `(m, q)` with `m * 2 ^ q` nearest to `num / den`, `m` of at most `precision` bits (or the
next power of two) and `q` at least `least`. -/
def nearest (precision : Nat) (least : Int) (num den : Nat) : Nat × Int :=
  let q := max (leadingExponent num den - ((precision : Int) - 1)) least
  (roundHalfEven (num * twoTo (-q).toNat) (den * twoTo q.toNat), q)

/-! ### Reading and writing the bits -/

/-- What the bits stand for; a finite number is `± m * 2 ^ q`. -/
inductive Reading where
  | nan
  | infinite (negative : Bool)
  | finite (negative : Bool) (m : Nat) (q : Int)
deriving DecidableEq, Repr

/-- Whether the sign bit is set. -/
def negative (x : Binary64) : Bool := twoTo 63 ≤ x.bits.toNat

/-- The exponent field. -/
def exponentField (x : Binary64) : Nat := x.bits.toNat / twoTo 52 % twoTo 11

/-- The fraction field. -/
def fractionField (x : Binary64) : Nat := x.bits.toNat % twoTo 52

/-- The number that the bits stand for. -/
def read (x : Binary64) : Reading :=
  if x.exponentField = 2047 then
    if x.fractionField = 0 then .infinite x.negative else .nan
  else if x.exponentField = 0 then .finite x.negative x.fractionField (-1074)
  else .finite x.negative (twoTo 52 + x.fractionField) ((x.exponentField : Int) - 1075)

/-- The number with the given fields. -/
def ofFields (negative : Bool) (exponent fraction : Nat) : Binary64 :=
  ⟨UInt64.ofNat ((if negative then twoTo 63 else 0) + exponent * twoTo 52 + fraction)⟩

/-- Positive or negative infinity. -/
def infinity (negative : Bool) : Binary64 := ofFields negative 2047 0

/-- `± m * 2 ^ q` for `m ≤ 2 ^ 53` and `q ≥ -1074`; infinity beyond the greatest exponent. -/
def pack (negative : Bool) (m : Nat) (q : Int) : Binary64 :=
  if m < twoTo 52 then ofFields negative 0 m
  else
    let (m, q) := if m = twoTo 53 then (twoTo 52, q + 1) else (m, q)
    if 2047 ≤ q + 1075 then infinity negative else ofFields negative (q + 1075).toNat (m - twoTo 52)

/-- The number nearest to `± num / den`, ties to even. -/
def ofRatio (negative : Bool) (num den : Nat) : Binary64 :=
  let (m, q) := nearest 53 (-1074) num den
  pack negative m q

/-- The number nearest to an integer. -/
def ofInt (n : Int) : Binary64 := ofRatio (n < 0) n.natAbs 1

/-! ### Operations -/

/-- The magnitude of a finite number as a fraction. -/
def ratio (m : Nat) (q : Int) : Nat × Nat := (m * twoTo q.toNat, twoTo (-q).toNat)

/-- Whether the number is a NaN. -/
def isNaN (x : Binary64) : Bool := x.read matches .nan

/-- Whether the number is neither infinite nor a NaN. -/
def isFinite (x : Binary64) : Bool := x.read matches .finite ..

/-- The number with the other sign. -/
def neg (x : Binary64) : Binary64 :=
  ofFields (!x.negative) x.exponentField x.fractionField

/-- Numeric equality: a NaN equals nothing and the two zeros are equal. -/
def equal (x y : Binary64) : Bool :=
  match x.read, y.read with
  | .nan, _ => false
  | _, .nan => false
  | .finite _ 0 _, .finite _ 0 _ => true
  | _, _ => x = y

/-- The integer that a finite number without fraction part denotes. -/
def whole? (x : Binary64) : Option Int :=
  match x.read with
  | .finite negative m q =>
    let (num, den) := ratio m q
    if num % den = 0 then
      let n : Int := ((num / den : Nat) : Int)
      some (if negative then -n else n)
    else none
  | _ => none

/-- The sum of two non-negative finite numbers, rounded once. -/
def addMagnitudes (x y : Binary64) : Binary64 :=
  match x.read, y.read with
  | .finite _ m q, .finite _ n r =>
    let (a, b) := ratio m q
    let (c, d) := ratio n r
    ofRatio false (a * d + c * b) (b * d)
  | _, _ => infinity false

/-- The product of two non-negative finite numbers, rounded once. -/
def mulMagnitudes (x y : Binary64) : Binary64 :=
  match x.read, y.read with
  | .finite _ m q, .finite _ n r =>
    let (a, b) := ratio m q
    let (c, d) := ratio n r
    ofRatio false (a * c) (b * d)
  | _, _ => infinity false

/-- The quotient of a non-negative finite number by a positive finite one, rounded once. -/
def divMagnitudes (x y : Binary64) : Binary64 :=
  match x.read, y.read with
  | .finite _ m q, .finite _ n r =>
    let (a, b) := ratio m q
    let (c, d) := ratio n r
    ofRatio false (a * d) (b * c)
  | _, _ => infinity false

/-- A non-negative finite number rounded to an integer, ties upwards. -/
def roundMagnitude (x : Binary64) : Binary64 :=
  match x.read with
  | .finite _ m q => let (num, den) := ratio m q; ofRatio false (roundHalfUp num den) 1
  | _ => x

/-- `x ^ n` for a non-negative finite `x` by repeated squaring, each product rounded: the factors
are the squares of `x` that the binary digits of `n` ask for, the smallest first. -/
def powMagnitude (x : Binary64) (n : Nat) : Binary64 :=
  go (ofInt 1) x n
where
  go (acc square : Binary64) (n : Nat) : Binary64 :=
    let acc := if n % 2 = 1 then mulMagnitudes acc square else acc
    if n / 2 = 0 then acc else go acc (mulMagnitudes square square) (n / 2)
  termination_by n
  decreasing_by omega

/-- The number of single precision (24 bits of mantissa, exponents down to `2 ^ -149`) nearest to
`x`, again as a `Binary64`. -/
def toSingle (x : Binary64) : Binary64 :=
  match x.read with
  | .finite negative m q =>
    let (num, den) := ratio m q
    let (m, q) := nearest 24 (-149) num den
    let (num, den) := ratio m q
    if den * twoTo 128 ≤ num then infinity negative else ofRatio negative num den
  | _ => x

end Binary64

end EntitySql
