import EntitySql.Number.Binary64

/-!
# The shortest decimal of a binary number

The decimals that round to a given binary number form an interval, whose ends belong to it exactly
when the mantissa is even. `shortest` chooses from it a decimal with the fewest digits, and among
those of equal length the nearest one; an exact tie between two is the caller's choice. The search
tries 1, 2, …, 17 digits; on each grid of decimals only the two neighbours of the number can be the
answer.
-/

namespace EntitySql.Number

/-- The non-negative decimal `digits * 10 ^ exponent`. -/
structure PlainDecimal where
  digits : Nat
  exponent : Int
deriving DecidableEq, Repr

/-- Which of two equally near decimals of the same length is taken. -/
inductive Tie where
  | up
  | even
deriving DecidableEq, Repr

/-- The order of `a * 10 ^ i` and `n * 2 ^ j`. -/
def compareScaled (a : Nat) (i : Int) (n : Nat) (j : Int) : Ordering :=
  compare (a * tenTo i.toNat * twoTo (-j).toNat) (n * twoTo j.toNat * tenTo (-i).toNat)

/-- Whether the decimal rounds to `m * 2 ^ q`. `narrow` says that the gap to the number below is
half the gap to the number above. -/
def readsBack (m : Nat) (q : Int) (narrow : Bool) (d : PlainDecimal) : Bool :=
  let low := if narrow then 4 * m - 1 else 4 * m - 2
  let below := compareScaled d.digits d.exponent low (q - 2)
  let above := compareScaled d.digits d.exponent (4 * m + 2) (q - 2)
  let closed := m % 2 = 0
  (below = .gt ∨ (closed ∧ below = .eq)) ∧ (above = .lt ∨ (closed ∧ above = .eq))

/-- The number of decimal digits of `n`. -/
def digitCount (n : Nat) : Nat := (Nat.toDigits 10 n).length

/-- The least `k` with `m * 2 ^ q < 10 ^ k`, for positive `m`. -/
def decimalPoint (m : Nat) (q : Int) : Int :=
  (digitCount (m * twoTo q.toNat * fiveTo (-q).toNat) : Int) - ((-q).toNat : Int)

/-- The decimal of the grid `10 ^ e` that reads back, if there is one. -/
def onGrid (m : Nat) (q : Int) (narrow : Bool) (tie : Tie) (e : Int) : Option PlainDecimal :=
  let num := m * twoTo q.toNat * tenTo (-e).toNat
  let den := twoTo (-q).toNat * tenTo e.toNat
  let down := num / den
  let lower : PlainDecimal := ⟨down, e⟩
  let upper : PlainDecimal := ⟨down + 1, e⟩
  match readsBack m q narrow lower, readsBack m q narrow upper with
  | false, false => none
  | true, false => some lower
  | false, true => some upper
  | true, true =>
    match compare (2 * (num % den)) den with
    | .lt => some lower
    | .gt => some upper
    | .eq => some (if tie = .even ∧ down % 2 = 0 then lower else upper)

/-- The same decimal without trailing zeros in its digits, for at most `limit` of them. -/
def stripZeros : (limit : Nat) → PlainDecimal → PlainDecimal
  | 0, d => d
  | limit + 1, d =>
    if d.digits ≠ 0 ∧ d.digits % 10 = 0 then stripZeros limit ⟨d.digits / 10, d.exponent + 1⟩ else d

/-- The exact decimal value of `m * 2 ^ q`. -/
def exactDecimal (m : Nat) (q : Int) : PlainDecimal :=
  ⟨m * twoTo q.toNat * fiveTo (-q).toNat, -((-q).toNat : Int)⟩

/-- The shortest decimal that rounds to `m * 2 ^ q`, nearest among those of its length. -/
def shortest (m : Nat) (q : Int) (narrow : Bool) (tie : Tie) : PlainDecimal :=
  if m = 0 then ⟨0, 0⟩
  else
    let point := decimalPoint m q
    let readable (n : Nat) := onGrid m q narrow tie (point - ((n : Int) + 1))
    match (List.range 17).findSome? readable with
    | some d => stripZeros 17 d
    | none => exactDecimal m q

/-- The shortest decimal of a binary64 mantissa and exponent: below a power of two, the least
exponent apart, the gap is narrow. -/
def shortest64 (m : Nat) (q : Int) (tie : Tie) : PlainDecimal :=
  shortest m q (m = twoTo 52 ∧ -1074 < q) tie

/-- `digits * 10 ^ exponent` written without an exponent, and without a point where the number is
an integer. -/
def PlainDecimal.positional (d : PlainDecimal) : List Char :=
  let ds := Nat.toDigits 10 d.digits
  if 0 ≤ d.exponent then ds ++ List.replicate d.exponent.toNat '0'
  else
    let places := (-d.exponent).toNat
    if places < ds.length then ds.take (ds.length - places) ++ '.' :: ds.drop (ds.length - places)
    else '0' :: '.' :: List.replicate (places - ds.length) '0' ++ ds

end EntitySql.Number
