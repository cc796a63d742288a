import EntitySql.Number.Binary64

/-!
# Scaled decimals

A `Decimal` is `coefficient / 10 ^ scale` with a coefficient of at most 96 bits and a scale of at
most 28. The scale is part of the value: `1.5` and `1.50` are different decimals that are
numerically equal. There is one zero for each scale; a minus sign in front of a zero is dropped.

Reading accepts a sign, digits with underscores between them and one point. Digits after the point
that no longer fit are rounded away: the first of them decides, a half goes away from zero, and
whatever follows it is not looked at.
-/

namespace EntitySql

/-- The decimal `coefficient / 10 ^ scale`. -/
structure Decimal where
  coefficient : Int
  scale : Nat
  coefficient_lt : coefficient.natAbs < twoTo 96
  scale_le : scale ≤ 28
deriving DecidableEq

namespace Decimal

instance : Inhabited Decimal := ⟨⟨0, 0, by decide, by decide⟩⟩

/-- The decimal with this coefficient and scale, if both are within their limits. -/
def ofParts? (coefficient : Int) (scale : Nat) : Option Decimal :=
  if h : coefficient.natAbs < twoTo 96 ∧ scale ≤ 28 then some ⟨coefficient, scale, h.1, h.2⟩
  else none

/-- The decimal of a 64-bit integer, with scale zero. -/
def ofInt64 (n : Int64) : Decimal :=
  have least := n.le_toInt
  have greatest := n.toInt_lt
  have room : twoTo 64 ≤ twoTo 96 := by decide
  ⟨n.toInt, 0, by simp only [twoTo, Nat.pow_eq] at room ⊢; omega, by decide⟩

/-! ### Comparison and conversion -/

/-- Numeric equality, whatever the scales. -/
def equal (a b : Decimal) : Bool :=
  a.coefficient * (tenTo b.scale : Int) = b.coefficient * (tenTo a.scale : Int)

/-- The integer that a decimal without fraction part denotes. -/
def whole? (d : Decimal) : Option Int :=
  if d.coefficient.natAbs % tenTo d.scale = 0 then
    some (d.coefficient.tdiv (tenTo d.scale : Int))
  else none

/-- The binary number of a decimal. An integer is rounded once. Otherwise the integer part and the
fraction part are converted apart and added, and the sum is rounded to the scale of the decimal;
the sign is put back at the end. -/
def toBinary64 (d : Decimal) : Binary64 :=
  if d.scale = 0 then .ofInt d.coefficient
  else
    let unit := tenTo d.scale
    let whole := Binary64.ofRatio false (d.coefficient.natAbs / unit) 1
    let part := Binary64.divMagnitudes (.ofRatio false (d.coefficient.natAbs % unit) 1)
      (.ofRatio false unit 1)
    let magnitude :=
      if d.coefficient.natAbs % unit = 0 then whole
      else
        let roundTo := Binary64.powMagnitude (.ofInt 10) d.scale
        let scaled := Binary64.mulMagnitudes (Binary64.addMagnitudes whole part) roundTo
        Binary64.divMagnitudes scaled.roundMagnitude roundTo
    if d.coefficient < 0 then magnitude.neg else magnitude

/-! ### Text -/

/-- The text of a decimal: as many digits after the point as its scale says. -/
def toChars (d : Decimal) : List Char :=
  let ds := Nat.toDigits 10 d.coefficient.natAbs
  let padded := List.replicate (d.scale + 1 - ds.length) '0' ++ ds
  let whole := padded.take (padded.length - d.scale)
  let part := padded.drop (padded.length - d.scale)
  (if d.coefficient < 0 then ['-'] else []) ++ whole ++ (if part.isEmpty then [] else '.' :: part)

/-- The text of a decimal. -/
def toText (d : Decimal) : String := String.ofList d.toChars

/-- The value of a decimal digit. -/
def digit? (c : Char) : Option Nat := if c.isDigit then some (c.toNat - '0'.toNat) else none

/-- The magnitude and scale after rounding by the first dropped digit. -/
def roundBy (magnitude scale dropped : Nat) : Option (Nat × Nat) :=
  if dropped < 5 then some (magnitude, scale)
  else if magnitude + 1 < twoTo 96 then some (magnitude + 1, scale)
  else if scale = 0 then none
  else some ((magnitude + 5) / 10, scale - 1)

/-- The digit that a character stands for where digits are being dropped; a separator counts as
zero there. -/
def droppedDigit? (c : Char) : Option Nat :=
  if c = '_' ∨ c = '.' then some 0 else digit? c

/-- Reads the digits of a decimal. `point` tells whether the point has been passed and `seen`
whether there has been a digit; `magnitude` and `scale` describe the digits read so far. -/
def readDigits (point seen : Bool) (magnitude scale : Nat) : List Char → Option (Nat × Nat)
  | [] => if seen then some (magnitude, scale) else none
  | c :: rest =>
    match digit? c with
    | some n =>
      let magnitude' := magnitude * 10 + n
      if twoTo 96 ≤ magnitude' then
        if point then roundBy magnitude scale n else none
      else
        let scale' := if point then scale + 1 else 0
        if point ∧ 28 ≤ scale' then
          match rest with
          | [] => some (magnitude', scale')
          | next :: _ => (droppedDigit? next).bind (roundBy magnitude' scale')
        else readDigits point true magnitude' scale' rest
    | none =>
      if c = '.' ∧ !point then readDigits true seen magnitude scale rest
      else if c = '_' ∧ seen then readDigits point seen magnitude scale rest
      else none

/-- The decimal that a text denotes in positional notation. -/
def read? (s : List Char) : Option Decimal :=
  let (negative, digits) :=
    match s with
    | '-' :: rest => (true, rest)
    | '+' :: rest => (false, rest)
    | _ => (false, s)
  match readDigits false false 0 0 digits with
  | some (magnitude, scale) => ofParts? (if negative then -(magnitude : Int) else magnitude) scale
  | none => none

/-- A natural number of at most 32 bits in decimal digits, with an optional plus sign. -/
def readExponent? (s : List Char) : Option Nat :=
  let digits := match s with | '+' :: rest => rest | _ => s
  if digits.isEmpty ∨ !digits.all Char.isDigit then none
  else
    let n := digits.foldl (fun n c => n * 10 + (c.toNat - '0'.toNat)) 0
    if n < twoTo 32 then some n else none

/-- The decimal that a text denotes in scientific notation: a decimal, `e` or `E`, and an exponent
that moves the scale. -/
def readScientific? (s : List Char) : Option Decimal :=
  let isMark (c : Char) : Bool := c = 'e' || c = 'E'
  match s.dropWhile (fun c => !isMark c) with
  | [] => none
  | _ :: exponent =>
    match read? (s.takeWhile (fun c => !isMark c)) with
    | none => none
    | some base =>
      match exponent with
      | '-' :: e => (readExponent? e).bind fun e => ofParts? base.coefficient (base.scale + e)
      | e => (readExponent? e).bind fun e =>
          if e ≤ base.scale then ofParts? base.coefficient (base.scale - e)
          else if e - base.scale ≤ 28 then
            ofParts? (base.coefficient * (tenTo (e - base.scale) : Int)) 0
          else none

end Decimal

end EntitySql
