import EntitySql.Proofs.Result
import EntitySql.Value.Conversion
import Mathlib.Algebra.Order.Field.Rat
import Mathlib.Tactic.NormNum

/-!
# Integers out of values

An integer, a decimal, a finite binary number and an element of an enumeration denote a number
(`Value.number?`), which is exact: `m * 2 ^ q` for a binary number, `c / 10 ^ s` for a decimal. A property
of an integer type takes such a value if the number is an integer that the type can hold, and what it
takes is that number.

There is one exception. A binary number without fraction part is brought to 64 bits by cutting it off at
the ends of their range, so the type of 64 bits takes what it cannot hold (`Value.IsCutOff`); a decimal
that large is refused. The smaller types are behind it and refuse both, as the ends of that range are out
of theirs.

The main statement, **`Value.toScalar_integer`**, has both directions: which values are taken, and as
which integer, and that all others are refused with an error that names the type.
-/

namespace EntitySql

/-! ### The number of a value -/

/-- The number that the bits stand for, if they stand for one. -/
def Binary64.toRat? (x : Binary64) : Option ℚ :=
  match x.read with
  | .finite negative m q => some ((if negative then -(m : ℚ) else m) * 2 ^ q)
  | _ => none

/-- The number that a decimal stands for. -/
def Decimal.toRat (d : Decimal) : ℚ := d.coefficient / 10 ^ d.scale

/-- The number that a value denotes, if it denotes one. -/
def Value.number? : Value → Option ℚ
  | int n => some n.toInt
  | decimal d => some d.toRat
  | float x => x.toRat?
  | enumeration e => some e.number.toInt
  | _ => none

/-! ### Numbers without fraction part -/

theorem intCast_div_eq_iff {a b n : ℤ} (hb : b ≠ 0) : (a : ℚ) / b = n ↔ a = n * b := by
  rw [div_eq_iff (Int.cast_ne_zero.mpr hb)]
  norm_cast

/-- A fraction is the integer `n` exactly if it has no rest and `n` is its quotient. -/
theorem quotient_eq_some_iff {num den : ℕ} (hden : den ≠ 0) (negative : Bool) (n : ℤ) :
    (if num % den = 0 then
        some (if negative then -((num / den : ℕ) : ℤ) else ((num / den : ℕ) : ℤ))
      else none) = some n ↔
      (if negative then -(num : ℤ) else num) = n * den := by
  have hsplit := Nat.div_add_mod num den
  by_cases hrest : num % den = 0
  · rw [if_pos hrest, Option.some.injEq]
    have hnum : (num : ℤ) = ((num / den : ℕ) : ℤ) * den := by
      rw [hrest, Nat.add_zero, Nat.mul_comm] at hsplit
      exact_mod_cast hsplit.symm
    have hcancel {a : ℤ} : a * den = n * den ↔ a = n :=
      mul_left_inj' (Int.natCast_ne_zero.mpr hden)
    cases negative with
    | false => rw [if_neg Bool.false_ne_true, if_neg Bool.false_ne_true, hnum, hcancel]
    | true => rw [if_pos rfl, if_pos rfl, hnum, ← neg_mul, hcancel]
  · rw [if_neg hrest]
    refine iff_of_false nofun fun h => hrest ?_
    have hdvd : (den : ℤ) ∣ num := by
      cases negative with
      | false => exact ⟨n, by simpa [mul_comm] using h⟩
      | true => exact ⟨-n, by rw [if_pos rfl] at h; rw [mul_neg, mul_comm, ← h, neg_neg]⟩
    exact Nat.mod_eq_zero_of_dvd (Int.natCast_dvd_natCast.mp hdvd)

/-- The number of a binary number is the fraction that is taken for it. -/
theorem Binary64.natCast_mul_zpow (m : ℕ) (q : ℤ) :
    (m : ℚ) * 2 ^ q = ((ratio m q).1 : ℚ) / (ratio m q).2 := by
  simp only [ratio, twoTo, Nat.pow_eq]
  cases q with
  | ofNat k => simp
  | negSucc k => simp [zpow_negSucc, div_eq_mul_inv]

theorem Binary64.whole?_eq_some_iff (x : Binary64) (n : ℤ) :
    x.whole? = some n ↔ x.toRat? = some (n : ℚ) := by
  unfold whole? toRat?
  cases x.read with
  | nan => simp
  | infinite negative => simp
  | finite negative m q =>
    have hden : (ratio m q).2 ≠ 0 := (Nat.pow_pos (by decide)).ne'
    have hvalue := natCast_mul_zpow m q
    dsimp only
    generalize ratio m q = r at hden hvalue ⊢
    obtain ⟨num, den⟩ := r
    have hnumber : (if negative then -(m : ℚ) else m) * 2 ^ q =
        ((if negative then -(num : ℤ) else num : ℤ) : ℚ) / ((den : ℤ) : ℚ) := by
      cases negative <;> simp [hvalue, neg_div]
    rw [Option.some.injEq, hnumber, intCast_div_eq_iff (Int.natCast_ne_zero.mpr hden)]
    exact quotient_eq_some_iff hden negative n

theorem Decimal.whole?_eq_some_iff (d : Decimal) (n : ℤ) :
    d.whole? = some n ↔ d.toRat = n := by
  have hunit : (tenTo d.scale : ℤ) ≠ 0 := Int.natCast_ne_zero.mpr (Nat.pow_pos (by decide)).ne'
  have hnumber : d.toRat = (d.coefficient : ℚ) / ((tenTo d.scale : ℤ) : ℚ) := by
    simp [toRat, tenTo]
  rw [hnumber, intCast_div_eq_iff hunit, whole?]
  by_cases hrest : d.coefficient.natAbs % tenTo d.scale = 0
  · have hdvd : (tenTo d.scale : ℤ) ∣ d.coefficient :=
      Int.natCast_dvd.mpr (Nat.dvd_of_mod_eq_zero hrest)
    rw [if_pos hrest, Option.some.injEq, ← mul_left_inj' hunit, Int.tdiv_mul_cancel hdvd]
  · rw [if_neg hrest]
    refine iff_of_false nofun fun h => hrest (Nat.mod_eq_zero_of_dvd ?_)
    exact Int.natCast_dvd.mp (Dvd.intro_left n h.symm)

/-! ### Ranges -/

/-- The bits of an integer type. -/
def ScalarType.integerBits? : ScalarType → Option ℕ
  | int64 => some 64
  | int32 => some 32
  | int16 => some 16
  | _ => none

namespace Value

theorem fitsBits_iff {bits : ℕ} {n : ℤ} :
    fitsBits bits n = true ↔ -(2 : ℤ) ^ (bits - 1) ≤ n ∧ n < 2 ^ (bits - 1) := by
  simp [fitsBits, twoTo]

theorem fitsBits_toInt (n : Int64) : fitsBits 64 n.toInt = true :=
  fitsBits_iff.mpr ⟨n.le_toInt, n.toInt_lt⟩

/-- An integer that fits 64 bits is kept. -/
theorem ofInt_eq_iff_of_fitsBits {k : ℤ} (h : fitsBits 64 k = true) {n : Int64} :
    Int64.ofInt k = n ↔ k = n.toInt := by
  obtain ⟨hle, hlt⟩ := fitsBits_iff.mp h
  rw [← Int64.toInt_inj, Int64.toInt_ofInt_of_le hle hlt]

/-- The value is a binary number without fraction part that 64 bits do not hold, and the integer is the
end of their range on its side. -/
def IsCutOff (v : Value) (n : Int64) : Prop :=
  ∃ (x : Binary64) (k : ℤ), v = .float x ∧ x.toRat? = some (k : ℚ) ∧
    (k < -2 ^ 63 ∧ n = Int64.minValue ∨ 2 ^ 63 ≤ k ∧ n = Int64.maxValue)

/-- An integer is brought to 64 bits as it is, or as the end of their range on its side. -/
theorem clamp64_eq_iff {k : ℤ} {n : Int64} :
    clamp64 k = n ↔
      k = n.toInt ∨ k < -2 ^ 63 ∧ n = Int64.minValue ∨ 2 ^ 63 ≤ k ∧ n = Int64.maxValue := by
  have hrange := fitsBits_iff.mp (fitsBits_toInt n)
  have hends : (twoTo 63 : ℤ) = 2 ^ 63 := rfl
  rw [clamp64, hends]
  rcases lt_or_ge k (-2 ^ 63) with hlow | hlow
  · have hmin : max (-(2 : ℤ) ^ 63) (min k (2 ^ 63 - 1)) = -2 ^ 63 := by omega
    have hvalue : Int64.ofInt (-2 ^ 63) = Int64.minValue := by decide
    rw [hmin, hvalue]
    constructor
    · exact fun h => .inr (.inl ⟨hlow, h.symm⟩)
    · rintro (h | ⟨-, h⟩ | ⟨h, -⟩)
      · omega
      · exact h.symm
      · omega
  · rcases lt_or_ge k (2 ^ 63) with hhigh | hhigh
    · have hsame : max (-(2 : ℤ) ^ 63) (min k (2 ^ 63 - 1)) = k := by omega
      rw [hsame, ofInt_eq_iff_of_fitsBits (fitsBits_iff.mpr ⟨hlow, hhigh⟩)]
      omega
    · have hmax : max (-(2 : ℤ) ^ 63) (min k (2 ^ 63 - 1)) = 2 ^ 63 - 1 := by omega
      have hvalue : Int64.ofInt (2 ^ 63 - 1) = Int64.maxValue := by decide
      rw [hmax, hvalue]
      constructor
      · exact fun h => .inr (.inr ⟨hhigh, h.symm⟩)
      · rintro (h | ⟨h, -⟩ | ⟨-, h⟩)
        · omega
        · omega
        · exact h.symm

/-! ### Conversion -/

theorem toInt64_eq_ok_iff {v : Value} {n : Int64} :
    toInt64 v = .ok n ↔ v.number? = some (n.toInt : ℚ) ∨ v.IsCutOff n := by
  cases v with
  | int m =>
    have hnot : ¬(Value.int m).IsCutOff n := by rintro ⟨x, k, ⟨⟩, -⟩
    simp [toInt64, number?, hnot, Int64.toInt_inj]
  | enumeration e =>
    have hnot : ¬(Value.enumeration e).IsCutOff n := by rintro ⟨x, k, ⟨⟩, -⟩
    simp [toInt64, number?, hnot, Int64.toInt_inj]
  | decimal d =>
    have hnot : ¬(Value.decimal d).IsCutOff n := by rintro ⟨x, k, ⟨⟩, -⟩
    rw [or_iff_left hnot, number?, Option.some.injEq, ← Decimal.whole?_eq_some_iff, toInt64]
    cases d.whole? with
    | none => simp [mismatch]
    | some k =>
      dsimp only
      split
      · next hfits => rw [Except.ok.injEq, ofInt_eq_iff_of_fitsBits hfits, Option.some.injEq]
      · next hfits =>
        refine iff_of_false (fun h => by cases h) fun h => hfits ?_
        rw [Option.some.inj h]
        exact fitsBits_toInt n
  | float x =>
    have hcut : (Value.float x).IsCutOff n ↔ ∃ k : ℤ, x.whole? = some k ∧
        (k < -2 ^ 63 ∧ n = Int64.minValue ∨ 2 ^ 63 ≤ k ∧ n = Int64.maxValue) := by
      simp only [IsCutOff, Value.float.injEq, Binary64.whole?_eq_some_iff, exists_and_left,
        exists_eq_left']
    rw [hcut, number?, ← Binary64.whole?_eq_some_iff, toInt64]
    cases x.whole? with
    | none => simp [mismatch]
    | some k => simp [clamp64_eq_iff]
  | _ =>
    refine iff_of_false (fun h => by cases h) ?_
    rintro (h | ⟨x, k, ⟨⟩, -⟩)
    cases h

/-- A value that is refused is told by its kind. -/
theorem toInt64_eq_error {v : Value} {e : Error} (h : toInt64 v = .error e) :
    e = .conversion "i64" v.kind := by
  unfold toInt64 at h
  split at h
  · cases h
  · split at h
    · split at h
      · cases h
      · exact (Except.error.inj h).symm
    · exact (Except.error.inj h).symm
  · split at h
    · cases h
    · exact (Except.error.inj h).symm
  · cases h
  · exact (Except.error.inj h).symm

/-- The ends of the range of 64 bits are out of every smaller range. -/
theorem IsCutOff.not_fitsBits {v : Value} {n : Int64} (h : v.IsCutOff n) {bits : ℕ}
    (hbits : bits < 64) : fitsBits bits n.toInt = false := by
  have hpow : (2 : ℤ) ^ (bits - 1) ≤ 2 ^ 62 := pow_le_pow_right₀ (by decide) (by omega)
  obtain ⟨x, k, -, -, hends⟩ := h
  rw [Bool.eq_false_iff, ne_eq, fitsBits_iff]
  rintro ⟨hle, hlt⟩
  rcases hends with ⟨-, rfl⟩ | ⟨-, rfl⟩
  · rw [Int64.toInt_minValue] at hle
    omega
  · rw [Int64.toInt_maxValue] at hlt
    omega

theorem toIntOf_eq_ok_iff {bits : ℕ} (hbits : bits < 64) {name : String} {v : Value} {n : Int64} :
    toIntOf bits name v = .ok n ↔
      v.number? = some (n.toInt : ℚ) ∧ fitsBits bits n.toInt = true := by
  have htoInt64 := toInt64_eq_ok_iff (v := v) (n := n)
  unfold toIntOf
  constructor
  · intro h
    split at h
    · next m hm =>
      split at h
      · next hfits =>
        cases h
        refine ⟨(htoInt64.mp hm).resolve_right fun hcut => ?_, hfits⟩
        rw [hcut.not_fitsBits hbits] at hfits
        cases hfits
      · cases h
    · cases h
  · rintro ⟨hnumber, hfits⟩
    rw [htoInt64.mpr (.inl hnumber)]
    exact if_pos hfits

/-- An integer that is too large is told by its digits. -/
theorem toIntOf_eq_error {bits : ℕ} {name : String} {v : Value} {e : Error}
    (h : toIntOf bits name v = .error e) :
    e = .conversion "i64" v.kind ∨ ∃ n : Int64, e = .conversion name (intText n.toInt) := by
  unfold toIntOf at h
  split at h
  · next n _ =>
    split at h
    · cases h
    · exact .inr ⟨n, (Except.error.inj h).symm⟩
  · next he =>
    cases h
    exact .inl (toInt64_eq_error he)

/-- **A property of an integer type takes exactly the integers that it can hold, each as the number it
is**, but for binary numbers that are cut off at the ends of 64 bits; everything else is refused. -/
theorem toScalar_integer {type : ScalarType} {bits : ℕ} (htype : type.integerBits? = some bits)
    (v : Value) :
    (∀ w, v.toScalar type = .ok w ↔ ∃ n : Int64, w = .int n ∧
      (v.number? = some (n.toInt : ℚ) ∧ fitsBits bits n.toInt = true ∨
        type = .int64 ∧ v.IsCutOff n)) ∧
    ∀ e, v.toScalar type = .error e → ∃ expected found, e = .conversion expected found := by
  have hsmall {bits : ℕ} (hbits : bits < 64) {name : String} (htype : type ≠ .int64) (w : Value) :
      (toIntOf bits name v).map int = .ok w ↔ ∃ n : Int64, w = .int n ∧
        (v.number? = some (n.toInt : ℚ) ∧ fitsBits bits n.toInt = true ∨
          type = .int64 ∧ v.IsCutOff n) := by
    simp only [map_eq_ok_iff, toIntOf_eq_ok_iff hbits, htype, false_and, or_false]
    exact exists_congr fun n => and_comm.trans (and_congr_left fun _ => eq_comm)
  have hrefused {bits : ℕ} {name : String} {e : Error}
      (h : (toIntOf bits name v).map int = .error e) :
      ∃ expected found, e = .conversion expected found := by
    rcases toIntOf_eq_error (map_eq_error_iff.mp h) with rfl | ⟨n, rfl⟩
    · exact ⟨_, _, rfl⟩
    · exact ⟨_, _, rfl⟩
  cases type with
  | int64 =>
    cases htype
    refine ⟨fun w => ?_, fun e h => ?_⟩
    · rw [toScalar, map_eq_ok_iff]
      simp only [toInt64_eq_ok_iff, fitsBits_toInt, and_true, true_and]
      exact exists_congr fun n => and_comm.trans (and_congr_left fun _ => eq_comm)
    · exact ⟨_, _, toInt64_eq_error (map_eq_error_iff.mp h)⟩
  | int32 =>
    cases htype
    exact ⟨hsmall (by decide) nofun, fun e h => hrefused h⟩
  | int16 =>
    cases htype
    exact ⟨hsmall (by decide) nofun, fun e h => hrefused h⟩
  | _ => cases htype

/-- Ten to the nineteenth is refused as a decimal, and cut off as a binary number. -/
theorem toScalar_integer_large :
    (∃ d : Decimal, d.toRat = 10 ^ 19 ∧
      toScalar .int64 (.decimal d) = .error (.conversion "i64" "decimal")) ∧
    ∃ x : Binary64, x.toRat? = some (10 ^ 19) ∧
      toScalar .int64 (.float x) = .ok (.int Int64.maxValue) := by
  have hread : Binary64.read ⟨0x43e158e460913d00⟩ = .finite false (5 ^ 19 * 2 ^ 8) 11 := by decide
  have hnumber : Binary64.toRat? ⟨0x43e158e460913d00⟩ = some (10 ^ 19) := by
    rw [Binary64.toRat?, hread]
    norm_num
  refine ⟨⟨⟨10 ^ 19, 0, by decide, by decide⟩, by norm_num [Decimal.toRat], rfl⟩,
    ⟨0x43e158e460913d00⟩, hnumber, ?_⟩
  refine ((toScalar_integer rfl _).1 _).mpr ⟨Int64.maxValue, rfl, .inr ⟨rfl, ?_⟩⟩
  exact ⟨_, 10 ^ 19, rfl, by rw [hnumber]; norm_num, .inr ⟨by norm_num, rfl⟩⟩

end Value

end EntitySql
