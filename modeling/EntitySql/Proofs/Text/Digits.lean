import Mathlib.Algebra.Group.Nat.Defs
import Mathlib.Data.List.TakeWhile

/-!
# Decimal digits

What a written number is made of, and how it is found again at the front of a text. The digits of a
number spell the number (**`foldl_toDigits`**), there is a zero at the front of zero only
(`length_toDigits_of_head?`), and a run of digits goes up to where something else stands
(`takeWhile_dropWhile_append`).
-/

namespace EntitySql

theorem isDigit_of_mem_digits {c : Char} {n : Nat} (h : c ∈ Nat.toDigits 10 n) :
    c.isDigit = true :=
  Nat.isDigit_of_mem_toDigits (by decide) (by decide) h

/-- A character of a class is none of the characters that are outside of it. -/
theorem notMem_of_class {p : Char → Bool} {cs : List Char} (hcs : cs.any p = false) {c : Char}
    (h : p c = true) : c ∉ cs :=
  fun hc => List.any_eq_false.mp hcs c hc h

/-- Only zero is written with a zero at the front. -/
theorem head?_toDigits_ne {n : Nat} (h : 0 < n) : (Nat.toDigits 10 n).head? ≠ some '0' := by
  induction n using Nat.strongRecOn with
  | _ n ih =>
    by_cases hsmall : n < 10
    · rw [Nat.toDigits_of_lt_base hsmall]
      simpa using Nat.pos_iff_ne_zero.mp h
    · obtain ⟨d, ds, hds⟩ :=
        List.exists_cons_of_ne_nil (Nat.toDigits_ne_nil (n := n / 10) (b := 10))
      have hhead := ih (n / 10) (by omega) (by omega)
      rw [hds] at hhead
      rwa [Nat.toDigits_of_base_le (by decide) (by omega), hds]

theorem length_toDigits_of_head? {n : Nat} (h : (Nat.toDigits 10 n).head? = some '0') :
    (Nat.toDigits 10 n).length = 1 := by
  have hzero : n = 0 := by
    by_contra hne
    exact head?_toDigits_ne (Nat.pos_iff_ne_zero.mpr hne) h
  rw [hzero]
  rfl

/-- Characters are taken and dropped up to where the text breaks off. -/
theorem takeWhile_dropWhile_append {p : Char → Bool} {cs rest : List Char}
    (hcs : ∀ c ∈ cs, p c = true) (hrest : ∀ c ∈ rest.head?, p c = false) :
    (cs ++ rest).takeWhile p = cs ∧ (cs ++ rest).dropWhile p = rest := by
  have hstop : rest.takeWhile p = [] ∧ rest.dropWhile p = rest := by
    cases rest with
    | nil => exact ⟨rfl, rfl⟩
    | cons c rest => simp [hrest c rfl]
  rw [List.takeWhile_append_of_pos hcs, List.dropWhile_append_of_pos hcs, hstop.1, hstop.2,
    List.append_nil]
  exact ⟨rfl, rfl⟩

/-- Reading digits from the left, one place at a time. -/
theorem foldl_digits (ds : List Char) (n : Nat) :
    ds.foldl (fun n c => n * 10 + (c.toNat - '0'.toNat)) n = Nat.ofDigitChars 10 ds n := by
  simp only [Nat.ofDigitChars, Nat.mul_comm]

/-- The digits of a number spell the number. -/
theorem foldl_toDigits (n : Nat) :
    (Nat.toDigits 10 n).foldl (fun n c => n * 10 + (c.toNat - '0'.toNat)) 0 = n := by
  rw [foldl_digits, Nat.ofDigitChars_ten_toDigits]

theorem digits_injective {n m : Nat} (h : Nat.toDigits 10 n = Nat.toDigits 10 m) : n = m := by
  rw [← Nat.ofDigitChars_ten_toDigits (n := n), h, Nat.ofDigitChars_ten_toDigits]

/-- Numbers that are written alike are the same. -/
theorem eq_of_toString_eq {m n : Nat} (h : toString m = toString n) : m = n := by
  refine digits_injective ?_
  rw [← Nat.toList_repr, ← Nat.toList_repr, ← Nat.toString_eq_repr, ← Nat.toString_eq_repr, h]

theorem isDigit_of_mem_zeros_append {k n : Nat} :
    ∀ c ∈ List.replicate k '0' ++ Nat.toDigits 10 n, c.isDigit = true := by
  intro c hc
  rcases List.mem_append.mp hc with hc | hc
  · rw [List.eq_of_mem_replicate hc]
    rfl
  · exact isDigit_of_mem_digits hc

/-- Zeros in front of a number do not change it. -/
theorem ofDigitChars_zeros_append (k n : Nat) :
    Nat.ofDigitChars 10 (List.replicate k '0' ++ Nat.toDigits 10 n) 0 = n := by
  rw [Nat.ofDigitChars_append, Nat.ofDigitChars_replicate_zero, Nat.mul_zero,
    Nat.ofDigitChars_ten_toDigits]

/-- A digit behind a number moves it one place. -/
theorem ofDigitChars_cons (d : Char) (ds : List Char) (n : Nat) :
    Nat.ofDigitChars 10 (d :: ds) n = Nat.ofDigitChars 10 ds (n * 10 + (d.toNat - '0'.toNat)) := by
  rw [Nat.ofDigitChars_cons, Nat.mul_comm]

theorem le_ofDigitChars (ds : List Char) (n : Nat) : n ≤ Nat.ofDigitChars 10 ds n := by
  rw [Nat.ofDigitChars_eq_ofDigitChars_zero]
  have hpos : 1 * n ≤ 10 ^ ds.length * n := Nat.mul_le_mul_right n (Nat.one_le_pow _ _ (by decide))
  omega

end EntitySql
