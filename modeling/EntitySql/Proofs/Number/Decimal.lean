import EntitySql.Number.Decimal
import EntitySql.Proofs.Text.Digits

/-!
# Decimals are read back from their text

A decimal is read from its text as it is, with its scale (**`Decimal.read?_toChars`**). The digits
in front of the point and those behind it are read in one pass, which stops taking digits only
where a decimal has no room for more; its own digits always fit, since what has been read of them
is never more than the whole (`le_ofDigitChars`).
-/

namespace EntitySql.Decimal

theorem digit?_of_isDigit {c : Char} (h : c.isDigit = true) :
    digit? c = some (c.toNat - '0'.toNat) := by
  rw [digit?, if_pos h]

/-- Digits before the point. -/
theorem readDigits_whole {ds : List Char} (hds : ∀ d ∈ ds, d.isDigit = true) (rest : List Char) :
    ∀ (seen : Bool) (n : Nat), Nat.ofDigitChars 10 ds n < twoTo 96 →
      readDigits false seen n 0 (ds ++ rest) =
        readDigits false (seen || !ds.isEmpty) (Nat.ofDigitChars 10 ds n) 0 rest := by
  induction ds with
  | nil =>
    intro seen n _
    simp
  | cons d ds ih =>
    intro seen n hlt
    obtain ⟨hd, hds⟩ := List.forall_mem_cons.mp hds
    rw [ofDigitChars_cons] at hlt ⊢
    have hle := le_ofDigitChars ds (n * 10 + (d.toNat - '0'.toNat))
    have hrest := ih hds true _ hlt
    rw [List.cons_append, readDigits]
    simp only [digit?_of_isDigit hd]
    rw [if_neg (by omega)]
    simpa using hrest

/-- Digits behind the point, no more than a decimal has. -/
theorem readDigits_part {ds : List Char} (hds : ∀ d ∈ ds, d.isDigit = true) :
    ∀ (n scale : Nat), Nat.ofDigitChars 10 ds n < twoTo 96 → scale + ds.length ≤ 28 →
      readDigits true true n scale ds = some (Nat.ofDigitChars 10 ds n, scale + ds.length) := by
  induction ds with
  | nil => exact fun n scale _ _ => rfl
  | cons d ds ih =>
    intro n scale hlt hscale
    obtain ⟨hd, hds⟩ := List.forall_mem_cons.mp hds
    rw [ofDigitChars_cons] at hlt ⊢
    have hle := le_ofDigitChars ds (n * 10 + (d.toNat - '0'.toNat))
    rw [List.length_cons] at hscale
    rw [readDigits]
    simp only [digit?_of_isDigit hd]
    rw [if_neg (by omega)]
    simp only [if_true, true_and]
    by_cases hlast : 28 ≤ scale + 1
    · have hnil : ds = [] := List.length_eq_zero_iff.mp (by omega)
      rw [if_pos hlast, hnil]
      rfl
    · rw [if_neg hlast, ih hds _ _ hlt (by omega), List.length_cons]
      congr 2
      omega

/-- The digits of a decimal, with zeros in front where there are too few of them. -/
def paddedChars (d : Decimal) : List Char :=
  let ds := Nat.toDigits 10 d.coefficient.natAbs
  List.replicate (d.scale + 1 - ds.length) '0' ++ ds

theorem isDigit_of_mem_paddedChars (d : Decimal) : ∀ c ∈ d.paddedChars, c.isDigit = true :=
  isDigit_of_mem_zeros_append

theorem ofDigitChars_paddedChars (d : Decimal) :
    Nat.ofDigitChars 10 d.paddedChars 0 = d.coefficient.natAbs :=
  ofDigitChars_zeros_append _ _

theorem scale_lt_length_paddedChars (d : Decimal) : d.scale < d.paddedChars.length := by
  simp only [paddedChars, List.length_append, List.length_replicate]
  omega

/-- The digits of a decimal with a point between them are read as its magnitude and its scale. -/
theorem readDigits_toChars (d : Decimal) {whole part : List Char} (hne : whole ≠ [])
    (hpadded : whole ++ part = d.paddedChars) (hpart : part.length = d.scale) :
    readDigits false false 0 0 (whole ++ if part.isEmpty then [] else '.' :: part) =
      some (d.coefficient.natAbs, d.scale) := by
  have hdigits := isDigit_of_mem_paddedChars d
  rw [← hpadded] at hdigits
  have hwhole : ∀ c ∈ whole, c.isDigit = true := fun c hc => hdigits c (List.mem_append_left _ hc)
  have hfraction : ∀ c ∈ part, c.isDigit = true :=
    fun c hc => hdigits c (List.mem_append_right _ hc)
  have hvalue : Nat.ofDigitChars 10 part (Nat.ofDigitChars 10 whole 0) = d.coefficient.natAbs := by
    rw [← Nat.ofDigitChars_append, hpadded, ofDigitChars_paddedChars]
  have hlt := d.coefficient_lt
  have hle := le_ofDigitChars part (Nat.ofDigitChars 10 whole 0)
  rw [readDigits_whole hwhole _ _ _ (by omega), List.isEmpty_eq_false_iff.mpr hne]
  cases part with
  | nil =>
    rw [← hvalue, ← hpart]
    rfl
  | cons c part =>
    have hscale := d.scale_le
    have hread := readDigits_part hfraction (Nat.ofDigitChars 10 whole 0) 0 (by omega) (by omega)
    rw [Nat.zero_add, hvalue, hpart] at hread
    exact hread

/-- A decimal is read back from its text, with its scale. -/
theorem read?_toChars (d : Decimal) : read? d.toChars = some d := by
  have hlength := scale_lt_length_paddedChars d
  obtain ⟨whole, part, hparts, hpart, hchars⟩ : ∃ whole part, whole ++ part = d.paddedChars ∧
      part.length = d.scale ∧ d.toChars = (if d.coefficient < 0 then ['-'] else []) ++
        (whole ++ if part.isEmpty then [] else '.' :: part) := by
    refine ⟨d.paddedChars.take (d.paddedChars.length - d.scale),
      d.paddedChars.drop (d.paddedChars.length - d.scale), List.take_append_drop _ _, ?_, ?_⟩
    · rw [List.length_drop]
      omega
    · rw [← List.append_assoc]
      rfl
  have hne : whole ≠ [] := by
    rintro rfl
    rw [← hparts, List.nil_append, hpart] at hlength
    exact Nat.lt_irrefl _ hlength
  have hread := readDigits_toChars d hne hparts hpart
  have hvalid : ofParts? d.coefficient d.scale = some d := dif_pos ⟨d.coefficient_lt, d.scale_le⟩
  rw [hchars]
  by_cases hneg : d.coefficient < 0
  · have hcoefficient : -(d.coefficient.natAbs : Int) = d.coefficient := by omega
    rw [if_pos hneg, List.singleton_append, read?]
    simp only [hread, if_true, hcoefficient, hvalid]
  · have hcoefficient : (d.coefficient.natAbs : Int) = d.coefficient := by omega
    obtain ⟨c, cs, rfl⟩ := List.exists_cons_of_ne_nil hne
    have hc : c.isDigit = true :=
      isDigit_of_mem_paddedChars d c (hparts ▸ List.mem_append_left _ List.mem_cons_self)
    rw [if_neg hneg, List.nil_append, List.cons_append, read?.eq_3]
    · rw [List.cons_append] at hread
      simp only [hread, Bool.false_eq_true, if_false, hcoefficient, hvalid]
    · rintro rest heq
      cases heq
      exact absurd hc (by decide)
    · rintro rest heq
      cases heq
      exact absurd hc (by decide)

end EntitySql.Decimal
