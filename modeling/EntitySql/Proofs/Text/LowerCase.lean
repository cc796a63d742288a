import EntitySql.Text.LowerCase
import EntitySql.Text.Nearest
import Mathlib.Data.Bool.AllAny

/-!
# Lower case and the letters from A to Z

Two facts about lower case that names rely on. Texts that agree but for the case of the letters from
A to Z have the same lower-case form (**`lower_eq_of_equalIgnoringCase`**), so names told apart by
their lower-case forms are also apart where only those letters are folded. And what is appended to a
name after an underscore is lower-cased on its own (**`lower_append`**): an underscore has no case
and is not passed over, so it hides what follows from a final sigma before it.
-/

namespace EntitySql.Text

/-! ### Letters from A to Z -/

/-- The letters that `Char.toLower` changes. -/
def capitals : List Char := "ABCDEFGHIJKLMNOPQRSTUVWXYZ".toList

theorem toLower_cases (c : Char) : c.toLower = c ∨ c ∈ capitals := by
  by_cases h : 65 ≤ c.toNat ∧ c.toNat ≤ 90
  · right
    have hall : ∀ n < 26, Char.ofNat (65 + n) ∈ capitals := by decide
    have hc := hall (c.toNat - 65) (by omega)
    rwa [Nat.add_sub_cancel' h.1, Char.ofNat_toNat] at hc
  · left
    have hval : ¬(c.val ≥ 'A'.val ∧ c.val ≤ 'Z'.val) := by
      rintro ⟨hmin, hmax⟩
      exact h ⟨UInt32.le_iff_toNat_le.mp hmin, UInt32.le_iff_toNat_le.mp hmax⟩
    exact dif_neg hval

/-- What is the same for every capital and its small letter does not depend on the case. -/
theorem apply_toLower {α : Type} [DecidableEq α] {f : Char → α}
    (h : (capitals.all fun c => f c.toLower = f c) = true) (c : Char) : f c.toLower = f c := by
  rcases toLower_cases c with hc | hc
  · rw [hc]
  · exact List.all_iff_forall_prop.mp h c hc

theorem lowerChar_toLower (c : Char) : lowerChar c.toLower = lowerChar c :=
  apply_toLower (by decide) c

theorem isCased_toLower (c : Char) : isCased c.toLower = isCased c :=
  apply_toLower (by decide) c

theorem isCaseIgnorable_toLower (c : Char) : isCaseIgnorable c.toLower = isCaseIgnorable c :=
  apply_toLower (by decide) c

theorem toLower_eq_sigma (c : Char) : c.toLower = 'Σ' ↔ c = 'Σ' := by
  simpa using apply_toLower (f := fun c => decide (c = 'Σ')) (by decide) c

theorem startsCased_map_toLower (s : List Char) :
    startsCased (s.map Char.toLower) = startsCased s := by
  have hp : isCaseIgnorable ∘ Char.toLower = isCaseIgnorable := funext isCaseIgnorable_toLower
  rw [startsCased, startsCased, List.dropWhile_map, hp]
  cases s.dropWhile isCaseIgnorable with
  | nil => rfl
  | cons c rest => exact isCased_toLower c

theorem lowerFrom_map_toLower (before s : List Char) :
    lowerFrom (before.map Char.toLower) (s.map Char.toLower) = lowerFrom before s := by
  induction s generalizing before with
  | nil => rfl
  | cons c rest ih =>
    have hrest := ih (c :: before)
    rw [List.map_cons] at hrest
    rw [List.map_cons, lowerFrom, lowerFrom, hrest]
    simp only [toLower_eq_sigma, lowerChar_toLower, startsCased_map_toLower]

/-- **Folding the letters from A to Z loses nothing that lower case keeps.** -/
theorem lower_eq_of_equalIgnoringCase {a b : String} (h : equalIgnoringCase a b = true) :
    lower a = lower b := by
  have hab : a.toList.map Char.toLower = b.toList.map Char.toLower := of_decide_eq_true h
  have ha := lowerFrom_map_toLower [] a.toList
  rw [hab] at ha
  rw [lower, lower, ← ha, ← lowerFrom_map_toLower [] b.toList]

theorem equalIgnoringCase_refl (a : String) : equalIgnoringCase a a = true := by
  simp [equalIgnoringCase]

/-! ### What follows an underscore -/

theorem startsCased_append_underscore (r t : List Char) :
    startsCased (r ++ '_' :: t) = startsCased r := by
  have hstop : isCaseIgnorable '_' = false := by decide
  induction r with
  | nil => simp [startsCased, hstop, show isCased '_' = false by decide]
  | cons c r ih =>
    by_cases hc : isCaseIgnorable c = true
    · simpa [startsCased, hc] using ih
    · simp [startsCased, hc]

theorem lowerFrom_append_underscore (before s t : List Char) :
    lowerFrom before (s ++ '_' :: t) =
      lowerFrom before s ++ '_' :: lowerFrom ('_' :: (s.reverse ++ before)) t := by
  induction s generalizing before with
  | nil => simp [lowerFrom, show lowerChar '_' = ['_'] by decide]
  | cons c s ih =>
    rw [List.cons_append, lowerFrom, lowerFrom, startsCased_append_underscore, ih (c :: before)]
    simp

theorem lowerFrom_ascii (before : List Char) {s : List Char} (h : ∀ c ∈ s, c.toNat < 0x80) :
    lowerFrom before s = s.map Char.toLower := by
  induction s generalizing before with
  | nil => rfl
  | cons c s ih =>
    have hc : c.toNat < 0x80 := h c (by simp)
    have hs : c ≠ 'Σ' := by
      rintro rfl
      exact absurd hc (by decide)
    have hrest := ih (c :: before) fun d hd => h d (List.mem_cons_of_mem c hd)
    rw [lowerFrom, hrest]
    simp [hs, lowerChar, hc]

/-- **What follows an underscore is lower-cased on its own**, here where it is ASCII. -/
theorem lower_append {base suffix : List Char} (h : suffix = [] ∨ suffix.head? = some '_')
    (hascii : ∀ c ∈ suffix, c.toNat < 0x80) :
    lowerFrom [] (base ++ suffix) = lowerFrom [] base ++ suffix.map Char.toLower := by
  cases suffix with
  | nil => simp
  | cons c rest =>
    have hc : c = '_' := by simpa using h
    subst hc
    have hrest : ∀ c ∈ rest, c.toNat < 0x80 := fun c hc => hascii c (List.mem_cons_of_mem _ hc)
    rw [lowerFrom_append_underscore, lowerFrom_ascii _ hrest]
    simp [show Char.toLower '_' = '_' by decide]

end EntitySql.Text
