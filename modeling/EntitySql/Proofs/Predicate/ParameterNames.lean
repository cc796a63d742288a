import EntitySql.Predicate.Parameter
import EntitySql.Proofs.Text.Digits
import EntitySql.Proofs.Text.LowerCase
import Mathlib.Data.List.Nodup
import Mathlib.Order.Bounds.Basic
import Mathlib.Tactic.Choose

/-!
# Parameter names are apart

The names that a filter gives its values differ from each other and from the names that were taken
before, whatever the case of their letters (**`conditionNames_distinct`**). A name is its base with a
suffix that tells the number of its stem, so a taken name rules out one number only
(`suffixNumber_lowerSuffix`), and among more numbers than taken names one is free
(`exists_free`). Every name is made of letters, numerals and underscores.
-/

namespace EntitySql

open Text

/-! ### Digits -/

theorem toLower_of_isDigit {c : Char} (h : c.isDigit = true) : c.toLower = c := by
  rcases toLower_cases c with hc | hc
  · exact hc
  · have hall : ∀ c ∈ capitals, c.isDigit = false :=
      List.all_iff_forall_prop.mp (by decide)
    rw [hall c hc] at h
    cases h

theorem map_toLower_digits (n : Nat) :
    (Nat.toDigits 10 n).map Char.toLower = Nat.toDigits 10 n := by
  rw [List.map_congr_left fun _ hc => toLower_of_isDigit (isDigit_of_mem_digits hc), List.map_id']

/-! ### Suffixes -/

theorem toNat_lt_of_word {c : Char} (h : c.isAlphanum || c = '_') : c.toNat < 0x80 := by
  simp only [Bool.or_eq_true, decide_eq_true_eq] at h
  rcases h with h | rfl
  · have hranges : (decide (c.val ≥ 65 ∧ c.val ≤ 90) || (c.val ≥ 97 && c.val ≤ 122) ||
        (c.val ≥ 48 && c.val ≤ 57)) = true := h
    simp only [ge_iff_le, UInt32.le_iff_toNat_le, Bool.or_eq_true, Bool.and_eq_true,
      decide_eq_true_eq, UInt32.reduceToNat, Char.toNat_val] at hranges
    omega
  · decide

/-- What the number of a stem adds to its base. -/
def stemSuffix (n : Nat) : List Char := if n = 0 then [] else '_' :: Nat.toDigits 10 n

/-- What the names of a stem add to its base. -/
def nameSuffixes (n : Nat) : (count : Option Nat) → List (List Char)
  | none => [stemSuffix n]
  | some count =>
    (List.range count).map fun i => stemSuffix n ++ '_' :: 'I' :: 'n' :: '_' :: Nat.toDigits 10 i

/-- The number of the stem that a suffix in lower case belongs to. -/
def suffixNumber : List Char → Nat
  | '_' :: rest => Nat.ofDigitChars 10 (rest.takeWhile Char.isDigit) 0
  | _ => 0

theorem toList_numberedStem (base : String) (n : Nat) :
    (numberedStem base n).toList = base.toList ++ stemSuffix n := by
  unfold numberedStem stemSuffix
  split
  · simp
  · simp

theorem stemNames_eq (base : String) (n : Nat) (count : Option Nat) :
    stemNames (numberedStem base n) count =
      (nameSuffixes n count).map fun s => String.ofList (base.toList ++ s) := by
  cases count with
  | none =>
    rw [stemNames, nameSuffixes, List.map_singleton, ← toList_numberedStem, String.ofList_toList]
  | some count =>
    simp only [stemNames, nameSuffixes, List.map_map]
    refine List.map_congr_left fun i _ => String.toList_injective ?_
    simp [toList_numberedStem]

theorem word_of_mem_nameSuffixes {n : Nat} {count : Option Nat} {s : List Char}
    (h : s ∈ nameSuffixes n count) : ∀ c ∈ s, c.isAlphanum || c = '_' := by
  have hstem : ∀ c ∈ stemSuffix n, c.isAlphanum || c = '_' := by
    intro c hc
    unfold stemSuffix at hc
    split at hc
    · cases hc
    · rcases List.mem_cons.mp hc with rfl | hc
      · decide
      · simp [Char.isAlphanum, isDigit_of_mem_digits hc]
  cases count with
  | none => rwa [List.mem_singleton.mp h]
  | some count =>
    obtain ⟨i, -, rfl⟩ := List.mem_map.mp h
    intro c hc
    simp only [List.mem_append, List.mem_cons] at hc
    rcases hc with hc | rfl | rfl | rfl | rfl | hc
    · exact hstem c hc
    · decide
    · decide
    · decide
    · decide
    · simp [Char.isAlphanum, isDigit_of_mem_digits hc]

theorem nameSuffixes_starts {n : Nat} {count : Option Nat} {s : List Char}
    (h : s ∈ nameSuffixes n count) : s = [] ∨ s.head? = some '_' := by
  cases count with
  | none =>
    rw [List.mem_singleton.mp h, stemSuffix]
    split
    · exact .inl rfl
    · exact .inr rfl
  | some count =>
    obtain ⟨i, -, rfl⟩ := List.mem_map.mp h
    rw [stemSuffix]
    split <;> exact .inr rfl

theorem map_toLower_stemSuffix (n : Nat) : (stemSuffix n).map Char.toLower = stemSuffix n := by
  unfold stemSuffix
  split
  · rfl
  · simp [map_toLower_digits, show Char.toLower '_' = '_' by decide]

/-- A suffix in lower case tells the number of its stem. -/
theorem suffixNumber_append (n : Nat) {rest : List Char}
    (h : rest = [] ∨ ∃ t, rest = '_' :: 'i' :: t) : suffixNumber (stemSuffix n ++ rest) = n := by
  have hdigits : ∀ c ∈ Nat.toDigits 10 n, c.isDigit = true := fun _ => isDigit_of_mem_digits
  unfold stemSuffix
  split
  · next hn =>
    rcases h with rfl | ⟨t, rfl⟩
    · exact hn.symm
    · simp [suffixNumber, hn, show Char.isDigit 'i' = false by decide]
  · have hstop : (rest.takeWhile Char.isDigit) = [] := by
      rcases h with rfl | ⟨t, rfl⟩
      · rfl
      · simp [show Char.isDigit '_' = false by decide]
    simp only [List.cons_append, suffixNumber]
    rw [List.takeWhile_append_of_pos hdigits, hstop, List.append_nil,
      Nat.ofDigitChars_ten_toDigits]

theorem suffixNumber_lowerSuffix {n : Nat} {count : Option Nat} {s : List Char}
    (h : s ∈ nameSuffixes n count) : suffixNumber (s.map Char.toLower) = n := by
  cases count with
  | none =>
    rw [List.mem_singleton.mp h, map_toLower_stemSuffix]
    simpa using suffixNumber_append n (.inl rfl)
  | some count =>
    obtain ⟨i, -, rfl⟩ := List.mem_map.mp h
    rw [List.map_append, map_toLower_stemSuffix]
    exact suffixNumber_append n (.inr ⟨_, rfl⟩)

theorem nodup_lowerSuffixes (n : Nat) (count : Option Nat) :
    ((nameSuffixes n count).map (List.map Char.toLower)).Nodup := by
  cases count with
  | none => exact List.nodup_singleton _
  | some count =>
    simp only [nameSuffixes, List.map_map]
    refine List.Nodup.map_on (fun i _ j _ h => ?_) List.nodup_range
    simp only [Function.comp_apply, List.map_append, List.map_cons, map_toLower_digits] at h
    have h := List.append_cancel_left h
    simp only [List.cons.injEq, true_and] at h
    exact digits_injective h

/-! ### Free names -/

theorem map_lower_stemNames (base : String) (n : Nat) (count : Option Nat) :
    (stemNames (numberedStem base n) count).map lower =
      (nameSuffixes n count).map fun s =>
        String.ofList (lowerFrom [] base.toList ++ s.map Char.toLower) := by
  rw [stemNames_eq, List.map_map]
  refine List.map_congr_left fun s hs => ?_
  have hascii : ∀ c ∈ s, c.toNat < 0x80 := fun c hc =>
    toNat_lt_of_word (word_of_mem_nameSuffixes hs c hc)
  rw [Function.comp_apply, lower, String.toList_ofList,
    lower_append (nameSuffixes_starts hs) hascii]

/-- Among more numbers than taken names, one gives names that are all free. -/
theorem exists_free (used : List String) (base : String) (count : Option Nat) :
    ∃ n < used.length + 1, ∀ name ∈ stemNames (numberedStem base n) count, lower name ∉ used := by
  by_contra hnone
  have htaken : ∀ n < used.length + 1, ∃ s ∈ nameSuffixes n count,
      String.ofList (lowerFrom [] base.toList ++ s.map Char.toLower) ∈ used := by
    intro n hn
    by_contra hfree
    refine hnone ⟨n, hn, fun name hname hused => hfree ?_⟩
    have hmem := List.mem_map_of_mem (f := lower) hname
    rw [map_lower_stemNames] at hmem
    obtain ⟨s, hs, heq⟩ := List.mem_map.mp hmem
    exact ⟨s, hs, heq ▸ hused⟩
  choose! suffix hsuffix hused using htaken
  let taken (n : Nat) := String.ofList (lowerFrom [] base.toList ++ (suffix n).map Char.toLower)
  have hnodup : ((List.range (used.length + 1)).map taken).Nodup := by
    refine List.Nodup.map_on (fun n hn m hm h => ?_) List.nodup_range
    have h := List.append_cancel_left (String.ofList_injective h)
    rw [← suffixNumber_lowerSuffix (hsuffix n (List.mem_range.mp hn)), h,
      suffixNumber_lowerSuffix (hsuffix m (List.mem_range.mp hm))]
  have hsub : (List.range (used.length + 1)).map taken ⊆ used := by
    intro name hname
    obtain ⟨n, hn, rfl⟩ := List.mem_map.mp hname
    exact hused n (List.mem_range.mp hn)
  have hle := hnodup.length_le_of_subset hsub
  rw [List.length_map, List.length_range] at hle
  exact absurd hle (Nat.not_succ_le_self _)

/-- The names for a base are those of the least number for which none is taken. -/
theorem freeNames_least (used : List String) (base : String) (count : Option Nat) :
    ∃ n, freeNames used base count = stemNames (numberedStem base n) count ∧
      IsLeast {n | ∀ name ∈ stemNames (numberedStem base n) count, lower name ∉ used} n := by
  let isFree (n : Nat) :=
    (stemNames (numberedStem base n) count).all fun name => !used.contains (lower name)
  have hfree : ∀ n, isFree n = true ↔
      ∀ name ∈ stemNames (numberedStem base n) count, lower name ∉ used := by
    intro n
    simp [isFree]
  -- one of the numbers that the search looks at is free, and the first such is the least of all
  obtain ⟨k, hk, hkfree⟩ := exists_free used base count
  cases hfind : (List.range (used.length + 1)).find? isFree with
  | none =>
    have hnone := List.find?_eq_none.mp hfind k (List.mem_range.mpr hk)
    exact absurd ((hfree k).mpr hkfree) hnone
  | some n =>
    refine ⟨n, ?_, ?_, ?_⟩
    · simp only [freeNames]
      rw [hfind]
    · exact (hfree n).mp (List.find?_some hfind)
    · intro m hm
      by_contra hlt
      have hbelow := (List.find?_range_eq_some.mp hfind).2.2 m (by omega)
      rw [(hfree m).mpr hm] at hbelow
      cases hbelow

/-- The names for a base are those of one of its stems, and none of them is taken. -/
theorem freeNames_spec (used : List String) (base : String) (count : Option Nat) :
    ∃ n, freeNames used base count = stemNames (numberedStem base n) count ∧
      ∀ name ∈ freeNames used base count, lower name ∉ used := by
  obtain ⟨n, heq, hfree, -⟩ := freeNames_least used base count
  exact ⟨n, heq, heq ▸ hfree⟩

theorem nodup_lower_freeNames (used : List String) (base : String) (count : Option Nat) :
    ((freeNames used base count).map lower).Nodup := by
  obtain ⟨n, heq, -⟩ := freeNames_spec used base count
  have hmap : (nameSuffixes n count).map
      (fun s => String.ofList (lowerFrom [] base.toList ++ s.map Char.toLower)) =
      ((nameSuffixes n count).map (List.map Char.toLower)).map
        fun t => String.ofList (lowerFrom [] base.toList ++ t) := by
    rw [List.map_map]
    rfl
  rw [heq, map_lower_stemNames, hmap]
  exact (nodup_lowerSuffixes n count).map fun s t h =>
    List.append_cancel_left (String.ofList_injective h)

theorem length_freeNames (used : List String) (base : String) (count : Option Nat) :
    (freeNames used base count).length = count.getD 1 := by
  obtain ⟨n, heq, -⟩ := freeNames_spec used base count
  rw [heq]
  cases count <;> simp [stemNames]

/-! ### The names of a filter -/

theorem Condition.lower_parameterNames (used : List String) (c : Condition) :
    ((c.parameterNames used).map lower).Nodup ∧
      ∀ name ∈ c.parameterNames used, lower name ∉ used := by
  unfold Condition.parameterNames
  split
  · exact ⟨List.nodup_nil, by simp⟩
  · obtain ⟨n, -, hfree⟩ := freeNames_spec used (parameterName c.field.name) ‹_›
    exact ⟨nodup_lower_freeNames _ _ _, hfree⟩

/-- **The parameter names of conditions are apart**, from each other and from the names that were
taken before, whatever the case of their letters. -/
theorem conditionNames_distinct (used : List String) (cs : List Condition) :
    ((conditionNames used cs).flatten.map lower).Nodup ∧
      ∀ name ∈ (conditionNames used cs).flatten, lower name ∉ used := by
  induction cs generalizing used with
  | nil => exact ⟨List.nodup_nil, by simp [conditionNames]⟩
  | cons c rest ih =>
    obtain ⟨hnodup, hfree⟩ := c.lower_parameterNames used
    obtain ⟨hrest, hapart⟩ := ih ((c.parameterNames used).map lower ++ used)
    simp only [conditionNames, List.flatten_cons, List.map_append, List.mem_append]
    constructor
    · refine List.nodup_append.mpr ⟨hnodup, hrest, ?_⟩
      rintro a ha b hb rfl
      obtain ⟨name, hname, rfl⟩ := List.mem_map.mp hb
      exact hapart name hname (List.mem_append_left used ha)
    · rintro name (hname | hname)
      · exact hfree name hname
      · exact fun hused => hapart name hname (List.mem_append_right _ hused)

/-! ### The characters of a name -/

/-- A character of a name that needs no quotes. -/
def isNameChar (c : Char) : Bool := isLetterOrNumeral c || c = '_'

theorem isNameChar_parameterChar (c : Char) : isNameChar (parameterChar c) = true := by
  unfold parameterChar
  split
  · assumption
  · decide

theorem isNameChar_of_word {c : Char} (h : c.isAlphanum || c = '_') : isNameChar c = true := by
  have hlt := toNat_lt_of_word h
  simpa [isNameChar, isLetterOrNumeral, isLetter, isNumeral, hlt, Char.isAlphanum] using h

theorem isNameChar_of_mem_parameterName {c : Char} {column : String}
    (h : c ∈ (parameterName column).toList) : isNameChar c = true := by
  rw [parameterName, String.toList_ofList] at h
  obtain ⟨d, -, rfl⟩ := List.mem_map.mp h
  exact isNameChar_parameterChar d

/-- The names for a base are as plain as the base. -/
theorem isNameChar_of_mem_freeNames {used : List String} {base name : String} {count : Option Nat}
    (hbase : ∀ c ∈ base.toList, isNameChar c = true) (h : name ∈ freeNames used base count) :
    ∀ c ∈ name.toList, isNameChar c = true := by
  obtain ⟨n, heq, -⟩ := freeNames_spec used base count
  rw [heq, stemNames_eq] at h
  obtain ⟨s, hs, rfl⟩ := List.mem_map.mp h
  intro c hc
  rw [String.toList_ofList, List.mem_append] at hc
  rcases hc with hc | hc
  · exact hbase c hc
  · exact isNameChar_of_word (word_of_mem_nameSuffixes hs c hc)

/-- The names of a filter are made of letters, numerals and underscores. -/
theorem isNameChar_of_mem_conditionNames {used : List String} {cs : List Condition} {name : String}
    (h : name ∈ (conditionNames used cs).flatten) : ∀ c ∈ name.toList, isNameChar c = true := by
  induction cs generalizing used with
  | nil => simp [conditionNames] at h
  | cons c rest ih =>
    simp only [conditionNames, List.flatten_cons, List.mem_append] at h
    rcases h with h | h
    · unfold Condition.parameterNames at h
      split at h
      · cases h
      · exact isNameChar_of_mem_freeNames (fun _ => isNameChar_of_mem_parameterName) h
    · exact ih h

end EntitySql
