import EntitySql.Calendar
import EntitySql.Proofs.Text.Digits

/-!
# Dates and times are read back from their text

Dates, times and both together are read from their text (**`Date.read?_dateChars`**,
**`Time.read?_timeChars`**, **`DateTime.read?_dateTimeChars`**), dates as they are for every year there
is. The text of a time does not tell a leap second from the next second, except behind second 59, where
civil time has its leap seconds; so what is read back is the civil time of the same text (`Time.civil`),
which is the time itself exactly if a leap second follows no other second (`Time.civil_eq_self_iff`).

Numbers are written in their full width, so reading at most that many digits takes all of them and
nothing that follows; a year with a sign is read up to the hyphen.
-/

namespace EntitySql.Calendar

/-! ### Numbers -/

theorem isBlank_of_isDigit {c : Char} (h : c.isDigit = true) : Text.isBlank c = false := by
  have hrange : (c.val ≥ 48 && c.val ≤ 57) = true := h
  simp only [ge_iff_le, UInt32.le_iff_toNat_le, Bool.and_eq_true, decide_eq_true_eq,
    UInt32.reduceToNat, Char.toNat_val] at hrange
  have hranges : ∀ n < 58, 48 ≤ n → Text.inRanges Text.blankRanges n = false := by decide
  exact hranges c.toNat (by omega) hrange.1

theorem isDigit_of_mem_padded {width n : Nat} : ∀ c ∈ padded width n, c.isDigit = true :=
  isDigit_of_mem_zeros_append

theorem digitsValue_padded (width n : Nat) : digitsValue (padded width n) = n := by
  rw [digitsValue, foldl_digits, padded, ofDigitChars_zeros_append]

theorem length_padded {width n : Nat} (hwidth : 0 < width) (h : n < 10 ^ width) :
    (padded width n).length = width := by
  have hle := (Nat.length_toDigits_le_iff (by decide) hwidth).mpr h
  rw [padded, List.length_append, List.length_replicate]
  omega

theorem padded_eq_cons (width n : Nat) :
    ∃ d ds, padded width n = d :: ds ∧ d.isDigit = true := by
  have hne : padded width n ≠ [] := List.append_ne_nil_of_right_ne_nil _ Nat.toDigits_ne_nil
  obtain ⟨d, ds, hds⟩ := List.exists_cons_of_ne_nil hne
  exact ⟨d, ds, hds, isDigit_of_mem_padded d (hds ▸ List.mem_cons_self)⟩

theorem dropWhile_padded (width n : Nat) (rest : List Char) :
    (padded width n ++ rest).dropWhile Text.isBlank = padded width n ++ rest := by
  obtain ⟨d, ds, hds, hd⟩ := padded_eq_cons width n
  rw [hds, List.cons_append, List.dropWhile_cons_of_neg (by simp [isBlank_of_isDigit hd])]

/-- A number in its full width is taken off whatever stands behind it. -/
theorem scanDigits_padded {width n : Nat} (hwidth : 0 < width) (h : n < 10 ^ width)
    (rest : List Char) : scanDigits (some width) (padded width n ++ rest) = some (n, rest) := by
  have hlength := length_padded hwidth h
  have hne : (padded width n).isEmpty = false := by
    rw [List.isEmpty_eq_false_iff, ← List.length_pos_iff]
    omega
  have htake : ((padded width n ++ rest).takeWhile Char.isDigit).take width = padded width n := by
    rw [List.takeWhile_append_of_pos isDigit_of_mem_padded, List.take_left' hlength]
  simp only [scanDigits, htake, hne, digitsValue_padded, List.drop_left]
  rfl

/-- A number of any width ends where no digit stands. -/
theorem scanDigits_none_padded (width n : Nat) {rest : List Char}
    (hrest : ∀ c ∈ rest.head?, c.isDigit = false) :
    scanDigits none (padded width n ++ rest) = some (n, rest) := by
  have htake : (padded width n ++ rest).takeWhile Char.isDigit = padded width n :=
    (takeWhile_dropWhile_append isDigit_of_mem_padded hrest).1
  have hne : (padded width n).isEmpty = false := by
    obtain ⟨d, ds, hds, -⟩ := padded_eq_cons width n
    rw [hds]
    rfl
  simp only [scanDigits, htake, hne, digitsValue_padded, List.drop_left]
  rfl

theorem scanTwo_padded {n : Nat} (h : n < 100) (rest : List Char) :
    scanTwo (padded 2 n ++ rest) = some (n, rest) := by
  rw [scanTwo, dropWhile_padded, scanDigits_padded (by decide) h]

theorem scanMark_cons {mark : Char} (h : Text.isBlank mark = false) (rest : List Char) :
    scanMark mark (mark :: rest) = some rest := by
  rw [scanMark, List.dropWhile_cons_of_neg (by simp [h])]
  exact if_pos rfl

/-! ### Dates -/

theorem scanYear_yearChars (year : Int) (rest : List Char) :
    scanYear (yearChars year ++ '-' :: rest) = some (year, '-' :: rest) := by
  have hstop : ∀ c ∈ ('-' :: rest).head?, c.isDigit = false := by simp
  have hdigits := scanDigits_none_padded 4 year.natAbs hstop
  by_cases hplain : 0 ≤ year ∧ year ≤ 9999
  · obtain ⟨d, ds, hds, hd⟩ := padded_eq_cons 4 year.toNat
    have hread := scanDigits_padded (by decide : 0 < 4) (n := year.toNat) (by omega) ('-' :: rest)
    have hyear : (year.toNat : Int) = year := by omega
    rw [yearChars, if_pos hplain, scanYear, dropWhile_padded]
    rw [hds, List.cons_append] at hread ⊢
    split
    · next heq =>
      cases heq
      exact absurd hd (by decide)
    · next heq =>
      cases heq
      exact absurd hd (by decide)
    · simp only [hread, Option.map_some, hyear]
  · rw [yearChars, if_neg hplain, List.cons_append, scanYear]
    by_cases hneg : year < 0
    · have hyear : -(year.natAbs : Int) = year := by omega
      rw [if_pos hneg, List.dropWhile_cons_of_neg (by decide)]
      simp only [hdigits, Option.map_some, hyear]
    · have hyear : (year.natAbs : Int) = year := by omega
      rw [if_neg hneg, List.dropWhile_cons_of_neg (by decide)]
      simp only [hdigits, Option.map_some, hyear]

theorem day_lt (d : Date) : d.month < 100 ∧ d.day < 100 := by
  have hday := d.day_mem
  unfold daysInMonth at hday
  split at hday <;> first | omega | (split at hday <;> omega)

theorem scanDate_dateChars (d : Date) (rest : List Char) :
    scanDate (dateChars d ++ rest) = some ((d.year, d.month, d.day), rest) := by
  obtain ⟨hmonth, hday⟩ := day_lt d
  have hchars : dateChars d ++ rest =
      yearChars d.year ++ '-' :: (padded 2 d.month ++ '-' :: (padded 2 d.day ++ rest)) := by
    simp [dateChars]
  rw [scanDate, hchars, scanYear_yearChars]
  simp [scanMark_cons, scanTwo_padded, hmonth, hday, (by decide : Text.isBlank '-' = false)]

/-! ### Times -/

theorem scanFraction_fractionChars {n : Nat} (h : n < 1000000000) :
    scanFraction (fractionChars n) = some (n, []) := by
  have hread (width m : Nat) (hwidth : 0 < width) (hle : width ≤ 9) (hm : m < 10 ^ width) :
      scanFraction ('.' :: padded width m) = some (m * tenTo (9 - width), []) := by
    have hlength := length_padded hwidth hm
    have htake : (padded width m).takeWhile Char.isDigit = padded width m :=
      List.takeWhile_eq_self_iff.mpr isDigit_of_mem_padded
    have hkept : (padded width m).take 9 = padded width m := List.take_of_length_le (by omega)
    have hne : (padded width m).isEmpty = false := by
      rw [List.isEmpty_eq_false_iff, ← List.length_pos_iff]
      omega
    simp only [scanFraction, htake, hkept, hne, digitsValue_padded, hlength]
    simp [List.drop_of_length_le, hlength]
  unfold fractionChars
  by_cases hzero : n = 0
  · rw [if_pos hzero, hzero]
    rfl
  · rw [if_neg hzero]
    by_cases hmilli : n % 1000000 = 0
    · rw [if_pos hmilli, hread 3 _ (by decide) (by decide) (by omega)]
      have hvalue : n / 1000000 * tenTo 6 = n := Nat.div_mul_cancel (Nat.dvd_of_mod_eq_zero hmilli)
      rw [hvalue]
    · rw [if_neg hmilli]
      by_cases hmicro : n % 1000 = 0
      · rw [if_pos hmicro, hread 6 _ (by decide) (by decide) (by omega)]
        have hvalue : n / 1000 * tenTo 3 = n := Nat.div_mul_cancel (Nat.dvd_of_mod_eq_zero hmicro)
        rw [hvalue]
      · rw [if_neg hmicro, hread 9 _ (by decide) (by decide) h]
        have hvalue : n * tenTo 0 = n := Nat.mul_one n
        rw [hvalue]

/-- The part of a time behind the minutes. -/
def secondsChars (t : Time) : List Char :=
  ':' :: (padded 2 (t.second + t.nanosecond / nanosPerSecond) ++
    fractionChars (t.nanosecond % nanosPerSecond))

theorem scanMinutes_timeChars (t : Time) :
    scanMinutes (timeChars t) = some ((t.hour, t.minute), secondsChars t) := by
  have hhour := t.hour_lt
  have hminute := t.minute_lt
  have hchars : timeChars t = padded 2 t.hour ++ ':' :: (padded 2 t.minute ++ secondsChars t) := by
    simp [timeChars, secondsChars]
  rw [scanMinutes, hchars, scanTwo_padded (by omega)]
  simp [scanMark_cons (by decide : Text.isBlank ':' = false),
    scanTwo_padded (by omega : t.minute < 100)]

theorem scanSeconds_secondsChars (t : Time) :
    scanSeconds (secondsChars t) =
      some ((t.second + t.nanosecond / nanosPerSecond, t.nanosecond % nanosPerSecond), []) := by
  have hsecond := t.second_lt
  have hleap : t.nanosecond / nanosPerSecond < 2 :=
    (Nat.div_lt_iff_lt_mul (by decide)).mpr t.nanosecond_lt
  have hfraction : t.nanosecond % nanosPerSecond < 1000000000 := Nat.mod_lt _ (by decide)
  rw [scanSeconds, secondsChars, scanMark_cons (by decide)]
  simp [scanTwo_padded (by omega : t.second + t.nanosecond / nanosPerSecond < 100),
    scanFraction_fractionChars hfraction]

end Calendar

open Calendar

/-! ### Leap seconds -/

/-- A leap second follows second 59 only, as in civil time. -/
def Time.IsCivil (t : Time) : Prop := nanosPerSecond ≤ t.nanosecond → t.second = 59

/-- The civil time of the same text: a leap second behind another second than 59 is the next second. -/
def Time.civil (t : Time) : Time :=
  if h : nanosPerSecond ≤ t.nanosecond ∧ t.second ≠ 59 then
    ⟨t.hour, t.minute, t.second + 1, t.nanosecond - nanosPerSecond, t.hour_lt, t.minute_lt,
      by have := t.second_lt; omega, by have := t.nanosecond_lt; omega⟩
  else t

theorem Time.civil_eq_self_iff (t : Time) : t.civil = t ↔ t.IsCivil := by
  unfold civil IsCivil
  split
  · next h =>
    refine iff_of_false (fun heq => ?_) fun hcivil => h.2 (hcivil h.1)
    have hsecond : t.second + 1 = t.second := congrArg Time.second heq
    omega
  · next h => exact iff_of_true rfl fun hleap => not_not.mp fun hother => h ⟨hleap, hother⟩

/-- The date with the civil time of the same text. -/
def DateTime.civil (t : DateTime) : DateTime := ⟨t.date, t.time.civil⟩

theorem DateTime.civil_eq_self_iff (t : DateTime) : t.civil = t ↔ t.time.IsCivil := by
  rw [← t.time.civil_eq_self_iff]
  exact ⟨congrArg DateTime.time, fun h => congrArg (DateTime.mk t.date) h⟩

/-! ### Whole texts -/

theorem Date.ofNumbers?_self (d : Date) : Date.ofNumbers? d.year d.month d.day = some d :=
  dif_pos ⟨d.year_mem, d.day_mem⟩

theorem Time.ofNumbers?_of_lt {hour minute second nanosecond : Nat} (hhour : hour < 24)
    (hminute : minute < 60) (hsecond : second < 60) (hnano : nanosecond < nanosPerSecond) :
    Time.ofNumbers? hour minute second nanosecond =
      some ⟨hour, minute, second, nanosecond, hhour, hminute, hsecond, by omega⟩ := by
  rw [ofNumbers?, dif_pos ⟨hhour, hminute, hsecond.le, hnano⟩, dif_pos hsecond]

/-- The numbers in the text of a time are those of the civil time. -/
theorem Time.ofNumbers?_written (t : Time) :
    Time.ofNumbers? t.hour t.minute (t.second + t.nanosecond / nanosPerSecond)
      (t.nanosecond % nanosPerSecond) = some t.civil := by
  obtain ⟨hour, minute, second, nanosecond, hhour, hminute, hsecond, hnano⟩ := t
  have hpos : 0 < nanosPerSecond := by decide
  by_cases hleap : nanosPerSecond ≤ nanosecond
  · have hone : nanosecond / nanosPerSecond = 1 := by
      rw [Nat.div_eq_iff hpos]
      omega
    have hrest : nanosecond % nanosPerSecond = nanosecond - nanosPerSecond := by
      rw [Nat.mod_eq_sub_mod hleap, Nat.mod_eq_of_lt (by omega)]
    simp only [hone, hrest]
    by_cases hlast : second = 59
    · -- second 60 is read as the leap second behind second 59
      subst hlast
      rw [civil, dif_neg (fun h => h.2 rfl), ofNumbers?,
        dif_pos ⟨hhour, hminute, le_rfl, by omega⟩, dif_neg (by decide)]
      simp only [Nat.add_sub_cancel' hleap]
    · rw [civil, dif_pos ⟨hleap, hlast⟩,
        ofNumbers?_of_lt hhour hminute (by omega) (by omega : nanosecond - nanosPerSecond < _)]
  · have hnone : nanosecond / nanosPerSecond = 0 := Nat.div_eq_of_lt (by omega)
    have hrest : nanosecond % nanosPerSecond = nanosecond := Nat.mod_eq_of_lt (by omega)
    rw [civil, dif_neg (fun h => hleap h.1)]
    simp only [hnone, hrest, Nat.add_zero]
    exact ofNumbers?_of_lt hhour hminute hsecond (by omega)

/-- A date is read back from its text. -/
theorem Date.read?_dateChars (d : Date) : Date.read? (dateChars d) = some d := by
  have hscan := scanDate_dateChars d []
  rw [List.append_nil] at hscan
  rw [Date.read?, hscan]
  exact d.ofNumbers?_self

/-- The text of a time is read as the civil time. -/
theorem Time.read?_timeChars (t : Time) : Time.read? (timeChars t) = some t.civil := by
  rw [Time.read?, scanMinutes_timeChars, Option.bind_eq_bind, Option.bind_some]
  simp only [scanSeconds_secondsChars, Option.getD_some]
  exact t.ofNumbers?_written

example : timeChars ⟨7, 8, 5, 1333333333, by decide, by decide, by decide, by decide⟩ =
    "07:08:06.333333333".toList := by decide

/-- The text of a date and time with a `T` in it is read as the date with the civil time. -/
theorem DateTime.read?_dateTimeChars (t : DateTime) :
    DateTime.read? (dateTimeChars 'T' t) = some t.civil := by
  have hmark := scanMark_cons (by decide : Text.isBlank 'T' = false) (timeChars t.time)
  rw [DateTime.read?, dateTimeChars, scanDate_dateChars]
  simp only [Option.bind_eq_bind, Option.bind_some, hmark, scanMinutes_timeChars,
    scanSeconds_secondsChars, Date.ofNumbers?_self, Time.ofNumbers?_written]
  rfl

end EntitySql
