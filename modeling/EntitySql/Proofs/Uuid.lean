import EntitySql.Uuid
import Mathlib.Data.List.Basic

/-!
# Identifiers are read back from their text

An identifier is read from its hyphenated text as it is (**`Uuid.read?_toChars`**).
-/

namespace EntitySql

/-! ### Bytes -/

namespace Text

theorem hexValue?_hexDigit : ∀ n < 16, hexValue? (hexDigit n) = some n := by
  decide

theorem hexBytes_cons (b : UInt8) (bs : List UInt8) :
    hexBytes (b :: bs) = hexDigit (b.toNat / 16) :: hexDigit (b.toNat % 16) :: hexBytes bs :=
  rfl

theorem readHexBytes?_hexBytes (bs : List UInt8) : readHexBytes? (hexBytes bs) = some bs := by
  induction bs with
  | nil => rfl
  | cons b bs ih =>
    have hlt : b.toNat < 256 := b.toNat_lt
    have hhigh := hexValue?_hexDigit (b.toNat / 16) (by omega)
    have hlow := hexValue?_hexDigit (b.toNat % 16) (by omega)
    have hbyte : UInt8.ofNat (b.toNat / 16 * 16 + b.toNat % 16) = b := by
      rw [Nat.div_add_mod', UInt8.ofNat_toNat]
    rw [hexBytes_cons, readHexBytes?, hhigh, hlow, ih]
    exact congrArg (fun b => some (b :: bs)) hbyte

theorem length_hexBytes (bs : List UInt8) : (hexBytes bs).length = 2 * bs.length := by
  induction bs with
  | nil => rfl
  | cons b bs ih =>
    rw [hexBytes_cons, List.length_cons, List.length_cons, List.length_cons, ih]
    omega

theorem hexDigit_ne {n : Nat} (h : n < 16) : hexDigit n ≠ '{' ∧ hexDigit n ≠ 'u' := by
  have hall : ∀ n < 16, hexDigit n ≠ '{' ∧ hexDigit n ≠ 'u' := by decide
  exact hall n h

end Text

namespace Uuid

/-- The digits are found again between the hyphens. -/
theorem readHyphenated?_groups {a b c d e : List Char} (ha : a.length = 8) (hb : b.length = 4)
    (hc : c.length = 4) (hd : d.length = 4) (he : e.length = 12) :
    readHyphenated? (a ++ '-' :: (b ++ '-' :: (c ++ '-' :: (d ++ '-' :: e)))) =
      readPlain? (a ++ b ++ c ++ d ++ e) := by
  rw [readHyphenated?, if_pos]
  · simp [List.drop_append, List.drop_of_length_le, ha, hb, hc, hd]
  · simp [List.getElem?_append, List.getElem?_cons, ha, hb, hc, hd, he]

/-- Five groups make up the digits. -/
theorem groups_append (ds : List Char) :
    ds.take 8 ++ (ds.drop 8).take 4 ++ (ds.drop 12).take 4 ++ (ds.drop 16).take 4 ++ ds.drop 20 =
      ds := by
  have hsplit (n : Nat) : (ds.drop n).take 4 ++ ds.drop (n + 4) = ds.drop n := by
    rw [← List.drop_drop, List.take_append_drop]
  rw [List.append_assoc, hsplit 16, List.append_assoc, hsplit 12, List.append_assoc, hsplit 8,
    List.take_append_drop]

/-- An identifier is read back from its text. -/
theorem read?_toChars (u : Uuid) : read? u.toChars = some u := by
  have hlength : (Text.hexBytes u.bytes).length = 32 := by
    rw [Text.length_hexBytes, u.length_eq]
  have hchars : u.toChars = (Text.hexBytes u.bytes).take 8 ++
      '-' :: (((Text.hexBytes u.bytes).drop 8).take 4 ++
      '-' :: (((Text.hexBytes u.bytes).drop 12).take 4 ++
      '-' :: (((Text.hexBytes u.bytes).drop 16).take 4 ++
      '-' :: (Text.hexBytes u.bytes).drop 20))) := by
    simp [toChars]
  have hplain : readPlain? (Text.hexBytes u.bytes) = some u := by
    rw [readPlain?, Text.readHexBytes?_hexBytes, Option.bind_some]
    exact dif_pos u.length_eq
  have hread : readHyphenated? u.toChars = some u := by
    rw [hchars, readHyphenated?_groups (by simp [hlength]) (by simp [hlength]) (by simp [hlength])
      (by simp [hlength]) (by simp [hlength]), groups_append, hplain]
  obtain ⟨d, more, hcons, hbrace, hu⟩ : ∃ d more, u.toChars = d :: more ∧ d ≠ '{' ∧ d ≠ 'u' := by
    obtain ⟨b, bs, hbs⟩ := List.exists_cons_of_length_pos (by rw [u.length_eq]; decide)
    have hlt : b.toNat < 256 := b.toNat_lt
    rw [hchars, hbs]
    exact ⟨Text.hexDigit (b.toNat / 16), _, rfl, Text.hexDigit_ne (by omega)⟩
  have hlong : ¬u.toChars.length = 32 := by
    simp [hchars, hlength]
  rw [read?.eq_3 _ (fun _ h => hbrace (List.cons.inj (hcons.symm.trans h)).1)
    (fun _ h => hu (List.cons.inj (hcons.symm.trans h)).1), if_neg hlong, hread]

end Uuid

end EntitySql
