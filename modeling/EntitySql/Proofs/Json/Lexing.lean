import EntitySql.Proofs.Json.Tokens

/-!
# Cutting written JSON into tokens

A value without binary numbers is written in the tokens of its document
(**`Document.read?_toText`**). A string ends at its closing quote, since no quote inside it is left
bare, and a number goes on as far as it can, so what stands behind it has to end it (`EndsNumber`):
a comma, a closing bracket or nothing. How many tokens a text is cut into is limited by its length,
and every token takes up at least one character of it (`Spells`).
-/

namespace EntitySql.Json

/-! ### Values without binary numbers -/

mutual
/-- Every number in the value is an integer. -/
def IsIntegral : Json → Prop
  | .null | .bool _ | .string _ | .number (.integer _) => True
  | .number (.float _) => False
  | .array items => ItemsIntegral items
  | .object members => MembersIntegral members

/-- Every number in the items of an array is an integer. -/
def ItemsIntegral : List Json → Prop
  | [] => True
  | x :: xs => IsIntegral x ∧ ItemsIntegral xs

/-- Every number in the members of an object is an integer. -/
def MembersIntegral : List (String × Json) → Prop
  | [] => True
  | (_, x) :: xs => IsIntegral x ∧ MembersIntegral xs
end

/-! ### Strings -/

theorem hexUnit?_control : ∀ n < 0x20,
    hexUnit? '0' '0' (Char.ofNat (48 + n / 16)) (Nat.digitChar (n % 16)) = some n := by
  decide

/-- A character whose escape is a backslash and one letter. -/
theorem escapeChar_of_mem {c : Char} (h : c ∈ '"' :: '\\' :: shortEscapes) :
    StringPiece.ofChar c = .char c ∧
      ∃ d, escapeChar c = ['\\', d] ∧ d ≠ 'u' ∧ escape? d = some c := by
  simp only [shortEscapes, List.mem_cons, List.not_mem_nil, or_false] at h
  rcases h with rfl | rfl | rfl | rfl | rfl | rfl | rfl <;>
    exact ⟨by decide, _, rfl, by decide, rfl⟩

theorem lexString_escapeChar (c : Char) (rest : List Char) :
    lexString (escapeChar c ++ rest) =
      (lexString rest).map fun p => (StringPiece.ofChar c :: p.1, p.2) := by
  by_cases hmem : c ∈ '"' :: '\\' :: shortEscapes
  · obtain ⟨hpiece, d, hchars, hd, hescape⟩ := escapeChar_of_mem hmem
    rw [hchars, hpiece, List.cons_append, List.singleton_append,
      lexString.eq_4 _ _ fun _ _ _ _ _ hu _ => hd hu, hescape]
    cases lexString rest <;> rfl
  · simp only [shortEscapes, List.mem_cons, List.not_mem_nil, or_false, not_or] at hmem
    obtain ⟨hquote, hslash, hn, hr, ht, hb, hf⟩ := hmem
    by_cases hcontrol : c.toNat < 0x20
    · have hpiece : StringPiece.ofChar c = .unit c.toNat := by
        rw [StringPiece.ofChar, if_pos ⟨hcontrol, by simp [shortEscapes, *]⟩]
      simp only [escapeChar, hquote, hslash, hn, hr, ht, hb, hf, hcontrol, if_false, if_true,
        List.cons_append, List.nil_append]
      rw [hpiece, lexString, hexUnit?_control _ hcontrol]
      cases lexString rest <;> rfl
    · have hpiece : StringPiece.ofChar c = .char c := by
        rw [StringPiece.ofChar, if_neg fun h => hcontrol h.1]
      simp only [escapeChar, hquote, hslash, hn, hr, ht, hb, hf, hcontrol, if_false,
        List.singleton_append]
      rw [hpiece, lexString.eq_5 _ _ hquote (fun _ _ _ _ _ h _ => hslash h)
        (fun _ _ h _ => hslash h), if_neg (by simp [hslash, hcontrol])]
      cases lexString rest <;> rfl

theorem lexString_escaped (cs rest : List Char) :
    lexString (cs.flatMap escapeChar ++ '"' :: rest) = some (cs.map .ofChar, rest) := by
  induction cs with
  | nil => rfl
  | cons c cs ih =>
    rw [List.flatMap_cons, List.append_assoc, lexString_escapeChar, ih]
    rfl

/-! ### Numbers -/

/-- Whether a number goes on with the character. -/
def continuesNumber (c : Char) : Bool := c.isDigit || c = '.' || c = 'e' || c = 'E'

/-- A number that stands before the text ends there. -/
def EndsNumber (rest : List Char) : Prop := ∀ c ∈ rest.head?, continuesNumber c = false

theorem endsNumber_nil : EndsNumber [] := fun _ h => absurd h (by simp)

theorem endsNumber_cons {c : Char} (h : continuesNumber c = false) (rest : List Char) :
    EndsNumber (c :: rest) := by
  intro d hd
  cases hd
  exact h

theorem EndsNumber.isDigit {rest : List Char} (h : EndsNumber rest) :
    ∀ c ∈ rest.head?, c.isDigit = false := by
  intro c hc
  have hstop := h c hc
  simp only [continuesNumber, Bool.or_eq_false_iff] at hstop
  exact hstop.1.1.1

theorem lexExponent_of_endsNumber {rest : List Char} (h : EndsNumber rest) :
    lexExponent rest = some (none, rest) := by
  cases rest with
  | nil => rfl
  | cons c rest =>
    have hstop := h c rfl
    simp only [continuesNumber, Bool.or_eq_false_iff, decide_eq_false_iff_not] at hstop
    simp [lexExponent, hstop]

theorem spanDigits_toDigits (n : Nat) {rest : List Char} (h : EndsNumber rest) :
    spanDigits (Nat.toDigits 10 n ++ rest) = (Nat.toDigits 10 n, rest) := by
  obtain ⟨htake, hdrop⟩ := takeWhile_dropWhile_append (p := Char.isDigit)
    (fun _ => isDigit_of_mem_digits) h.isDigit
  rw [spanDigits, htake, hdrop]

/-- The sign of an integer stands apart from its digits. -/
theorem intChars_append (n : Int) (rest : List Char) :
    (n < 0 ∧ intChars n ++ rest = '-' :: (Nat.toDigits 10 n.natAbs ++ rest)) ∨
      (¬n < 0 ∧ intChars n ++ rest = Nat.toDigits 10 n.natAbs ++ rest) := by
  by_cases hneg : n < 0
  · exact .inl ⟨hneg, by simp [intChars, hneg]⟩
  · exact .inr ⟨hneg, by simp [intChars, hneg]⟩

theorem toDigits_eq_cons (n : Nat) : ∃ d ds, Nat.toDigits 10 n = d :: ds ∧ d.isDigit = true := by
  obtain ⟨d, ds, hds⟩ := List.exists_cons_of_ne_nil (Nat.toDigits_ne_nil (n := n) (b := 10))
  exact ⟨d, ds, hds, isDigit_of_mem_digits (hds ▸ List.mem_cons_self)⟩

theorem lexNumber_intChars (n : Int) {rest : List Char} (h : EndsNumber rest) :
    lexNumber (intChars n ++ rest) = some (.ofInt n, rest) := by
  have hspan := spanDigits_toDigits n.natAbs h
  have hexponent := lexExponent_of_endsNumber h
  have hpoint : ∀ more, rest = '.' :: more → False := by
    rintro more rfl
    exact absurd (h '.' rfl) (by decide)
  have hwhole : ¬((Nat.toDigits 10 n.natAbs).isEmpty = true ∨
      (Nat.toDigits 10 n.natAbs).head? = some '0' ∧ (Nat.toDigits 10 n.natAbs).length ≠ 1) := by
    rintro (hempty | ⟨hzero, hlength⟩)
    · exact Nat.toDigits_ne_nil (List.isEmpty_iff.mp hempty)
    · exact hlength (length_toDigits_of_head? hzero)
  rcases intChars_append n rest with ⟨hneg, hchars⟩ | ⟨hneg, hchars⟩
  · rw [hchars, lexNumber.eq_1, hspan, NumberText.ofInt, decide_eq_true hneg]
    simp only [hwhole, if_false, hexponent, Option.map_some]
  · have hminus : ∀ more, Nat.toDigits 10 n.natAbs ++ rest = '-' :: more → False := by
      intro more heq
      obtain ⟨d, ds, hds, hd⟩ := toDigits_eq_cons n.natAbs
      rw [hds] at heq
      cases heq
      exact absurd hd (by decide)
    rw [hchars, lexNumber.eq_2 _ hminus, hspan, NumberText.ofInt, decide_eq_false hneg]
    simp only [hwhole, if_false, hexponent, Option.map_some]

/-! ### Tokens -/

/-- The characters that tokens start with which are no numbers. -/
def tokenStarts : List Char := ['[', ']', '{', '}', ':', ',', 'n', 't', 'f', '"']

theorem lexToken_of_notMem {c : Char} (h : c ∉ tokenStarts) (rest : List Char) :
    lexToken (c :: rest) = (lexNumber (c :: rest)).map fun (n, rest) => (.number n, rest) := by
  apply lexToken.eq_11 <;>
    · intro _ heq
      cases heq
      exact h (by decide)

/-- The characters are cut into the tokens in front of the rest. Every token takes a character. -/
structure Spells (cs : List Char) (ts : List Token) (rest : List Char) : Prop where
  lex : ∀ limit, lexUpTo (limit + ts.length) (cs ++ rest) = (lexUpTo limit rest).map (ts ++ ·)
  length_le : ts.length ≤ cs.length

namespace Spells

theorem nil (rest : List Char) : Spells [] [] rest := by
  refine ⟨fun limit => ?_, Nat.le_refl _⟩
  simp

theorem token {c : Char} {cs rest : List Char} {t : Token} (hblank : isBlank c = false)
    (h : lexToken (c :: (cs ++ rest)) = some (t, rest)) : Spells (c :: cs) [t] rest := by
  refine ⟨fun limit => ?_, by simp⟩
  have hdrop : (c :: (cs ++ rest)).dropWhile isBlank = c :: (cs ++ rest) :=
    List.dropWhile_cons_of_neg (by simp [hblank])
  rw [List.length_singleton, List.cons_append, lexUpTo.eq_def]
  simp only [hdrop, h]
  rfl

theorem append {cs ds rest : List Char} {ts us : List Token} (h : Spells cs ts (ds ++ rest))
    (h' : Spells ds us rest) : Spells (cs ++ ds) (ts ++ us) rest := by
  refine ⟨fun limit => ?_, ?_⟩
  · rw [List.length_append, Nat.add_comm ts.length, ← Nat.add_assoc, List.append_assoc, h.lex,
      h'.lex, Option.map_map]
    simp [Function.comp_def]
  · have hle := h.length_le
    have hle' := h'.length_le
    simp only [List.length_append]
    omega

/-- A sign is a token, whatever stands behind it. -/
theorem cons {c : Char} {ds rest : List Char} {t : Token} {us : List Token}
    (hblank : isBlank c = false) (hsign : ∀ cs, lexToken (c :: cs) = some (t, cs))
    (h : Spells ds us rest) : Spells (c :: ds) (t :: us) rest := by
  have htoken : Spells [c] [t] (ds ++ rest) := token hblank (hsign (ds ++ rest))
  exact htoken.append h

theorem string (s : String) (rest : List Char) :
    Spells (stringChars s) [.string (pieces s)] rest := by
  have hquoted := lexString_escaped s.toList rest
  rw [stringChars, List.cons_append]
  refine token (by decide) ?_
  rw [List.append_assoc, List.singleton_append, lexToken, hquoted]
  rfl

theorem integer (n : Int) {rest : List Char} (h : EndsNumber rest) :
    Spells (intChars n) [.number (.ofInt n)] rest := by
  have hstart : ∃ c cs, intChars n = c :: cs ∧ c ∉ tokenStarts ∧ isBlank c = false := by
    rcases intChars_append n [] with ⟨-, hchars⟩ | ⟨-, hchars⟩
    · exact ⟨'-', _, by simpa using hchars, by decide, by decide⟩
    · obtain ⟨d, ds, hds, hd⟩ := toDigits_eq_cons n.natAbs
      have hblank : d ∉ [' ', '\n', '\t', '\r'] := notMem_of_class (by decide) hd
      refine ⟨d, ds, by simpa [hds] using hchars, notMem_of_class (by decide) hd, ?_⟩
      simpa [isBlank, and_assoc] using hblank
  obtain ⟨c, cs, hcs, hc, hblank⟩ := hstart
  have hnumber := lexNumber_intChars n h
  rw [hcs, List.cons_append] at hnumber
  rw [hcs]
  refine token hblank ?_
  rw [lexToken_of_notMem hc, hnumber]
  rfl

end Spells

/-! ### Values -/

theorem spells_separator (first : Bool) (rest : List Char) :
    Spells (if first then [] else [',']) (if first then [] else [.comma]) rest := by
  cases first with
  | true => exact .nil rest
  | false => exact .token (by decide) rfl

theorem endsNumber_itemsChars (xs : List Json) {rest : List Char} (h : EndsNumber rest) :
    EndsNumber (itemsChars false xs ++ rest) := by
  cases xs with
  | nil => exact h
  | cons x xs => exact endsNumber_cons (by decide) _

theorem endsNumber_membersChars (xs : List (String × Json)) {rest : List Char}
    (h : EndsNumber rest) : EndsNumber (membersChars false xs ++ rest) := by
  cases xs with
  | nil => exact h
  | cons x xs => exact endsNumber_cons (by decide) _

mutual
/-- A value is written in the tokens of its document. -/
theorem spells_toChars : ∀ (j : Json) {rest : List Char}, j.IsIntegral → EndsNumber rest →
    Spells j.toChars j.document.tokens rest
  | .null, _, _, _ => .token (by decide) rfl
  | .bool true, _, _, _ => .token (by decide) rfl
  | .bool false, _, _, _ => .token (by decide) rfl
  | .number (.integer n), _, _, hrest => .integer n hrest
  | .string s, rest, _, _ => .string s rest
  | .array items, rest, h, _ => by
    have hitems := spells_itemsChars true items h (endsNumber_cons (c := ']') (by decide) rest)
    exact .cons (by decide) (fun _ => rfl)
      (hitems.append (.cons (by decide) (fun _ => rfl) (.nil rest)))
  | .object members, rest, h, _ => by
    have hmembers :=
      spells_membersChars true members h (endsNumber_cons (c := '}') (by decide) rest)
    exact .cons (by decide) (fun _ => rfl)
      (hmembers.append (.cons (by decide) (fun _ => rfl) (.nil rest)))

theorem spells_itemsChars : ∀ (first : Bool) (items : List Json) {rest : List Char},
    ItemsIntegral items → EndsNumber rest →
      Spells (itemsChars first items) (Document.itemTokens first (documents items)) rest
  | _, [], rest, _, _ => .nil rest
  | first, x :: xs, rest, h, hrest => by
    have hx := spells_toChars x h.1 (endsNumber_itemsChars xs hrest)
    exact ((spells_separator first _).append hx).append (spells_itemsChars false xs h.2 hrest)

theorem spells_membersChars : ∀ (first : Bool) (members : List (String × Json)) {rest : List Char},
    MembersIntegral members → EndsNumber rest →
      Spells (membersChars first members)
        (Document.memberTokens first (memberDocuments members)) rest
  | _, [], rest, _, _ => .nil rest
  | first, (k, x) :: xs, rest, h, hrest => by
    have hx := spells_toChars x h.1 (endsNumber_membersChars xs hrest)
    have hcolon : Spells (':' :: x.toChars) (.colon :: x.document.tokens) _ :=
      .cons (by decide) (fun _ => rfl) hx
    have hname := ((spells_separator first _).append (.string k _)).append hcolon
    simpa [membersChars, memberDocuments, Document.memberTokens] using
      hname.append (spells_membersChars false xs h.2 hrest)
end

/-- The text of a value spells its document. -/
theorem Document.read?_toText {j : Json} (h : j.IsIntegral) :
    Document.read? j.toText = some j.document := by
  have hspells := spells_toChars j h endsNumber_nil
  have hlex := hspells.lex (j.toChars.length - j.document.tokens.length)
  rw [Nat.sub_add_cancel hspells.length_le, List.append_nil] at hlex
  have htokens : lex j.toText.toList = some j.document.tokens := by
    rw [toText, String.toList_ofList, lex, hlex]
    simp [lexUpTo]
  rw [Document.read?, htokens]
  exact Document.ofTokens?_tokens _

end EntitySql.Json
