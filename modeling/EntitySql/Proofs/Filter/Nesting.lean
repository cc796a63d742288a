import EntitySql.Proofs.Filter.Token
import Mathlib.Order.Lattice.Nat

/-!
# Nesting in tokens

How deep a filter nests is told from its characters, and the reader sees its tokens. `Nest.after` follows
the brackets and the negations right before a place from token to token. Strings are passed over by the
scan as they are by the lexer, and no other token has a bracket in it, so the scan never counts less than
the tokens do (`NestingState.Covers`).

**`nests_bounded`**: in a filter that passes the scan, the open brackets around a place and the negations
right before it are at most `maxNesting` together. Negations further out, around the brackets, are not
counted.
-/

namespace EntitySql.Filter

/-! ### Places between tokens -/

/-- A place in a filter: how many brackets are open, and how many negations stand right before it. -/
structure Nest where
  depth : Nat
  negations : Nat
deriving DecidableEq

/-- The place after a token. -/
def Nest.after (n : Nest) : Token → Nest
  | .openGroup | .openList => ⟨n.depth + 1, 0⟩
  | .closeGroup | .closeList => ⟨n.depth - 1, 0⟩
  | .bang => ⟨n.depth, n.negations + 1⟩
  | _ => ⟨n.depth, 0⟩

/-- The places between lexemes, if they stand at a place. -/
def nestsFrom (n : Nest) (xs : List Lexeme) : List Nest := (xs.map Lexeme.token).scanl Nest.after n

@[simp]
theorem nestsFrom_nil (n : Nest) : nestsFrom n [] = [n] := List.scanl_nil ..

@[simp]
theorem nestsFrom_cons (n : Nest) (x : Lexeme) (xs : List Lexeme) :
    nestsFrom n (x :: xs) = n :: nestsFrom (n.after x.token) xs := List.scanl_cons ..

/-- How deep the brackets of a filter are nested. -/
def bracketDepth (text : String) : Nat :=
  (nestsFrom ⟨0, 0⟩ (lex text.toList)).toFinset.sup Nest.depth

/-- The place is not nested too deeply. -/
def Nest.Bounded (n : Nest) : Prop := n.depth + n.negations ≤ maxNesting

/-- The tokens that count. -/
def nestingTokens : List Token := [.openGroup, .closeGroup, .openList, .closeList, .bang]

theorem Nest.after_of_notMem {t : Token} (h : t ∉ nestingTokens) (n : Nest) :
    n.after t = ⟨n.depth, 0⟩ := by
  cases t <;> first | rfl | exact absurd h (by decide)

/-! ### The characters of tokens -/

/-- The characters at which the scan does more than go on. -/
def nestingSigns : List Char := ['(', ')', '[', ']', '!', '"']

/-- How a token stands in front of the rest of a text. -/
inductive Spelling : List Char → Token → List Char → Prop where
  | openGroup (rest : List Char) : Spelling ('(' :: rest) .openGroup rest
  | closeGroup (rest : List Char) : Spelling (')' :: rest) .closeGroup rest
  | openList (rest : List Char) : Spelling ('[' :: rest) .openList rest
  | closeList (rest : List Char) : Spelling (']' :: rest) .closeList rest
  | bang {rest : List Char} (h : rest.head? ≠ some '=') : Spelling ('!' :: rest) .bang rest
  | notEqual (rest : List Char) : Spelling ('!' :: '=' :: rest) .notEqual rest
  | text {quoted s rest : List Char} (h : lexText quoted = some (s, rest)) :
      Spelling ('"' :: quoted) (.text (String.ofList s)) rest
  | plain {cs : List Char} {t : Token} (rest : List Char) (hcs : ∀ c ∈ cs, c ∉ nestingSigns)
      (ht : t ∉ nestingTokens) : Spelling (cs ++ rest) t rest

theorem notMem_nestingSigns_of_isDigit {c : Char} (h : c.isDigit = true) : c ∉ nestingSigns :=
  notMem_of_class (by decide) h

theorem notMem_nestingSigns_of_continuesWord {c : Char} (h : continuesWord c = true) :
    c ∉ nestingSigns :=
  notMem_of_class (by decide) h

theorem numberToken_notMem (negative : Bool) (whole : List Char) (fraction : Option (List Char)) :
    numberToken negative whole fraction ∉ nestingTokens := by
  unfold numberToken
  split
  · dsimp only
    generalize (if negative = true then _ else _ : Int) = n
    split <;> simp [nestingTokens]
  · simp [nestingTokens]

/-- A number is spelled with digits and a point. -/
theorem lexNumber_spelling {negative : Bool} {s rest : List Char} {t : Token}
    (h : lexNumber negative s = (t, rest)) (ht : t ≠ .junk) :
    t ∉ nestingTokens ∧ ∃ cs, s = cs ++ rest ∧ ∀ c ∈ cs, c ∉ nestingSigns := by
  have hdigits : ∀ cs : List Char, ∀ c ∈ cs.takeWhile Char.isDigit, c ∉ nestingSigns :=
    fun cs c hc => notMem_nestingSigns_of_isDigit (List.all_eq_true.mp List.all_takeWhile c hc)
  unfold lexNumber at h
  simp only at h
  split at h
  · cases h
    exact absurd rfl ht
  · split at h
    · next more hmore =>
      split at h
      · cases h
        exact ⟨numberToken_notMem _ _ _, _, List.takeWhile_append_dropWhile.symm, hdigits s⟩
      · cases h
        refine ⟨numberToken_notMem _ _ _,
          s.takeWhile Char.isDigit ++ '.' :: more.takeWhile Char.isDigit, ?_, ?_⟩
        · rw [List.append_assoc, List.cons_append, List.takeWhile_append_dropWhile, ← hmore,
            List.takeWhile_append_dropWhile]
        · intro c hc
          rcases List.mem_append.mp hc with hc | hc
          · exact hdigits s c hc
          · rcases List.mem_cons.mp hc with rfl | hc
            · decide
            · exact hdigits more c hc
    · cases h
      exact ⟨numberToken_notMem _ _ _, _, List.takeWhile_append_dropWhile.symm, hdigits s⟩

/-- Every token that is read is spelled so. -/
theorem lexToken_spelling {s rest : List Char} {t : Token} (h : lexToken s = (t, rest))
    (ht : t ≠ .junk) : Spelling s t rest := by
  have hplain : ∀ cs : List Char, s = cs ++ rest → (∀ c ∈ cs, c ∉ nestingSigns) →
      t ∉ nestingTokens → Spelling s t rest := by
    rintro cs rfl hcs ht
    exact .plain rest hcs ht
  have hnumber : ∀ negative digits, s = digits ∨ s = '-' :: digits →
      lexNumber negative digits = (t, rest) → Spelling s t rest := by
    intro negative digits hs hlexed
    obtain ⟨hnesting, cs, rfl, hcs⟩ := lexNumber_spelling hlexed ht
    rcases hs with rfl | rfl
    · exact hplain cs rfl hcs hnesting
    · exact hplain ('-' :: cs) rfl (List.forall_mem_cons.mpr ⟨by decide, hcs⟩) hnesting
  have hword : ∀ c more, s = c :: more → startsWord c = true →
      (.word (String.ofList (c :: more.takeWhile continuesWord)), more.dropWhile continuesWord) =
        (t, rest) → Spelling s t rest := by
    rintro c more rfl hstarts ⟨⟩
    refine hplain (c :: more.takeWhile continuesWord) ?_ ?_ (by simp [nestingTokens])
    · rw [List.cons_append, List.takeWhile_append_dropWhile]
    · refine List.forall_mem_cons.mpr ⟨notMem_of_class (by decide) hstarts, fun d hd => ?_⟩
      exact notMem_nestingSigns_of_continuesWord (List.all_eq_true.mp List.all_takeWhile d hd)
  unfold lexToken at h
  split at h
  · cases h; exact .openGroup rest
  · cases h; exact .closeGroup rest
  · cases h; exact .openList rest
  · cases h; exact .closeList rest
  · cases h; exact hplain [','] rfl (by simp [nestingSigns]) (by decide)
  · cases h; exact hplain ['.'] rfl (by simp [nestingSigns]) (by decide)
  · cases h; exact hplain ['&', '&'] rfl (by simp [nestingSigns]) (by decide)
  · cases h; exact hplain ['|', '|'] rfl (by simp [nestingSigns]) (by decide)
  · cases h; exact hplain ['?', '?'] rfl (by simp [nestingSigns]) (by decide)
  · cases h; exact hplain ['=', '='] rfl (by simp [nestingSigns]) (by decide)
  · cases h; exact hplain ['=', '>'] rfl (by simp [nestingSigns]) (by decide)
  · cases h; exact .notEqual rest
  · next after hafter =>
    cases h
    refine .bang fun hequal => ?_
    obtain ⟨more, rfl⟩ := List.head?_eq_some_iff.mp hequal
    exact hafter more rfl
  · cases h; exact hplain ['>', '='] rfl (by simp [nestingSigns]) (by decide)
  · cases h; exact hplain ['>'] rfl (by simp [nestingSigns]) (by decide)
  · cases h; exact hplain ['<', '='] rfl (by simp [nestingSigns]) (by decide)
  · cases h; exact hplain ['<'] rfl (by simp [nestingSigns]) (by decide)
  · split at h
    · next htext =>
      cases h
      exact .text htext
    · cases h
      exact absurd rfl ht
  · exact hnumber true _ (.inr rfl) h
  · split at h
    · exact hnumber false _ (.inl rfl) h
    · split at h
      · next hstarts => exact hword _ _ rfl hstarts h
      · cases h
        exact absurd rfl ht
  · cases h
    exact absurd rfl ht

/-! ### The scan -/

/-- A character that is no quote is counted, and the scan goes on behind it. -/
theorem scanNesting_cons_iff {s : NestingState} {c : Char} {rest : List Char} (hc : c ≠ '"') :
    scanNesting s (c :: rest) = none ↔
      (s.count c rest.head?).depth + (s.count c rest.head?).negations ≤ maxNesting ∧
        scanNesting ((s.count c rest.head?).pass c) rest = none := by
  rw [scanNesting, if_neg hc, ← not_lt]
  split
  · next hlt => simp [hlt]
  · next hle => simp [hle]

/-- A character that does not count changes nothing but the run of negations. -/
theorem NestingState.count_of_notMem {c : Char} (hc : c ∉ nestingSigns) (s : NestingState)
    (next : Option Char) : s.count c next = s := by
  simp only [nestingSigns, List.mem_cons, List.not_mem_nil, or_false, not_or] at hc
  simp [count, hc]

theorem NestingState.count_bang {next : Option Char} (h : next ≠ some '=') (s : NestingState) :
    s.count '!' next = { s with negations := s.negations + 1 } := by
  simp [count, h]

theorem ne_quote_of_notMem {c : Char} (hc : c ∉ nestingSigns) : c ≠ '"' := by
  rintro rfl
  exact hc (by decide)

theorem NestingState.negations_pass_le (s : NestingState) (c : Char) :
    (s.pass c).negations ≤ s.negations := by
  unfold pass
  dsimp only
  split
  · exact Nat.zero_le _
  · exact le_rfl

/-- Characters that do not count leave the brackets open. -/
theorem scanNesting_plain {s : NestingState} (hs : s.depth + s.negations ≤ maxNesting)
    {cs : List Char} (hcs : ∀ c ∈ cs, c ∉ nestingSigns) (rest : List Char) :
    ∃ s' : NestingState, s'.depth = s.depth ∧ s'.negations ≤ s.negations ∧
      (scanNesting s (cs ++ rest) = none ↔ scanNesting s' rest = none) := by
  induction cs generalizing s with
  | nil => exact ⟨s, rfl, le_rfl, Iff.rfl⟩
  | cons c cs ih =>
    obtain ⟨hc, hcs⟩ := List.forall_mem_cons.mp hcs
    have hle := s.negations_pass_le c
    obtain ⟨s', hdepth, hnegations, hscan⟩ :=
      ih (s := s.pass c) (le_trans (Nat.add_le_add_left hle s.depth) hs) hcs
    refine ⟨s', hdepth, le_trans hnegations hle, ?_⟩
    rw [List.cons_append, scanNesting_cons_iff (ne_quote_of_notMem hc), s.count_of_notMem hc,
      and_iff_right hs, hscan]

theorem isBlank_of_isBlank {c : Char} (h : isBlank c = true) : Text.isBlank c = true := by
  simp only [isBlank, Bool.or_eq_true, decide_eq_true_eq] at h
  rcases h with ((rfl | rfl) | rfl) | rfl <;> decide

/-- Blanks between tokens leave the negations before them, too. -/
theorem scanNesting_blanks {s : NestingState} {cs : List Char} (h : scanNesting s cs = none) :
    ∃ s' : NestingState, s'.depth = s.depth ∧ s'.negations = s.negations ∧
      scanNesting s' (cs.dropWhile isBlank) = none := by
  induction cs generalizing s with
  | nil => exact ⟨s, rfl, rfl, h⟩
  | cons c rest ih =>
    by_cases hc : isBlank c = true
    · have hsign : c ∉ nestingSigns := notMem_of_class (by decide) hc
      rw [scanNesting_cons_iff (ne_quote_of_notMem hsign), s.count_of_notMem hsign] at h
      have hpass : (s.pass c).negations = s.negations := by
        simp [NestingState.pass, isBlank_of_isBlank hc]
      rw [List.dropWhile_cons_of_pos hc, ← hpass]
      exact ih h.2
    · rw [List.dropWhile_cons_of_neg hc]
      exact ⟨s, rfl, rfl, h⟩

/-- What is read of the rest, whatever character stands before it. -/
theorem exists_of_map_cons_eq_some {c : Char} {result : Option (List Char × List Char)}
    {read rest : List Char}
    (h : (result.map fun (read, rest) => (c :: read, rest)) = some (read, rest)) :
    ∃ read', result = some (read', rest) := by
  obtain ⟨⟨read', rest'⟩, hresult, heq⟩ := Option.map_eq_some_iff.mp h
  cases heq
  exact ⟨read', hresult⟩

/-- A string is passed over as it is read. -/
theorem scanNestingString_of_lexText {s : NestingState} {quoted read rest : List Char}
    (hs : lexText quoted = some (read, rest)) (h : scanNestingString s quoted = none) :
    ∃ s' : NestingState, s'.depth = s.depth ∧ s'.negations = s.negations ∧
      scanNesting s' rest = none := by
  fun_induction lexText quoted generalizing s read rest with
  | case1 => cases hs
  | case2 more =>
    cases hs
    rw [scanNestingString.eq_3 _ _ _ (by rintro _ _ ⟨⟩), if_pos rfl] at h
    exact ⟨{ s with position := s.position + '"'.utf8Size }, rfl, rfl, h⟩
  | case3 c more =>
    rename_i ih
    obtain ⟨read', hs⟩ := exists_of_map_cons_eq_some hs
    exact ih (s := { s with position := s.position + 1 + c.utf8Size }) hs h
  | case4 more =>
    rename_i ih
    obtain ⟨read', hs⟩ := exists_of_map_cons_eq_some hs
    exact ih (s := { s with position := s.position + 1 + 'n'.utf8Size }) hs h
  | case5 more =>
    rename_i ih
    obtain ⟨read', hs⟩ := exists_of_map_cons_eq_some hs
    exact ih (s := { s with position := s.position + 1 + 't'.utf8Size }) hs h
  | case6 => cases hs
  | case7 => cases hs
  | case8 c more hquote _ hescape ih =>
    obtain ⟨read', hs⟩ := exists_of_map_cons_eq_some hs
    rw [scanNestingString.eq_3 _ _ _ fun _ _ hc _ => hescape hc, if_neg hquote] at h
    exact ih (s := { s with position := s.position + c.utf8Size }) hs h

/-- What the scan has counted covers a place: its brackets, and no fewer negations. -/
structure NestingState.Covers (s : NestingState) (n : Nest) : Prop where
  depth : s.depth = n.depth
  negations : n.negations ≤ s.negations
  bounded : s.depth + s.negations ≤ maxNesting

theorem NestingState.Covers.nest {s : NestingState} {n : Nest} (h : s.Covers n) : n.Bounded :=
  le_trans (Nat.add_le_add h.depth.ge h.negations) h.bounded

/-- **What the scan has counted covers the place after every token.** -/
theorem NestingState.Covers.after {s : NestingState} {n : Nest} (hn : s.Covers n)
    {cs rest : List Char} {t : Token} (ht : Spelling cs t rest) (h : scanNesting s cs = none) :
    ∃ s' : NestingState, s'.Covers (n.after t) ∧ scanNesting s' rest = none := by
  obtain ⟨hdepth, hnegations, hbounded⟩ := hn
  cases ht with
  | openGroup | openList =>
    obtain ⟨hle, h⟩ := (scanNesting_cons_iff (by decide)).mp h
    have hle : s.depth + 1 + s.negations ≤ maxNesting := hle
    refine ⟨_, ⟨?_, Nat.zero_le _, ?_⟩, h⟩
    · exact congrArg (· + 1) hdepth
    · exact le_trans (Nat.le_add_right _ _) hle
  | closeGroup | closeList =>
    obtain ⟨hle, h⟩ := (scanNesting_cons_iff (by decide)).mp h
    have hle : s.depth - 1 + s.negations ≤ maxNesting := hle
    refine ⟨_, ⟨?_, Nat.zero_le _, ?_⟩, h⟩
    · exact congrArg (· - 1) hdepth
    · exact le_trans (Nat.le_add_right _ _) hle
  | bang hrest =>
    obtain ⟨hle, h⟩ := (scanNesting_cons_iff (by decide)).mp h
    rw [s.count_bang hrest] at hle h
    refine ⟨_, ⟨?_, ?_, ?_⟩, h⟩
    · exact hdepth
    · exact Nat.succ_le_succ hnegations
    · exact hle
  | notEqual =>
    obtain ⟨-, h⟩ := (scanNesting_cons_iff (by decide)).mp h
    obtain ⟨-, h⟩ := (scanNesting_cons_iff (by decide)).mp h
    refine ⟨_, ⟨?_, Nat.zero_le _, ?_⟩, h⟩
    · exact hdepth
    · exact le_trans (Nat.le_add_right _ _) hbounded
  | text hs =>
    rw [scanNesting] at h
    split at h
    · cases h
    · obtain ⟨s', hdepth', hnegations', h⟩ := scanNestingString_of_lexText hs h
      refine ⟨s', ⟨hdepth'.trans hdepth, Nat.zero_le _, ?_⟩, h⟩
      rw [hdepth', hnegations']
      exact le_trans (Nat.le_add_right _ _) hbounded
  | plain _ hcs ht =>
    obtain ⟨s', hdepth', hle, hscan⟩ := scanNesting_plain hbounded hcs rest
    rw [Nest.after_of_notMem ht]
    refine ⟨s', ⟨hdepth'.trans hdepth, Nat.zero_le _, ?_⟩, hscan.mp h⟩
    rw [hdepth']
    exact le_trans (Nat.add_le_add_left hle _) hbounded

/-- The places between the tokens of a text that the scan passes are not nested too deeply. -/
theorem nestsFrom_bounded {limit : Nat} {s : NestingState} {n : Nest} (hn : s.Covers n)
    {cs : List Char} (h : scanNesting s cs = none) :
    ∀ m ∈ nestsFrom n (lexUpTo limit cs), m.Bounded := by
  induction limit generalizing s n cs with
  | zero =>
    intro m hm
    obtain rfl : m = n := by simpa [lexUpTo] using hm
    exact hn.nest
  | succ limit ih =>
    obtain ⟨s', hdepth, hnegations, h⟩ := scanNesting_blanks h
    have hs' : s'.Covers n :=
      ⟨hdepth.trans hn.depth, hnegations ▸ hn.negations, hdepth ▸ hnegations ▸ hn.bounded⟩
    rw [lexUpTo]
    split
    · intro m hm
      obtain rfl : m = n := by simpa using hm
      exact hn.nest
    · next c rest hcs =>
      rw [hcs] at h
      rcases hlexed : lexToken (c :: rest) with ⟨t, after⟩
      intro m hm
      rcases List.mem_cons.mp (nestsFrom_cons .. ▸ hm) with rfl | hm
      · exact hn.nest
      · by_cases ht : t = .junk
        · have hjunk : m = ⟨n.depth, 0⟩ := by simpa [ht, Nest.after] using hm
          rw [hjunk]
          exact le_trans (Nat.le_add_right _ _) hn.nest
        · obtain ⟨s'', hs'', h⟩ := hs'.after (lexToken_spelling hlexed ht) h
          rw [if_neg ht] at hm
          exact ih hs'' h m hm

/-- **Open brackets and the negations right before a place are at most `maxNesting` together** in a
filter that passes the scan. -/
theorem nests_bounded {text : String} (h : tooDeepAt? text.toList = none) :
    ∀ m ∈ nestsFrom ⟨0, 0⟩ (lex text.toList), m.Bounded :=
  nestsFrom_bounded (s := ⟨0, 0, 0⟩) ⟨rfl, le_rfl, Nat.zero_le _⟩ h

theorem bracketDepth_le_iff {text : String} {D : Nat} :
    bracketDepth text ≤ D ↔ ∀ m ∈ nestsFrom ⟨0, 0⟩ (lex text.toList), m.depth ≤ D := by
  simp only [bracketDepth, Finset.sup_le_iff, List.mem_toFinset]

end EntitySql.Filter
