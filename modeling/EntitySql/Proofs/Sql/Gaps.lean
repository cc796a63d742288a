import EntitySql.Proofs.Sql.Tidy

/-!
# Which blanks tidying takes away

A text is made of pieces, whoever wrote it: plain characters, and segments between quotes. There are
four kinds of quotes; a closing quote that is written twice does not end its segment, and a segment that
no quote ends goes on to the end of the text (`Pieces`). Every text has exactly one reading in pieces.

A gap is a plain blank in front of a plain bracket, right behind a word that is the name of an aggregate
function; the word is the longest run of plain letters, numerals and underscores that ends there
(`IsGap`). The main statement, **`tidy_eq_withoutGaps`**, is that tidying any text takes away the gaps of
its pieces and nothing else. So quoted segments come through as they are, and a text without its gaps has
none, which makes tidying a second time idle.
-/

namespace EntitySql.Sql

/-! ### Pieces -/

/-- A piece of a text. -/
inductive Piece where
  /-- A character outside of quotes. -/
  | plain (c : Char)
  /-- A segment with its quotes, and what it quotes, with no closing quote doubled. -/
  | quoted (opening closing : Char) (body : List Char)
  /-- A segment that no quote ends. -/
  | unclosed (opening closing : Char) (body : List Char)
deriving DecidableEq

/-- The characters of a piece. -/
def Piece.chars : Piece → List Char
  | plain c => [c]
  | quoted opening closing body => opening :: (body.flatMap (quoteChar closing) ++ [closing])
  | unclosed opening closing body => opening :: body.flatMap (quoteChar closing)

/-- Whether a piece is a quoted segment, ended or not. -/
def Piece.isQuoted : Piece → Bool
  | plain _ => false
  | _ => true

/-- The text that pieces make. -/
def textOf (ps : List Piece) : List Char := ps.flatMap Piece.chars

/-- The text consists of these pieces. -/
inductive Pieces : List Char → List Piece → Prop
  | nil : Pieces [] []
  | plain {c : Char} {s : List Char} {ps : List Piece} (h : ∀ closing, (c, closing) ∉ quotePairs)
      (rest : Pieces s ps) : Pieces (c :: s) (.plain c :: ps)
  | quoted {opening closing : Char} (body : List Char) {s : List Char} {ps : List Piece}
      (h : (opening, closing) ∈ quotePairs) (ends : s.head? ≠ some closing) (rest : Pieces s ps) :
      Pieces (opening :: (body.flatMap (quoteChar closing) ++ closing :: s))
        (.quoted opening closing body :: ps)
  | unclosed {opening closing : Char} (body : List Char) (h : (opening, closing) ∈ quotePairs) :
      Pieces (opening :: body.flatMap (quoteChar closing)) [.unclosed opening closing body]

variable {s t : List Char} {ps qs before after : List Piece} {p : Piece} {c closing : Char}

theorem Pieces.textOf_eq (h : Pieces s ps) : textOf ps = s := by
  induction h with
  | nil => rfl
  | plain h rest ih => simp [textOf, Piece.chars, ← ih]
  | quoted body h ends rest ih => simp [textOf, Piece.chars, ← ih]
  | unclosed body h => simp [textOf, Piece.chars]

/-! ### Every text has one reading -/

/-- The text stands behind what a segment quotes: it is its end, or it starts with its closing quote. -/
def EndsQuoted (closing : Char) (s : List Char) : Prop :=
  s = [] ∨ ∃ rest, s = closing :: rest ∧ rest.head? ≠ some closing

/-- Any text behind an opening quote quotes something, and then the segment ends. -/
theorem exists_quoted (closing : Char) : ∀ s : List Char, ∃ (body t : List Char),
    s = body.flatMap (quoteChar closing) ++ t ∧ EndsQuoted closing t
  | [] => ⟨[], [], rfl, .inl rfl⟩
  | [c] => by
    by_cases hc : c = closing
    · exact ⟨[], [c], rfl, .inr ⟨[], by rw [hc], by simp⟩⟩
    · exact ⟨[c], [], by simp [quoteChar, hc], .inl rfl⟩
  | c :: d :: rest => by
    by_cases hc : c = closing
    · by_cases hd : d = closing
      · obtain ⟨body, t, hrest, ht⟩ := exists_quoted closing rest
        exact ⟨closing :: body, t, by simp [quoteChar, hc, hd, ← hrest], ht⟩
      · exact ⟨[], c :: d :: rest, rfl, .inr ⟨d :: rest, by rw [hc], by simpa using hd⟩⟩
    · obtain ⟨body, t, hrest, ht⟩ := exists_quoted closing (d :: rest)
      exact ⟨c :: body, t, by simp [quoteChar, hc, ← hrest], ht⟩

theorem quoteChar_eq_cons (closing c : Char) :
    quoteChar closing c = c :: if c = closing then [c] else [] := by
  unfold quoteChar
  split <;> rfl

theorem quoteChar_append_inj {d : Char} (h : quoteChar closing c ++ s = quoteChar closing d ++ t) :
    c = d ∧ s = t := by
  have hcd : c = d := by
    rw [quoteChar_eq_cons, quoteChar_eq_cons, List.cons_append, List.cons_append] at h
    exact (List.cons.inj h).1
  subst hcd
  exact ⟨rfl, List.append_cancel_left h⟩

/-- What a segment quotes does not go on with its end. -/
theorem EndsQuoted.ne_append (ht : EndsQuoted closing t) (c : Char) (u : List Char) :
    t ≠ quoteChar closing c ++ u := by
  rintro rfl
  rw [quoteChar_eq_cons] at ht
  rcases ht with h | ⟨rest, h, hrest⟩
  · cases h
  · obtain ⟨rfl, rfl⟩ := List.cons.inj h
    simp at hrest

/-- What a segment quotes is told by the text. -/
theorem quoted_inj {body other u : List Char} (ht : EndsQuoted closing t) (hu : EndsQuoted closing u)
    (h : body.flatMap (quoteChar closing) ++ t = other.flatMap (quoteChar closing) ++ u) :
    body = other ∧ t = u := by
  induction body generalizing other with
  | nil =>
    cases other with
    | nil => exact ⟨rfl, h⟩
    | cons c other =>
      rw [List.flatMap_cons, List.append_assoc] at h
      exact absurd h (ht.ne_append c _)
  | cons c body ih =>
    rw [List.flatMap_cons, List.append_assoc] at h
    cases other with
    | nil => exact absurd h.symm (hu.ne_append c _)
    | cons d other =>
      rw [List.flatMap_cons, List.append_assoc] at h
      obtain ⟨rfl, heq⟩ := quoteChar_append_inj h
      obtain ⟨rfl, rfl⟩ := ih heq
      exact ⟨rfl, rfl⟩

theorem closing_unique {opening closing' : Char} (h : (opening, closing) ∈ quotePairs)
    (h' : (opening, closing') ∈ quotePairs) : closing = closing' := by
  rw [← closingQuote?_eq_some_iff] at h h'
  exact Option.some.inj (h.symm.trans h')

theorem exists_pieces (s : List Char) : ∃ ps, Pieces s ps := by
  match s with
  | [] => exact ⟨[], .nil⟩
  | c :: s =>
    cases hc : closingQuote? c with
    | none =>
      obtain ⟨ps, hps⟩ := exists_pieces s
      refine ⟨.plain c :: ps, .plain (fun closing h => ?_) hps⟩
      rw [closingQuote?_eq_some_iff.mpr h] at hc
      cases hc
    | some closing =>
      have hpair := closingQuote?_eq_some_iff.mp hc
      obtain ⟨body, t, hs, rfl | ⟨rest, rfl, hrest⟩⟩ := exists_quoted closing s
      · rw [hs, List.append_nil]
        exact ⟨_, .unclosed body hpair⟩
      · have hlt : rest.length < s.length + 1 := by
          rw [hs, List.length_append, List.length_cons]
          omega
        obtain ⟨ps, hps⟩ := exists_pieces rest
        rw [hs]
        exact ⟨_, .quoted body hpair hrest hps⟩
termination_by s.length

theorem Pieces.unique (h : Pieces s ps) (h' : Pieces s qs) : qs = ps := by
  induction h generalizing qs with
  | nil =>
    cases h'
    rfl
  | plain hc rest ih =>
    cases h' with
    | plain _ rest' => rw [ih rest']
    | quoted body h => exact absurd h (hc _)
    | unclosed body h => exact absurd h (hc _)
  | @quoted opening closing body s ps hpair ends rest ih =>
    generalize hx : opening :: (body.flatMap (quoteChar closing) ++ closing :: s) = text at h'
    cases h' with
    | nil => cases hx
    | plain hc =>
      obtain ⟨rfl, -⟩ := List.cons.inj hx
      exact absurd hpair (hc _)
    | quoted body' hpair' ends' rest' =>
      obtain ⟨rfl, hbody⟩ := List.cons.inj hx
      obtain rfl := closing_unique hpair hpair'
      obtain ⟨rfl, heq⟩ := quoted_inj (.inr ⟨_, rfl, ends⟩) (.inr ⟨_, rfl, ends'⟩) hbody
      obtain ⟨-, rfl⟩ := List.cons.inj heq
      rw [ih rest']
    | unclosed body' hpair' =>
      obtain ⟨rfl, hbody⟩ := List.cons.inj hx
      obtain rfl := closing_unique hpair hpair'
      rw [← List.append_nil (body'.flatMap (quoteChar closing))] at hbody
      exact absurd (quoted_inj (.inr ⟨_, rfl, ends⟩) (.inl rfl) hbody).2 (List.cons_ne_nil _ _)
  | @unclosed opening closing body hpair =>
    generalize hx : opening :: body.flatMap (quoteChar closing) = text at h'
    rw [← List.append_nil (body.flatMap (quoteChar closing))] at hx
    cases h' with
    | nil => cases hx
    | plain hc =>
      obtain ⟨rfl, -⟩ := List.cons.inj hx
      exact absurd hpair (hc _)
    | quoted body' hpair' ends' rest' =>
      obtain ⟨rfl, hbody⟩ := List.cons.inj hx
      obtain rfl := closing_unique hpair hpair'
      exact absurd (quoted_inj (.inl rfl) (.inr ⟨_, rfl, ends'⟩) hbody).2.symm (List.cons_ne_nil _ _)
    | unclosed body' hpair' =>
      obtain ⟨rfl, hbody⟩ := List.cons.inj hx
      obtain rfl := closing_unique hpair hpair'
      rw [← List.append_nil (body'.flatMap (quoteChar closing))] at hbody
      rw [(quoted_inj (.inl rfl) (.inl rfl) hbody).1]

/-! ### Gaps -/

/-- The character of a word that a piece is, if it is one. -/
def Piece.wordChar? : Piece → Option Char
  | plain c => if isWordChar c then some c else none
  | _ => none

/-- The longest word at the end of pieces: a run of plain letters, numerals and underscores. -/
def lastWord (ps : List Piece) : List Char :=
  ((ps.reverse.takeWhile fun p => p.wordChar?.isSome).filterMap Piece.wordChar?).reverse

/-- A plain blank between the name of an aggregate function and a plain bracket. -/
def IsGap (before : List Piece) (p : Piece) (after : List Piece) : Prop :=
  p = .plain ' ' ∧ after.head? = some (.plain '(') ∧ lastWord before ∈ aggregateWords

instance (before : List Piece) (p : Piece) (after : List Piece) : Decidable (IsGap before p after) :=
  inferInstanceAs (Decidable (_ ∧ _ ∧ _))

/-- The pieces without the gaps among them; `before` are the pieces in front of them. -/
def withoutGaps (before : List Piece) : List Piece → List Piece
  | [] => []
  | p :: after =>
    if IsGap before p after then withoutGaps (before ++ [p]) after
    else p :: withoutGaps (before ++ [p]) after

@[simp]
theorem lastWord_nil : lastWord [] = [] := rfl

theorem lastWord_concat (before : List Piece) (p : Piece) :
    lastWord (before ++ [p]) =
      match p.wordChar? with
      | some c => lastWord before ++ [c]
      | none => [] := by
  rw [lastWord, List.reverse_append, List.reverse_singleton, List.singleton_append,
    List.takeWhile_cons]
  cases hp : p.wordChar? with
  | none => simp
  | some c => simp [hp, lastWord]

/-- Nothing is a gap but a blank behind a word. -/
theorem not_isGap (h : p ≠ .plain ' ' ∨ lastWord before = []) : ¬IsGap before p after := by
  rintro ⟨rfl, -, hword⟩
  rcases h with h | h
  · exact h rfl
  · rw [h] at hword
    exact absurd hword (by decide)

theorem withoutGaps_cons (h : p ≠ .plain ' ' ∨ lastWord before = []) :
    withoutGaps before (p :: after) = p :: withoutGaps (before ++ [p]) after := by
  rw [withoutGaps, if_neg (not_isGap h)]

/-- Behind no word, the first piece stays. -/
theorem head?_withoutGaps (h : lastWord before = []) (ps : List Piece) :
    (withoutGaps before ps).head? = ps.head? := by
  cases ps with
  | nil => rfl
  | cons p after => rw [withoutGaps_cons (.inr h), List.head?_cons, List.head?_cons]

/-- Of the pieces in front, only the word at their end counts. -/
theorem withoutGaps_congr {other : List Piece} (h : lastWord before = lastWord other)
    (ps : List Piece) : withoutGaps before ps = withoutGaps other ps := by
  induction ps generalizing before other with
  | nil => rfl
  | cons p after ih =>
    have hrest : withoutGaps (before ++ [p]) after = withoutGaps (other ++ [p]) after :=
      ih (by rw [lastWord_concat, lastWord_concat, h])
    have hgap : IsGap before p after ↔ IsGap other p after := by rw [IsGap, IsGap, h]
    simp only [withoutGaps, hgap, hrest]

/-- Quoted segments are no gaps. -/
theorem filter_isQuoted_withoutGaps (before ps : List Piece) :
    (withoutGaps before ps).filter Piece.isQuoted = ps.filter Piece.isQuoted := by
  induction ps generalizing before with
  | nil => rfl
  | cons p after ih =>
    rw [withoutGaps]
    split
    · next hgap =>
      rw [ih, List.filter_cons_of_neg]
      simp [hgap.1, Piece.isQuoted]
    · rw [List.filter_cons, List.filter_cons, ih]

/-- Without its gaps, a text has none. -/
theorem withoutGaps_withoutGaps (before ps : List Piece) :
    withoutGaps before (withoutGaps before ps) = withoutGaps before ps := by
  induction ps generalizing before with
  | nil => rfl
  | cons p after ih =>
    have hrest := ih (before ++ [p])
    by_cases hgap : IsGap before p after
    · rw [withoutGaps, if_pos hgap]
      obtain ⟨rfl, hopen, -⟩ := hgap
      -- the bracket behind the gap stays, and behind it there is no word in either text
      obtain ⟨after, rfl⟩ : ∃ tail, after = .plain '(' :: tail := by
        cases after with
        | nil => cases hopen
        | cons q tail => exact ⟨tail, by rw [Option.some.inj hopen]⟩
      have hne : Piece.plain '(' ≠ .plain ' ' := by decide
      rw [withoutGaps_cons (.inl hne)] at hrest ⊢
      rw [withoutGaps_cons (.inl hne)] at hrest ⊢
      rw [List.cons.injEq] at hrest ⊢
      refine ⟨rfl, Eq.trans (withoutGaps_congr ?_ _) hrest.2⟩
      rw [lastWord_concat, lastWord_concat]
      rfl
    · have hkept : ¬IsGap before p (withoutGaps (before ++ [p]) after) := by
        rintro ⟨rfl, hopen, hword⟩
        rw [head?_withoutGaps (by rw [lastWord_concat]; rfl)] at hopen
        exact hgap ⟨rfl, hopen, hword⟩
      rw [withoutGaps, if_neg hgap, withoutGaps, if_neg hkept, hrest]

/-! ### Tidying -/

theorem textOf_cons (p : Piece) (ps : List Piece) : textOf (p :: ps) = p.chars ++ textOf ps :=
  List.flatMap_cons

theorem head?_textOf (ps : List Piece) : (textOf ps).head? = ps.head?.bind fun p => p.chars.head? := by
  cases ps with
  | nil => rfl
  | cons p ps => cases p <;> simp [textOf_cons, Piece.chars]

/-- A text starts with a bracket where its first piece is one. -/
theorem Pieces.bracket_iff (h : Pieces s ps) :
    s.head? = some '(' ↔ ps.head? = some (.plain '(') := by
  have hopening : ∀ x ∈ quotePairs, x.1 ≠ '(' := by decide
  cases h with
  | nil => simp
  | plain => simp
  | quoted body hpair => simp [hopening _ hpair]
  | unclosed body hpair => simp [hopening _ hpair]

theorem dropsBlank_iff (h : Pieces s ps) :
    dropsBlank (lastWord before).reverse c s = true ↔ IsGap before (.plain c) ps := by
  simp [dropsBlank, IsGap, h.bracket_iff, and_assoc]

/-- What tidying leaves of a text is what its pieces are without the gaps. -/
theorem Pieces.tidied_eq (h : Pieces s ps) (before : List Piece) :
    tidied none (lastWord before).reverse s = textOf (withoutGaps before ps) := by
  induction h generalizing before with
  | nil => rfl
  | @plain c s ps hc rest ih =>
    have hnone : closingQuote? c = none :=
      Option.eq_none_iff_forall_ne_some.mpr fun closing h => hc _ (closingQuote?_eq_some_iff.mp h)
    have hrest := ih (before ++ [.plain c])
    rw [tidied_plain _ _ hnone]
    by_cases hword : isWordChar c = true
    · have hblank : Piece.plain c ≠ .plain ' ' := by
        rintro h
        cases h
        exact absurd hword (by decide)
      rw [lastWord_concat, Piece.wordChar?, if_pos hword] at hrest
      rw [if_pos hword, withoutGaps_cons (.inl hblank), textOf_cons, ← hrest]
      simp [Piece.chars]
    · rw [lastWord_concat, Piece.wordChar?, if_neg hword] at hrest
      rw [if_neg hword, withoutGaps]
      by_cases hgap : IsGap before (.plain c) ps
      · rw [if_pos ((dropsBlank_iff rest).mpr hgap), if_pos hgap]
        exact hrest
      · rw [if_neg (mt (dropsBlank_iff rest).mp hgap), if_neg hgap, textOf_cons, ← hrest]
        rfl
  | @quoted opening closing body s ps hpair ends rest ih =>
    have hrest := ih (before ++ [.quoted opening closing body])
    rw [lastWord_concat] at hrest
    rw [tidied_quoted (closingQuote?_eq_some_iff.mpr hpair) _ _ ends,
      withoutGaps_cons (.inl (by simp)), textOf_cons, ← hrest]
    simp [Piece.chars, Piece.wordChar?]
  | @unclosed opening closing body hpair =>
    have hinside := tidied_escaped closing [] body []
    rw [List.append_nil] at hinside
    rw [tidied_opening (closingQuote?_eq_some_iff.mpr hpair), hinside,
      withoutGaps_cons (.inl (by simp))]
    simp [textOf, withoutGaps, Piece.chars, tidied, tidyFrom]

/-- The pieces without the gaps are the pieces of the text that they make. -/
theorem Pieces.withoutGaps (h : Pieces s ps) (before : List Piece) :
    Pieces (textOf (withoutGaps before ps)) (withoutGaps before ps) := by
  induction h generalizing before with
  | nil => exact .nil
  | plain hc rest ih =>
    rw [Sql.withoutGaps]
    split
    · exact ih _
    · exact .plain hc (ih _)
  | @quoted opening closing body s ps hpair ends rest ih =>
    rw [withoutGaps_cons (.inl (by simp)), textOf_cons, Piece.chars, List.cons_append,
      List.append_assoc, List.singleton_append]
    refine .quoted body hpair ?_ (ih _)
    rw [head?_textOf, head?_withoutGaps (by rw [lastWord_concat]; rfl), ← head?_textOf, rest.textOf_eq]
    exact ends
  | unclosed body hpair =>
    rw [withoutGaps_cons (.inl (by simp))]
    simpa [Sql.withoutGaps, textOf, Piece.chars] using Pieces.unclosed body hpair

theorem tidyChars_pieces (h : Pieces s ps) : tidyChars s = textOf (withoutGaps [] ps) :=
  h.tidied_eq []

/-- **Tidying takes away the gaps** of a text, which has one reading in pieces, and nothing else. What
is quoted comes through as it is, and tidying a second time changes nothing. -/
theorem tidy_eq_withoutGaps (s : String) :
    ∃ ps, Pieces s.toList ps ∧ (∀ qs, Pieces s.toList qs → qs = ps) ∧
      (tidy s).toList = textOf (withoutGaps [] ps) ∧
      Pieces (tidy s).toList (withoutGaps [] ps) ∧
      (withoutGaps [] ps).filter Piece.isQuoted = ps.filter Piece.isQuoted ∧
      tidy (tidy s) = tidy s := by
  obtain ⟨ps, hps⟩ := exists_pieces s.toList
  have htidy : (tidy s).toList = textOf (withoutGaps [] ps) := by
    rw [tidy, String.toList_ofList, tidyChars_pieces hps]
  have hleft : Pieces (tidy s).toList (withoutGaps [] ps) := htidy ▸ hps.withoutGaps []
  refine ⟨ps, hps, fun qs => hps.unique, htidy, hleft, filter_isQuoted_withoutGaps [] ps, ?_⟩
  rw [tidy, tidyChars_pieces hleft, withoutGaps_withoutGaps, ← htidy, String.ofList_toList]

example : tidy "SELECT SUM (x), [SUM (x)], XSUM (x)" = "SELECT SUM(x), [SUM (x)], XSUM (x)" := by
  rfl

end EntitySql.Sql
