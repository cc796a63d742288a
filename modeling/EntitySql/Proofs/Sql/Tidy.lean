import EntitySql.Proofs.Sql.Spacing
import EntitySql.Sql.Tidy

/-!
# Tidying changes no token

Tidying closes the gap between the name of an aggregate function and its bracket. It knows nothing of
tokens: it counts a word wherever letters stand, and takes any of four quotes for the start of quoted
text. In spaced fragments it meets no quotes but those of names (`tidied_name`), and elsewhere the only
thing it takes away is a blank in front of a bracket, which no token needs. So **`lex_tidyChars`**: the
tokens of a text are the same after tidying, and with them the placeholders.
-/

namespace EntitySql.Sql

/-! ### Tidying from a state on -/

/-- The rest of a text after tidying. -/
def tidied (quote : Option Char) (word s : List Char) : List Char := tidyFrom quote word [] s

theorem tidyFrom_done (s : List Char) :
    (∀ quote word done, tidyFrom quote word done s = done.reverse ++ tidied quote word s) ∧
      ∀ close word done, tidyFrom.tidyPair close word done s =
        done.reverse ++ tidyFrom.tidyPair close word [] s := by
  induction s with
  | nil => simp [tidied, tidyFrom, tidyFrom.tidyPair]
  | cons c rest ih =>
    obtain ⟨hfrom, hpair⟩ := ih
    constructor
    · intro quote word done
      unfold tidied
      cases quote with
      | some close =>
        simp only [tidyFrom]
        split
        · split
          · rw [hpair, hpair _ _ [c]]
            simp
          · rw [hfrom, hfrom _ _ [c]]
            simp
        · rw [hfrom, hfrom _ _ [c]]
          simp
      | none =>
        simp only [tidyFrom]
        split
        · rw [hfrom, hfrom _ _ [c]]
          simp
        · split
          · rw [hfrom, hfrom _ _ []]
            simp
          · rw [hfrom, hfrom _ _ [c]]
            simp
    · intro close word done
      simp only [tidyFrom.tidyPair]
      rw [hfrom, hfrom _ _ [c]]
      simp

/-- What tidying does with a character outside of quotes. -/
theorem tidied_plain (word : List Char) {c : Char} (rest : List Char) (hc : closingQuote? c = none) :
    tidied none word (c :: rest) =
      if isWordChar c then c :: tidied none (c :: word) rest
      else if dropsBlank word c rest then tidied none [] rest
      else c :: tidied none [] rest := by
  have hfrom := (tidyFrom_done rest).1
  unfold tidied at hfrom ⊢
  simp only [tidyFrom]
  split
  · exact hfrom none _ [c]
  · split
    · rfl
    · rw [hc]
      exact hfrom none _ [c]

/-- Outside of quotes, tidying keeps a character or drops a blank. -/
theorem tidied_cons (word : List Char) (c : Char) (rest : List Char) (hc : closingQuote? c = none) :
    (∃ word', tidied none word (c :: rest) = c :: tidied none word' rest) ∨
      c = ' ' ∧ rest.head? = some '(' ∧ tidied none word (c :: rest) = tidied none [] rest := by
  rw [tidied_plain word rest hc]
  split
  · exact .inl ⟨_, rfl⟩
  · split
    · next hdrop =>
      simp only [dropsBlank, Bool.and_eq_true, decide_eq_true_eq] at hdrop
      exact .inr ⟨hdrop.1.1, hdrop.1.2, rfl⟩
    · exact .inl ⟨_, rfl⟩

/-- Tidying leaves the inside of quoted text alone. -/
theorem tidied_escaped (close : Char) (word n t : List Char) :
    tidied (some close) word (n.flatMap (quoteChar close) ++ t) =
      n.flatMap (quoteChar close) ++ tidied (some close) word t := by
  induction n with
  | nil => rfl
  | cons c n ih =>
    have hfrom := (tidyFrom_done (n.flatMap (quoteChar close) ++ t)).1 (some close) word
    have hstep : tidied (some close) word (quoteChar close c ++ (n.flatMap (quoteChar close) ++ t)) =
        quoteChar close c ++ tidied (some close) word (n.flatMap (quoteChar close) ++ t) := by
      unfold quoteChar
      split
      · next hc =>
        subst hc
        unfold tidied at hfrom ⊢
        simp only [List.cons_append, List.nil_append, tidyFrom, if_true, List.head?_cons,
          tidyFrom.tidyPair]
        exact hfrom [c, c]
      · next hc =>
        unfold tidied at hfrom ⊢
        rw [List.singleton_append, tidyFrom]
        simp only [if_neg hc]
        exact hfrom [c]
    rw [List.flatMap_cons, List.append_assoc, hstep, ih, List.append_assoc]

/-- Tidying goes on behind the closing quote of quoted text. -/
theorem tidied_closing {close : Char} (word : List Char) {rest : List Char}
    (hrest : rest.head? ≠ some close) :
    tidied (some close) word (close :: rest) = close :: tidied none word rest := by
  have hfrom := (tidyFrom_done rest).1
  unfold tidied at hfrom ⊢
  simp only [tidyFrom, if_true]
  rw [if_neg hrest]
  exact hfrom none word [close]

/-- The quotes: the character that opens quoted text and the one that closes it. -/
def quotePairs : List (Char × Char) := [('[', ']'), ('"', '"'), ('\x60', '\x60'), ('\'', '\'')]

theorem closingQuote?_eq_some_iff {c close : Char} :
    closingQuote? c = some close ↔ (c, close) ∈ quotePairs := by
  constructor
  · intro h
    unfold closingQuote? at h
    split at h
    · next hc =>
      cases h
      simp [quotePairs, hc]
    · split at h
      · next hc =>
        cases h
        rcases hc with rfl | rfl | rfl <;> simp [quotePairs]
      · cases h
  · have hall : ∀ x ∈ quotePairs, closingQuote? x.1 = some x.2 := by decide
    exact fun h => hall _ h

/-- Tidying keeps an opening quote, and no word goes on behind it. -/
theorem tidied_opening {c close : Char} (h : closingQuote? c = some close) (word rest : List Char) :
    tidied none word (c :: rest) = c :: tidied (some close) [] rest := by
  have hplain : isWordChar c = false ∧ c ≠ ' ' := by
    have hall : ∀ x ∈ quotePairs, isWordChar x.1 = false ∧ x.1 ≠ ' ' := by decide
    exact hall _ (closingQuote?_eq_some_iff.mp h)
  have hfrom := (tidyFrom_done rest).1
  unfold tidied at hfrom ⊢
  rw [tidyFrom]
  simp only [hplain.1, Bool.false_eq_true, if_false]
  rw [if_neg (by simp [dropsBlank, hplain.2]), h]
  exact hfrom (some close) [] [c]

/-- Tidying leaves quoted text alone, whichever quotes it has. -/
theorem tidied_quoted {c close : Char} (h : closingQuote? c = some close) (word n : List Char)
    {rest : List Char} (hrest : rest.head? ≠ some close) :
    tidied none word (c :: (n.flatMap (quoteChar close) ++ close :: rest)) =
      c :: (n.flatMap (quoteChar close) ++ close :: tidied none [] rest) := by
  rw [tidied_opening h, tidied_escaped, tidied_closing [] hrest]

/-- Tidying leaves a quoted name alone. -/
theorem tidied_name {d : Dialect} (word n : List Char) {rest : List Char}
    (hrest : rest.head? ≠ some d.closeQuote) :
    tidied none word (quoteChars d n ++ rest) = quoteChars d n ++ tidied none [] rest := by
  have hopen : closingQuote? d.openQuote = some d.closeQuote := by cases d <;> decide
  have hquoted := tidied_quoted hopen word n hrest
  simpa [quoteChars] using hquoted

theorem closingQuote?_of_notMem {c : Char} (h : c ∉ ['[', '\'', '"', '\x60']) :
    closingQuote? c = none := by
  simp only [List.mem_cons, List.not_mem_nil, or_false, not_or] at h
  simp [closingQuote?, h]

/-- Tidying leaves the name of a parameter alone. -/
theorem tidied_letters {n : List Char} (hn : ∀ c ∈ n, isNameChar c = true) (word rest : List Char) :
    ∃ word', tidied none word (n ++ rest) = n ++ tidied none word' rest := by
  induction n generalizing word with
  | nil => exact ⟨word, rfl⟩
  | cons c n ih =>
    obtain ⟨hc, hn⟩ := List.forall_mem_cons.mp hn
    have hquote : closingQuote? c = none := closingQuote?_of_notMem (notMem_of_class (by decide) hc)
    rcases tidied_cons word c (n ++ rest) hquote with ⟨word', h⟩ | ⟨rfl, -⟩
    · obtain ⟨word'', ih⟩ := ih hn word'
      exact ⟨word'', by rw [List.cons_append, h, ih, List.cons_append]⟩
    · exact absurd hc (by decide)

/-- Tidying leaves a placeholder alone. -/
theorem tidied_placeholder {n : List Char} (hn : ∀ c ∈ n, isNameChar c = true)
    (word rest : List Char) :
    ∃ word', tidied none word ('@' :: n ++ rest) = '@' :: n ++ tidied none word' rest := by
  rcases tidied_cons word '@' (n ++ rest) (by decide) with ⟨word', h⟩ | ⟨h, -⟩
  · obtain ⟨word'', h'⟩ := tidied_letters hn word' rest
    exact ⟨word'', by rw [List.cons_append, h, h', List.cons_append]⟩
  · cases h

/-! ### Tokens -/

variable {d : Dialect}

/-- The text lets a pending token end. -/
def Pending.EndsBefore (d : Dialect) (p : Pending) (s : List Char) : Prop :=
  ∀ c, s.head? = some c → p.extend d c = none

theorem Pending.Fits.endsBefore {p : Pending} {m b : Side} {fs : Fragments} (hp : p.Fits d m)
    (h : Spaced m fs b) : p.EndsBefore d (fs.render d) := by
  intro c hc
  cases m with
  | loose => exact hp c
  | tight =>
    cases h with
    | nil => cases hc
    | @text _ _ _ s fs _ start =>
      have hstart : s.toList.head?.any isSeparator = true := start rfl
      rw [Fragments.render, List.flatMap_cons, Fragment.render, List.head?_append] at hc
      cases hs : s.toList.head? with
      | none =>
        rw [hs] at hstart
        cases hstart
      | some x =>
        rw [hs] at hstart hc
        obtain rfl : x = c := by simpa using hc
        exact hp x hstart

/-- No closing quote comes behind a name. -/
theorem Spaced.head?_ne_closeQuote {b : Side} {fs : Fragments} (h : Spaced .tight fs b) :
    (fs.render d).head? ≠ some d.closeQuote := by
  intro hc
  have hnone := (Pending.fits_closing (d := d) []).endsBefore h d.closeQuote hc
  simp [Pending.extend] at hnone

/-- Tidying a text behind a token changes no token. -/
def TidyKeeps (d : Dialect) (s : List Char) : Prop :=
  ∀ (p : Pending) (word : List Char), p.EndsBefore d s →
    lexFrom d p (tidied none word s) = lexFrom d p s

theorem next_ne_name {p : Pending} (hp : ∀ s, p ≠ .name s) {c : Char} (hc : isPlain c = true)
    (s : List Char) : p.next d c ≠ .name s := by
  have hopen : c ≠ d.openQuote := by
    rintro rfl
    cases d <;> exact absurd hc (by decide)
  have hclose : c ≠ d.closeQuote := by
    rintro rfl
    cases d <;> exact absurd hc (by decide)
  have hstart : Pending.start d c ≠ .name s := by
    unfold Pending.start
    rw [if_neg hopen]
    split
    · simp
    · split
      · simp
      · split <;> simp
  cases p with
  | idle => exact hstart
  | word t | sign t | placeholder t =>
    simp only [Pending.next, Pending.extend]
    split
    · simp
    · exact hstart
  | closing t =>
    simp only [Pending.next, Pending.extend, if_neg hclose]
    exact hstart
  | name t => exact absurd rfl (hp t)

theorem closingQuote?_of_isPlain {c : Char} (hc : isPlain c = true) : closingQuote? c = none :=
  closingQuote?_of_notMem (notMem_of_class (by decide) hc)

/-- A blank in front of a bracket changes no token. -/
theorem lexFrom_blank {p : Pending} (hp : ∀ s, p ≠ .name s) {s : List Char}
    (hs : s.head? = some '(') : lexFrom d p (' ' :: s) = lexFrom d p s := by
  obtain ⟨t, rfl⟩ : ∃ t, s = '(' :: t := by
    cases s with
    | nil => cases hs
    | cons c t => exact ⟨t, by simpa using hs⟩
  have hstart : Pending.start d ' ' = .idle := by cases d <;> decide
  rw [lexFrom_of_extend_none (extend_separator hp (by decide)),
    lexFrom_of_extend_none (extend_separator hp (by decide)), lex, lexFrom]
  simp only [Pending.extend, hstart]
  rfl

/-- Tidying plain text changes no token, if tidying what follows does not. -/
theorem lexFrom_tidied_text {s t : List Char} (hs : s.all isPlain = true) (ht : TidyKeeps d t)
    {p : Pending} (hp : ∀ s, p ≠ .name s) (word : List Char)
    (hend : (p.after d s).EndsBefore d t) :
    lexFrom d p (tidied none word (s ++ t)) = lexFrom d p (s ++ t) := by
  induction s generalizing p word with
  | nil => exact ht p word hend
  | cons c s ih =>
    simp only [List.all_cons, Bool.and_eq_true] at hs
    have hnext := ih hs.2 (next_ne_name (d := d) hp hs.1)
    rcases tidied_cons word c (s ++ t) (closingQuote?_of_isPlain hs.1) with
      ⟨word', h⟩ | ⟨rfl, hopen, h⟩
    · rw [List.cons_append, h, lexFrom, lexFrom]
      cases hc : p.extend d c with
      | some q =>
        have hq : p.next d c = q := by rw [Pending.next, hc, Option.getD_some]
        rw [← hq]
        exact hnext word' hend
      | none =>
        have hq : p.next d c = .start d c := by rw [Pending.next, hc, Option.getD_none]
        rw [← hq]
        exact congrArg _ (hnext word' hend)
    · -- the dropped blank: what is pending in front of the bracket does not matter
      rw [List.cons_append, h, lexFrom_blank hp hopen]
      refine ih hs.2 hp [] ?_
      cases s with
      | nil =>
        intro x hx
        rw [List.nil_append] at hopen
        rw [hopen] at hx
        cases hx
        exact extend_separator hp (by decide)
      | cons x s =>
        obtain rfl : x = '(' := by simpa using hopen
        have hp' : p.next d '(' = .start d '(' := by
          rw [Pending.next, extend_separator hp (by decide), Option.getD_none]
        have hblank : (p.next d ' ').next d '(' = .start d '(' := by
          rw [Pending.next, extend_separator (next_ne_name hp (by decide)) (by decide),
            Option.getD_none]
        simp only [Pending.after, List.foldl_cons, hp', hblank] at hend ⊢
        exact hend

/-- Behind a character that ends a token, only the characters from there on count. -/
theorem after_of_extend_none {p : Pending} {c : Char} (hc : p.extend d c = none) (cs : List Char) :
    p.after d (c :: cs) = Pending.idle.after d (c :: cs) := by
  have hidle : Pending.idle.extend d c = none := rfl
  simp only [Pending.after, List.foldl_cons, Pending.next, hc, hidle]

/-- Tidying spaced fragments changes no token. -/
theorem tidyKeeps_render {a b : Side} {fs : Fragments} (h : Spaced a fs b) (hl : fs.Legible) :
    TidyKeeps d (fs.render d) := by
  induction h with
  | nil => exact fun p word _ => rfl
  | @text a m b s fs plain start stop rest ih =>
    intro p word hend
    rw [Fragments.render_cons, Fragment.render] at hend ⊢
    cases hs : s.toList with
    | nil =>
      rw [hs] at hend
      exact ih hl p word hend
    | cons c cs =>
      rw [hs, List.cons_append] at hend
      have hc : p.extend d c = none := hend c rfl
      have hout : ∀ s, p ≠ .name s := by
        rintro s rfl
        cases hc
      have hfits : (Pending.idle.after d (c :: cs)).Fits d m := by
        rw [← hs]
        exact fits_after_text plain stop
      rw [hs] at plain
      refine lexFrom_tidied_text plain (ih hl) hout word ?_
      rw [after_of_extend_none hc]
      exact hfits.endsBefore rest
  | @name b n fs rest ih =>
    intro p word hend
    rw [Fragments.render_cons, Fragment.render] at hend ⊢
    have hfits : (Pending.closing n.toList).Fits d .tight := Pending.fits_closing n.toList
    have hopen : p.extend d d.openQuote = none := hend _ rfl
    rw [tidied_name word n.toList rest.head?_ne_closeQuote, lexFrom_quoteChars hopen, lexFrom_quoteChars hopen,
      ih hl _ [] (hfits.endsBefore rest)]
  | @placeholder b q fs rest ih =>
    obtain ⟨letters, hl⟩ := List.forall_mem_cons.mp hl
    intro p word hend
    rw [Fragments.render_cons, Fragment.render] at hend ⊢
    have hfits : (Pending.placeholder q.toList).Fits d .tight :=
      Pending.fits_placeholder q.toList
    have hat : p.extend d '@' = none := hend _ rfl
    obtain ⟨word', h⟩ := tidied_placeholder letters word (fs.render d)
    rw [h, lexFrom_at hat letters, lexFrom_at hat letters, ih hl _ word' (hfits.endsBefore rest)]

/-- **Tidying changes no token** of spaced fragments. -/
theorem lex_tidyChars {a b : Side} {fs : Fragments} (h : Spaced a fs b) (hl : fs.Legible) :
    lex d (tidyChars (fs.render d)) = lex d (fs.render d) :=
  tidyKeeps_render h hl .idle [] fun _ _ => rfl

/-- The placeholders of a tidied text are those of its fragments. -/
theorem placeholders_tidyChars {a b : Side} {fs : Fragments} (h : Spaced a fs b)
    (hl : fs.Legible) :
    placeholdersIn d (String.ofList (tidyChars (fs.render d))) = fs.placeholders := by
  rw [placeholdersIn, String.toList_ofList, lex_tidyChars h hl, placeholders_render h hl]

end EntitySql.Sql
