import EntitySql.Proofs.Sql.Token

/-!
# Fragments are read as they were put together

A statement is put together from fragments, but a database sees only its characters. The fragments
are `Spaced` if no two of them run together: behind a name or a placeholder comes text that starts
with a separator, text in front of one ends with a separator, and the text of the builder has no
quotes and no at signs of its own. **`lex_render`** says that the tokens of spaced fragments are those
of the fragments, one after the other: every name is read as itself, and a placeholder is read
exactly where a placeholder was put.
-/

namespace EntitySql.Sql

/-! ### Placeholders -/

/-- The parameter of a placeholder. -/
def Fragment.placeholder? : Fragment → Option String
  | .placeholder p => some p
  | _ => none

/-- The parameters of the placeholders among fragments, in their order. -/
def Fragments.placeholders (fs : Fragments) : List String := fs.filterMap Fragment.placeholder?

@[simp] theorem Fragments.placeholders_append (fs gs : Fragments) :
    Fragments.placeholders (fs ++ gs) = fs.placeholders ++ Fragments.placeholders gs :=
  List.filterMap_append

@[simp] theorem Fragments.placeholders_nil : Fragments.placeholders [] = [] := rfl

@[simp] theorem Fragments.placeholders_text (s : String) (fs : Fragments) :
    Fragments.placeholders (.text s :: fs) = fs.placeholders := rfl

@[simp] theorem Fragments.placeholders_name (n : String) (fs : Fragments) :
    Fragments.placeholders (.name n :: fs) = fs.placeholders := rfl

@[simp] theorem Fragments.placeholders_placeholder (p : String) (fs : Fragments) :
    Fragments.placeholders (.placeholder p :: fs) = p :: fs.placeholders := rfl

/-- The placeholders are plain names. -/
def Fragments.Legible (fs : Fragments) : Prop :=
  ∀ p ∈ fs.placeholders, ∀ c ∈ p.toList, isNameChar c = true

/-! ### Separators -/

/-- A character that is a token, or a blank, on its own. -/
def isSeparator (c : Char) : Bool := " ().,;".toList.contains c

/-- A character that text of the builder may have. -/
def isPlain (c : Char) : Bool := !"@['\"]\x60".toList.contains c

/-- Whether text starts with a separator. -/
def startsApart (s : String) : Bool := s.toList.head?.any isSeparator

/-- Whether text ends with a separator. -/
def endsApart (s : String) : Bool := s.toList.getLast?.any isSeparator

/-- What may follow at a point of a statement: anything, or only a separator. -/
inductive Side where
  | loose
  | tight
deriving DecidableEq

/-- Fragments no two of which run together, between two sides. -/
inductive Spaced : Side → Fragments → Side → Prop
  | nil {a b : Side} (h : a = .tight → b = .tight) : Spaced a [] b
  | text {a m b : Side} {s : String} {fs : Fragments} (plain : s.toList.all isPlain)
      (start : a = .tight → startsApart s) (stop : m = .loose → endsApart s)
      (rest : Spaced m fs b) : Spaced a (.text s :: fs) b
  | name {b : Side} {n : String} {fs : Fragments} (rest : Spaced .tight fs b) :
      Spaced .loose (.name n :: fs) b
  | placeholder {b : Side} {p : String} {fs : Fragments} (rest : Spaced .tight fs b) :
      Spaced .loose (.placeholder p :: fs) b

namespace Spaced

variable {a b m : Side} {fs gs : Fragments}

theorem loosen (h : Spaced .tight fs b) : Spaced a fs b := by
  cases h with
  | nil h => exact .nil fun _ => h rfl
  | text plain start stop rest => exact .text plain (fun _ => start rfl) stop rest

theorem append (h : Spaced a fs m) (h' : Spaced m gs b) : Spaced a (fs ++ gs) b := by
  induction h with
  | @nil x y h =>
    cases y with
    | loose =>
      cases x with
      | loose => exact h'
      | tight => cases h rfl
    | tight => exact h'.loosen
  | text plain start stop _ ih => exact .text plain start stop (ih h')
  | name _ ih => exact .name (ih h')
  | placeholder _ ih => exact .placeholder (ih h')

/-- A single name. -/
theorem one (n : String) : Spaced .loose [.name n] .tight := .name (.nil id)

end Spaced

/-! ### Reading -/

/-- The tokens of a fragment on its own. -/
def Fragment.tokens (d : Dialect) : Fragment → List Token
  | .text s => lex d s.toList
  | .name n => [.name n]
  | .placeholder p => [.placeholder p]

/-- Whether a pending token lets any fragment follow, or only a separator. -/
def Pending.Fits (d : Dialect) (p : Pending) : Side → Prop
  | .loose => ∀ c, p.extend d c = none
  | .tight => ∀ c, isSeparator c → p.extend d c = none

variable {d : Dialect}

theorem not_isNameChar_of_isSeparator {c : Char} (h : isSeparator c = true) :
    isNameChar c = false := by
  have hall : ∀ c ∈ " ().,;".toList, isNameChar c = false :=
    List.all_iff_forall_prop.mp (by decide)
  exact hall c (List.contains_iff_mem.mp h)

theorem ne_closeQuote_of_isSeparator {c : Char} (h : isSeparator c = true) : c ≠ d.closeQuote := by
  have hall : ∀ c ∈ " ().,;".toList, c ≠ d.closeQuote := by
    cases d <;> exact List.all_iff_forall_prop.mp (by decide)
  exact hall c (List.contains_iff_mem.mp h)

theorem not_isPair_of_isSeparator {c : Char} (h : isSeparator c = true) (s : List Char) :
    signPairs.contains (s ++ [c]) = false := by
  have hall : ∀ c ∈ " ().,;".toList, c ∉ "<>=".toList :=
    List.all_iff_forall_prop.mp (by decide)
  have hc := hall c (List.contains_iff_mem.mp h)
  rw [Bool.eq_false_iff]
  intro hp
  have hlast : ∀ x ∈ signPairs, x.getLast? ∈ "<>=".toList.map some := by decide
  have hx := hlast _ (List.contains_iff_mem.mp hp)
  rw [List.getLast?_concat] at hx
  obtain ⟨y, hy, heq⟩ := List.mem_map.mp hx
  cases heq
  exact hc hy

/-- A separator belongs to no pending token but a name in quotes. -/
theorem extend_separator {p : Pending} (hp : ∀ s, p ≠ .name s) {c : Char}
    (hc : isSeparator c = true) : p.extend d c = none := by
  cases p with
  | idle => rfl
  | word s => simp [Pending.extend, not_isNameChar_of_isSeparator hc]
  | sign s => simp [Pending.extend, not_isPair_of_isSeparator hc, -List.contains_eq_mem]
  | placeholder s => simp [Pending.extend, not_isNameChar_of_isSeparator hc]
  | name s => exact absurd rfl (hp s)
  | closing s => simp [Pending.extend, ne_closeQuote_of_isSeparator hc]

/-- A separator may follow everything but the inside of a name. -/
theorem Pending.fits_tight {p : Pending} (hp : ∀ s, p ≠ .name s) : p.Fits d .tight :=
  fun _ hc => extend_separator hp hc

theorem Pending.fits_closing (s : List Char) : (Pending.closing s).Fits d .tight :=
  fits_tight fun t h => by cases h

theorem Pending.fits_placeholder (s : List Char) : (Pending.placeholder s).Fits d .tight :=
  fits_tight fun t h => by cases h

/-- Nothing belongs to the token that a separator starts. -/
theorem extend_start_separator {c : Char} (hc : isSeparator c = true) (x : Char) :
    (Pending.start d c).extend d x = none := by
  have hall : ∀ c ∈ " ().,;".toList, Pending.start d c = .idle ∨
      Pending.start d c = .sign [c] ∧ ∀ t ∈ signPairs, t.head? ≠ some c := by
    cases d <;> exact List.all_iff_forall_prop.mp (by decide)
  rcases hall c (List.contains_iff_mem.mp hc) with h | ⟨h, hpairs⟩
  · rw [h]
    rfl
  · rw [h, Pending.extend, if_neg]
    intro hmem
    exact hpairs _ (List.contains_iff_mem.mp hmem) rfl

/-- A token outside of quotes. -/
def Pending.IsPlain : Pending → Prop
  | .idle | .word _ | .sign _ => True
  | _ => False

theorem isPlain_next {p : Pending} (hp : p.IsPlain) {c : Char} (hc : isPlain c = true) :
    (p.next d c).IsPlain := by
  have hquote : c ≠ d.openQuote := by
    rintro rfl
    cases d <;> exact absurd hc (by decide)
  have hat : c ≠ '@' := by
    rintro rfl
    exact absurd hc (by decide)
  have hstart : (Pending.start d c).IsPlain := by
    unfold Pending.start
    rw [if_neg hquote, if_neg hat]
    split
    · trivial
    · split <;> trivial
  cases p with
  | idle => exact hstart
  | word s | sign s =>
    simp only [Pending.next, Pending.extend]
    split
    · trivial
    · exact hstart
  | placeholder s | name s | closing s => cases hp

theorem isPlain_after {p : Pending} (hp : p.IsPlain) {s : List Char}
    (hs : s.all isPlain = true) : (p.after d s).IsPlain := by
  induction s generalizing p with
  | nil => exact hp
  | cons c s ih =>
    simp only [List.all_cons, Bool.and_eq_true] at hs
    exact ih (isPlain_next hp hs.1) hs.2

theorem Pending.IsPlain.ne_name {p : Pending} (hp : p.IsPlain) (s : List Char) : p ≠ .name s := by
  rintro rfl
  exact hp

theorem idle_isPlain : Pending.idle.IsPlain := trivial

/-- What is pending after text fits what follows. -/
theorem fits_after_text {s : List Char} {m : Side} (hs : s.all isPlain = true)
    (stop : m = .loose → s.getLast?.any isSeparator = true) :
    (Pending.idle.after d s).Fits d m := by
  cases m with
  | tight => exact Pending.fits_tight (isPlain_after idle_isPlain hs).ne_name
  | loose =>
    obtain ⟨c, hc⟩ : ∃ c, s.getLast? = some c ∧ isSeparator c = true := by
      simpa [Option.any_eq_true] using stop rfl
    obtain ⟨t, rfl⟩ : ∃ t, s = t ++ [c] := List.getLast?_eq_some_iff.mp hc.1
    have ht : t.all isPlain = true := by
      simp only [List.all_append, Bool.and_eq_true] at hs
      exact hs.1
    have hextend : (Pending.idle.after d t).extend d c = none :=
      extend_separator (isPlain_after idle_isPlain ht).ne_name hc.2
    intro x
    rw [Pending.after, List.foldl_append, List.foldl_cons, List.foldl_nil, Pending.next,
      ← Pending.after, hextend]
    exact extend_start_separator hc.2 x

theorem Fragments.render_cons (f : Fragment) (fs : Fragments) :
    Fragments.render d (f :: fs) = f.render d ++ fs.render d :=
  List.flatMap_cons ..

theorem lexFrom_render {a b : Side} {fs : Fragments} (h : Spaced a fs b) (hl : fs.Legible)
    {p : Pending} (hp : p.Fits d a) :
    lexFrom d p (fs.render d) = p.token ++ fs.flatMap (Fragment.tokens d) := by
  induction h generalizing p with
  | nil => simp [Fragments.render, lexFrom]
  | @text a m b s fs plain start stop _ ih =>
    obtain ⟨ts, hs, ht⟩ := lexFrom_append (d := d) .idle s.toList
    have hrest := ih hl (fits_after_text plain stop)
    have htext : lex d (s.toList ++ fs.render d) =
        lex d s.toList ++ fs.flatMap (Fragment.tokens d) := by
      rw [lex, lex, ht, hrest, hs, List.append_assoc]
    have hfirst : lexFrom d p (s.toList ++ fs.render d) =
        p.token ++ lex d (s.toList ++ fs.render d) := by
      cases hc : s.toList with
      | nil =>
        have hm : a = .loose ∧ m = .tight := by
          cases a <;> cases m <;> simp_all [startsApart, endsApart]
        obtain ⟨rfl, rfl⟩ := hm
        have hnone := ih hl (p := p) fun c _ => hp c
        have hidle := ih hl (p := .idle) fun _ _ => rfl
        rw [List.nil_append, lex, hnone, hidle]
        rfl
      | cons c rest =>
        refine lexFrom_of_extend_none ?_ _
        cases a with
        | loose => exact hp c
        | tight => exact hp c (by simpa [startsApart, hc] using start rfl)
    rw [Fragments.render_cons, Fragment.render, hfirst, htext]
    rfl
  | @name b n fs _ ih =>
    rw [Fragments.render_cons, Fragment.render, lexFrom_quoteChars (hp _),
      ih hl (Pending.fits_closing n.toList)]
    simp [Pending.token, Fragment.tokens]
  | @placeholder b q fs _ ih =>
    obtain ⟨letters, hl⟩ := List.forall_mem_cons.mp hl
    rw [Fragments.render_cons, Fragment.render, lexFrom_at (hp _) letters,
      ih hl (Pending.fits_placeholder q.toList)]
    simp [Pending.token, Fragment.tokens]

/-- **The tokens of spaced fragments are those of the fragments**, one after the other. -/
theorem lex_render {a b : Side} {fs : Fragments} (h : Spaced a fs b) (hl : fs.Legible) :
    lex d (fs.render d) = fs.flatMap (Fragment.tokens d) := by
  have hidle : Pending.idle.Fits d a := by
    cases a with
    | loose => exact fun _ => rfl
    | tight => exact fun _ _ => rfl
  exact lexFrom_render h hl hidle

/-- Plain text is words and signs. -/
theorem mem_lexFrom_plain {p : Pending} (hp : p.IsPlain) {s : List Char}
    (hs : s.all isPlain = true) :
    ∀ t ∈ lexFrom d p s, (∃ w, t = .word w) ∨ ∃ w, t = .sign w := by
  have htoken : ∀ p : Pending, p.IsPlain → ∀ t ∈ p.token,
      (∃ w, t = .word w) ∨ ∃ w, t = .sign w := by
    intro p hp t ht
    cases p with
    | idle => cases ht
    | word => exact .inl ⟨_, List.mem_singleton.mp ht⟩
    | sign => exact .inr ⟨_, List.mem_singleton.mp ht⟩
    | _ => cases hp
  induction s generalizing p with
  | nil => exact htoken p hp
  | cons c s ih =>
    simp only [List.all_cons, Bool.and_eq_true] at hs
    have hrest := ih (isPlain_next (d := d) hp hs.1) hs.2
    rw [lexFrom]
    cases hc : p.extend d c with
    | some q =>
      rw [Pending.next, hc] at hrest
      exact hrest
    | none =>
      rw [Pending.next, hc] at hrest
      exact List.forall_mem_append.mpr ⟨htoken p hp, hrest⟩

theorem lexFrom_plain {p : Pending} (hp : p.IsPlain) {s : List Char} (hs : s.all isPlain = true) :
    (lexFrom d p s).filterMap Token.placeholder? = [] := by
  refine List.filterMap_eq_nil_iff.mpr fun t ht => ?_
  obtain ⟨w, rfl⟩ | ⟨w, rfl⟩ := mem_lexFrom_plain hp hs t ht
  · rfl
  · rfl

/-- **The placeholders of spaced fragments are read exactly where they were put.** -/
theorem placeholders_render {a b : Side} {fs : Fragments} (h : Spaced a fs b) (hl : fs.Legible) :
    (lex d (fs.render d)).filterMap Token.placeholder? = fs.placeholders := by
  rw [lex_render h hl]
  clear hl
  induction h with
  | nil => rfl
  | text plain _ _ _ ih =>
    rw [List.flatMap_cons, List.filterMap_append, ih]
    simp [Fragment.tokens, lex, lexFrom_plain idle_isPlain plain]
  | name _ ih => exact ih
  | placeholder _ ih =>
    rw [List.flatMap_cons, List.filterMap_append, ih]
    rfl

end EntitySql.Sql
