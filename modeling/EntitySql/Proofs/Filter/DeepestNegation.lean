import EntitySql.Proofs.Filter.NegationDepth
import Mathlib.Algebra.Order.BigOperators.Group.Finset

/-!
# The deepest negations of a filter

The scan counts the negations right before a place together with the brackets around it, and forgets the
negations that stand before those brackets. So every pair of brackets can have as many negations before
what is in it as the scan leaves for that depth, and all of them are around one another in the filter that
is read (`nested`).

**`negationDepth_isGreatest`**: the bound of `negationDepth_read` is reached for every depth of brackets.
A filter without brackets nests at most `maxNesting` negations. With one pair it can be 255 already, and
the deepest filter that is read nests the negations of all 129 depths, 8256 of them.
-/

namespace EntitySql.Filter

/-! ### Runs of negations -/

section Reading

variable {l : Level} {e : Expect} {cs rest : List Char} {u : Term}

theorem head?_bangs (hrest : rest.head? ≠ some '=') (k : Nat) :
    (List.replicate k '!' ++ rest).head? ≠ some '=' := by
  cases k with
  | zero => exact hrest
  | succ k => exact fun h => by cases h

/-- A run of negations before an operand. -/
theorem reads_bangs (stack : List Frame) (hcomparison : l.comparison = none)
    (hfallback : l.fallback = none) (he : AtOperand e) (hrest : rest.head? ≠ some '=') (k : Nat) :
    ∃ e', AtOperand e' ∧ Reads ⟨stack, l, e⟩ (List.replicate k '!') rest
      ⟨stack, { l with negations := l.negations + k }, e'⟩ := by
  induction k generalizing l e with
  | zero => exact ⟨e, he, fun limit hlimit => ⟨limit, hlimit, rfl⟩⟩
  | succ k ih =>
    have hbang : Reads ⟨stack, l, e⟩ ['!'] (List.replicate k '!' ++ rest)
        ⟨stack, { l with negations := l.negations + 1 }, .operand⟩ := by
      refine .token (isToken_bang (head?_bangs hrest k)) ?_
      rw [he.advance (fun _ => Token.noConfusion) Token.noConfusion]
      simp [State.operand, Level.atUnary, hcomparison, hfallback]
    obtain ⟨e', he', hbangs⟩ := ih (l := { l with negations := l.negations + 1 }) hcomparison
      hfallback .operand
    refine ⟨e', he', ?_⟩
    rw [Nat.add_right_comm, Nat.add_assoc] at hbangs
    exact hbang.trans hbangs

/-- Negations before a term. -/
theorem ReadsTerm.negations (h : ReadsTerm cs u) (hne : cs ≠ []) (hcs : cs.head? ≠ some '=')
    (k : Nat) : ReadsFilter (List.replicate k '!' ++ cs) (Nat.repeat .not k u) := by
  intro stack l e rest he hclean hrest
  have hhead : (cs ++ rest).head? ≠ some '=' := by
    rwa [List.head?_append_of_ne_nil _ hne]
  obtain ⟨e', he', hbangs⟩ := reads_bangs stack hclean.comparison hclean.fallback he hhead k
  obtain ⟨e'', hpending, hterm⟩ := h stack { l with negations := l.negations + k } e' rest he' hrest
  refine ⟨{ l with negations := l.negations + k }, e'', u, hpending, rfl, rfl, ?_,
    hbangs.trans hterm⟩
  simp [Level.unaryTerm, Level.operandTerm, hclean.comparison, hclean.fallback, hclean.negations]

end Reading

/-! ### Negations before nested brackets -/

/-- Negations of a property, which is asked for inside of `n` calls; `d` brackets are open already.
Everywhere stand as many negations as the scan lets pass. -/
def nested (d : Nat) : Nat → List Char
  | 0 => List.replicate (maxNesting - d) '!' ++ "x.A".toList
  | n + 1 =>
    List.replicate (maxNesting - d) '!' ++
      ("x.A".toList ++ ('.' :: "Any".toList ++ ('(' :: (nested (d + 1) n ++ [')']))))

/-- The property that is asked for. -/
def property : Term := .access (.identifier "x") "A"

/-- What the text spells. -/
def nestedTerm (d : Nat) : Nat → Term
  | 0 => Nat.repeat .not (maxNesting - d) property
  | n + 1 => Nat.repeat .not (maxNesting - d) (.call property "Any" [nestedTerm (d + 1) n])

theorem readsFilter_nested (d n : Nat) : ReadsFilter (nested d n) (nestedTerm d n) := by
  have hx : ReadsTerm "x".toList (.identifier "x") := readsTerm_word isIdentifier_x
  have hA : IsIdentifier "A" := .of_all rfl (by decide) (by decide)
  have hproperty : ReadsTerm "x.A".toList property := readsTerm_access hA hx
  induction n generalizing d with
  | zero => exact hproperty.negations (List.cons_ne_nil _ _) (by simp) _
  | succ n ih =>
    have hAny : IsIdentifier "Any" := isIdentifier_method .any
    have hcall := hproperty.call hAny (.inr (ih (d + 1)).argument.last)
    exact hcall.negations (List.cons_ne_nil _ _) (by simp) _

theorem negationDepth_nestedTerm (d n : Nat) :
    (nestedTerm d n).negationDepth = negationBound (d + n) d := by
  induction n generalizing d with
  | zero =>
    rw [nestedTerm, Term.negationDepth_repeat, negationBound_eq (Nat.le_add_right d 0)]
    simp [property, Term.negationDepth, negationBound]
  | succ n ih =>
    rw [nestedTerm, Term.negationDepth_repeat, negationBound_eq (Nat.le_add_right d (n + 1)),
      ← Nat.add_assoc, Nat.add_right_comm, ← ih (d + 1)]
    simp [property, Term.negationDepth, Term.negationDepthOf]

/-! ### Resolving -/

theorem resolve_repeat_not {t : Term} {e : Expr} {root : Option String} {scope : List String}
    (h : t.resolve root scope = .ok e) (k : Nat) :
    ∃ e', (Nat.repeat Term.not k t).resolve root scope = .ok e' := by
  induction k with
  | zero => exact ⟨e, h⟩
  | succ k ih =>
    obtain ⟨e', he'⟩ := ih
    exact ⟨.not e', bind_eq_ok_iff.mpr ⟨e', he', rfl⟩⟩

theorem resolve_nestedTerm (d n : Nat) :
    ∃ e, (nestedTerm d n).resolve (some "x") [] = .ok e := by
  have hproperty : property.resolve (some "x") [] = .ok (.member "A") := rfl
  induction n generalizing d with
  | zero => exact resolve_repeat_not hproperty _
  | succ n ih =>
    obtain ⟨e, he⟩ := ih (d + 1)
    have hcall : (Term.call property "Any" [nestedTerm (d + 1) n]).resolve (some "x") [] =
        .ok (.call .any (.member "A") [e]) := by
      have hmethod : Method.ofName? "Any" = some .any := rfl
      simp only [Term.resolve, hmethod, hproperty, Term.resolveAll, he]
      rfl
    exact resolve_repeat_not hcall _

/-! ### The scan -/

/-- A run of negations is counted. -/
theorem scanNesting_bangs {s : NestingState} {k : Nat}
    (hs : s.depth + (s.negations + k) ≤ maxNesting) {rest : List Char}
    (hrest : rest.head? ≠ some '=') :
    ∃ s' : NestingState, s'.depth = s.depth ∧ s'.negations = s.negations + k ∧
      (scanNesting s (List.replicate k '!' ++ rest) = none ↔ scanNesting s' rest = none) := by
  induction k generalizing s with
  | zero => exact ⟨s, rfl, rfl, Iff.rfl⟩
  | succ k ih =>
    have hcount := s.count_bang (head?_bangs hrest k)
    have hbound : s.depth + (s.negations + 1) ≤ maxNesting := by omega
    have hmore : s.depth + (s.negations + 1 + k) ≤ maxNesting := by omega
    obtain ⟨s', hdepth, hnegations, hscan⟩ :=
      ih (s := NestingState.pass { s with negations := s.negations + 1 } '!') hmore
    refine ⟨s', hdepth, ?_, ?_⟩
    · rw [hnegations]
      exact Nat.add_right_comm _ _ _
    · rw [List.replicate_succ, List.cons_append, scanNesting_cons_iff (by decide), hcount, ← hscan]
      exact and_iff_right hbound

/-- A word ends a run of negations. -/
theorem scanNesting_word {s : NestingState} (hs : s.depth + s.negations ≤ maxNesting) {c : Char}
    (cs : List Char) (hc : Text.isBlank c = false) (hcs : ∀ d ∈ c :: cs, d ∉ nestingSigns)
    (rest : List Char) :
    ∃ s' : NestingState, s'.depth = s.depth ∧ s'.negations = 0 ∧
      (scanNesting s (c :: cs ++ rest) = none ↔ scanNesting s' rest = none) := by
  obtain ⟨hsign, hcs⟩ := List.forall_mem_cons.mp hcs
  have hreset : (s.pass c).negations = 0 := by
    have hbang : c ≠ '!' := by
      rintro rfl
      exact hsign (by decide)
    simp [NestingState.pass, hc, hbang]
  have hbound : (s.pass c).depth + (s.pass c).negations ≤ maxNesting := by
    rw [hreset]
    exact le_trans (Nat.le_add_right _ _) hs
  obtain ⟨s', hdepth, hnegations, hscan⟩ := scanNesting_plain hbound hcs rest
  refine ⟨s', hdepth, Nat.le_zero.mp (hreset ▸ hnegations), ?_⟩
  rw [List.cons_append, scanNesting_cons_iff (ne_quote_of_notMem hsign), s.count_of_notMem hsign,
    and_iff_right hs, hscan]

/-- As many negations as the scan lets pass, and a word behind them. -/
theorem scanNesting_bangs_word {d : Nat} (hd : d ≤ maxNesting) {s : NestingState}
    (hdepth : s.depth = d) (hnegations : s.negations = 0) (cs : List Char)
    (hcs : ∀ c ∈ 'x' :: cs, c ∉ nestingSigns) (rest : List Char) :
    ∃ s' : NestingState, s'.depth = d ∧ s'.negations = 0 ∧
      (scanNesting s (List.replicate (maxNesting - d) '!' ++ ('x' :: cs ++ rest)) = none ↔
        scanNesting s' rest = none) := by
  have hs : s.depth + (s.negations + (maxNesting - d)) ≤ maxNesting := by omega
  have hx : ('x' :: cs ++ rest).head? ≠ some '=' := by simp
  obtain ⟨s₁, hdepth₁, hnegations₁, hbangs⟩ := scanNesting_bangs hs hx
  have hs₁ : s₁.depth + s₁.negations ≤ maxNesting := by omega
  obtain ⟨s₂, hdepth₂, hnegations₂, hword⟩ := scanNesting_word hs₁ cs (by decide) hcs rest
  exact ⟨s₂, by omega, hnegations₂, hbangs.trans hword⟩

/-- The scan goes through the text and is where it was. -/
theorem scanNesting_nested (n : Nat) {d : Nat} (hn : d + n ≤ maxNesting) {s : NestingState}
    (hdepth : s.depth = d) (hnegations : s.negations = 0) (rest : List Char) :
    ∃ s' : NestingState, s'.depth = d ∧ s'.negations = 0 ∧
      (scanNesting s (nested d n ++ rest) = none ↔ scanNesting s' rest = none) := by
  induction n generalizing d s rest with
  | zero =>
    rw [nested, List.append_assoc]
    exact scanNesting_bangs_word hn hdepth hnegations ".A".toList (by simp [nestingSigns]) rest
  | succ n ih =>
    have htext : nested d (n + 1) ++ rest = List.replicate (maxNesting - d) '!' ++
        ('x' :: ".A.Any".toList ++ '(' :: (nested (d + 1) n ++ ')' :: rest)) := by
      simp [nested]
    obtain ⟨s₁, hdepth₁, hnegations₁, hword⟩ := scanNesting_bangs_word (by omega) hdepth
      hnegations ".A.Any".toList (by simp [nestingSigns]) ('(' :: (nested (d + 1) n ++ ')' :: rest))
    have hopen : s₁.depth + 1 + s₁.negations ≤ maxNesting := by omega
    obtain ⟨s₂, hdepth₂, hnegations₂, hinner⟩ := ih (by omega)
      (s := NestingState.pass { s₁ with depth := s₁.depth + 1 } '(') (congrArg (· + 1) hdepth₁)
      rfl (')' :: rest)
    have hclose : s₂.depth - 1 + s₂.negations ≤ maxNesting := by omega
    refine ⟨NestingState.pass { s₂ with depth := s₂.depth - 1 } ')', ?_, rfl, ?_⟩
    · show s₂.depth - 1 = d
      omega
    · rw [htext, hword, scanNesting_cons_iff (by decide)]
      refine (and_iff_right hopen).trans (hinner.trans ?_)
      rw [scanNesting_cons_iff (by decide)]
      exact and_iff_right hclose

/-! ### The places -/

/-- With `rest` behind it, a text takes a place to another, and on the way no more than `D` brackets are
open. -/
def Passes (D : Nat) (n : Nest) (cs rest : List Char) (n' : Nest) : Prop :=
  ∀ limit, (cs ++ rest).length ≤ limit → ∃ limit', rest.length ≤ limit' ∧
    ∀ m ∈ nestsFrom n (lexUpTo limit (cs ++ rest)),
      m.depth ≤ D ∨ m ∈ nestsFrom n' (lexUpTo limit' rest)

namespace Passes

variable {D : Nat} {n n' n'' : Nest} {cs ds rest : List Char} {t : Token}

theorem trans (h : Passes D n cs (ds ++ rest) n') (h' : Passes D n' ds rest n'') :
    Passes D n (cs ++ ds) rest n'' := by
  intro limit hlimit
  rw [List.append_assoc] at hlimit ⊢
  obtain ⟨limit', hlimit', hcs⟩ := h limit hlimit
  obtain ⟨limit'', hlimit'', hds⟩ := h' limit' hlimit'
  exact ⟨limit'', hlimit'', fun m hm => (hcs m hm).elim .inl (hds m)⟩

theorem token (ht : IsToken cs t rest) (hn : n.depth ≤ D) : Passes D n cs rest (n.after t) := by
  intro limit hlimit
  have hpositive : 0 < cs.length := List.length_pos_iff.mpr ht.nonempty
  rw [List.length_append] at hlimit
  obtain ⟨k, rfl⟩ : ∃ k, limit = k + 1 := ⟨limit - 1, by omega⟩
  refine ⟨k, by omega, fun m hm => ?_⟩
  rw [lexUpTo_token ht, nestsFrom_cons] at hm
  rcases List.mem_cons.mp hm with rfl | hm
  · exact .inl hn
  · exact .inr hm

theorem blank (D : Nat) (n : Nest) (rest : List Char) : Passes D n [' '] rest n := by
  intro limit hlimit
  obtain ⟨k, rfl⟩ : ∃ k, limit = k + 1 := ⟨limit - 1, by simp at hlimit; omega⟩
  refine ⟨k + 1, by simp at hlimit; omega, fun m hm => .inr ?_⟩
  have hblank : isBlank ' ' = true := rfl
  simp only [lexUpTo, List.singleton_append, List.dropWhile_cons, hblank, if_true] at hm ⊢
  split at hm
  · exact hm
  · exact hm

variable {d k : Nat}

theorem bangs (hd : d ≤ D) (hrest : rest.head? ≠ some '=') (j : Nat) :
    Passes D ⟨d, k⟩ (List.replicate j '!') rest ⟨d, k + j⟩ := by
  induction j generalizing k with
  | zero => exact fun limit hlimit => ⟨limit, hlimit, fun m hm => .inr hm⟩
  | succ j ih =>
    have hbang : Passes D ⟨d, k⟩ ['!'] (List.replicate j '!' ++ rest) ⟨d, k + 1⟩ :=
      .token (isToken_bang (head?_bangs hrest j)) hd
    have hbangs := ih (k := k + 1)
    rw [Nat.add_right_comm, Nat.add_assoc] at hbangs
    exact hbang.trans hbangs

theorem word (hd : d ≤ D) {name : String} (hname : IsIdentifier name) (hrest : Breaks rest) :
    Passes D ⟨d, k⟩ name.toList rest ⟨d, 0⟩ :=
  .token (isToken_word hname hrest) hd

theorem name (hd : d ≤ D) {name : String} (hname : IsIdentifier name) (hrest : Breaks rest) :
    Passes D ⟨d, k⟩ ('.' :: name.toList) rest ⟨d, 0⟩ := by
  have hdot : Passes D ⟨d, k⟩ ['.'] (name.toList ++ rest) ⟨d, 0⟩ :=
    .token (IsSign.dot.isToken _) hd
  exact hdot.trans (.word hd hname hrest)

/-- The property that is asked for, behind negations. -/
theorem property (hd : d ≤ D) (hrest : Breaks rest) (j : Nat) :
    Passes D ⟨d, k⟩ (List.replicate j '!' ++ "x.A".toList) rest ⟨d, 0⟩ := by
  have hA : IsIdentifier "A" := .of_all rfl (by decide) (by decide)
  have hx : Passes D ⟨d, k + j⟩ "x".toList ('.' :: "A".toList ++ rest) ⟨d, 0⟩ :=
    .word hd isIdentifier_x (breaks_dot hA rest)
  exact (bangs hd (by simp) j).trans (hx.trans (.name hd hA hrest))

/-- The brackets of the text are closed again. -/
theorem nested (m : Nat) (hD : d + m ≤ D) (hrest : Breaks rest) :
    Passes D ⟨d, k⟩ (nested d m) rest ⟨d, 0⟩ := by
  induction m generalizing d k rest with
  | zero => exact property hD hrest _
  | succ m ih =>
    have hd : d ≤ D := by omega
    have hd' : d + 1 ≤ D := by omega
    have hAny : IsIdentifier "Any" := isIdentifier_method .any
    have hproperty : Passes D ⟨d, k⟩ (List.replicate (maxNesting - d) '!' ++ "x.A".toList)
        (('.' :: "Any".toList ++ ('(' :: (Filter.nested (d + 1) m ++ [')']))) ++ rest) ⟨d, 0⟩ := by
      refine property hd ?_ _
      rw [List.append_assoc]
      exact breaks_dot hAny _
    have hname : Passes D ⟨d, 0⟩ ('.' :: "Any".toList)
        (('(' :: (Filter.nested (d + 1) m ++ [')'])) ++ rest) ⟨d, 0⟩ := by
      refine .name hd hAny ?_
      exact .of_ne_dot (by decide) (by decide) _
    have hopen : Passes D ⟨d, 0⟩ ['('] ((Filter.nested (d + 1) m ++ [')']) ++ rest) ⟨d + 1, 0⟩ :=
      .token (IsSign.openGroup.isToken _) hd
    have hinner : Passes D ⟨d + 1, 0⟩ (Filter.nested (d + 1) m) (')' :: rest) ⟨d + 1, 0⟩ :=
      ih (by omega) (.of_ne_dot (by decide) (by decide) rest)
    have hclose : Passes D ⟨d + 1, 0⟩ [')'] rest ⟨d, 0⟩ :=
      .token (IsSign.closeGroup.isToken rest) hd'
    rw [Filter.nested, ← List.append_assoc]
    exact hproperty.trans (hname.trans (hopen.trans (hinner.trans hclose)))

end Passes

/-! ### The bound is reached -/

/-- The text behind the name of the row. -/
def nestedText (D : Nat) : String := String.ofList ('x' :: (spaced ['=', '>'] ++ nested 0 D))

theorem tooDeepAt?_nestedText {D : Nat} (hD : D ≤ maxNesting) :
    tooDeepAt? (nestedText D).toList = none := by
  have htext : (nestedText D).toList = "x => ".toList ++ (nested 0 D ++ []) := by
    simp [nestedText, spaced]
  have hroot : ∀ c ∈ "x => ".toList, c ∉ nestingSigns := by simp [nestingSigns]
  have hstart : (NestingState.mk 0 0 0).depth + (NestingState.mk 0 0 0).negations ≤ maxNesting :=
    Nat.zero_le _
  obtain ⟨s, hdepth, hnegations, hroot⟩ := scanNesting_plain hstart hroot (nested 0 D ++ [])
  obtain ⟨s', -, -, hscan⟩ := scanNesting_nested D ((Nat.zero_add D).trans_le hD) hdepth
    (Nat.le_zero.mp hnegations) []
  rw [tooDeepAt?, htext, hroot, hscan]
  rfl

theorem read_nestedText {D : Nat} (hD : D ≤ maxNesting) :
    ∃ e, read (nestedText D) = .ok e ∧ e.negationDepth = negationBound D 0 := by
  obtain ⟨e, he⟩ := resolve_nestedTerm 0 D
  have hread : readTerm (lex (nestedText D).toList) = .ok (some "x", nestedTerm 0 D) := by
    rw [nestedText, String.toList_ofList]
    exact (readsFilter_nested 0 D).readTerm
  refine ⟨e, read_eq_ok_iff.mpr ⟨tooDeepAt?_nestedText hD, _, _, hread, he⟩, ?_⟩
  rw [Term.negationDepth_resolve _ he, negationDepth_nestedTerm, Nat.zero_add]

theorem bracketDepth_nestedText (D : Nat) : bracketDepth (nestedText D) ≤ D := by
  have hroot : Passes D ⟨0, 0⟩ "x".toList ((spaced ['=', '>'] ++ nested 0 D) ++ []) ⟨0, 0⟩ :=
    .word (Nat.zero_le D) isIdentifier_x (.of_ne_dot (by decide) (by decide) _)
  have harrow : Passes D ⟨0, 0⟩ (spaced ['=', '>']) (nested 0 D ++ []) ⟨0, 0⟩ := by
    have htoken : Passes D ⟨0, 0⟩ ['=', '>'] ([' '] ++ (nested 0 D ++ [])) ⟨0, 0⟩ :=
      .token (IsOperator.arrow.isToken _) (Nat.zero_le D)
    exact (Passes.blank D ⟨0, 0⟩ _).trans (htoken.trans (Passes.blank D ⟨0, 0⟩ _))
  have hnested : Passes D ⟨0, 0⟩ (nested 0 D) [] ⟨0, 0⟩ := .nested D (by omega) trivial
  rw [bracketDepth_le_iff]
  intro m hm
  obtain ⟨limit, -, hpasses⟩ := hroot.trans (harrow.trans hnested) _ le_rfl
  rw [nestedText, String.toList_ofList] at hm
  rw [List.append_nil] at hpasses
  rcases hpasses m hm with hdepth | hend
  · exact hdepth
  · have hm : m = ⟨0, 0⟩ := by
      cases limit <;> simpa [lexUpTo] using hend
    rw [hm]
    exact Nat.zero_le D

/-- Brackets that are deeper than the scan lets pass add nothing to the bound. -/
theorem negationBound_min (D : Nat) :
    negationBound (min D maxNesting) 0 = ∑ k ∈ Finset.range (D + 1), (maxNesting - k) := by
  rw [negationBound, ← Finset.range_eq_Ico]
  refine Finset.sum_subset (Finset.range_subset_range.mpr (by omega)) fun k hk hmin => ?_
  simp only [Finset.mem_range] at hk hmin
  omega

/-- **The most negations around one another in a filter.** Of all filters with no more than `D` open
brackets anywhere, those with the most have for every depth up to `D` as many as the depth leaves of
`maxNesting`. No filter has more open brackets than `maxNesting`. -/
theorem negationDepth_isGreatest (D : Nat) :
    IsGreatest {n | ∃ text e, read text = .ok e ∧ bracketDepth text ≤ D ∧ e.negationDepth = n}
        (∑ k ∈ Finset.range (D + 1), (maxNesting - k)) ∧
      ∀ text e, read text = .ok e → bracketDepth text ≤ maxNesting := by
  refine ⟨⟨?_, ?_⟩, fun text e h => (negationDepth_read h).1⟩
  · obtain ⟨e, hread, hdepth⟩ := read_nestedText (Nat.min_le_right D maxNesting)
    rw [negationBound_min] at hdepth
    exact ⟨_, e, hread, le_trans (bracketDepth_nestedText _) (Nat.min_le_left _ _), hdepth⟩
  · rintro n ⟨text, e, h, hdepth, rfl⟩
    refine le_trans (negationDepth_read h).2 (Finset.sum_le_sum_of_subset ?_)
    exact Finset.range_subset_range.mpr (Nat.succ_le_succ hdepth)

/-- One pair of brackets is enough for more negations than `maxNesting`. -/
theorem negationDepth_isGreatest_one :
    IsGreatest {n | ∃ text e, read text = .ok e ∧ bracketDepth text ≤ 1 ∧ e.negationDepth = n} 255 ∧
      read "!(!A)" = .ok (.not (.not (.member "A"))) ∧ bracketDepth "!(!A)" ≤ maxNesting := by
  obtain ⟨hgreatest, hdepth⟩ := negationDepth_isGreatest 1
  have hsum : ∑ k ∈ Finset.range 2, (maxNesting - k) = 255 := by decide
  rw [hsum] at hgreatest
  have hread : read "!(!A)" = .ok (.not (.not (.member "A"))) := rfl
  exact ⟨hgreatest, hread, hdepth _ _ hread⟩

end EntitySql.Filter
