import EntitySql.Proofs.Filter.Token

/-!
# Reading a printed filter

The reader goes over the lexemes of a text from a state to another, and what it has read of a text that
is printed does not depend on what follows (`Reads`). A printed term leaves the reader with the term
before it and everything else as it was (`ReadsTerm`); it waits for what follows in one of three ways,
which are told apart by an opening bracket or an arrow only (`Pending`). A filter may in addition fill
the slots of its level for a comparison and for negations (`ReadsFilter`), and an argument the binder
of its call (`ReadsArgument`). Each form of a filter is read by one lemma from its parts.
-/

namespace EntitySql.Filter

/-! ### Texts that are read -/

/-- With `rest` behind it, a text takes the reader from a state to another. -/
def Reads (s : State) (cs rest : List Char) (s' : State) : Prop :=
  ∀ limit, (cs ++ rest).length ≤ limit → ∃ limit', rest.length ≤ limit' ∧
    (lexUpTo limit (cs ++ rest)).foldlM State.advance s =
      (lexUpTo limit' rest).foldlM State.advance s'

variable {s s' s'' : State} {cs ds rest : List Char} {t : Token}

theorem Reads.trans (h : Reads s cs (ds ++ rest) s') (h' : Reads s' ds rest s'') :
    Reads s (cs ++ ds) rest s'' := by
  intro limit hlimit
  rw [List.append_assoc] at hlimit ⊢
  obtain ⟨limit', hlimit', hcs⟩ := h limit hlimit
  obtain ⟨limit'', hlimit'', hds⟩ := h' limit' hlimit'
  exact ⟨limit'', hlimit'', hcs.trans hds⟩

theorem lexUpTo_token (h : IsToken cs t rest) (limit : Nat) :
    lexUpTo (limit + 1) (cs ++ rest) = ⟨t, false, cs ++ rest⟩ :: lexUpTo limit rest := by
  obtain ⟨c, cs, rfl⟩ := List.exists_cons_of_ne_nil h.nonempty
  have hblank : isBlank c = false := h.starts
  have hlexed := h.lexed
  simp only [List.cons_append] at hlexed ⊢
  simp only [lexUpTo, List.dropWhile_cons, hblank, Bool.false_eq_true, if_false, hlexed, h.proper,
    List.head?_cons, Option.any_some]

/-- A token is read as one lexeme. -/
theorem Reads.token (h : IsToken cs t rest)
    (hs : s.advance ⟨t, false, cs ++ rest⟩ = .ok s') : Reads s cs rest s' := by
  intro limit hlimit
  have hpositive : 0 < cs.length := List.length_pos_iff.mpr h.nonempty
  rw [List.length_append] at hlimit
  obtain ⟨n, rfl⟩ : ∃ n, limit = n + 1 := ⟨limit - 1, by omega⟩
  refine ⟨n, by omega, ?_⟩
  rw [lexUpTo_token h, List.foldlM_cons, hs]
  rfl

/-- A blank is passed over, except between a point and a name. -/
theorem Reads.blank (h : ∀ t after, s.expect ≠ .member t after) : Reads s [' '] rest s := by
  intro limit hlimit
  obtain ⟨n, rfl⟩ : ∃ n, limit = n + 1 := ⟨limit - 1, by simp at hlimit; omega⟩
  refine ⟨n + 1, by simp at hlimit; omega, ?_⟩
  have hadvance : ∀ t spaced start, s.advance ⟨t, spaced, start⟩ = s.advance ⟨t, false, start⟩ := by
    intro t spaced start
    unfold State.advance
    split <;> first | rfl | exact absurd ‹_› (h _ _)
  have hblank : isBlank ' ' = true := rfl
  simp only [lexUpTo, List.singleton_append, List.dropWhile_cons, hblank, if_true]
  split
  · rfl
  · simp only [List.foldlM_cons, hadvance _ (Option.any _ _)]

/-! ### Before and after an operand -/

/-- The reader is at the start of an operand. -/
inductive AtOperand : Expect → Prop where
  | operand : AtOperand .operand
  | firstArgument : AtOperand .firstArgument
  | argument : AtOperand .argument

/-- The reader has a term before it and waits for what follows. -/
inductive Pending : Expect → Term → Prop where
  | suffix (t : Term) : Pending (.suffix t) t
  | called (t : Term) (name : String) : Pending (.called t name) (.access t name)
  | word (w : String) : Pending (.argumentWord w) (wordTerm w)

variable {stack : List Frame} {l : Level} {e : Expect} {u : Term}

/-- What is no word starts an operand alike everywhere. -/
theorem AtOperand.advance (h : AtOperand e) {x : Lexeme} (hword : ∀ w, x.token ≠ .word w)
    (hclose : x.token ≠ .closeGroup) :
    State.advance ⟨stack, l, e⟩ x = State.operand ⟨stack, l, .operand⟩ x := by
  have hargument : ∀ e, State.argument ⟨stack, l, e⟩ x = State.operand ⟨stack, l, .operand⟩ x := by
    intro e
    unfold State.argument
    split
    · exact absurd ‹_› (hword _)
    · rfl
  cases h with
  | operand => rfl
  | argument => exact hargument _
  | firstArgument =>
    show State.firstArgument _ x = _
    unfold State.firstArgument
    split
    · exact absurd ‹_› hclose
    · exact hargument _

/-- A word is an operand everywhere, though it may still become a parameter. -/
theorem AtOperand.advance_word (h : AtOperand e) (w : String) :
    ∃ e', Pending e' (wordTerm w) ∧ ∀ (stack : List Frame) (l : Level) (start : List Char),
      State.advance ⟨stack, l, e⟩ ⟨.word w, false, start⟩ = .ok ⟨stack, l, e'⟩ := by
  cases h with
  | operand => exact ⟨_, .suffix _, fun _ _ _ => rfl⟩
  | argument => exact ⟨_, .word w, fun _ _ _ => rfl⟩
  | firstArgument => exact ⟨_, .word w, fun _ _ _ => rfl⟩

/-- What is no opening bracket and no arrow follows every term alike. -/
theorem Pending.advance (h : Pending e u) {x : Lexeme} (hopen : x.token ≠ .openGroup)
    (harrow : x.token ≠ .arrow) :
    State.advance ⟨stack, l, e⟩ x = State.suffix ⟨stack, l, .suffix u⟩ u x := by
  cases h with
  | suffix => rfl
  | called =>
    show State.called _ _ _ x = _
    unfold State.called
    split
    · exact absurd ‹_› hopen
    · rfl
  | word =>
    show State.argumentWord _ _ x = _
    unfold State.argumentWord
    split
    · exact absurd ‹_› harrow
    · rfl

theorem Pending.finish (h : Pending e u) (l : Level) :
    State.finish ⟨[], l, e⟩ = .ok (l.term u) := by
  cases h <;> rfl

/-- A blank after a term is passed over. -/
theorem Pending.blank (h : Pending e u) : Reads ⟨stack, l, e⟩ [' '] rest ⟨stack, l, e⟩ := by
  refine .blank fun t after => ?_
  cases h <;> exact Expect.noConfusion

theorem Reads.operandBlank : Reads ⟨stack, l, .operand⟩ [' '] rest ⟨stack, l, .operand⟩ :=
  .blank fun _ _ => Expect.noConfusion

/-- A sign after a term. -/
theorem Pending.sign (h : Pending e u) {c : Char} (hc : IsSign c t) (hopen : t ≠ .openGroup)
    (hs : State.suffix ⟨stack, l, .suffix u⟩ u ⟨t, false, c :: rest⟩ = .ok s') :
    Reads ⟨stack, l, e⟩ [c] rest s' := by
  refine .token (hc.isToken rest) ((h.advance hopen ?_).trans hs)
  cases hc <;> exact Token.noConfusion

/-- An operator with a blank on either side. -/
def spaced (cs : List Char) : List Char := ' ' :: (cs ++ [' '])

/-- An operator after a term, between blanks. -/
theorem Pending.operator (h : Pending e u) {l' : Level} (ht : IsToken cs t (' ' :: rest))
    (hopen : t ≠ .openGroup) (harrow : t ≠ .arrow)
    (hs : State.suffix ⟨stack, l, .suffix u⟩ u ⟨t, false, cs ++ ' ' :: rest⟩ =
      .ok ⟨stack, l', .operand⟩) :
    Reads ⟨stack, l, e⟩ (spaced cs) rest ⟨stack, l', .operand⟩ := by
  have hblank : Reads ⟨stack, l, e⟩ [' '] ((cs ++ [' ']) ++ rest) ⟨stack, l, e⟩ := h.blank
  refine hblank.trans (Reads.trans ?_ Reads.operandBlank)
  exact .token ht ((h.advance hopen harrow).trans hs)

/-! ### Terms -/

/-- The text is read as an operand, which leaves the level as it is. -/
def ReadsTerm (cs : List Char) (u : Term) : Prop :=
  ∀ stack l e rest, AtOperand e → Breaks rest →
    ∃ e', Pending e' u ∧ Reads ⟨stack, l, e⟩ cs rest ⟨stack, l, e'⟩

theorem readsTerm_word {w : String} (h : IsIdentifier w) : ReadsTerm w.toList (wordTerm w) := by
  intro stack l e rest he hrest
  obtain ⟨e', hpending, hadvance⟩ := he.advance_word w
  exact ⟨e', hpending, .token (isToken_word h hrest) (hadvance _ _ _)⟩

theorem wordTerm_of_literal {w : String} {v : Value} (h : literal? (.word w) = some v) :
    wordTerm w = .constant v := by
  simp only [literal?] at h
  split at h
  · next hw => rw [hw, Option.some.inj h]
  · cases h

theorem readsTerm_literal {v : Value} (h : IsLiteral v) :
    ReadsTerm v.display.toList (.constant v) := by
  intro stack l e rest he hrest
  obtain ⟨t, ht, hv⟩ := isToken_literal h hrest
  cases t with
  | word w =>
    obtain ⟨e', hpending, hadvance⟩ := he.advance_word w
    rw [wordTerm_of_literal hv] at hpending
    exact ⟨e', hpending, .token ht (hadvance _ _ _)⟩
  | text | integer | real =>
    cases hv
    refine ⟨_, .suffix _, .token ht ?_⟩
    rw [he.advance (fun _ => Token.noConfusion) Token.noConfusion]
    rfl
  | _ => cases hv

/-! ### Lists -/

/-- The first item of a list, or an item after a comma. -/
theorem reads_item {v : Value} (h : IsLiteral v) {refusal : List Char} {done : List Value}
    (he : e = .item refusal done ∨ e = .firstItem refusal ∧ done = []) (hrest : Breaks rest) :
    Reads ⟨stack, l, e⟩ v.display.toList rest ⟨stack, l, .afterItem refusal (done ++ [v])⟩ := by
  obtain ⟨t, ht, hv⟩ := isToken_literal h hrest
  refine .token ht ?_
  have hitem : ∀ e start, State.item ⟨stack, l, e⟩ refusal done ⟨t, false, start⟩ =
      .ok ⟨stack, l, .afterItem refusal (done ++ [v])⟩ := by
    intro e start
    simp only [State.item, hv]
  rcases he with rfl | ⟨rfl, rfl⟩
  · exact hitem _ _
  · rw [← hitem (.firstItem refusal) (v.display.toList ++ rest)]
    cases t with
    | closeList => cases hv
    | _ => rfl

theorem toList_displayItems_cons (v : Value) (items : List Value) :
    (Value.displayItems false (v :: items)).toList =
      [','] ++ ([' '] ++ (v.display.toList ++ (Value.displayItems false items).toList)) := by
  simp [Value.displayItems]

/-- An item ends where the rest of its list begins. -/
theorem breaks_items (items : List Value) (rest : List Char) :
    Breaks (((Value.displayItems false items).toList ++ [']']) ++ rest) := by
  cases items with
  | nil =>
    show Breaks (']' :: rest)
    exact .of_ne_dot (by decide) (by decide) rest
  | cons v items =>
    rw [toList_displayItems_cons]
    show Breaks (',' :: _)
    exact .of_ne_dot (by decide) (by decide) _

/-- The items of a list after the first one, and its closing bracket. -/
theorem reads_items {refusal : List Char} {items : List Value} (h : ∀ v ∈ items, IsLiteral v)
    (done : List Value) :
    Reads ⟨stack, l, .afterItem refusal done⟩ ((Value.displayItems false items).toList ++ [']'])
      rest ⟨stack, l, .suffix (.constant (.list (done ++ items)))⟩ := by
  induction items generalizing done with
  | nil =>
    rw [List.append_nil]
    exact .token (IsSign.closeList.isToken rest) rfl
  | cons v items ih =>
    rw [toList_displayItems_cons, List.append_assoc, List.append_assoc, List.append_assoc]
    have hv : IsLiteral v := h v List.mem_cons_self
    have hbreaks := breaks_items items rest
    have hcomma : ∀ after, Reads ⟨stack, l, .afterItem refusal done⟩ [','] after
        ⟨stack, l, .item refusal done⟩ := fun after => .token (IsSign.comma.isToken after) rfl
    have hblank : ∀ after, Reads ⟨stack, l, .item refusal done⟩ [' '] after
        ⟨stack, l, .item refusal done⟩ := fun _ => .blank fun _ _ => Expect.noConfusion
    have hitem : Reads ⟨stack, l, .item refusal done⟩ v.display.toList _ _ :=
      reads_item hv (.inl rfl) hbreaks
    have hitems := ih (fun w hw => h w (List.mem_cons_of_mem _ hw)) (done ++ [v])
    rw [List.append_assoc, List.singleton_append] at hitems
    exact (hcomma _).trans ((hblank _).trans (hitem.trans hitems))

theorem readsTerm_list {items : List Value} (h : ∀ v ∈ items, IsLiteral v) :
    ReadsTerm (Value.list items).display.toList (.constant (.list items)) := by
  intro stack l e rest he _
  refine ⟨_, .suffix _, ?_⟩
  have hopen : ∀ after, Reads ⟨stack, l, e⟩ ['['] after
      ⟨stack, l, .firstItem (l.refuseOperand ('[' :: after))⟩ := by
    intro after
    refine .token (IsSign.openList.isToken after) ?_
    rw [he.advance (fun _ => Token.noConfusion) Token.noConfusion]
    rfl
  cases items with
  | nil =>
    have htext : (Value.list []).display.toList = ['['] ++ [']'] := rfl
    rw [htext]
    exact (hopen _).trans (.token (IsSign.closeList.isToken rest) rfl)
  | cons v items =>
    have htext : (Value.list (v :: items)).display.toList = ['['] ++ (v.display.toList ++
        ((Value.displayItems false items).toList ++ [']'])) := by
      simp [Value.display, Value.displayItems]
    rw [htext]
    have hv : IsLiteral v := h v List.mem_cons_self
    refine (hopen _).trans (Reads.trans (reads_item hv (.inr ⟨rfl, rfl⟩) (breaks_items items rest)) ?_)
    exact reads_items (fun w hw => h w (List.mem_cons_of_mem _ hw)) [v]

/-! ### Members -/

/-- A point and a name after a term. -/
theorem Pending.name (h : Pending e u) {name : String} (hname : IsIdentifier name)
    (hrest : Breaks rest) :
    Reads ⟨stack, l, e⟩ ('.' :: name.toList) rest ⟨stack, l, .called u name⟩ := by
  have hdot : ∀ after, Reads ⟨stack, l, e⟩ ['.'] after ⟨stack, l, .member u after⟩ :=
    fun _ => h.sign .dot Token.noConfusion rfl
  exact (hdot _).trans (.token (isToken_word hname hrest) rfl)

theorem readsTerm_access {name : String} (hname : IsIdentifier name) (h : ReadsTerm cs u) :
    ReadsTerm (cs ++ '.' :: name.toList) (.access u name) := by
  intro stack l e rest he hrest
  obtain ⟨e', hpending, hreads⟩ := h stack l e ('.' :: (name.toList ++ rest)) he
    (breaks_dot hname rest)
  exact ⟨_, .called u name, hreads.trans (hpending.name hname hrest)⟩

/-! ### Filters -/

/-- The level has no comparison, fallback or negation that waits for its operand. -/
structure Level.Clean (l : Level) : Prop where
  comparison : l.comparison = none
  fallback : l.fallback = none
  negations : l.negations = 0

theorem Level.Clean.unaryTerm {l : Level} (h : l.Clean) (u : Term) : l.unaryTerm u = u := by
  simp [Level.unaryTerm, Level.operandTerm, h.comparison, h.fallback, h.negations, Nat.repeat]

/-- The text is read as what stands between the connectives of a level. -/
def ReadsFilter (cs : List Char) (u : Term) : Prop :=
  ∀ stack l e rest, AtOperand e → l.Clean → Breaks rest →
    ∃ l' e' u', Pending e' u' ∧ l'.disjunction = l.disjunction ∧ l'.conjunction = l.conjunction ∧
      l'.unaryTerm u' = u ∧ Reads ⟨stack, l, e⟩ cs rest ⟨stack, l', e'⟩

/-- The text is read as the body of a pair of brackets. -/
def ReadsBody (cs : List Char) (u : Term) : Prop :=
  ∀ stack refusal rest, Breaks rest →
    ∃ l' e' u', Pending e' u' ∧ l'.term u' = u ∧
      Reads ⟨stack, { refusal := refusal }, .operand⟩ cs rest ⟨stack, l', e'⟩

theorem ReadsTerm.filter (h : ReadsTerm cs u) : ReadsFilter cs u := by
  intro stack l e rest he hclean hrest
  obtain ⟨e', hpending, hreads⟩ := h stack l e rest he hrest
  exact ⟨l, e', u, hpending, rfl, rfl, hclean.unaryTerm u, hreads⟩

/-- At a level with nothing on it, a filter is the term of the level. -/
theorem ReadsFilter.fresh (h : ReadsFilter cs u) (he : AtOperand e) (hrest : Breaks rest)
    (stack : List Frame) (refusal : Option (List Char)) :
    ∃ l' e' u', Pending e' u' ∧ l'.term u' = u ∧
      Reads ⟨stack, { refusal := refusal }, e⟩ cs rest ⟨stack, l', e'⟩ := by
  obtain ⟨l', e', u', hpending, hdisjunction, hconjunction, hunary, hreads⟩ :=
    h stack { refusal := refusal } e rest he ⟨rfl, rfl, rfl⟩ hrest
  refine ⟨l', e', u', hpending, ?_, hreads⟩
  rw [Level.term, hdisjunction, Level.conjunctionTerm, hconjunction]
  exact hunary

theorem ReadsFilter.body (h : ReadsFilter cs u) : ReadsBody cs u :=
  fun stack refusal _ hrest => h.fresh .operand hrest stack refusal

/-- A body in brackets is a term. -/
theorem ReadsBody.group (h : ReadsBody cs u) : ReadsTerm ('(' :: (cs ++ [')'])) u := by
  intro stack l e rest he _
  have hopen : ∀ after, Reads ⟨stack, l, e⟩ ['('] after
      ⟨.group l :: stack, { refusal := some (l.refuseOperand ('(' :: after)) }, .operand⟩ := by
    intro after
    refine .token (IsSign.openGroup.isToken after) ?_
    rw [he.advance (fun _ => Token.noConfusion) Token.noConfusion]
    rfl
  obtain ⟨l', e', u', hpending, hterm, hreads⟩ := h (.group l :: stack)
    (some (l.refuseOperand ('(' :: ((cs ++ [')']) ++ rest)))) (')' :: rest)
    (.of_ne_dot (by decide) (by decide) rest)
  have hclose : Reads ⟨.group l :: stack, l', e'⟩ [')'] rest ⟨stack, l, .suffix u⟩ := by
    rw [← hterm]
    exact hpending.sign .closeGroup Token.noConfusion rfl
  exact ⟨_, .suffix u, (hopen _).trans (hreads.trans hclose)⟩

/-! ### Connectives -/

variable {ds : List Char} {v : Term}

/-- A blank ends an operand. -/
theorem breaks_spaced (cs ds rest : List Char) : Breaks ((spaced cs ++ ds) ++ rest) :=
  .of_ne_dot (by decide) (by decide) _

theorem ReadsFilter.and (hl : ReadsFilter cs u) (hr : ReadsFilter ds v) :
    ReadsBody (cs ++ (spaced ['&', '&'] ++ ds)) (.and u v) := by
  intro stack refusal rest hrest
  obtain ⟨l', e', u', hpending, hdisjunction, hconjunction, hunary, hleft⟩ :=
    hl stack { refusal := refusal } .operand ((spaced ['&', '&'] ++ ds) ++ rest) .operand
      ⟨rfl, rfl, rfl⟩ (breaks_spaced _ _ _)
  have hoperator : Reads ⟨stack, l', e'⟩ (spaced ['&', '&']) (ds ++ rest)
      ⟨stack, { refusal := l'.refusal
                disjunction := l'.disjunction
                conjunction := some (l'.conjunctionTerm u') }, .operand⟩ :=
    hpending.operator (IsOperator.conjoin.isToken _) Token.noConfusion Token.noConfusion rfl
  obtain ⟨l'', e'', v', hpending', hdisjunction', hconjunction', hunary', hright⟩ :=
    hr stack { refusal := l'.refusal
               disjunction := l'.disjunction
               conjunction := some (l'.conjunctionTerm u') } .operand rest .operand
      ⟨rfl, rfl, rfl⟩ hrest
  refine ⟨l'', e'', v', hpending', ?_, hleft.trans (hoperator.trans hright)⟩
  simp only [Level.term, Level.conjunctionTerm, hdisjunction', hdisjunction, hconjunction',
    hconjunction, hunary', hunary]

theorem ReadsFilter.or (hl : ReadsFilter cs u) (hr : ReadsFilter ds v) :
    ReadsBody (cs ++ (spaced ['|', '|'] ++ ds)) (.or u v) := by
  intro stack refusal rest hrest
  obtain ⟨l', e', u', hpending, hterm, hleft⟩ :=
    hl.fresh .operand (breaks_spaced ['|', '|'] ds rest) stack refusal
  have hoperator : Reads ⟨stack, l', e'⟩ (spaced ['|', '|']) (ds ++ rest)
      ⟨stack, { refusal := l'.refusal, disjunction := some (l'.term u') }, .operand⟩ :=
    hpending.operator (IsOperator.disjoin.isToken _) Token.noConfusion Token.noConfusion rfl
  obtain ⟨l'', e'', v', hpending', hdisjunction', hconjunction', hunary', hright⟩ :=
    hr stack { refusal := l'.refusal, disjunction := some (l'.term u') } .operand rest .operand
      ⟨rfl, rfl, rfl⟩ hrest
  refine ⟨l'', e'', v', hpending', ?_, hleft.trans (hoperator.trans hright)⟩
  rw [Level.term, hdisjunction', Level.conjunctionTerm, hconjunction']
  simp only [hunary', hterm]

theorem ReadsTerm.coalesce (hl : ReadsTerm cs u) (hr : ReadsTerm ds v) :
    ReadsBody (cs ++ (spaced ['?', '?'] ++ ds)) (.coalesce u v) := by
  intro stack refusal rest hrest
  obtain ⟨e', hpending, hleft⟩ := hl stack { refusal := refusal } .operand
    ((spaced ['?', '?'] ++ ds) ++ rest) .operand (breaks_spaced _ _ _)
  have hoperator : Reads ⟨stack, { refusal := refusal }, e'⟩ (spaced ['?', '?']) (ds ++ rest)
      ⟨stack, { refusal := refusal
                fallback := some (u, ['?', '?'] ++ ' ' :: (ds ++ rest)) }, .operand⟩ :=
    hpending.operator (IsOperator.fallback.isToken _) Token.noConfusion Token.noConfusion rfl
  obtain ⟨e'', hpending', hright⟩ := hr stack
    { refusal := refusal, fallback := some (u, ['?', '?'] ++ ' ' :: (ds ++ rest)) } .operand rest
    .operand hrest
  exact ⟨_, e'', v, hpending', rfl, hleft.trans (hoperator.trans hright)⟩

theorem ReadsTerm.compare (hl : ReadsTerm cs u) (hr : ReadsTerm ds v) (op : CompareOp) :
    ReadsFilter (cs ++ (spaced op.symbol.toList ++ ds)) (.compare op u v) := by
  intro stack l e rest he hclean hrest
  obtain ⟨e', hpending, hleft⟩ := hl stack l e ((spaced op.symbol.toList ++ ds) ++ rest) he
    (breaks_spaced _ _ _)
  have hoperator : Reads ⟨stack, l, e'⟩ (spaced op.symbol.toList) (ds ++ rest)
      ⟨stack, { l with comparison := some (op, u), fallback := none }, .operand⟩ := by
    refine hpending.operator (isToken_comparison op _) ?_ ?_ ?_
    · cases op <;> exact Token.noConfusion
    · cases op <;> exact Token.noConfusion
    · obtain ⟨hcomparison, hfallback, -⟩ := hclean
      cases op <;> simp [State.suffix, comparisonToken, compareOp?, hcomparison,
        Level.operandTerm, hfallback]
  obtain ⟨e'', hpending', hright⟩ := hr stack
    { l with comparison := some (op, u), fallback := none } .operand rest .operand hrest
  refine ⟨{ l with comparison := some (op, u), fallback := none }, e'', v, hpending', rfl, rfl, ?_,
    hleft.trans (hoperator.trans hright)⟩
  simp [Level.unaryTerm, Level.operandTerm, hclean.negations, Nat.repeat]

theorem ReadsFilter.not (h : ReadsFilter cs u) :
    ReadsFilter ('!' :: '(' :: (cs ++ [')'])) (.not u) := by
  intro stack l e rest he hclean hrest
  have hbang : Reads ⟨stack, l, e⟩ ['!'] (('(' :: (cs ++ [')'])) ++ rest)
      ⟨stack, { l with negations := l.negations + 1 }, .operand⟩ := by
    refine .token (isToken_bang (by simp)) ?_
    rw [he.advance (fun _ => Token.noConfusion) Token.noConfusion]
    simp [State.operand, Level.atUnary, hclean.comparison, hclean.fallback]
  obtain ⟨e', hpending, hgroup⟩ := h.body.group stack { l with negations := l.negations + 1 }
    .operand rest .operand hrest
  refine ⟨{ l with negations := l.negations + 1 }, e', u, hpending, rfl, rfl, ?_,
    hbang.trans hgroup⟩
  simp [Level.unaryTerm, Level.operandTerm, hclean.comparison, hclean.fallback, hclean.negations,
    Nat.repeat]

/-! ### Calls -/

/-- The text is read as an argument of a call. -/
def ReadsArgument (cs : List Char) (u : Term) : Prop :=
  ∀ outer target method done stack refusal e rest, e = .firstArgument ∨ e = .argument →
    Breaks rest → ∃ binder l' e' u', Pending e' u' ∧ argumentTerm binder (l'.term u') = u ∧
      Reads ⟨.call outer target method done none :: stack, { refusal := refusal }, e⟩ cs rest
        ⟨.call outer target method done binder :: stack, l', e'⟩

/-- The text is read as the arguments of a call from one on, together with the closing bracket. -/
def ReadsArguments (cs : List Char) (us : List Term) : Prop :=
  ∀ outer target method done stack refusal e rest, e = .firstArgument ∨ e = .argument →
    Reads ⟨.call outer target method done none :: stack, { refusal := refusal }, e⟩
      (cs ++ [')']) rest ⟨stack, outer, .suffix (.call target method (done ++ us))⟩

theorem ReadsFilter.argument (h : ReadsFilter cs u) : ReadsArgument cs u := by
  intro outer target method done stack refusal e rest he hrest
  have he : AtOperand e := by
    rcases he with rfl | rfl
    · exact .firstArgument
    · exact .argument
  obtain ⟨l', e', u', hpending, hterm, hreads⟩ :=
    h.fresh he hrest (.call outer target method done none :: stack) refusal
  exact ⟨none, l', e', u', hpending, hterm, hreads⟩

/-- A parameter and an arrow before the body of a lambda. -/
theorem ReadsFilter.lambda (h : ReadsFilter cs u) {param : String} (hparam : IsIdentifier param) :
    ReadsArgument (param.toList ++ (spaced ['=', '>'] ++ cs)) (.lambda param u) := by
  intro outer target method done stack refusal e rest he hrest
  have hword : Reads ⟨.call outer target method done none :: stack, { refusal := refusal }, e⟩
      param.toList ((spaced ['=', '>'] ++ cs) ++ rest)
      ⟨.call outer target method done none :: stack, { refusal := refusal },
        .argumentWord param⟩ := by
    refine .token (isToken_word hparam (breaks_spaced _ _ _)) ?_
    rcases he with rfl | rfl <;> rfl
  have harrow : Reads ⟨.call outer target method done none :: stack, { refusal := refusal },
      .argumentWord param⟩ (spaced ['=', '>']) (cs ++ rest)
      ⟨.call outer target method done (some param) :: stack, { refusal := refusal }, .operand⟩ := by
    have hblank : Reads ⟨.call outer target method done none :: stack, { refusal := refusal },
        .argumentWord param⟩ [' '] ((['=', '>'] ++ [' ']) ++ (cs ++ rest))
        ⟨.call outer target method done none :: stack, { refusal := refusal },
          .argumentWord param⟩ := (Pending.word param).blank
    exact hblank.trans (Reads.trans (.token (IsOperator.arrow.isToken _) rfl) Reads.operandBlank)
  obtain ⟨l', e', u', hpending, hterm, hreads⟩ :=
    h.fresh .operand hrest (.call outer target method done (some param) :: stack) refusal
  exact ⟨some param, l', e', u', hpending, congrArg (Term.lambda param) hterm,
    hword.trans (harrow.trans hreads)⟩

/-- The last argument. -/
theorem ReadsArgument.last (h : ReadsArgument cs u) : ReadsArguments cs [u] := by
  intro outer target method done stack refusal e rest he
  obtain ⟨binder, l', e', u', hpending, hterm, hreads⟩ :=
    h outer target method done stack refusal e (')' :: rest) he
      (.of_ne_dot (by decide) (by decide) rest)
  refine hreads.trans ?_
  rw [← hterm]
  exact hpending.sign .closeGroup Token.noConfusion rfl

/-- An argument before others. -/
theorem ReadsArgument.next {us : List Term} (h : ReadsArgument cs u) (hs : ReadsArguments ds us) :
    ReadsArguments (cs ++ ([',', ' '] ++ ds)) (u :: us) := by
  intro outer target method done stack refusal e rest he
  obtain ⟨binder, l', e', u', hpending, hterm, hreads⟩ :=
    h outer target method done stack refusal e ((([',', ' '] ++ ds) ++ [')']) ++ rest) he
      (.of_ne_dot (by decide) (by decide) _)
  have hcomma : ∀ after, Reads ⟨.call outer target method done binder :: stack, l', e'⟩ [','] after
      ⟨.call outer target method (done ++ [u]) none :: stack, { refusal := l'.refusal },
        .argument⟩ := by
    intro after
    rw [← hterm]
    exact hpending.sign .comma Token.noConfusion rfl
  have hblank : ∀ after, Reads ⟨.call outer target method (done ++ [u]) none :: stack,
      { refusal := l'.refusal }, .argument⟩ [' '] after ⟨.call outer target method (done ++ [u])
        none :: stack, { refusal := l'.refusal }, .argument⟩ :=
    fun _ => .blank fun _ _ => Expect.noConfusion
  have harguments := hs outer target method (done ++ [u]) stack l'.refusal .argument rest (.inr rfl)
  rw [List.append_assoc, List.singleton_append] at harguments
  rw [List.append_assoc]
  exact hreads.trans ((hcomma _).trans ((hblank _).trans harguments))

/-- The call of a method of a term. -/
theorem ReadsTerm.call (h : ReadsTerm cs u) {method : String} (hmethod : IsIdentifier method)
    {us : List Term} (hs : ds = [] ∧ us = [] ∨ ReadsArguments ds us) :
    ReadsTerm (cs ++ ('.' :: method.toList ++ ('(' :: (ds ++ [')'])))) (.call u method us) := by
  intro stack l e rest he hrest
  obtain ⟨e', hpending, hreads⟩ := h stack l e
    (('.' :: method.toList ++ ('(' :: (ds ++ [')']))) ++ rest) he (by
      rw [List.append_assoc]
      exact breaks_dot hmethod _)
  have hname : Reads ⟨stack, l, e'⟩ ('.' :: method.toList) (('(' :: (ds ++ [')'])) ++ rest)
      ⟨stack, l, .called u method⟩ :=
    hpending.name hmethod (.of_ne_dot (by decide) (by decide) _)
  have hopen : ∀ after, Reads ⟨stack, l, .called u method⟩ ['('] after
      ⟨.call l u method [] none :: stack, { refusal := some (l.refuseToken ('(' :: after)) },
        .firstArgument⟩ := fun after => .token (IsSign.openGroup.isToken after) rfl
  have harguments : Reads ⟨.call l u method [] none :: stack,
      { refusal := some (l.refuseToken ('(' :: ((ds ++ [')']) ++ rest))) }, .firstArgument⟩
      (ds ++ [')']) rest ⟨stack, l, .suffix (.call u method us)⟩ := by
    rcases hs with ⟨rfl, rfl⟩ | hs
    · exact .token (IsSign.closeGroup.isToken rest) rfl
    · exact hs l u method [] stack _ _ rest (.inl rfl)
  exact ⟨_, .suffix _, hreads.trans (hname.trans ((hopen _).trans harguments))⟩

/-! ### Whole filters -/

/-- The lexemes of a text that is read to its end. -/
theorem Reads.run (h : Reads s cs [] s') {limit : Nat} (hlimit : cs.length ≤ limit) :
    (lexUpTo limit cs).foldlM State.advance s = .ok s' := by
  have hcs := h limit
  rw [List.append_nil] at hcs
  obtain ⟨limit', -, hrun⟩ := hcs hlimit
  have hend : lexUpTo limit' [] = [] := by cases limit' <;> rfl
  rw [hrun, hend]
  rfl

/-- **A filter behind the name of its row is read as its body.** -/
theorem ReadsFilter.readTerm (h : ReadsFilter cs u) :
    readTerm (lex ('x' :: (spaced ['=', '>'] ++ cs))) = .ok (some "x", u) := by
  obtain ⟨l', e', u', hpending, hterm, hreads⟩ :=
    h.fresh .operand (show Breaks [] from trivial) [] none
  have hlexemes : lex ('x' :: (spaced ['=', '>'] ++ cs)) =
      ⟨.word "x", false, 'x' :: (spaced ['=', '>'] ++ cs)⟩ ::
        ⟨.arrow, true, ['=', '>'] ++ ' ' :: cs⟩ :: lexUpTo (cs.length + 3) (' ' :: cs) := by
    have hword : IsToken ['x'] (.word "x") (spaced ['=', '>'] ++ cs) :=
      isToken_word isIdentifier_x (.of_ne_dot (by decide) (by decide) _)
    exact (lexUpTo_token hword (cs.length + 4)).trans rfl
  have hblank : Reads State.start [' '] (cs ++ []) State.start := Reads.operandBlank
  have hlimit : ([' '] ++ cs).length ≤ cs.length + 3 := by simp
  have hrun : (lexUpTo (cs.length + 3) (' ' :: cs)).foldlM State.advance State.start =
      .ok ⟨[], l', e'⟩ := (hblank.trans hreads).run hlimit
  have hsplit : ∀ a b xs, splitRoot (⟨.word "x", false, a⟩ :: ⟨.arrow, true, b⟩ :: xs) =
      (some "x", xs) := fun _ _ _ => rfl
  have hfinish : State.finish ⟨[], l', e'⟩ = .ok u := by
    rw [hpending.finish, hterm]
  rw [hlexemes, Filter.readTerm, hsplit]
  dsimp only
  rw [hrun]
  show State.finish ⟨[], l', e'⟩ >>= (fun t => Except.ok (some "x", t)) = _
  rw [hfinish]
  rfl

end EntitySql.Filter