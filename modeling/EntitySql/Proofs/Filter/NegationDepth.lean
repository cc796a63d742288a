import EntitySql.Proofs.Filter.Nesting
import EntitySql.Proofs.Filter.Reading
import EntitySql.Proofs.Filter.Resolution
import Mathlib.Algebra.BigOperators.Intervals

/-!
# How deep negations are nested

`Expr.negationDepth` is the greatest number of negations on a way from a filter down to one of its parts.
What the reader holds is kept in levels, one for each open bracket: the negations of a level stand right
before its operand, so they are bounded by what the scan leaves for the depth of the brackets
(`Nest.Bounded`), and everything read inside the next bracket is one level further in. `State.Bounded`
says so of all that the reader holds. One step keeps it (`State.Bounded.advance`), and so does a run.

**`negationDepth_read`**: in a filter that is read, the brackets are at most `maxNesting` deep, and the
negations around one another are at most the sum of what every depth of brackets leaves for them.
-/

namespace EntitySql

/-! ### Negations around one another -/

namespace Expr

mutual
/-- The most negations that are met on a way from the whole expression down to a part of it. -/
def negationDepth : Expr → Nat
  | member _ => 0
  | constant _ => 0
  | parameter _ => 0
  | compare _ l r => max (negationDepth l) (negationDepth r)
  | and l r => max (negationDepth l) (negationDepth r)
  | or l r => max (negationDepth l) (negationDepth r)
  | not e => negationDepth e + 1
  | coalesce e f => max (negationDepth e) (negationDepth f)
  | call _ target args => max (negationDepth target) (negationDepthOf args)
  | lambda _ body => negationDepth body

/-- The most negations that are met on a way down from one of the expressions. -/
def negationDepthOf : List Expr → Nat
  | [] => 0
  | e :: rest => max (negationDepth e) (negationDepthOf rest)
end

end Expr

namespace Filter

namespace Term

mutual
/-- The most negations that are met on a way from the whole term down to a part of it. -/
def negationDepth : Term → Nat
  | constant _ => 0
  | identifier _ => 0
  | access target _ => negationDepth target
  | call target _ args => max (negationDepth target) (negationDepthOf args)
  | lambda _ body => negationDepth body
  | compare _ l r => max (negationDepth l) (negationDepth r)
  | and l r => max (negationDepth l) (negationDepth r)
  | or l r => max (negationDepth l) (negationDepth r)
  | not e => negationDepth e + 1
  | coalesce e f => max (negationDepth e) (negationDepth f)

/-- The most negations that are met on a way down from one of the terms. -/
def negationDepthOf : List Term → Nat
  | [] => 0
  | t :: rest => max (negationDepth t) (negationDepthOf rest)
end

theorem negationDepthOf_concat (ts : List Term) (t : Term) :
    negationDepthOf (ts ++ [t]) = max (negationDepthOf ts) t.negationDepth := by
  induction ts with
  | nil => exact Nat.max_comm _ _
  | cons u ts ih => rw [List.cons_append, negationDepthOf, negationDepthOf, ih, max_assoc]

theorem negationDepth_repeat (n : Nat) (t : Term) :
    (Nat.repeat not n t).negationDepth = n + t.negationDepth := by
  induction n with
  | zero => rw [Nat.repeat, Nat.zero_add]
  | succ n ih => rw [Nat.repeat, negationDepth, ih, Nat.succ_add_eq_add_succ, Nat.add_assoc]

mutual
theorem Resolves.negationDepth_eq {root : Option String} :
    ∀ {scope : List String} {t : Term} {e : Expr}, Resolves root scope t e →
      e.negationDepth = t.negationDepth
  | _, _, _, .constant _ => rfl
  | _, _, _, .parameter _ => rfl
  | _, _, _, .property _ _ => rfl
  | _, _, _, .access _ _ _ => rfl
  | _, _, _, .call _ ht ha => congrArg₂ max ht.negationDepth_eq ha.negationDepthOf_eq
  | _, _, _, .lambda h => h.negationDepth_eq
  | _, _, _, .compare _ hl hr => congrArg₂ max hl.negationDepth_eq hr.negationDepth_eq
  | _, _, _, .and hl hr => congrArg₂ max hl.negationDepth_eq hr.negationDepth_eq
  | _, _, _, .or hl hr => congrArg₂ max hl.negationDepth_eq hr.negationDepth_eq
  | _, _, _, .not h => congrArg (· + 1) h.negationDepth_eq
  | _, _, _, .coalesce hl hr => congrArg₂ max hl.negationDepth_eq hr.negationDepth_eq

theorem ResolvesAll.negationDepthOf_eq {root : Option String} :
    ∀ {scope : List String} {ts : List Term} {es : List Expr}, ResolvesAll root scope ts es →
      Expr.negationDepthOf es = negationDepthOf ts
  | _, _, _, .nil => rfl
  | _, _, _, .cons h hs => congrArg₂ max h.negationDepth_eq hs.negationDepthOf_eq
end

/-- Resolving identifiers leaves the negations as they are. -/
theorem negationDepth_resolve {root : Option String} (t : Term) {scope : List String} {e : Expr}
    (h : t.resolve root scope = .ok e) : e.negationDepth = t.negationDepth :=
  (resolves_of_resolve t h).negationDepth_eq

end Term

/-! ### The bound -/

/-- The most negations around one another from `d` open brackets on, if no more than `D` are open
anywhere: within each pair of brackets as many as the scan leaves for it. -/
def negationBound (D d : Nat) : Nat := ∑ k ∈ Finset.Ico d (D + 1), (maxNesting - k)

variable {D d : Nat}

theorem negationBound_eq (h : d ≤ D) :
    negationBound D d = (maxNesting - d) + negationBound D (d + 1) :=
  Finset.sum_eq_sum_Ico_succ_bot (Nat.lt_succ_of_le h) _

/-! ### What the reader holds -/

theorem negationDepth_wordTerm (w : String) : (wordTerm w).negationDepth = 0 := by
  unfold wordTerm
  split
  · rfl
  · split
    · rfl
    · split <;> rfl

theorem negationDepth_argumentTerm (binder : Option String) (t : Term) :
    (argumentTerm binder t).negationDepth = t.negationDepth := by
  cases binder <;> rfl

/-- The negations on a level and in its terms keep to the bound; `d` brackets are open. -/
structure Level.Bounded (D d : Nat) (l : Level) : Prop where
  negations : d + l.negations ≤ maxNesting
  disjunction : ∀ t, l.disjunction = some t → t.negationDepth ≤ negationBound D d
  conjunction : ∀ t, l.conjunction = some t → t.negationDepth ≤ negationBound D d
  comparison : ∀ op t, l.comparison = some (op, t) → t.negationDepth ≤ negationBound D (d + 1)
  fallback : ∀ t start, l.fallback = some (t, start) → t.negationDepth ≤ negationBound D (d + 1)

/-- A level on which nothing was read. -/
theorem Level.bounded_fresh (hd : d ≤ maxNesting) (refusal : Option (List Char)) :
    Level.Bounded D d { refusal := refusal } :=
  ⟨hd, by rintro t ⟨⟩, by rintro t ⟨⟩, by rintro op t ⟨⟩, by rintro t start ⟨⟩⟩

namespace Level.Bounded

variable {l : Level} {t : Term}

theorem depth_le (h : l.Bounded D d) : d ≤ maxNesting := le_trans (Nat.le_add_right _ _) h.negations

theorem operandTerm (h : l.Bounded D d) (ht : t.negationDepth ≤ negationBound D (d + 1)) :
    (l.operandTerm t).negationDepth ≤ negationBound D (d + 1) := by
  unfold Level.operandTerm
  split
  · next v start hfallback => exact max_le (h.fallback v start hfallback) ht
  · exact ht

theorem unaryTerm (h : l.Bounded D d) (hd : d ≤ D)
    (ht : t.negationDepth ≤ negationBound D (d + 1)) :
    (l.unaryTerm t).negationDepth ≤ negationBound D d := by
  have hcompared : ∀ u : Term, u.negationDepth ≤ negationBound D (d + 1) →
      (Nat.repeat Term.not l.negations u).negationDepth ≤ negationBound D d := by
    intro u hu
    have hnegations := h.negations
    rw [Term.negationDepth_repeat, negationBound_eq hd]
    omega
  unfold Level.unaryTerm
  split
  · next op left hcomparison =>
    exact hcompared _ (max_le (h.comparison op left hcomparison) (h.operandTerm ht))
  · exact hcompared _ (h.operandTerm ht)

theorem conjunctionTerm (h : l.Bounded D d) (hd : d ≤ D)
    (ht : t.negationDepth ≤ negationBound D (d + 1)) :
    (l.conjunctionTerm t).negationDepth ≤ negationBound D d := by
  unfold Level.conjunctionTerm
  split
  · next c hconjunction => exact max_le (h.conjunction c hconjunction) (h.unaryTerm hd ht)
  · exact h.unaryTerm hd ht

theorem term (h : l.Bounded D d) (hd : d ≤ D)
    (ht : t.negationDepth ≤ negationBound D (d + 1)) :
    (l.term t).negationDepth ≤ negationBound D d := by
  unfold Level.term
  split
  · next c hdisjunction => exact max_le (h.disjunction c hdisjunction) (h.conjunctionTerm hd ht)
  · exact h.conjunctionTerm hd ht

end Level.Bounded

/-- The levels and terms around the open brackets keep to the bound. -/
def FramesBounded (D : Nat) : List Frame → Prop
  | [] => True
  | .group outer :: stack => outer.Bounded D stack.length ∧ FramesBounded D stack
  | .call outer target _ done _ :: stack =>
    outer.Bounded D stack.length ∧ target.negationDepth ≤ negationBound D (stack.length + 1) ∧
      Term.negationDepthOf done ≤ negationBound D (stack.length + 1) ∧ FramesBounded D stack

/-- What the reader expects at a place, with `d` brackets open. Where a negation may follow, those of the
level stand right before the place. -/
def Expect.Bounded (D : Nat) (n : Nest) (d : Nat) (l : Level) : Expect → Prop
  | .operand => n.depth = d ∧ (l.atUnary = true → l.negations ≤ n.negations)
  | .suffix t | .member t _ | .called t _ =>
    n.depth = d ∧ t.negationDepth ≤ negationBound D (d + 1)
  | .firstArgument | .argument | .argumentWord _ => n.depth = d ∧ l.negations = 0
  | .firstItem _ | .item _ _ | .afterItem _ _ => n.depth = d + 1

/-- All that the reader holds at a place keeps to the bound. -/
structure State.Bounded (D : Nat) (n : Nest) (s : State) : Prop where
  frames : FramesBounded D s.stack
  level : s.level.Bounded D s.stack.length
  expect : s.expect.Bounded D n s.stack.length s.level

/-! ### One step -/

/-- The place is one that the scan allows, in brackets that are at most `D` deep. -/
structure Nest.Allowed (D : Nat) (n : Nest) : Prop where
  depth : n.depth ≤ D
  bounded : n.Bounded

/-- The reader is between the brackets of its level, and of no list. -/
structure Within (D : Nat) (n : Nest) (stack : List Frame) (l : Level) : Prop where
  frames : FramesBounded D stack
  level : l.Bounded D stack.length
  depth : n.depth = stack.length
  allowed : n.Allowed D

namespace Within

variable {n : Nest} {stack : List Frame} {l : Level} {e : Expect} {t : Term} {x : Lexeme} {s : State}

theorem length_le (h : Within D n stack l) : stack.length ≤ D := h.depth ▸ h.allowed.depth

theorem suffix (h : Within D n stack l) (ht : t.negationDepth ≤ negationBound D (stack.length + 1))
    (k : Nat) : State.Bounded D ⟨n.depth, k⟩ ⟨stack, l, .suffix t⟩ :=
  ⟨h.frames, h.level, h.depth, ht⟩

/-- The start of an operand. A negation is one more right before the next place. -/
theorem advance_operand (h : Within D n stack l)
    (hnegations : l.atUnary = true → l.negations ≤ n.negations)
    (hnext : (n.after x.token).Allowed D) (hs : State.operand ⟨stack, l, e⟩ x = .ok s) :
    s.Bounded D (n.after x.token) := by
  have hdepth := h.depth
  obtain ⟨token, spaced, start⟩ := x
  cases token with
  | openGroup =>
    cases hs
    have hbounded : n.depth + 1 ≤ maxNesting := hnext.bounded
    refine ⟨⟨h.level, h.frames⟩, Level.bounded_fresh ?_ _, ?_, fun _ => Nat.zero_le _⟩
    · rw [List.length_cons, ← hdepth]
      exact hbounded
    · exact congrArg (· + 1) hdepth
  | openList =>
    cases hs
    exact ⟨h.frames, h.level, congrArg (· + 1) hdepth⟩
  | bang =>
    unfold State.operand at hs
    dsimp only at hs
    split at hs
    · next hunary =>
      cases hs
      have hbounded : n.depth + (n.negations + 1) ≤ maxNesting := hnext.bounded
      have hnegations := hnegations hunary
      refine ⟨h.frames, ⟨?_, h.level.disjunction, h.level.conjunction, h.level.comparison,
        h.level.fallback⟩, hdepth, fun _ => Nat.succ_le_succ hnegations⟩
      show stack.length + (l.negations + 1) ≤ maxNesting
      omega
    · cases hs
  | word w =>
    cases hs
    exact h.suffix ((negationDepth_wordTerm w).trans_le (Nat.zero_le _)) 0
  | text | integer | real =>
    cases hs
    exact h.suffix (Nat.zero_le _) 0
  | _ => cases hs

/-- The end of a bracket: what is read in it is a term of the level around it. -/
theorem close (h : Within D n stack l) (ht : t.negationDepth ≤ negationBound D (stack.length + 1))
    (hs : State.close ⟨stack, l, e⟩ t x = .ok s) : s.Bounded D ⟨n.depth - 1, 0⟩ := by
  have hterm := h.level.term h.length_le ht
  obtain ⟨hframes, -, hdepth, -⟩ := h
  unfold State.close at hs
  split at hs
  · cases hs
  · next outer rest hstack =>
    cases hs
    obtain rfl : stack = _ := hstack
    exact ⟨hframes.2, hframes.1, congrArg (· - 1) hdepth, hterm⟩
  · next outer target method done binder rest hstack =>
    cases hs
    obtain rfl : stack = _ := hstack
    obtain ⟨houter, htarget, hdone, hrest⟩ := hframes
    refine ⟨hrest, houter, congrArg (· - 1) hdepth, max_le htarget ?_⟩
    rw [Term.negationDepthOf_concat, negationDepth_argumentTerm]
    exact max_le hdone hterm

theorem nextArgument (h : Within D n stack l)
    (ht : t.negationDepth ≤ negationBound D (stack.length + 1))
    (hs : State.nextArgument ⟨stack, l, e⟩ t x = .ok s) : s.Bounded D ⟨n.depth, 0⟩ := by
  have hterm := h.level.term h.length_le ht
  obtain ⟨hframes, hlevel, hdepth, -⟩ := h
  unfold State.nextArgument at hs
  split at hs
  · next outer target method done binder rest hstack =>
    cases hs
    obtain rfl : stack = _ := hstack
    obtain ⟨houter, htarget, hdone, hrest⟩ := hframes
    refine ⟨⟨houter, htarget, ?_, hrest⟩, Level.bounded_fresh hlevel.depth_le _, hdepth, rfl⟩
    rw [Term.negationDepthOf_concat, negationDepth_argumentTerm]
    exact max_le hdone hterm
  · cases hs

/-- What follows a term. -/
theorem advance_suffix (h : Within D n stack l)
    (ht : t.negationDepth ≤ negationBound D (stack.length + 1))
    (hs : State.suffix ⟨stack, l, e⟩ t x = .ok s) : s.Bounded D (n.after x.token) := by
  obtain ⟨hframes, hlevel, hdepth, -⟩ := id h
  obtain ⟨token, spaced, start⟩ := x
  cases token with
  | dot =>
    cases hs
    exact ⟨hframes, hlevel, hdepth, ht⟩
  | fallback =>
    unfold State.suffix at hs
    dsimp only at hs
    split at hs
    · cases hs
    · cases hs
      refine ⟨hframes, ⟨hlevel.negations, hlevel.disjunction, hlevel.conjunction,
        hlevel.comparison, ?_⟩, hdepth, fun hunary => by simp [Level.atUnary] at hunary⟩
      rintro u start ⟨⟩
      exact ht
  | conjoin =>
    cases hs
    have hfresh := Level.bounded_fresh (D := D) hlevel.depth_le none
    refine ⟨hframes, ⟨hfresh.negations, hlevel.disjunction, ?_, hfresh.comparison,
      hfresh.fallback⟩, hdepth, fun _ => Nat.zero_le _⟩
    rintro u ⟨⟩
    exact hlevel.conjunctionTerm h.length_le ht
  | disjoin =>
    cases hs
    have hfresh := Level.bounded_fresh (D := D) hlevel.depth_le none
    refine ⟨hframes, ⟨hfresh.negations, ?_, hfresh.conjunction, hfresh.comparison,
      hfresh.fallback⟩, hdepth, fun _ => Nat.zero_le _⟩
    rintro u ⟨⟩
    exact hlevel.term h.length_le ht
  | closeGroup => exact h.close ht hs
  | comma => exact h.nextArgument ht hs
  | equal | notEqual | greaterOrEqual | lessOrEqual | greater | less =>
    unfold State.suffix at hs
    dsimp only [compareOp?] at hs
    split at hs
    · cases hs
    · cases hs
      refine ⟨hframes, ⟨hlevel.negations, hlevel.disjunction, hlevel.conjunction, ?_, ?_⟩, hdepth,
        fun hunary => by simp [Level.atUnary] at hunary⟩
      · rintro op u ⟨⟩
        exact hlevel.operandTerm ht
      · rintro u start ⟨⟩
  | _ => cases hs

/-- What follows a member: a bracket makes it a call. -/
theorem advance_called (h : Within D n stack l)
    (ht : t.negationDepth ≤ negationBound D (stack.length + 1)) {name : String}
    (hnext : (n.after x.token).Allowed D) (hs : State.called ⟨stack, l, e⟩ t name x = .ok s) :
    s.Bounded D (n.after x.token) := by
  unfold State.called at hs
  split at hs
  · next hopen =>
    cases hs
    rw [hopen] at hnext ⊢
    have hbounded : n.depth + 1 ≤ maxNesting := hnext.bounded
    refine ⟨⟨h.level, ht, Nat.zero_le _, h.frames⟩, Level.bounded_fresh ?_ _, ?_, rfl⟩
    · rw [List.length_cons, ← h.depth]
      exact hbounded
    · exact congrArg (· + 1) h.depth
  · exact h.advance_suffix (t := .access t name) ht hs

/-- The start of an argument. -/
theorem advance_argument (h : Within D n stack l) (hnegations : l.negations = 0)
    (hnext : (n.after x.token).Allowed D) (hs : State.argument ⟨stack, l, e⟩ x = .ok s) :
    s.Bounded D (n.after x.token) := by
  unfold State.argument at hs
  split at hs
  · next w hword =>
    cases hs
    rw [hword]
    exact ⟨h.frames, h.level, h.depth, hnegations⟩
  · exact h.advance_operand (fun _ => hnegations.trans_le (Nat.zero_le _)) hnext hs

theorem advance_firstArgument (h : Within D n stack l) (hnegations : l.negations = 0)
    (hnext : (n.after x.token).Allowed D) (hs : State.firstArgument ⟨stack, l, e⟩ x = .ok s) :
    s.Bounded D (n.after x.token) := by
  unfold State.firstArgument at hs
  split at hs
  · next outer target method done binder rest hclose hstack =>
    cases hs
    obtain rfl : stack = _ := hstack
    obtain ⟨houter, htarget, -, hrest⟩ := h.frames
    rw [hclose]
    exact ⟨hrest, houter, congrArg (· - 1) h.depth, max_le htarget (Nat.zero_le _)⟩
  · exact h.advance_argument hnegations hnext hs

/-- What follows a word in the place of an argument: an arrow makes it a parameter. -/
theorem advance_argumentWord (h : Within D n stack l) (hnegations : l.negations = 0) {w : String}
    (hs : State.argumentWord ⟨stack, l, e⟩ w x = .ok s) : s.Bounded D (n.after x.token) := by
  unfold State.argumentWord at hs
  split at hs
  · next outer target method done binder rest harrow hstack =>
    cases hs
    obtain rfl : stack = _ := hstack
    rw [harrow]
    exact ⟨h.frames, h.level, h.depth, fun _ => hnegations.le⟩
  · exact h.advance_suffix ((negationDepth_wordTerm w).trans_le (Nat.zero_le _)) hs

end Within

namespace State.Bounded

variable {n : Nest} {s s' : State} {x : Lexeme}

/-- An item of a list. -/
theorem advance_item {stack : List Frame} {l : Level} {e : Expect} (hframes : FramesBounded D stack)
    (hlevel : l.Bounded D stack.length) (hdepth : n.depth = stack.length + 1)
    {refusal : List Char} {done : List Value} (hs : item ⟨stack, l, e⟩ refusal done x = .ok s') :
    s'.Bounded D (n.after x.token) := by
  unfold item at hs
  split at hs
  · next v hliteral =>
    cases hs
    have htoken : x.token ∉ nestingTokens := by
      intro hmem
      simp only [nestingTokens, List.mem_cons, List.not_mem_nil, or_false] at hmem
      rcases hmem with h | h | h | h | h <;> rw [h] at hliteral <;> cases hliteral
    rw [Nest.after_of_notMem htoken]
    exact ⟨hframes, hlevel, hdepth⟩
  · cases hs

/-- **One step keeps to the bound**, from a place that the scan allows to the next. -/
theorem advance (h : s.Bounded D n) (hn : n.Allowed D) (hnext : (n.after x.token).Allowed D)
    (hs : s.advance x = .ok s') : s'.Bounded D (n.after x.token) := by
  obtain ⟨stack, l, e⟩ := s
  obtain ⟨hframes, hlevel, hexpect⟩ := h
  have hwithin : n.depth = stack.length → Within D n stack l :=
    fun hdepth => ⟨hframes, hlevel, hdepth, hn⟩
  cases e with
  | operand => exact (hwithin hexpect.1).advance_operand hexpect.2 hnext hs
  | suffix t => exact (hwithin hexpect.1).advance_suffix hexpect.2 hs
  | member t after =>
    unfold State.advance at hs
    dsimp only at hs
    split at hs
    · next name hname _ =>
      cases hs
      rw [hname]
      exact ⟨hframes, hlevel, hexpect⟩
    · cases hs
  | called t name => exact (hwithin hexpect.1).advance_called hexpect.2 hnext hs
  | firstArgument => exact (hwithin hexpect.1).advance_firstArgument hexpect.2 hnext hs
  | argument => exact (hwithin hexpect.1).advance_argument hexpect.2 hnext hs
  | argumentWord w => exact (hwithin hexpect.1).advance_argumentWord hexpect.2 hs
  | firstItem refusal =>
    unfold State.advance at hs
    dsimp only at hs
    split at hs
    · next hclose =>
      cases hs
      rw [hclose]
      exact ⟨hframes, hlevel, congrArg (· - 1) hexpect, Nat.zero_le _⟩
    · exact advance_item hframes hlevel hexpect hs
  | item refusal done => exact advance_item hframes hlevel hexpect hs
  | afterItem refusal done =>
    unfold State.advance at hs
    dsimp only at hs
    split at hs
    · next hcomma =>
      cases hs
      rw [hcomma]
      exact ⟨hframes, hlevel, hexpect⟩
    · next hclose =>
      cases hs
      rw [hclose]
      exact ⟨hframes, hlevel, congrArg (· - 1) hexpect, Nat.zero_le _⟩
    · cases hs

/-- **A run keeps to the bound** if the scan allows all places on its way. -/
theorem run {xs : List Lexeme} (h : s.Bounded D n) (hn : ∀ m ∈ nestsFrom n xs, m.Allowed D)
    (hs : xs.foldlM State.advance s = .ok s') : ∃ m : Nest, s'.Bounded D m := by
  induction xs generalizing s n with
  | nil =>
    cases hs
    exact ⟨n, h⟩
  | cons x xs ih =>
    rw [List.foldlM_cons] at hs
    obtain ⟨u, hu, hs⟩ := bind_eq_ok_iff.mp hs
    rw [nestsFrom_cons] at hn
    obtain ⟨hhere, hrest⟩ := List.forall_mem_cons.mp hn
    have hnext : (n.after x.token).Allowed D := hrest _ (by cases xs <;> simp)
    exact ih (h.advance hhere hnext hu) hrest hs

theorem start (D : Nat) : State.start.Bounded D ⟨0, 0⟩ :=
  ⟨trivial, Level.bounded_fresh (Nat.zero_le _) none, rfl, fun _ => le_rfl⟩

theorem finish (h : s.Bounded D n) {t : Term} (hs : s.finish = .ok t) :
    t.negationDepth ≤ negationBound D 0 := by
  obtain ⟨stack, l, e⟩ := s
  obtain ⟨-, hlevel, hexpect⟩ := h
  cases stack with
  | cons => cases e <;> cases hs
  | nil =>
    have hterm {u : Term} (hu : u.negationDepth ≤ negationBound D 1) :
        (l.term u).negationDepth ≤ negationBound D 0 := hlevel.term (Nat.zero_le D) hu
    cases e with
    | suffix u =>
      cases hs
      exact hterm hexpect.2
    | called u name =>
      cases hs
      exact hterm hexpect.2
    | argumentWord w =>
      cases hs
      exact hterm ((negationDepth_wordTerm w).trans_le (Nat.zero_le _))
    | _ => cases hs

end State.Bounded

/-! ### Whole filters -/

theorem splitRoot_spec {xs rest : List Lexeme} {root : Option String}
    (h : splitRoot xs = (root, rest)) {m : Nest} (hm : m ∈ nestsFrom ⟨0, 0⟩ rest) :
    m ∈ nestsFrom ⟨0, 0⟩ xs := by
  unfold splitRoot at h
  split at h
  · cases h
    rw [nestsFrom_cons, nestsFrom_cons]
    exact List.mem_cons_of_mem _ (List.mem_cons_of_mem _ hm)
  · cases h
    exact hm

/-- **The negations of a filter keep to the bound of its brackets.** -/
theorem negationDepth_read {text : String} {e : Expr} (h : read text = .ok e) :
    bracketDepth text ≤ maxNesting ∧
      e.negationDepth ≤ ∑ k ∈ Finset.range (bracketDepth text + 1), (maxNesting - k) := by
  obtain ⟨hscan, root, t, hread, hresolve⟩ := read_eq_ok_iff.mp h
  have hbounded := nests_bounded hscan
  refine ⟨bracketDepth_le_iff.mpr fun m hm => le_trans (Nat.le_add_right _ _) (hbounded m hm), ?_⟩
  obtain ⟨s, hrun, hread⟩ := bind_eq_ok_iff.mp hread
  obtain ⟨u, hfinish, hread⟩ := bind_eq_ok_iff.mp hread
  cases hread
  have hallowed : ∀ m ∈ nestsFrom ⟨0, 0⟩ (splitRoot (lex text.toList)).2,
      m.Allowed (bracketDepth text) := by
    intro m hm
    have hm := splitRoot_spec rfl hm
    exact ⟨bracketDepth_le_iff.mp le_rfl m hm, hbounded m hm⟩
  obtain ⟨m, hend⟩ := (State.Bounded.start _).run hallowed hrun
  rw [Term.negationDepth_resolve t hresolve, Finset.range_eq_Ico]
  exact hend.finish hfinish

end Filter

end EntitySql
