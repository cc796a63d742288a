import EntitySql.Proofs.Filter.Resolution

/-!
# Parameters and the lambdas around them

A parameter of a filter stands for what a lambda around it binds. `Expr.parametersIn` lists the parameters
of an expression, each with the names that are bound where it stands, and an expression is `Closed` if
each of them is among those names. Putting a value in the place of a parameter changes only those that no
lambda binds (`Expr.substitute_of_bound`), so it leaves a closed expression as it is.

The scope that resolving hands down holds the names that are bound at that point, no more and no less
(`Filter.Term.Resolves.bound`). So **`read_closed`**: every filter that is read is closed, with or without
a name for its row, and however its lambdas hide one another's parameters.
-/

namespace EntitySql

namespace Expr

mutual
/-- The parameters in an expression from left to right, each with the names that the lambdas around it
bind, the innermost first. `bound` are the names that are bound around the expression itself. -/
def parametersIn (bound : List String) : Expr → List (String × List String)
  | member _ => []
  | constant _ => []
  | parameter p => [(p, bound)]
  | compare _ l r => parametersIn bound l ++ parametersIn bound r
  | and l r => parametersIn bound l ++ parametersIn bound r
  | or l r => parametersIn bound l ++ parametersIn bound r
  | not e => parametersIn bound e
  | coalesce e f => parametersIn bound e ++ parametersIn bound f
  | call _ target args => parametersIn bound target ++ parametersInAll bound args
  | lambda p body => parametersIn (p :: bound) body

/-- The parameters in the expressions of a list. -/
def parametersInAll (bound : List String) : List Expr → List (String × List String)
  | [] => []
  | e :: rest => parametersIn bound e ++ parametersInAll bound rest
end

/-- Every parameter is bound where it stands. -/
def Bound (xs : List (String × List String)) : Prop := ∀ x ∈ xs, x.1 ∈ x.2

/-- Every parameter of the expression stands inside a lambda that binds it. -/
def Closed (e : Expr) : Prop := Bound (e.parametersIn [])

instance (e : Expr) : Decidable e.Closed := inferInstanceAs (Decidable (∀ x ∈ _, _))

/-! ### Substitution -/

/-- Wherever the parameter stands it is bound. -/
def BoundOf (p : String) (xs : List (String × List String)) : Prop :=
  ∀ names, (p, names) ∈ xs → p ∈ names

theorem Bound.append {xs ys : List (String × List String)} (hx : Bound xs) (hy : Bound ys) :
    Bound (xs ++ ys) := List.forall_mem_append.mpr ⟨hx, hy⟩

theorem Bound.boundOf {xs : List (String × List String)} (h : Bound xs) (p : String) : BoundOf p xs :=
  fun names hmem => h (p, names) hmem

theorem boundOf_append {p : String} {xs ys : List (String × List String)}
    (h : BoundOf p (xs ++ ys)) : BoundOf p xs ∧ BoundOf p ys :=
  ⟨fun names hmem => h names (List.mem_append_left _ hmem),
    fun names hmem => h names (List.mem_append_right _ hmem)⟩

mutual
/-- A parameter that the lambdas of the expression bind wherever it stands is not replaced. -/
theorem substitute_of_bound {p : String} (v : Value) :
    ∀ (e : Expr) {bound : List String}, p ∉ bound → BoundOf p (e.parametersIn bound) →
      e.substitute p v = e
  | member _, _, _, _ => rfl
  | constant _, _, _, _ => rfl
  | parameter q, bound, hp, h => by
    have hq : q ≠ p := by
      rintro rfl
      exact hp (h bound List.mem_cons_self)
    rw [substitute, if_neg hq]
  | compare op l r, _, hp, h => by
    obtain ⟨hl, hr⟩ := boundOf_append h
    rw [substitute, substitute_of_bound v l hp hl, substitute_of_bound v r hp hr]
  | and l r, _, hp, h => by
    obtain ⟨hl, hr⟩ := boundOf_append h
    rw [substitute, substitute_of_bound v l hp hl, substitute_of_bound v r hp hr]
  | or l r, _, hp, h => by
    obtain ⟨hl, hr⟩ := boundOf_append h
    rw [substitute, substitute_of_bound v l hp hl, substitute_of_bound v r hp hr]
  | not e, _, hp, h => by rw [substitute, substitute_of_bound v e hp h]
  | coalesce e f, _, hp, h => by
    obtain ⟨he, hf⟩ := boundOf_append h
    rw [substitute, substitute_of_bound v e hp he, substitute_of_bound v f hp hf]
  | call m target args, _, hp, h => by
    obtain ⟨ht, ha⟩ := boundOf_append h
    rw [substitute, substitute_of_bound v target hp ht, substituteAll_of_bound v args hp ha]
  | lambda q body, bound, hp, h => by
    by_cases hq : q = p
    · rw [substitute, if_pos hq]
    · have hbody : p ∉ q :: bound := by
        rw [List.mem_cons, not_or]
        exact ⟨Ne.symm hq, hp⟩
      rw [substitute, if_neg hq, substitute_of_bound v body hbody h]

theorem substituteAll_of_bound {p : String} (v : Value) :
    ∀ (es : List Expr) {bound : List String}, p ∉ bound → BoundOf p (parametersInAll bound es) →
      substituteAll p v es = es
  | [], _, _, _ => rfl
  | e :: es, _, hp, h => by
    obtain ⟨he, hes⟩ := boundOf_append h
    rw [substituteAll, substitute_of_bound v e hp he, substituteAll_of_bound v es hp hes]
end

/-- **In a closed expression no parameter is replaced.** -/
theorem Closed.substitute_eq {e : Expr} (h : e.Closed) (p : String) (v : Value) :
    e.substitute p v = e :=
  substitute_of_bound v e List.not_mem_nil (h.boundOf p)

end Expr

namespace Filter

/-! ### What is read is closed -/

namespace Term

mutual
/-- The scope holds the names that are bound where the term stands. -/
theorem Resolves.bound {root : Option String} :
    ∀ {scope : List String} {t : Term} {e : Expr}, Resolves root scope t e →
      Expr.Bound (e.parametersIn scope)
  | _, _, _, .constant _ => List.forall_mem_nil _
  | _, _, _, .parameter h => List.forall_mem_singleton.mpr h
  | _, _, _, .property _ _ => List.forall_mem_nil _
  | _, _, _, .access _ _ _ => List.forall_mem_nil _
  | _, _, _, .call _ ht ha => ht.bound.append ha.bound
  | _, _, _, .lambda h => h.bound
  | _, _, _, .compare _ hl hr => hl.bound.append hr.bound
  | _, _, _, .and hl hr => hl.bound.append hr.bound
  | _, _, _, .or hl hr => hl.bound.append hr.bound
  | _, _, _, .not h => h.bound
  | _, _, _, .coalesce hl hr => hl.bound.append hr.bound

theorem ResolvesAll.bound {root : Option String} :
    ∀ {scope : List String} {ts : List Term} {es : List Expr}, ResolvesAll root scope ts es →
      Expr.Bound (Expr.parametersInAll scope es)
  | _, _, _, .nil => List.forall_mem_nil _
  | _, _, _, .cons h hs => h.bound.append hs.bound
end

end Term

/-- **A filter that is read is closed.** Every parameter in it stands inside a lambda that binds it, and a
value that is put in the place of a parameter, whatever its name, leaves the filter as it is. -/
theorem read_closed {text : String} {e : Expr} (h : read text = .ok e) :
    e.Closed ∧ ∀ (p : String) (v : Value), e.substitute p v = e := by
  obtain ⟨-, root, t, -, hresolve⟩ := read_eq_ok_iff.mp h
  have hclosed : e.Closed := (Term.resolves_of_resolve t hresolve).bound
  exact ⟨hclosed, hclosed.substitute_eq⟩

namespace Sample

/-- The tag is `"a"` and the rank is none of `[1, 2]`. The inner lambda hides the parameter of the outer
one. -/
def hidden : Expr :=
  .call .all (.constant (.list [.int 1, .int 2]))
    [.lambda "v" (.and
      (.call .any (.constant (.list [.text "a"]))
        [.lambda "v" (.compare .eq (.member "Tag") (.parameter "v"))])
      (.compare .ne (.member "Rank") (.parameter "v")))]

end Sample

theorem read_closed_hidden :
    read "x => [1, 2].All(v => [\"a\"].Any(v => x.Tag == v) && x.Rank != v)" = .ok Sample.hidden ∧
      Sample.hidden.parametersIn [] = [("v", ["v", "v"]), ("v", ["v"])] ∧
      Sample.hidden.Closed ∧
      ∀ (p : String) (v : Value), Sample.hidden.substitute p v = Sample.hidden := by
  have h : read "x => [1, 2].All(v => [\"a\"].Any(v => x.Tag == v) && x.Rank != v)" =
      .ok Sample.hidden := by rfl
  exact ⟨h, by decide, read_closed h⟩

end Filter

end EntitySql
