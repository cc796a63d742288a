import EntitySql.Proofs.Filter.Scope
import EntitySql.Proofs.Filter.Substitution

/-!
# Free parameters

A parameter is free in an expression where no lambda around it binds it. `Expr.freeParameters` lists the
free parameters part by part; they are the ones that stand unbound among all parameters
(`unbound_parametersIn`).

What is left when a value takes the place of a parameter is told by where the parameters stand
(`parametersIn_substitute`): the free ones of its name are gone, and every other one stands where it
stood, under the same lambdas. A value has no parameters of its own, so no lambda can capture one.

**`substitute_laws`** puts what follows for the free parameters beside how substitutions compose.
-/

namespace EntitySql.Expr

/-! ### Definition -/

mutual
/-- The parameters that no lambda of the expression binds, from left to right, each as often as it
stands there. -/
def freeParameters : Expr → List String
  | member _ | constant _ => []
  | parameter p => [p]
  | compare _ l r | and l r | or l r | coalesce l r => freeParameters l ++ freeParameters r
  | not e => freeParameters e
  | call _ target args => freeParameters target ++ freeParametersOf args
  | lambda p body => (freeParameters body).filter (· ≠ p)

/-- The free parameters of the expressions of a list. -/
def freeParametersOf : List Expr → List String
  | [] => []
  | e :: rest => freeParameters e ++ freeParametersOf rest
end

/-! ### Where the parameters stand -/

mutual
/-- What is bound around an expression is bound wherever a parameter stands in it. -/
theorem subset_of_mem_parametersIn {x : String × List String} :
    ∀ (e : Expr) {bound : List String}, x ∈ e.parametersIn bound → bound ⊆ x.2
  | member _, _, h | constant _, _, h => absurd h List.not_mem_nil
  | parameter _, bound, h => by
    obtain rfl := List.mem_singleton.mp h
    exact List.Subset.refl bound
  | compare _ l r, _, h | and l r, _, h | or l r, _, h | coalesce l r, _, h =>
    (List.mem_append.mp h).elim (subset_of_mem_parametersIn l) (subset_of_mem_parametersIn r)
  | not e, _, h => subset_of_mem_parametersIn e h
  | call _ target args, _, h =>
    (List.mem_append.mp h).elim (subset_of_mem_parametersIn target)
      (subset_of_mem_parametersInAll args)
  | lambda p body, _, h => fun _ hq =>
    subset_of_mem_parametersIn body h (List.mem_cons_of_mem p hq)

theorem subset_of_mem_parametersInAll {x : String × List String} :
    ∀ (es : List Expr) {bound : List String}, x ∈ parametersInAll bound es → bound ⊆ x.2
  | [], _, h => absurd h List.not_mem_nil
  | e :: es, _, h =>
    (List.mem_append.mp h).elim (subset_of_mem_parametersIn e) (subset_of_mem_parametersInAll es)
end

mutual
/-- **A value takes the places of its parameter that no lambda binds**; every other parameter stays
where it is, under the same lambdas. -/
theorem parametersIn_substitute {p : String} (v : Value) :
    ∀ (e : Expr) {bound : List String}, p ∉ bound →
      (e.substitute p v).parametersIn bound =
        (e.parametersIn bound).filter fun x => x.1 ≠ p ∨ p ∈ x.2
  | member _, _, _ | constant _, _, _ => rfl
  | parameter q, bound, hp => by
    by_cases hq : q = p
    · rw [substitute, if_pos hq]
      simp [parametersIn, hq, hp]
    · rw [substitute, if_neg hq]
      simp [parametersIn, hq]
  | compare _ l r, _, hp | and l r, _, hp | or l r, _, hp | coalesce l r, _, hp => by
    rw [substitute, parametersIn, parametersIn, parametersIn_substitute v l hp,
      parametersIn_substitute v r hp, List.filter_append]
  | not e, _, hp => by rw [substitute, parametersIn, parametersIn, parametersIn_substitute v e hp]
  | call _ target args, _, hp => by
    rw [substitute, parametersIn, parametersIn, parametersIn_substitute v target hp,
      parametersInAll_substituteAll v args hp, List.filter_append]
  | lambda q body, bound, hp => by
    by_cases hq : q = p
    · -- The lambda binds the parameter wherever it stands in the body.
      have hkept : ∀ x ∈ body.parametersIn (q :: bound), decide (x.1 ≠ p ∨ p ∈ x.2) = true :=
        fun x hx => decide_eq_true
          (.inr (subset_of_mem_parametersIn body hx (hq ▸ List.mem_cons_self)))
      rw [substitute, if_pos hq, parametersIn, List.filter_eq_self.mpr hkept]
    · have hbody : p ∉ q :: bound := fun h => (List.mem_cons.mp h).elim (Ne.symm hq) hp
      rw [substitute, if_neg hq, parametersIn, parametersIn, parametersIn_substitute v body hbody]

theorem parametersInAll_substituteAll {p : String} (v : Value) :
    ∀ (es : List Expr) {bound : List String}, p ∉ bound →
      parametersInAll bound (substituteAll p v es) =
        (parametersInAll bound es).filter fun x => x.1 ≠ p ∨ p ∈ x.2
  | [], _, _ => rfl
  | e :: es, _, hp => by
    rw [substituteAll, parametersInAll, parametersInAll, parametersIn_substitute v e hp,
      parametersInAll_substituteAll v es hp, List.filter_append]
end

/-! ### Free is unbound -/

/-- The parameters that are not bound where they stand. -/
def unbound (xs : List (String × List String)) : List String :=
  (xs.filter fun x => x.1 ∉ x.2).map Prod.fst

theorem unbound_append (xs ys : List (String × List String)) :
    unbound (xs ++ ys) = unbound xs ++ unbound ys := by
  rw [unbound, List.filter_append, List.map_append]
  rfl

/-- Without the unbound ones of a name the others are left. -/
theorem unbound_filter (p : String) (xs : List (String × List String)) :
    unbound (xs.filter fun x => x.1 ≠ p ∨ p ∈ x.2) = (unbound xs).filter (· ≠ p) := by
  simp only [unbound, List.filter_map, List.filter_filter]
  congr 1
  refine List.filter_congr fun x _ => ?_
  by_cases hx : x.1 = p <;> simp [hx]

theorem notMem_unbound_iff {p : String} {xs : List (String × List String)} :
    p ∉ unbound xs ↔ BoundOf p xs := by
  simp [unbound, BoundOf]

mutual
/-- The free parameters of an expression stand unbound in it, but for those that are bound around it. -/
theorem unbound_parametersIn :
    ∀ (e : Expr) (bound : List String),
      unbound (e.parametersIn bound) = e.freeParameters.filter (· ∉ bound)
  | member _, _ | constant _, _ => rfl
  | parameter p, bound => by
    by_cases hp : p ∈ bound <;> simp [unbound, parametersIn, freeParameters, hp]
  | compare _ l r, bound | and l r, bound | or l r, bound | coalesce l r, bound => by
    rw [parametersIn, freeParameters, unbound_append, unbound_parametersIn l bound,
      unbound_parametersIn r bound, List.filter_append]
  | not e, bound => unbound_parametersIn e bound
  | call _ target args, bound => by
    rw [parametersIn, freeParameters, unbound_append, unbound_parametersIn target bound,
      unbound_parametersInAll args bound, List.filter_append]
  | lambda p body, bound => by
    rw [parametersIn, freeParameters, unbound_parametersIn body (p :: bound), List.filter_filter]
    refine List.filter_congr fun q _ => ?_
    simp [Bool.and_comm]

theorem unbound_parametersInAll :
    ∀ (es : List Expr) (bound : List String),
      unbound (parametersInAll bound es) = (freeParametersOf es).filter (· ∉ bound)
  | [], _ => rfl
  | e :: es, bound => by
    rw [parametersInAll, freeParametersOf, unbound_append, unbound_parametersIn e bound,
      unbound_parametersInAll es bound, List.filter_append]
end

theorem unbound_parametersIn_nil (e : Expr) : unbound (e.parametersIn []) = e.freeParameters := by
  simpa using unbound_parametersIn e []

theorem notMem_freeParameters_iff {p : String} {e : Expr} :
    p ∉ e.freeParameters ↔ BoundOf p (e.parametersIn []) := by
  rw [← unbound_parametersIn_nil, notMem_unbound_iff]

/-! ### Substitution -/

variable {e : Expr} {p : String}

theorem freeParameters_substitute (e : Expr) (p : String) (v : Value) :
    (e.substitute p v).freeParameters = e.freeParameters.filter (· ≠ p) := by
  rw [← unbound_parametersIn_nil, parametersIn_substitute v e List.not_mem_nil, unbound_filter,
    unbound_parametersIn_nil]

/-- An expression stays as it is exactly if the parameter is not free in it. -/
theorem substitute_eq_self_iff (v : Value) : e.substitute p v = e ↔ p ∉ e.freeParameters := by
  constructor
  · intro h hp
    rw [← h, freeParameters_substitute] at hp
    exact of_decide_eq_true (List.mem_filter.mp hp).2 rfl
  · intro hp
    exact substitute_of_bound v e List.not_mem_nil (notMem_freeParameters_iff.mp hp)

/-- **How substitution behaves.** A value takes the places of its parameter that no lambda binds, and
every other parameter stays under the lambdas that it stands under. So the free parameters are those of
before without its own, and the expression stays as it is exactly if its own is not one of them. Of two
values for a parameter the first counts, and values for different parameters may be put in place in
either order. -/
theorem substitute_laws (e : Expr) (p q : String) (v w : Value) :
    (e.substitute p v).parametersIn [] =
        (e.parametersIn []).filter (fun x => x.1 ≠ p ∨ p ∈ x.2) ∧
      (e.substitute p v).freeParameters = e.freeParameters.filter (· ≠ p) ∧
      (e.substitute p v = e ↔ p ∉ e.freeParameters) ∧
      (e.substitute p v).substitute p w = e.substitute p v ∧
      (p ≠ q → (e.substitute p v).substitute q w = (e.substitute q w).substitute p v) :=
  ⟨parametersIn_substitute v e List.not_mem_nil, freeParameters_substitute e p v,
    substitute_eq_self_iff v, substitute_self p v w e, fun hpq => substitute_comm hpq v w e⟩

namespace Sample

/-- The name contains `v`, the tag is `"a"` and the rank is `w`. The lambda hides the parameter `v` of
its surroundings. -/
def shadowed : Expr :=
  .and (.call .contains (.member "Name") [.parameter "v"])
    (.and
      (.call .any (.constant (.list [.text "a"]))
        [.lambda "v" (.compare .eq (.member "Tag") (.parameter "v"))])
      (.compare .eq (.member "Rank") (.parameter "w")))

/-- The same with a text for the parameter `v`. -/
def named : Expr := shadowed.substitute "v" (.text "b")

end Sample

theorem substitute_laws_shadowed :
    "v" ≠ "w" ∧ Sample.shadowed.parametersIn [] = [("v", []), ("v", ["v"]), ("w", [])] ∧
      Sample.named.parametersIn [] = [("v", ["v"]), ("w", [])] ∧
      Sample.shadowed.freeParameters = ["v", "w"] ∧ Sample.named.freeParameters = ["w"] ∧
      Sample.shadowed.substitute "u" (.int 1) = Sample.shadowed ∧
      Sample.named.substitute "v" (.int 1) = Sample.named ∧
      Sample.named.substitute "w" (.int 1) =
        (Sample.shadowed.substitute "w" (.int 1)).substitute "v" (.text "b") := by
  obtain ⟨hstand, hfree, -, hself, hcomm⟩ :=
    substitute_laws Sample.shadowed "v" "w" (.text "b") (.int 1)
  obtain ⟨-, -, hunused, -, -⟩ := substitute_laws Sample.shadowed "u" "w" (.int 1) (.int 1)
  exact ⟨by decide, by decide, hstand.trans (by decide), by decide, hfree.trans (by decide),
    hunused.mpr (by decide), hself, hcomm (by decide)⟩

end EntitySql.Expr
