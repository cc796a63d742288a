import EntitySql.Predicate.OfExpr

/-!
# Substitution

How putting values in the place of parameters composes. Of two values for one parameter the first
counts, and values for different parameters may be put in place in any order. A list of bindings puts
in all its values at once; under a lambda those of its own parameter are left out, until the lambda is
opened and its parameter becomes one more binding.
-/

namespace EntitySql.Expr

/-! ### Composition -/

mutual

theorem substitute_self (p : String) (v w : Value) :
    ∀ e : Expr, (e.substitute p v).substitute p w = e.substitute p v
  | member _ | constant _ => by simp only [substitute]
  | parameter q => by
    by_cases h : q = p
    · simp only [substitute, if_pos h]
    · simp only [substitute, if_neg h]
  | compare op l r => by simp only [substitute, substitute_self p v w l, substitute_self p v w r]
  | and l r => by simp only [substitute, substitute_self p v w l, substitute_self p v w r]
  | or l r => by simp only [substitute, substitute_self p v w l, substitute_self p v w r]
  | not e => by simp only [substitute, substitute_self p v w e]
  | coalesce e f => by simp only [substitute, substitute_self p v w e, substitute_self p v w f]
  | call m target args => by
    simp only [substitute, substitute_self p v w target, substituteAll_self p v w args]
  | lambda q body => by
    by_cases h : q = p
    · simp only [substitute, if_pos h]
    · simp only [substitute, if_neg h, substitute_self p v w body]

theorem substituteAll_self (p : String) (v w : Value) :
    ∀ es : List Expr, substituteAll p w (substituteAll p v es) = substituteAll p v es
  | [] => rfl
  | e :: rest => by
    simp only [substituteAll, substitute_self p v w e, substituteAll_self p v w rest]

end

mutual

theorem substitute_comm {p q : String} (hpq : p ≠ q) (v w : Value) :
    ∀ e : Expr, (e.substitute p v).substitute q w = (e.substitute q w).substitute p v
  | member _ | constant _ => by simp only [substitute]
  | parameter r => by
    by_cases hp : r = p
    · have hq : r ≠ q := fun h => hpq (hp.symm.trans h)
      simp only [substitute, if_pos hp, if_neg hq]
    · by_cases hq : r = q
      · simp only [substitute, if_neg hp, if_pos hq]
      · simp only [substitute, if_neg hp, if_neg hq]
  | compare op l r => by simp only [substitute, substitute_comm hpq v w l, substitute_comm hpq v w r]
  | and l r => by simp only [substitute, substitute_comm hpq v w l, substitute_comm hpq v w r]
  | or l r => by simp only [substitute, substitute_comm hpq v w l, substitute_comm hpq v w r]
  | not e => by simp only [substitute, substitute_comm hpq v w e]
  | coalesce e f => by simp only [substitute, substitute_comm hpq v w e, substitute_comm hpq v w f]
  | call m target args => by
    simp only [substitute, substitute_comm hpq v w target, substituteAll_comm hpq v w args]
  | lambda r body => by
    by_cases hp : r = p
    · by_cases hq : r = q
      · simp only [substitute, if_pos hp, if_pos hq]
      · simp only [substitute, if_pos hp, if_neg hq]
    · by_cases hq : r = q
      · simp only [substitute, if_neg hp, if_pos hq]
      · simp only [substitute, if_neg hp, if_neg hq, substitute_comm hpq v w body]

theorem substituteAll_comm {p q : String} (hpq : p ≠ q) (v w : Value) :
    ∀ es : List Expr,
      substituteAll q w (substituteAll p v es) = substituteAll p v (substituteAll q w es)
  | [] => rfl
  | e :: rest => by
    simp only [substituteAll, substitute_comm hpq v w e, substituteAll_comm hpq v w rest]

end

/-! ### Size -/

mutual
/-- How many nodes an expression has. -/
def size : Expr → Nat
  | member _ | constant _ | parameter _ => 1
  | compare _ l r | and l r | or l r | coalesce l r => size l + size r + 1
  | not e | lambda _ e => size e + 1
  | call _ target args => size target + sizeAll args + 1

/-- How many nodes the expressions of a list have. -/
def sizeAll : List Expr → Nat
  | [] => 0
  | e :: rest => size e + sizeAll rest
end

mutual

@[simp] theorem size_substitute (p : String) (v : Value) : ∀ e : Expr, (e.substitute p v).size = e.size
  | member _ | constant _ => rfl
  | parameter q => by simp only [substitute]; split <;> rfl
  | compare op l r => by simp only [substitute, size, size_substitute p v l, size_substitute p v r]
  | and l r => by simp only [substitute, size, size_substitute p v l, size_substitute p v r]
  | or l r => by simp only [substitute, size, size_substitute p v l, size_substitute p v r]
  | not e => by simp only [substitute, size, size_substitute p v e]
  | coalesce e f => by simp only [substitute, size, size_substitute p v e, size_substitute p v f]
  | call m target args => by
    simp only [substitute, size, size_substitute p v target, sizeAll_substituteAll p v args]
  | lambda q body => by
    simp only [substitute]
    split
    · rfl
    · simp only [size, size_substitute p v body]

@[simp] theorem sizeAll_substituteAll (p : String) (v : Value) :
    ∀ es : List Expr, sizeAll (substituteAll p v es) = sizeAll es
  | [] => rfl
  | e :: rest => by
    simp only [substituteAll, sizeAll, size_substitute p v e, sizeAll_substituteAll p v rest]

end

/-! ### Bindings -/

variable (b : Bindings)

theorem bind_cons (p : String) (v : Value) (e : Expr) :
    e.bind ((p, v) :: b) = (e.substitute p v).bind b := rfl

/-- Bindings of other parameters than that of a lambda. -/
def without (p : String) : Bindings := b.filter fun (q, _) => q ≠ p

@[simp] theorem bind_member (name : String) : (member name).bind b = member name := by
  induction b with
  | nil => rfl
  | cons pv b ih => rw [bind_cons, substitute, ih]

@[simp] theorem bind_constant (v : Value) : (constant v).bind b = constant v := by
  induction b with
  | nil => rfl
  | cons pv b ih => rw [bind_cons, substitute, ih]

/-- A parameter becomes its innermost value. -/
theorem bind_parameter (p : String) :
    (parameter p).bind b =
      match Bindings.value? b p with
      | some v => constant v
      | none => parameter p := by
  induction b with
  | nil => rfl
  | cons qw b ih =>
    obtain ⟨q, w⟩ := qw
    rw [bind_cons, substitute]
    by_cases h : p = q
    · simp [h, Bindings.value?]
    · have h' : ¬ q = p := fun e => h e.symm
      rw [if_neg h, ih]
      simp [Bindings.value?, h']

@[simp] theorem bind_compare (op : CompareOp) (l r : Expr) :
    (compare op l r).bind b = compare op (l.bind b) (r.bind b) := by
  induction b generalizing l r with
  | nil => rfl
  | cons pv b ih => rw [bind_cons, substitute, ih]; rfl

@[simp] theorem bind_and (l r : Expr) : (and l r).bind b = and (l.bind b) (r.bind b) := by
  induction b generalizing l r with
  | nil => rfl
  | cons pv b ih => rw [bind_cons, substitute, ih]; rfl

@[simp] theorem bind_or (l r : Expr) : (or l r).bind b = or (l.bind b) (r.bind b) := by
  induction b generalizing l r with
  | nil => rfl
  | cons pv b ih => rw [bind_cons, substitute, ih]; rfl

@[simp] theorem bind_not (e : Expr) : (not e).bind b = not (e.bind b) := by
  induction b generalizing e with
  | nil => rfl
  | cons pv b ih => rw [bind_cons, substitute, ih]; rfl

@[simp] theorem bind_coalesce (e f : Expr) :
    (coalesce e f).bind b = coalesce (e.bind b) (f.bind b) := by
  induction b generalizing e f with
  | nil => rfl
  | cons pv b ih => rw [bind_cons, substitute, ih]; rfl

/-- Bindings reach the target and the argument of a call. -/
@[simp] theorem bind_call (m : Method) (target arg : Expr) :
    (call m target [arg]).bind b = call m (target.bind b) [arg.bind b] := by
  induction b generalizing target arg with
  | nil => rfl
  | cons pv b ih => rw [bind_cons, substitute, substituteAll, substituteAll, ih]; rfl

/-- A lambda hides the bindings of its parameter. -/
theorem bind_lambda (p : String) (body : Expr) :
    (lambda p body).bind b = lambda p (body.bind (without b p)) := by
  induction b generalizing body with
  | nil => rfl
  | cons qw b ih =>
    obtain ⟨q, w⟩ := qw
    rw [bind_cons, substitute]
    by_cases h : p = q
    · rw [if_pos h, ih]
      simp [without, h]
    · have h' : ¬ q = p := fun e => h e.symm
      rw [if_neg h, ih]
      simp [without, h', bind_cons]

/-- Opening a lambda makes its parameter the innermost binding. -/
theorem substitute_bind_without (p : String) (v : Value) (body : Expr) :
    (body.bind (without b p)).substitute p v = body.bind ((p, v) :: b) := by
  induction b generalizing body with
  | nil => rfl
  | cons qw b ih =>
    obtain ⟨q, w⟩ := qw
    by_cases h : q = p
    · subst h
      have hw : without ((q, w) :: b) q = without b q := by simp [without]
      rw [hw, ih, bind_cons, bind_cons, bind_cons, substitute_self]
    · have hw : without ((q, w) :: b) p = (q, w) :: without b p := by simp [without, h]
      rw [hw, bind_cons, ih, bind_cons, bind_cons, bind_cons, substitute_comm h]

/-- An expression has a value under bindings exactly if they turn it into a constant. -/
theorem value?_eq_some_iff (e : Expr) (v : Value) : e.value? b = some v ↔ e.bind b = constant v := by
  cases e with
  | constant w => simp [value?]
  | parameter p =>
    rw [bind_parameter, value?]
    cases Bindings.value? b p <;> simp
  | member | compare | and | or | not | coalesce => simp [value?]
  | call m target args =>
    suffices h : ∃ t as, (call m target args).bind b = call m t as by
      obtain ⟨t, as, h⟩ := h
      simp [value?, h]
    induction b generalizing target args with
    | nil => exact ⟨target, args, rfl⟩
    | cons pv b ih => exact ih _ _
  | lambda p body => simp [value?, bind_lambda]

variable {b} in
/-- What has no value under bindings is no constant with them in place. -/
theorem bind_ne_constant {e : Expr} (h : e.value? b = none) (v : Value) : e.bind b ≠ constant v := by
  intro hv
  rw [← value?_eq_some_iff, h] at hv
  cases hv

end EntitySql.Expr
