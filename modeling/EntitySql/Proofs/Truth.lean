/-!
# Three-valued truth

A condition over a row that has nulls may hold, fail or be unknown. The connectives are those of
Kleene, which is how a database reads `NOT`, `AND` and `OR`: `and` is the least and `or` the greatest
of the two sides when *fails* stands below *unknown* and *unknown* below *holds*.
-/

namespace EntitySql

/-- What a condition says of a row. -/
inductive Truth where
  | fails
  | unknown
  | holds
deriving DecidableEq, Repr

namespace Truth

/-- A plain truth value. -/
def ofBool (b : Bool) : Truth := if b then holds else fails

/-- The complement. -/
def not : Truth → Truth
  | fails => holds
  | unknown => unknown
  | holds => fails

/-- The lesser of two. -/
def and : Truth → Truth → Truth
  | fails, _ => fails
  | _, fails => fails
  | holds, t => t
  | unknown, _ => unknown

/-- The greater of two. -/
def or : Truth → Truth → Truth
  | holds, _ => holds
  | _, holds => holds
  | fails, t => t
  | unknown, _ => unknown

/-- The conjunction of a list; that of nothing holds. -/
def all (ts : List Truth) : Truth := ts.foldr and holds

/-- The disjunction of a list; that of nothing fails. -/
def any (ts : List Truth) : Truth := ts.foldr or fails

/-! ### Laws -/

@[simp] theorem not_not (t : Truth) : t.not.not = t := by cases t <;> rfl

@[simp] theorem not_ofBool (b : Bool) : (ofBool b).not = ofBool (!b) := by cases b <;> rfl

@[simp] theorem and_holds (t : Truth) : t.and holds = t := by cases t <;> rfl

@[simp] theorem holds_and (t : Truth) : holds.and t = t := by cases t <;> rfl

@[simp] theorem or_fails (t : Truth) : t.or fails = t := by cases t <;> rfl

@[simp] theorem fails_or (t : Truth) : fails.or t = t := by cases t <;> rfl

@[simp] theorem or_holds (t : Truth) : t.or holds = holds := by cases t <;> rfl

theorem and_assoc (s t u : Truth) : (s.and t).and u = s.and (t.and u) := by
  cases s <;> cases t <;> cases u <;> rfl

theorem or_assoc (s t u : Truth) : (s.or t).or u = s.or (t.or u) := by
  cases s <;> cases t <;> cases u <;> rfl

@[simp] theorem all_nil : all [] = holds := rfl

@[simp] theorem all_cons (t : Truth) (ts : List Truth) : all (t :: ts) = t.and (all ts) := rfl

@[simp] theorem any_nil : any [] = fails := rfl

@[simp] theorem any_cons (t : Truth) (ts : List Truth) : any (t :: ts) = t.or (any ts) := rfl

theorem all_append (ts us : List Truth) : all (ts ++ us) = (all ts).and (all us) := by
  induction ts with
  | nil => rw [List.nil_append, all_nil, holds_and]
  | cons t ts ih => rw [List.cons_append, all_cons, all_cons, ih, and_assoc]

theorem any_append (ts us : List Truth) : any (ts ++ us) = (any ts).or (any us) := by
  induction ts with
  | nil => rw [List.nil_append, any_nil, fails_or]
  | cons t ts ih => rw [List.cons_append, any_cons, any_cons, ih, or_assoc]

end Truth

end EntitySql
