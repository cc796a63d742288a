import EntitySql.Proofs.Predicate.Parameters

/-!
# What the shape of a filter tells

The shape of a filter is an encoding without separators: every predicate begins with a word that tells
conditions and groups apart, and a group says how many items it has. So the shape of a predicate tells
where it ends (**`Predicate.shape_append_inj`**), and two groups have one shape if and only if they are
the same but for their values and declared types (**`Group.shape_eq_iff`**). Filters of one shape have
the same parameter names.
-/

namespace EntitySql

/-! ### Leaving out the values -/

/-- The condition without its value and declared type. Of a list the length stays. -/
def Condition.skeleton (c : Condition) : Condition where
  field := ⟨c.field.name, none⟩
  operator := c.operator
  value := if c.operator.isList then .list (List.replicate c.listValues.length .null) else .null
  caseSensitive := c.caseSensitive

mutual
/-- The predicate without its values. -/
def Predicate.skeleton : Predicate → Predicate
  | .condition c => .condition c.skeleton
  | .group conjunction negated items => .group conjunction negated (Predicate.skeletonOf items)

/-- The predicates without their values. -/
def Predicate.skeletonOf : List Predicate → List Predicate
  | [] => []
  | p :: rest => Predicate.skeleton p :: Predicate.skeletonOf rest
end

/-- The group without its values. -/
def Group.skeleton (g : Group) : Group := { g with items := Predicate.skeletonOf g.items }

theorem Predicate.length_skeletonOf (ps : List Predicate) :
    (Predicate.skeletonOf ps).length = ps.length := by
  induction ps with
  | nil => rfl
  | cons p rest ih => rw [Predicate.skeletonOf, List.length_cons, ih, List.length_cons]

theorem Condition.length_listValues_skeleton {c : Condition} (h : c.operator.isList = true) :
    c.skeleton.listValues.length = c.listValues.length := by
  simp [skeleton, h, listValues]

/-! ### The shape of a skeleton -/

theorem Condition.shape_skeleton (c : Condition) : c.skeleton.shape = c.shape := by
  unfold shape
  cases h : c.operator.isList with
  | true =>
    rw [c.length_listValues_skeleton h]
    simp [skeleton, h]
  | false => simp [skeleton, h]

mutual
theorem Predicate.shape_skeleton : ∀ p : Predicate, p.skeleton.shape = p.shape
  | .condition c => by rw [skeleton, shape, shape, c.shape_skeleton]
  | .group conjunction negated items => by
    rw [skeleton, shape, shape, length_skeletonOf, shapeOf_skeletonOf items]

theorem Predicate.shapeOf_skeletonOf : ∀ ps : List Predicate, shapeOf (skeletonOf ps) = shapeOf ps
  | [] => rfl
  | p :: rest => by
    rw [skeletonOf, shapeOf, shapeOf, shape_skeleton p, shapeOf_skeletonOf rest]
end

/-! ### Reading a shape -/

theorem Operator.ordinal_inj {a b : Operator} (h : a.ordinal = b.ordinal) : a = b := by
  cases a <;> cases b <;> first | rfl | cases h

theorem Conjunction.ordinal_inj {a b : Conjunction} (h : a.ordinal = b.ordinal) : a = b := by
  cases a <;> cases b <;> first | rfl | cases h

theorem flag_inj {a b : Bool} (h : flag a = flag b) : a = b := by
  cases a <;> cases b <;> first | rfl | cases h

theorem shapeHead_append_inj {c d : Conjunction} {m n : Bool} {i j : Nat} {xs ys : List ShapeWord}
    (h : shapeHead c m i ++ xs = shapeHead d n j ++ ys) : c = d ∧ m = n ∧ i = j ∧ xs = ys := by
  simp only [shapeHead, List.cons_append, List.nil_append, List.cons.injEq,
    ShapeWord.number.injEq] at h
  obtain ⟨hconjunction, hnegated, hcount, hrest⟩ := h
  exact ⟨Conjunction.ordinal_inj hconjunction, flag_inj hnegated, hcount, hrest⟩

/-- The shape of a condition tells the condition but for its value, and where it ends. -/
theorem Condition.shape_append_inj {c d : Condition} {xs ys : List ShapeWord}
    (h : c.shape ++ xs = d.shape ++ ys) : c.skeleton = d.skeleton ∧ xs = ys := by
  simp only [shape, List.cons_append, List.nil_append, List.cons.injEq,
    ShapeWord.text.injEq, ShapeWord.number.injEq] at h
  obtain ⟨hname, hoperator, hcase, hrest⟩ := h
  have hoperator := Operator.ordinal_inj hoperator
  have hcase := flag_inj hcase
  rw [skeleton, skeleton, hname, hoperator, hcase]
  rw [hoperator] at hrest
  cases hlist : d.operator.isList with
  | true =>
    simp only [hlist, if_true, List.cons_append, List.nil_append, List.cons.injEq,
      ShapeWord.number.injEq] at hrest
    obtain ⟨hlength, hrest⟩ := hrest
    exact ⟨by rw [hlength], hrest⟩
  | false =>
    rw [hlist] at hrest
    exact ⟨rfl, by simpa using hrest⟩

mutual
/-- **The shape of a predicate tells the predicate but for its values, and where it ends.** -/
theorem Predicate.shape_append_inj : ∀ {p q : Predicate} {xs ys : List ShapeWord},
    p.shape ++ xs = q.shape ++ ys → p.skeleton = q.skeleton ∧ xs = ys
  | .condition c, .condition d, xs, ys, h => by
    rw [shape, shape] at h
    obtain ⟨hskeleton, hrest⟩ := Condition.shape_append_inj (List.cons.inj h).2
    rw [skeleton, skeleton, hskeleton]
    exact ⟨rfl, hrest⟩
  | .condition c, .group _ _ _, xs, ys, h => by
    rw [shape, shape] at h
    cases (List.cons.inj h).1
  | .group _ _ _, .condition d, xs, ys, h => by
    rw [shape, shape] at h
    cases (List.cons.inj h).1
  | .group c m ps, .group d n qs, xs, ys, h => by
    simp only [shape, List.cons_append, List.append_assoc, List.cons.injEq, true_and] at h
    obtain ⟨rfl, rfl, hlength, h⟩ := shapeHead_append_inj h
    obtain ⟨hitems, hrest⟩ := shapeOf_append_inj hlength h
    rw [skeleton, skeleton, hitems]
    exact ⟨rfl, hrest⟩

/-- The shape of as many predicates tells them but for their values, and where they end. -/
theorem Predicate.shapeOf_append_inj : ∀ {ps qs : List Predicate} {xs ys : List ShapeWord},
    ps.length = qs.length → shapeOf ps ++ xs = shapeOf qs ++ ys →
      skeletonOf ps = skeletonOf qs ∧ xs = ys
  | [], [], xs, ys, _, h => ⟨rfl, h⟩
  | [], _ :: _, _, _, hlength, _ => by cases hlength
  | _ :: _, [], _, _, hlength, _ => by cases hlength
  | p :: ps, q :: qs, xs, ys, hlength, h => by
    rw [shapeOf, shapeOf, List.append_assoc, List.append_assoc] at h
    obtain ⟨hfirst, h⟩ := shape_append_inj h
    obtain ⟨hitems, hrest⟩ := shapeOf_append_inj (Nat.succ.inj hlength) h
    rw [skeletonOf, skeletonOf, hfirst, hitems]
    exact ⟨rfl, hrest⟩
end

theorem Group.shape_skeleton (g : Group) : g.skeleton.shape = g.shape := by
  rw [shape, skeleton, Predicate.length_skeletonOf, Predicate.shapeOf_skeletonOf, shape]

/-- **Groups have one shape if and only if they are the same but for their values.** -/
theorem Group.shape_eq_iff {g h : Group} : g.shape = h.shape ↔ g.skeleton = h.skeleton := by
  constructor
  · intro heq
    obtain ⟨hconjunction, hnegated, hlength, hitems⟩ := shapeHead_append_inj heq
    have hitems := (@Predicate.shapeOf_append_inj _ _ [] [] hlength
      (by rw [hitems])).1
    rw [skeleton, skeleton, hconjunction, hnegated, hitems]
  · intro heq
    rw [← g.shape_skeleton, heq, h.shape_skeleton]

/-! ### Parameter names -/

mutual
theorem Predicate.conditions_skeleton :
    ∀ p : Predicate, p.skeleton.conditions = p.conditions.map Condition.skeleton
  | .condition c => rfl
  | .group _ _ items => by
    rw [skeleton, conditions, conditions, conditionsOf_skeletonOf items]

theorem Predicate.conditionsOf_skeletonOf : ∀ ps : List Predicate,
    conditionsOf (skeletonOf ps) = (conditionsOf ps).map Condition.skeleton
  | [] => rfl
  | p :: rest => by
    rw [skeletonOf, conditionsOf, conditionsOf, conditions_skeleton p,
      conditionsOf_skeletonOf rest, List.map_append]
end

theorem Condition.parameterNames_skeleton (used : List String) (c : Condition) :
    c.skeleton.parameterNames used = c.parameterNames used := by
  have hcount : c.skeleton.nameCount = c.nameCount := by
    unfold nameCount
    cases hlist : c.operator.isList with
    | true =>
      rw [c.length_listValues_skeleton hlist]
      simp [skeleton, hlist]
    | false => simp [skeleton, hlist]
  unfold parameterNames
  rw [hcount]
  rfl

theorem conditionNames_skeleton (used : List String) (cs : List Condition) :
    conditionNames used (cs.map Condition.skeleton) = conditionNames used cs := by
  induction cs generalizing used with
  | nil => rfl
  | cons c rest ih =>
    rw [List.map_cons, conditionNames, conditionNames]
    simp only [c.parameterNames_skeleton, ih]

/-- Filters of one shape have the same parameter names. -/
theorem Group.parameterNames_eq_of_shape {g h : Group} (heq : g.shape = h.shape)
    (reserved : List String) : g.parameterNames reserved = h.parameterNames reserved := by
  have hnames : ∀ g : Group, g.skeleton.parameterNames reserved = g.parameterNames reserved := by
    intro g
    rw [parameterNames, conditions, skeleton, Predicate.conditionsOf_skeletonOf,
      conditionNames_skeleton, parameterNames, conditions]
  rw [← hnames g, shape_eq_iff.mp heq, hnames h]

end EntitySql
