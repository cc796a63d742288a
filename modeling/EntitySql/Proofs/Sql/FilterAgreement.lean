import EntitySql.Proofs.Sql.WhereClause

/-!
# Filters that agree

Two filters agree if they are the same but for the values and declared types in them: the same groups
with the same items in the same order, and conditions on the same columns with the same operators and
flags, where two lists need the same length only (`Group.Agrees`).

The main statement, **`Group.agrees_iff_interchangeable`**, is that the encoding of a shape tells exactly
this: filters agree if and only if they have one shape. Such filters may stand for one another. Their
clauses are the same text in every dialect, whatever names are reserved, and their values are bound
under the same names in the same order.
-/

namespace EntitySql

/-! ### Agreement -/

/-- The conditions are the same but for their values and declared types. -/
def Condition.Agrees (c d : Condition) : Prop :=
  c.field.name = d.field.name ∧ c.operator = d.operator ∧ c.caseSensitive = d.caseSensitive ∧
    (c.operator.isList = true → c.listValues.length = d.listValues.length)

mutual
/-- The predicates are the same but for their values and declared types. -/
def Predicate.Agrees : Predicate → Predicate → Prop
  | .condition c, .condition d => c.Agrees d
  | .group conjunction negated ps, .group conjunction' negated' qs =>
    conjunction = conjunction' ∧ negated = negated' ∧ Predicate.AllAgree ps qs
  | _, _ => False

/-- The lists have as many predicates, which agree one by one. -/
def Predicate.AllAgree : List Predicate → List Predicate → Prop
  | [], [] => True
  | p :: ps, q :: qs => Predicate.Agrees p q ∧ Predicate.AllAgree ps qs
  | _, _ => False
end

/-- The groups are the same but for the values and declared types in them. -/
def Group.Agrees (g h : Group) : Prop := g.toPredicate.Agrees h.toPredicate

/-! ### Agreement and skeletons -/

/-- Conditions agree if nothing but their values tells them apart. -/
theorem Condition.agrees_iff_skeleton {c d : Condition} : c.Agrees d ↔ c.skeleton = d.skeleton := by
  constructor
  · rintro ⟨hname, hoperator, hcase, hlength⟩
    rw [skeleton, skeleton, hname, ← hoperator, hcase]
    split
    · next hlist => rw [hlength hlist]
    · rfl
  · intro h
    have hname : c.skeleton.field.name = d.skeleton.field.name := by rw [h]
    have hoperator : c.skeleton.operator = d.skeleton.operator := by rw [h]
    have hcase : c.skeleton.caseSensitive = d.skeleton.caseSensitive := by rw [h]
    refine ⟨hname, hoperator, hcase, fun hlist => ?_⟩
    rw [← length_listValues_skeleton hlist, h, length_listValues_skeleton (hoperator ▸ hlist)]

mutual
theorem Predicate.agrees_iff_skeleton : ∀ {p q : Predicate}, p.Agrees q ↔ p.skeleton = q.skeleton
  | .condition c, .condition d => by
    rw [Agrees, skeleton, skeleton, Predicate.condition.injEq, Condition.agrees_iff_skeleton]
  | .group _ _ ps, .group _ _ qs => by
    rw [Agrees, skeleton, skeleton, Predicate.group.injEq, allAgree_iff_skeletonOf]
  | .condition _, .group _ _ _ => by simp only [Agrees, skeleton, reduceCtorEq]
  | .group _ _ _, .condition _ => by simp only [Agrees, skeleton, reduceCtorEq]

theorem Predicate.allAgree_iff_skeletonOf :
    ∀ {ps qs : List Predicate}, AllAgree ps qs ↔ skeletonOf ps = skeletonOf qs
  | [], [] => by simp only [AllAgree, skeletonOf]
  | p :: ps, q :: qs => by
    rw [AllAgree, skeletonOf, skeletonOf, List.cons.injEq, agrees_iff_skeleton,
      allAgree_iff_skeletonOf]
  | [], _ :: _ => by simp only [AllAgree, skeletonOf, reduceCtorEq]
  | _ :: _, [] => by simp only [AllAgree, skeletonOf, reduceCtorEq]
end

/-- **Groups have one shape if and only if they agree.** -/
theorem Group.shape_eq_iff_agrees {g h : Group} : g.shape = h.shape ↔ g.Agrees h := by
  obtain ⟨conjunction, negated, ps⟩ := g
  obtain ⟨conjunction', negated', qs⟩ := h
  rw [shape_eq_iff, Agrees, toPredicate, toPredicate, Predicate.agrees_iff_skeleton, skeleton,
    skeleton, Group.mk.injEq, Predicate.skeleton, Predicate.skeleton, Predicate.group.injEq]

instance (g h : Group) : Decidable (g.Agrees h) :=
  decidable_of_iff (g.shape = h.shape) Group.shape_eq_iff_agrees

/-! ### What agreeing filters give -/

/-- Filters of one shape have the same clause. -/
theorem Sql.whereText_eq_of_shape {g h : Group} (heq : g.shape = h.shape) (d : Dialect)
    (reserved : List String) : whereText d (some g) reserved = whereText d (some h) reserved := by
  have hlength : g.items.length = h.items.length := (shapeHead_append_inj heq).2.2.1
  have hempty : g.isEmpty = h.isEmpty := by
    rw [Group.isEmpty, Group.isEmpty, Bool.eq_iff_iff, List.isEmpty_iff_length_eq_zero,
      List.isEmpty_iff_length_eq_zero, hlength]
  rw [whereText, whereText, activeCondition, activeCondition, hempty, ofGroup_eq_of_shape heq]

/-- Filters of one shape bind their values under the same names. -/
theorem Group.map_name_parameters_eq_of_shape {g h : Group} (heq : g.shape = h.shape)
    (reserved : List String) :
    (g.parameters reserved).map BoundParameter.name =
      (h.parameters reserved).map BoundParameter.name := by
  rw [map_name_parameters, map_name_parameters, parameterNames_eq_of_shape heq]

/-- **Filters agree if and only if they have one shape, and then they may stand for one another**: the
clause is the same text in every dialect and with every list of reserved names, and so are the parameter
names of every condition and the names under which the values are bound. -/
theorem Group.agrees_iff_interchangeable (g h : Group) :
    (g.shape = h.shape ↔ g.Agrees h) ∧
      (g.Agrees h → ∀ reserved : List String,
        (∀ d, Sql.whereText d (some g) reserved = Sql.whereText d (some h) reserved) ∧
          g.parameterNames reserved = h.parameterNames reserved ∧
            (g.parameters reserved).map BoundParameter.name =
              (h.parameters reserved).map BoundParameter.name) := by
  refine ⟨shape_eq_iff_agrees, fun hagrees reserved => ?_⟩
  have heq : g.shape = h.shape := shape_eq_iff_agrees.mpr hagrees
  exact ⟨fun d => Sql.whereText_eq_of_shape heq d reserved, parameterNames_eq_of_shape heq reserved,
    map_name_parameters_eq_of_shape heq reserved⟩

namespace Sample

/-- Rows whose age is one of two, and not those of a name. -/
def agesBesides (first second : Int64) (name : String) : Group :=
  .of .and
    [.condition (.make ⟨"Age", some .int32⟩ .inList (.list [.int first, .int second])),
      .group .or true [.condition (.make ⟨"Name", none⟩ .equal (.text name))]]

end Sample

/-- Other ages and another name leave the clause as it is; a third age does not. -/
theorem Group.agrees_iff_interchangeable_ages :
    Sql.whereText .mySql (some (Sample.agesBesides 1 2 "Ada")) ["age_in_0"] =
        Sql.whereText .mySql (some (Sample.agesBesides 30 40 "Grace")) ["age_in_0"] ∧
      ¬(Sample.agesBesides 1 2 "Ada").Agrees
        (.single (.make ⟨"Age", some .int32⟩ .inList (.list [.int 1, .int 2, .int 3]))) := by
  obtain ⟨-, hsame⟩ := agrees_iff_interchangeable (Sample.agesBesides 1 2 "Ada")
    (Sample.agesBesides 30 40 "Grace")
  obtain ⟨hshape, -⟩ := agrees_iff_interchangeable (Sample.agesBesides 1 2 "Ada")
    (.single (.make ⟨"Age", some .int32⟩ .inList (.list [.int 1, .int 2, .int 3])))
  exact ⟨(hsame (by decide) ["age_in_0"]).1 .mySql, fun h => absurd (hshape.mpr h) (by decide)⟩

end EntitySql
