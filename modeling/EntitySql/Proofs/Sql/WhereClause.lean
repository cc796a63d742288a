import EntitySql.Proofs.Predicate.Shape
import EntitySql.Proofs.Sql.SearchCondition

/-!
# The condition of a filter says what the filter says

The writer of a filter hands the names of the parameters on from condition to condition while it goes
through the groups; the binder walks the conditions in a flat list. Both meet at the names: the
placeholders of the condition of a predicate are the names it was handed (`ofPredicate_placeholders`),
and if those have the values of the conditions, the formula of the condition is as true as the
predicate (`ofPredicate_truth`). So **`groupText_faithful`**: the text of a filter, read by a database,
has on every row the verdict of the filter.
-/

namespace EntitySql.Sql

open Text

/-! ### The parts of names -/

theorem splitAtPoints_ne_nil (s : List Char) : splitAtPoints s ≠ [] := by
  cases s with
  | nil => simp [splitAtPoints]
  | cons c rest =>
    unfold splitAtPoints
    split
    · simp
    · split <;> simp

theorem nameParts_ne_nil (name : String) : nameParts name ≠ [] := by
  simp [nameParts, splitAtPoints_ne_nil]

theorem splitAtPoints_eq_splitOn (s : List Char) : splitAtPoints s = s.splitOn '.' := by
  induction s with
  | nil => rfl
  | cons c s ih =>
    rw [splitAtPoints, List.splitOn_cons_eq_if_modifyHead, ← ih]
    by_cases hc : c = '.'
    · rw [if_pos hc, if_pos (beq_iff_eq.mpr hc)]
    · rw [if_neg hc, if_neg fun heq => hc (beq_iff_eq.mp heq)]
      obtain ⟨part, parts, hs⟩ := List.exists_cons_of_ne_nil (splitAtPoints_ne_nil s)
      rw [hs]
      rfl

/-- The parts of a name are what stands between its points, without the blanks around it. -/
theorem nameParts_eq_splitOn (name : String) :
    nameParts name = (name.toList.splitOn '.').map fun part => trim (String.ofList part) := by
  simp [nameParts, splitAtPoints_eq_splitOn, trim]

/-! ### Placeholders -/

theorem placeholders_separated (separator : String) (items : List Fragments) :
    (separated separator items).placeholders = (items.map Fragments.placeholders).flatten := by
  induction items with
  | nil => rfl
  | cons fs rest ih =>
    cases rest with
    | nil => simp [separated]
    | cons gs rest =>
      rw [separated, Fragments.placeholders_append, Fragments.placeholders_text, ih]
      · rfl
      · simp

@[simp] theorem placeholders_pathFragments (parts : List String) :
    (pathFragments parts).placeholders = [] := by
  rw [pathFragments, placeholders_separated, List.map_map]
  simp

theorem placeholders_commaList {α : Type} (f : α → Fragments) (items : List α) :
    (commaList f items).placeholders = items.flatMap fun x => (f x).placeholders := by
  rw [commaList, placeholders_separated, List.map_map, List.flatMap]
  rfl

theorem placeholders_joined (conjunction : Conjunction) (items : List Fragments) :
    (joined conjunction items).placeholders = (items.map Fragments.placeholders).flatten := by
  unfold joined
  split
  · next h => simp [List.isEmpty_iff.mp h]
  · exact placeholders_separated _ items

theorem placeholders_bracketed (outermost negated : Bool) (body : Fragments) :
    (bracketed outermost negated body).placeholders = body.placeholders := by
  cases outermost <;> cases negated <;> simp [bracketed]

theorem placeholders_comparison (op : Operator) (caseSensitive : Bool) (left right : Fragments) :
    (comparison op caseSensitive left right).placeholders =
      left.placeholders ++ right.placeholders := by
  cases caseSensitive <;> simp [comparison, lowered]

theorem placeholders_membershipTest (column : List String) (op : Operator) (ps : List String) :
    (membershipTest column op ps).placeholders = ps := by
  unfold membershipTest
  split
  · next h => simp [List.isEmpty_iff.mp h]
  · simp [placeholders_commaList]

/-- The names have as many values as the conditions. -/
abbrev Named (cs : List Condition) (names : List (List String)) : Prop :=
  List.Forall₂ (fun c names => names.length = c.boundValues.length) cs names

theorem ofCondition_placeholders {c : Condition} {names : List String}
    (h : names.length = c.boundValues.length) (outermost : Bool) :
    (SearchCondition.fragments outermost (.ofCondition c names)).placeholders = names := by
  unfold SearchCondition.ofCondition
  unfold Condition.boundValues at h
  split
  · next hn =>
    rw [if_pos hn] at h
    simp [SearchCondition.fragments, List.eq_nil_of_length_eq_zero h]
  · next hn =>
    rw [if_neg hn] at h
    split
    · simp [SearchCondition.fragments, placeholders_membershipTest]
    · next hl =>
      rw [if_neg hl] at h
      obtain ⟨name, rfl⟩ := List.length_eq_one_iff.mp h
      simp [SearchCondition.fragments, placeholders_comparison]

/-- A condition takes its names off the front of those it is handed. -/
theorem forall₂_append_left {cs ds : List Condition} {names : List (List String)} {r}
    (h : List.Forall₂ r (cs ++ ds) names) :
    ∃ ns ms, names = ns ++ ms ∧ List.Forall₂ r cs ns ∧ List.Forall₂ r ds ms := by
  induction cs generalizing names with
  | nil => exact ⟨[], names, rfl, .nil, h⟩
  | cons c cs ih =>
    obtain ⟨n, rest, hn, hrest, rfl⟩ := List.forall₂_cons_left_iff.mp h
    obtain ⟨ns, ms, rfl, hns, hms⟩ := ih hrest
    exact ⟨n :: ns, ms, rfl, .cons hn hns, hms⟩

mutual
/-- A predicate hands on the names that it does not take. -/
theorem ofPredicate_rest {r : Condition → List String → Prop} :
    ∀ (p : Predicate) {names : List (List String)} (rest : List (List String)),
      List.Forall₂ r p.conditions names → (SearchCondition.ofPredicate (names ++ rest) p).2 = rest
  | .condition c, names, rest, h => by
    obtain ⟨ns, _, -, hnil, rfl⟩ := List.forall₂_cons_left_iff.mp h
    cases hnil
    rfl
  | .group conjunction negated items, names, rest, h => ofPredicates_rest items rest h

theorem ofPredicates_rest {r : Condition → List String → Prop} :
    ∀ (ps : List Predicate) {names : List (List String)} (rest : List (List String)),
      List.Forall₂ r (Predicate.conditionsOf ps) names →
        (SearchCondition.ofPredicates (names ++ rest) ps).2 = rest
  | [], names, rest, h => by
    cases h
    rfl
  | p :: ps, names, rest, h => by
    obtain ⟨ns, ms, rfl, hns, hms⟩ := forall₂_append_left h
    simp only [SearchCondition.ofPredicates]
    rw [List.append_assoc, ofPredicate_rest p (ms ++ rest) hns]
    exact ofPredicates_rest ps rest hms
end

mutual
/-- The placeholders of a predicate are the names it was handed. -/
theorem ofPredicate_placeholders :
    ∀ (p : Predicate) {names : List (List String)} (rest : List (List String)) (outermost : Bool),
      Named p.conditions names →
        ((SearchCondition.ofPredicate (names ++ rest) p).1.fragments outermost).placeholders =
          names.flatten
  | .condition c, names, rest, outermost, h => by
    obtain ⟨ns, _, hns, hnil, rfl⟩ := List.forall₂_cons_left_iff.mp h
    cases hnil
    simp [SearchCondition.ofPredicate, ofCondition_placeholders hns]
  | .group conjunction negated items, names, rest, outermost, h => by
    simp only [SearchCondition.ofPredicate, SearchCondition.fragments, placeholders_bracketed,
      placeholders_joined]
    exact ofPredicates_placeholders items rest h

theorem ofPredicates_placeholders :
    ∀ (ps : List Predicate) {names : List (List String)} (rest : List (List String)),
      Named (Predicate.conditionsOf ps) names →
        ((SearchCondition.fragmentsOf (SearchCondition.ofPredicates (names ++ rest) ps).1).map
          Fragments.placeholders).flatten = names.flatten
  | [], names, rest, h => by
    cases h
    rfl
  | p :: ps, names, rest, h => by
    obtain ⟨ns, ms, rfl, hns, hms⟩ := forall₂_append_left h
    simp only [SearchCondition.ofPredicates, SearchCondition.fragmentsOf, List.map_cons,
      List.flatten_cons, List.flatten_append]
    rw [List.append_assoc, ofPredicate_placeholders p (ms ++ rest) false hns,
      ofPredicate_rest p (ms ++ rest) hns, ofPredicates_placeholders ps rest hms]
end

/-- The placeholders of a filter are the names of its parameters. -/
theorem placeholders_ofGroup (g : Group) (reserved : List String) (outermost : Bool) :
    ((SearchCondition.ofGroup g reserved).fragments outermost).placeholders =
      (g.parameterNames reserved).flatten := by
  have h := ofPredicate_placeholders g.toPredicate [] outermost
    (forall₂_conditionNames (reserved.map lower) g.conditions)
  rwa [List.append_nil] at h

theorem legible_ofGroup (g : Group) (reserved : List String) (outermost : Bool) :
    Fragments.Legible ((SearchCondition.ofGroup g reserved).fragments outermost) := by
  intro p hp
  rw [placeholders_ofGroup] at hp
  exact isNameChar_of_mem_conditionNames hp

/-! ### Truth -/

section Truth

variable {C : Comparisons} {columns : List String → Value} {value : String → Value}

/-- The tests of conditions have a column and an operator of their kind. -/
theorem ofCondition_proper (c : Condition) (names : List String) :
    (SearchCondition.ofCondition c names).Proper := by
  unfold SearchCondition.ofCondition
  split
  · exact ⟨nameParts_ne_nil _, ‹_›⟩
  · next hn =>
    split
    · exact ⟨nameParts_ne_nil _, ‹_›⟩
    · next hl => exact ⟨nameParts_ne_nil _, Bool.eq_false_iff.mpr hn, Bool.eq_false_iff.mpr hl⟩

/-- The test of a column against a list says what the list operator says. -/
theorem membership_truth {c : Condition} {names : List String} (hl : c.operator.isList = true)
    (h : names.map value = c.listValues) :
    (SearchCondition.membership (nameParts c.field.name) c.operator names).formula.truth C columns
        value = c.verdict C.interpretation fun name => columns (nameParts name) := by
  have hempty : names = [] ↔ c.listValues.isEmpty = true := by
    rw [← h, List.isEmpty_iff, List.map_eq_nil_iff]
  rw [SearchCondition.formula]
  by_cases hnames : names = []
  · rw [if_pos hnames, Formula.truth_joinAll]
    have hno := hempty.mp hnames
    unfold Condition.verdict
    cases hop : c.operator with
    | inList | notInList => simp [hno, Conjunction.truth]
    | _ => simp [hop, Operator.isList] at hl
  · rw [if_neg hnames]
    have hsome : c.listValues.isEmpty = false := Bool.eq_false_iff.mpr fun he =>
      hnames (hempty.mpr he)
    unfold Condition.verdict Comparisons.interpretation Comparisons.judge
    cases hop : c.operator with
    | inList | notInList => simp [hsome, Formula.truth, Scalar.value, h]
    | _ => simp [hop, Operator.isList] at hl

/-- The test of a condition is as true as the condition. -/
theorem ofCondition_truth {c : Condition} {names : List String}
    (h : names.map value = c.boundValues) :
    (SearchCondition.ofCondition c names).formula.truth C columns value =
      c.verdict C.interpretation fun name => columns (nameParts name) := by
  unfold SearchCondition.ofCondition
  unfold Condition.boundValues at h
  split
  · obtain ⟨field, op, v, caseSensitive⟩ := c
    cases op with
    | isNull => rfl
    | isNotNull => exact Truth.not_ofBool _
    | _ => contradiction
  · next hn =>
    rw [if_neg hn] at h
    split
    · next hl =>
      rw [if_pos hl] at h
      exact membership_truth hl h
    · next hl =>
      rw [if_neg hl] at h
      obtain ⟨name, rfl, hvalue⟩ := List.map_eq_singleton_iff.mp h
      rw [Condition.verdict_of_scalar (Bool.eq_false_iff.mpr hn) (Bool.eq_false_iff.mpr hl)]
      obtain ⟨field, op, v, caseSensitive⟩ := c
      simp only at hvalue
      subst hvalue
      cases op with
      | isNull | isNotNull => exact absurd rfl hn
      | inList | notInList => exact absurd rfl hl
      | _ => cases caseSensitive <;> rfl

mutual
theorem ofPredicate_proper :
    ∀ (p : Predicate) (names : List (List String)), (SearchCondition.ofPredicate names p).1.Proper
  | .condition c, _ => ofCondition_proper c _
  | .group _ _ items, names => ofPredicates_proper items names

theorem ofPredicates_proper :
    ∀ (ps : List Predicate) (names : List (List String)),
      SearchCondition.AllProper (SearchCondition.ofPredicates names ps).1
  | [], _ => trivial
  | p :: ps, names => ⟨ofPredicate_proper p names, ofPredicates_proper ps _⟩
end

mutual
/-- The condition of a predicate is as true as the predicate. -/
theorem ofPredicate_truth :
    ∀ (p : Predicate) {names : List (List String)} (rest : List (List String)),
      List.Forall₂ (fun c names => names.map value = c.boundValues) p.conditions names →
        (SearchCondition.ofPredicate (names ++ rest) p).1.formula.truth C columns value =
          p.verdict C.interpretation fun name => columns (nameParts name)
  | .condition c, names, rest, h => by
    obtain ⟨ns, _, hns, hnil, rfl⟩ := List.forall₂_cons_left_iff.mp h
    cases hnil
    exact ofCondition_truth hns
  | .group conjunction negated items, names, rest, h => by
    have hitems := ofPredicates_truth items rest h
    simp only [SearchCondition.ofPredicate, SearchCondition.formula, Predicate.verdict,
      Truth.signed, ← hitems]
    cases negated with
    | true =>
      simp only [if_true, Formula.truth]
      rw [Formula.truth_joinAll]
    | false => exact Formula.truth_joinAll C columns value conjunction _

theorem ofPredicates_truth :
    ∀ (ps : List Predicate) {names : List (List String)} (rest : List (List String)),
      List.Forall₂ (fun c names => names.map value = c.boundValues)
          (Predicate.conditionsOf ps) names →
        (SearchCondition.formulas (SearchCondition.ofPredicates (names ++ rest) ps).1).map
            (Formula.truth C columns value) =
          Predicate.verdicts C.interpretation (fun name => columns (nameParts name)) ps
  | [], names, rest, h => rfl
  | p :: ps, names, rest, h => by
    obtain ⟨ns, ms, rfl, hns, hms⟩ := forall₂_append_left h
    simp only [SearchCondition.ofPredicates, SearchCondition.formulas, List.map_cons,
      Predicate.verdicts]
    rw [List.append_assoc, ofPredicate_truth p (ms ++ rest) hns, ofPredicate_rest p (ms ++ rest) hns,
      ofPredicates_truth ps rest hms]
end

end Truth

/-! ### Filters of one shape -/

mutual
/-- What is written of a predicate does not depend on its values. -/
theorem ofPredicate_skeleton : ∀ (p : Predicate) (names : List (List String)),
    SearchCondition.ofPredicate names p.skeleton = SearchCondition.ofPredicate names p
  | .condition c, _ => rfl
  | .group _ _ items, names => by
    simp only [Predicate.skeleton, SearchCondition.ofPredicate, ofPredicates_skeletonOf items names]

theorem ofPredicates_skeletonOf : ∀ (ps : List Predicate) (names : List (List String)),
    SearchCondition.ofPredicates names (Predicate.skeletonOf ps) =
      SearchCondition.ofPredicates names ps
  | [], _ => rfl
  | p :: rest, names => by
    simp only [Predicate.skeletonOf, SearchCondition.ofPredicates, ofPredicate_skeleton p names,
      ofPredicates_skeletonOf rest]
end

/-- Filters of one shape are written alike. -/
theorem ofGroup_eq_of_shape {g h : Group} (heq : g.shape = h.shape) (reserved : List String) :
    SearchCondition.ofGroup g reserved = SearchCondition.ofGroup h reserved := by
  have hskeleton : ∀ (g : Group) (names : List (List String)),
      (SearchCondition.ofPredicate names g.skeleton.toPredicate).1 =
        (SearchCondition.ofPredicate names g.toPredicate).1 :=
    fun g names => congrArg Prod.fst (ofPredicate_skeleton g.toPredicate names)
  rw [SearchCondition.ofGroup, SearchCondition.ofGroup, Group.parameterNames_eq_of_shape heq,
    ← hskeleton g, Group.shape_eq_iff.mp heq, hskeleton h]

theorem groupText_eq_of_shape {g h : Group} (heq : g.shape = h.shape) (d : Dialect)
    (reserved : List String) : groupText d g reserved = groupText d h reserved := by
  rw [groupText, groupText, ofGroup_eq_of_shape heq]

/-! ### Meaning -/

/-- **The text of a filter says what the filter says.** A database reads it as a formula which, with
the placeholders bound to the parameters of the filter, has on every row the verdict of the filter,
where a column is known by what stands between the points of its name, without the blanks around it;
and the placeholders that it reads are the names of these parameters, in their order. -/
theorem groupText_faithful (d : Dialect) (g : Group) (reserved : List String) :
    (∃ f, readCondition d (groupText d g reserved) = some f ∧
      ∀ (C : Comparisons) (columns : List String → Value),
        f.truth C columns (valueOf (g.parameters reserved)) =
          g.verdict C.interpretation fun name =>
            columns ((name.toList.splitOn '.').map fun part => trim (String.ofList part))) ∧
    placeholdersIn d (groupText d g reserved) =
      (g.parameters reserved).map BoundParameter.name := by
  have hlegible := legible_ofGroup g reserved true
  constructor
  · refine ⟨_, SearchCondition.readCondition_fragments (ofPredicate_proper _ _) hlegible, ?_⟩
    intro C columns
    have h := @ofPredicate_truth C columns _ g.toPredicate _ []
      (g.valueOf_parameterNames reserved)
    rw [List.append_nil] at h
    simp only [← nameParts_eq_splitOn]
    exact h
  · rw [placeholdersIn, groupText, String.toList_ofList,
      placeholders_render (SearchCondition.spaced true _) hlegible, placeholders_ofGroup,
      g.map_name_parameters]

end EntitySql.Sql
