import EntitySql.Proofs.Wire.Value
import EntitySql.Wire.Predicate

/-!
# Written predicates are read back

Conditions, predicates and groups are read back with civil times in their values
(**`readPredicate_ofPredicate`**). The reader of predicates counts the groups that it enters; every
group takes up more room than one, so a count above the room at the start stays above it.
-/

namespace EntitySql

mutual
/-- Every value in the predicate is canonical. -/
def Predicate.IsCanonical : Predicate → Prop
  | .condition c => c.value.IsCanonical
  | .group _ _ items => Predicate.AllCanonical items

/-- Every value in the predicates of a list is canonical. -/
def Predicate.AllCanonical : List Predicate → Prop
  | [] => True
  | p :: ps => p.IsCanonical ∧ Predicate.AllCanonical ps
end

/-! ### Leap seconds in predicates -/

/-- The condition with civil times. -/
def Condition.civil (c : Condition) : Condition := { c with value := c.value.civil }

theorem Condition.civil_eq_self_iff (c : Condition) : c.civil = c ↔ c.value.IsCivil := by
  rw [← c.value.civil_eq_self_iff]
  exact ⟨congrArg Condition.value, fun h => congrArg (fun v => { c with value := v }) h⟩

mutual
/-- Every leap second in the predicate follows a second 59. -/
def Predicate.IsCivil : Predicate → Prop
  | .condition c => c.value.IsCivil
  | .group _ _ items => Predicate.AllCivil items

/-- Every leap second in the predicates of a list follows a second 59. -/
def Predicate.AllCivil : List Predicate → Prop
  | [] => True
  | p :: ps => p.IsCivil ∧ Predicate.AllCivil ps
end

mutual
/-- The predicate with civil times. -/
def Predicate.civil : Predicate → Predicate
  | .condition c => .condition c.civil
  | .group conjunction negated items => .group conjunction negated (Predicate.civilItems items)

/-- The predicates of a list with civil times. -/
def Predicate.civilItems : List Predicate → List Predicate
  | [] => []
  | p :: ps => p.civil :: Predicate.civilItems ps
end

/-- The group with civil times. -/
def Group.civil (g : Group) : Group := { g with items := Predicate.civilItems g.items }

mutual
theorem Predicate.civil_eq_self_iff : ∀ p : Predicate, p.civil = p ↔ p.IsCivil
  | .condition c => by simp only [civil, IsCivil, condition.injEq, c.civil_eq_self_iff]
  | .group _ _ items => by
    simp only [civil, IsCivil, group.injEq, true_and, civilItems_eq_self_iff items]

theorem Predicate.civilItems_eq_self_iff :
    ∀ ps : List Predicate, civilItems ps = ps ↔ AllCivil ps
  | [] => iff_of_true rfl trivial
  | p :: ps => by
    simp only [civilItems, AllCivil, List.cons.injEq, p.civil_eq_self_iff,
      civilItems_eq_self_iff ps]
end

theorem Group.civil_eq_self_iff (g : Group) :
    g.civil = g ↔ Predicate.AllCivil g.items := by
  rw [← Predicate.civilItems_eq_self_iff]
  exact ⟨congrArg Group.items, fun h => congrArg (fun items => { g with items }) h⟩

namespace Wire

open Json (Document)

/-! ### Written predicates have integers only -/

theorem isIntegral_ofCondition {c : Condition} (h : c.value.IsCanonical) :
    (ofCondition c).IsIntegral := by
  have htype : (optional (name valueTypes) c.field.type).IsIntegral :=
    isIntegral_optional (name valueTypes) (fun _ => trivial) _
  exact ⟨⟨trivial, htype, trivial⟩, trivial, isIntegral_ofValue h, trivial, trivial⟩

theorem isIntegral_groupRecord {conjunction : Conjunction} {negated : Bool} {items : List Json}
    (h : Json.ItemsIntegral items) : (groupRecord conjunction negated items).IsIntegral :=
  ⟨h, trivial, trivial, trivial⟩

mutual
theorem isIntegral_ofPredicate : ∀ {p : Predicate}, p.IsCanonical → (ofPredicate p).IsIntegral
  | .condition _, h => isIntegral_form (isIntegral_ofCondition h)
  | .group _ _ _, h => isIntegral_form (isIntegral_groupRecord (itemsIntegral_ofPredicates h))

theorem itemsIntegral_ofPredicates : ∀ {ps : List Predicate}, Predicate.AllCanonical ps →
    Json.ItemsIntegral (ofPredicates ps)
  | [], _ => trivial
  | _ :: _, h => ⟨isIntegral_ofPredicate h.1, itemsIntegral_ofPredicates h.2⟩
end

/-! ### Conditions -/

theorem find?_valueTypes (t : ValueType) : valueTypes.find? (valueTypes.nameOf t) = some t := by
  cases t <;> rfl

theorem find?_operators (op : Operator) : operators.find? (operators.nameOf op) = some op := by
  cases op <;> rfl

theorem find?_conjunctions (c : Conjunction) :
    conjunctions.find? (conjunctions.nameOf c) = some c := by
  cases c <;> rfl

theorem readField_ofField (room : Nat) (f : Field) :
    Restores room (readField room) (ofField f) f := by
  cases room with
  | zero => rfl
  | succ room =>
    have htype := readOptional_optional (fun t => readName_name (find?_valueTypes t) room)
      (fun _ => Document.noConfusion) f.type
    have hdepth := depth_optional (depth_name valueTypes) f.type
    simp [Restores, readField, ofField, readRecord_object, Json.depth, Json.membersDepth, htype,
      hdepth]

theorem readCondition_ofCondition (room : Nat) {c : Condition} (h : c.value.IsCanonical) :
    Restores room (readCondition room) (ofCondition c) c.civil := by
  cases room with
  | zero => rfl
  | succ room =>
    have hfield := readField_ofField room c.field
    have hoperator := readName_name (find?_operators c.operator) room
    have hvalue := readValue_ofValue room h
    simp only [Restores] at hfield hvalue
    by_cases hf : (ofField c.field).depth ≤ room <;>
      by_cases hv : (ofValue c.value).depth ≤ room <;>
        simp [Restores, readCondition, ofCondition, readRecord_object, Json.depth,
          Json.membersDepth, hfield, hoperator, hvalue, hf, hv, Condition.civil]

/-! ### Groups -/

/-- The record of a group is read back if its items are, in the room that two brackets leave. -/
theorem readGroupRecord_groupRecord {room : Nat} {read : Nat → Document → Option Predicate}
    {js : List Json} (g : Group)
    (h : ∀ less, less + 2 = room → List.Forall₂ (Restores less (read less)) js g.items) :
    Restores room (readGroupRecord room read) (groupRecord g.conjunction g.negated js) g := by
  cases room with
  | zero => rfl
  | succ room =>
    have hitems : Restores room (readList room read) (.array js) g.items :=
      readList_array fun less hless => h less (by omega)
    have hconjunction := readName_name (find?_conjunctions g.conjunction) room
    simp only [Restores, Json.depth] at hitems
    by_cases hi : Json.itemsDepth js + 1 ≤ room <;>
      simp [Restores, readGroupRecord, groupRecord, readRecord_object, Json.depth,
        Json.membersDepth, hitems, hconjunction, hi]

mutual
/-- A predicate is read back with civil times from what it is written as. -/
theorem readPredicate_ofPredicate : ∀ (p : Predicate) {depth room : Nat}, room < depth →
    p.IsCanonical → Restores room (readPredicate depth room) (ofPredicate p) p.civil
  | .condition c, depth + 1, 0, _, _ => rfl
  | .condition c, depth + 1, room + 1, _, h => by
    have hc := (readCondition_ofCondition room h).map Predicate.condition
    rw [Restores, ofPredicate, depth_form, readPredicate, readForm_form]
    simp only [Nat.add_le_add_iff_right]
    exact hc
  | .group conjunction negated items, depth + 1, 0, _, _ => rfl
  | .group conjunction negated items, depth + 1, room + 1, hdepth, h => by
    have hrecord : Restores room (readGroupRecord room (readPredicate depth))
        (groupRecord conjunction negated (ofPredicates items))
        ⟨conjunction, negated, Predicate.civilItems items⟩ :=
      readGroupRecord_groupRecord ⟨conjunction, negated, Predicate.civilItems items⟩
        fun less hless => forall₂_ofPredicates items (by omega) h
    have hgroup := hrecord.map Group.toPredicate
    rw [Restores, ofPredicate, depth_form, readPredicate, readForm_form]
    simp only [Nat.add_le_add_iff_right]
    exact hgroup

theorem forall₂_ofPredicates : ∀ (ps : List Predicate) {depth room : Nat}, room < depth →
    Predicate.AllCanonical ps →
      List.Forall₂ (Restores room (readPredicate depth room)) (ofPredicates ps)
        (Predicate.civilItems ps)
  | [], _, _, _, _ => .nil
  | p :: ps, _, _, hdepth, h =>
    .cons (readPredicate_ofPredicate p hdepth h.1) (forall₂_ofPredicates ps hdepth h.2)
end

end Wire

end EntitySql
