import EntitySql.Proofs.Filter.NullEquality
import EntitySql.Sql.SearchCondition

/-!
# The predicates of filters are well formed

A predicate may be built by hand from any parts: groups without items, conditions on columns that no
property is kept in, a list operator beside a number. What a filter becomes has none of that. A predicate
is well formed (`Predicate.WellFormed`) if every group in it has an item and every condition is on the
column of a property, with a value that its operator takes (`Operator.Takes`) and in which no element of
an enumeration is left (`Value.IsStored`).

Each form of a filter makes a well-formed predicate of its parts. Negation keeps the predicate well formed
since an operator and its complement take the same values, and a group that takes over the items of
another takes over at least one. So **`ofExpr_wellFormed`**: the group of a filter is well formed, and it
is always written.
-/

namespace EntitySql

/-! ### Well-formed predicates -/

mutual
/-- No element of an enumeration is left in the value. -/
def Value.IsStored : Value → Prop
  | .enumeration _ => False
  | .list items => Value.AllStored items
  | _ => True

/-- No element of an enumeration is left in the items of a list. -/
def Value.AllStored : List Value → Prop
  | [] => True
  | v :: rest => v.IsStored ∧ Value.AllStored rest
end

/-- The operator has a use for the value: a test for null compares with nothing, a test against a list
with a list, and any other operator with a value that is not null. -/
def Operator.Takes (op : Operator) (v : Value) : Prop :=
  match op with
  | .isNull | .isNotNull => v = .null
  | .inList | .notInList => ∃ items, v = .list items
  | _ => v ≠ .null

/-- The condition is on the column of a property and has a stored value that its operator takes. -/
structure Condition.WellFormed (map : EntityMap) (c : Condition) : Prop where
  field : ∃ p ∈ map.properties, c.field = ⟨p.column, some p.valueType⟩
  takes : c.operator.Takes c.value
  stored : c.value.IsStored

/-- Every group has an item, and every condition is well formed. -/
inductive Predicate.WellFormed (map : EntityMap) : Predicate → Prop where
  | condition {c : Condition} (h : c.WellFormed map) : WellFormed map (.condition c)
  | group {conjunction : Conjunction} {negated : Bool} {items : List Predicate} (nonempty : items ≠ [])
      (h : ∀ p ∈ items, WellFormed map p) : WellFormed map (.group conjunction negated items)

/-- The group and every group in it has an item, and every condition is well formed. -/
def Group.WellFormed (map : EntityMap) (g : Group) : Prop := g.toPredicate.WellFormed map

/-! ### Values and operators -/

mutual
/-- The stored form of a value has no element of an enumeration in it, at any depth. -/
theorem Value.isStored_stored (repr : EnumRepr) : ∀ v : Value, (v.stored repr).IsStored
  | .enumeration _ => by cases repr <;> trivial
  | .list items => Value.allStored_storedItems repr items
  | .null | .bool _ | .int _ | .float _ | .decimal _ | .text _ | .bytes _ | .uuid _ | .dateTime _
  | .date _ | .time _ | .json _ => trivial

theorem Value.allStored_storedItems (repr : EnumRepr) :
    ∀ items : List Value, Value.AllStored (storedItems repr items)
  | [] => trivial
  | v :: rest => ⟨Value.isStored_stored repr v, Value.allStored_storedItems repr rest⟩
end

theorem Value.ne_null_of_isNull {v : Value} (h : v.isNull = false) : v ≠ .null := by
  rintro rfl
  cases h

/-- The form of a value in a column is null only if the value is. -/
theorem Property.columnValue_ne_null (p : Property) (repr : EnumRepr) {v : Value}
    (h : v.isNull = false) : p.columnValue repr v ≠ .null :=
  Value.ne_null_of_isNull ((Value.isNull_stored _ v).trans h)

/-- An operator and its complement take the same values. -/
theorem Operator.takes_negate (op : Operator) (v : Value) : op.negate.Takes v ↔ op.Takes v := by
  cases op <;> exact Iff.rfl

/-- An operator that tests neither for null nor against a list takes whatever is not null. -/
theorem Operator.takes_of_scalar {op : Operator} (hop : op.isNullCheck = false ∧ op.isList = false)
    {v : Value} (hv : v ≠ .null) : op.Takes v := by
  obtain ⟨hn, hl⟩ := hop
  cases op with
  | isNull | isNotNull => cases hn
  | inList | notInList => cases hl
  | _ => exact hv

namespace Predicate

variable {rules : FilterRules} {map : EntityMap} {b : Bindings} {whole : Expr} {name : String}
variable {conjunction : Conjunction} {op : Operator} {v : Value} {p q : Predicate}

/-! ### Building up -/

/-- A condition on the column of a property is well formed if its operator takes its value. -/
theorem WellFormed.on {prop : Property} (hp : prop ∈ map.properties) (op : Operator) (v : Value)
    (caseSensitive : Bool) (htakes : op.Takes v) (hstored : v.IsStored) :
    WellFormed map (.condition ⟨fieldOf prop, op, v, caseSensitive⟩) :=
  .condition ⟨⟨prop, hp, rfl⟩, htakes, hstored⟩

theorem WellFormed.isNull {prop : Property} (hp : prop ∈ map.properties) :
    WellFormed map (.condition (.make (fieldOf prop) .isNull .null)) :=
  .on hp .isNull .null true rfl trivial

theorem WellFormed.isNotNull {prop : Property} (hp : prop ∈ map.properties) :
    WellFormed map (.condition (.make (fieldOf prop) .isNotNull .null)) :=
  .on hp .isNotNull .null true rfl trivial

theorem WellFormed.pair (hp : p.WellFormed map) (hq : q.WellFormed map) (conjunction : Conjunction) :
    WellFormed map (.group conjunction false [p, q]) := by
  refine .group (List.cons_ne_nil _ _) fun r hr => ?_
  rcases List.mem_pair.mp hr with rfl | rfl
  · exact hp
  · exact hq

/-- The complement of a well-formed predicate is well formed. -/
theorem WellFormed.negate (h : p.WellFormed map) : p.negate.WellFormed map := by
  cases h with
  | condition h => exact .condition ⟨h.field, (Operator.takes_negate _ _).mpr h.takes, h.stored⟩
  | group nonempty h => exact .group nonempty h

/-- What a well-formed predicate adds to a group is something, and well formed. -/
theorem WellFormed.itemsFor (h : p.WellFormed map) (conjunction : Conjunction) :
    itemsFor conjunction p ≠ [] ∧ ∀ q ∈ itemsFor conjunction p, q.WellFormed map := by
  have halone : ∀ q ∈ [p], q.WellFormed map := by
    intro q hq
    rw [List.mem_singleton.mp hq]
    exact h
  unfold Predicate.itemsFor
  split
  · next c items =>
    split
    · cases h with
      | group nonempty h => exact ⟨nonempty, h⟩
    · exact ⟨List.cons_ne_nil _ _, halone⟩
  · exact ⟨List.cons_ne_nil _ _, halone⟩

/-- Two well-formed predicates that are joined are well formed. -/
theorem WellFormed.joined (hp : p.WellFormed map) (hq : q.WellFormed map)
    (conjunction : Conjunction) :
    WellFormed map (.group conjunction false
      (Predicate.itemsFor conjunction p ++ Predicate.itemsFor conjunction q)) := by
  obtain ⟨hne, hitems⟩ := hp.itemsFor conjunction
  refine .group (fun h => hne (List.append_eq_nil_iff.mp h).1) fun r hr => ?_
  rcases List.mem_append.mp hr with hr | hr
  · exact hitems r hr
  · exact (hq.itemsFor conjunction).2 r hr

/-! ### Comparisons and calls -/

theorem wellFormed_truth {t : Bool} (h : truth map b whole name t = .ok p) : p.WellFormed map := by
  obtain ⟨prop, hprop, -, rfl⟩ := of_truth h
  exact .on (EntityMap.mem_of_property? hprop) .equal (.bool t) true (by nofun) trivial

/-- A value that is not null is compared with what a column holds of it. -/
theorem WellFormed.compared {prop : Property} (hp : prop ∈ map.properties)
    (hop : op.isNullCheck = false ∧ op.isList = false) (hv : v.isNull = false) (repr : EnumRepr)
    (caseSensitive : Bool) :
    WellFormed map (.condition ⟨fieldOf prop, op, prop.columnValue repr v, caseSensitive⟩) :=
  .on hp op _ caseSensitive (Operator.takes_of_scalar hop (prop.columnValue_ne_null _ hv))
    (Value.isStored_stored _ v)

theorem wellFormed_compareMember (hop : op.isNullCheck = false ∧ op.isList = false)
    (h : compareMember rules map b whole name op v = .ok p) : p.WellFormed map := by
  obtain ⟨prop, hprop, hcompared⟩ := of_compareMember h
  have hmem := EntityMap.mem_of_property? hprop
  cases hcompared with
  | isNull => exact .isNull hmem
  | isNotNull => exact .isNotNull hmem
  | plain hv => exact .compared hmem hop hv rules.repr true
  | equal hv => exact (WellFormed.compared hmem hop hv rules.repr true).pair (.isNotNull hmem) .and
  | notEqual hv => exact (WellFormed.compared hmem hop hv rules.repr true).pair (.isNull hmem) .or

theorem wellFormed_compareCoalesce {fallback : Value}
    (h : compareCoalesce rules map b whole name fallback op v = .ok p) : p.WellFormed map := by
  obtain ⟨-, hv, -, prop, hprop, rfl⟩ := of_compareCoalesce h
  have hmem := EntityMap.mem_of_property? hprop
  exact (WellFormed.compared hmem ⟨rfl, rfl⟩ hv rules.repr true).pair (.isNull hmem) .or

theorem wellFormed_compareSubject {subject : Expr}
    (hop : op.isNullCheck = false ∧ op.isList = false)
    (h : compareSubject rules map b whole op v subject = .ok p) : p.WellFormed map := by
  obtain ⟨_, -, h⟩ | ⟨_, _, _, -, -, h⟩ := of_compareSubject h
  · exact wellFormed_compareMember hop h
  · exact wellFormed_compareCoalesce h

theorem wellFormed_compare {op : CompareOp} {l r : Expr} (h : compare rules map b op l r = .ok p) :
    p.WellFormed map := by
  obtain ⟨_, -, h⟩ | ⟨-, _, -, h⟩ := of_compare h
  · exact wellFormed_compareSubject (isNullCheck_toOperator op) h
  · exact wellFormed_compareSubject (isNullCheck_mirror op) h

theorem wellFormed_callMember {method : Method}
    (h : callMember rules map b whole method name v = .ok p) : p.WellFormed map := by
  obtain ⟨prop, hprop, ⟨caseSensitive, -, hv, rfl⟩ | ⟨s, pattern, -, -, rfl⟩⟩ := of_callMember h
  · exact .compared (EntityMap.mem_of_property? hprop) ⟨rfl, rfl⟩ hv rules.repr caseSensitive
  · exact .on (EntityMap.mem_of_property? hprop) .like (.text pattern) true (by nofun) trivial

theorem wellFormed_callValue {method : Method}
    (h : callValue rules map b whole method v name = .ok p) : p.WellFormed map := by
  obtain ⟨items, prop, -, -, hprop, rfl⟩ | ⟨-, h⟩ := of_callValue h
  · exact .on (EntityMap.mem_of_property? hprop) .inList _ true ⟨_, rfl⟩
      (Value.isStored_stored _ (.list items))
  · exact wellFormed_callMember h

theorem wellFormed_call {method : Method} {target arg : Expr}
    (h : call rules map b method target arg = .ok p) : p.WellFormed map := by
  obtain ⟨_, _, -, -, h⟩ | ⟨_, _, -, -, h⟩ := of_call h
  · exact wellFormed_callMember h
  · exact wellFormed_callValue h

/-- What is said of no elements is a test against the empty list. -/
theorem wellFormed_overNothing {body : Expr}
    (h : overNothing map b whole body conjunction = .ok p) : p.WellFormed map := by
  obtain ⟨_, prop, -, hprop, ⟨-, rfl⟩ | ⟨-, rfl⟩⟩ := of_overNothing h
  · exact .on (EntityMap.mem_of_property? hprop) .notInList (.list []) true ⟨[], rfl⟩ trivial
  · exact .on (EntityMap.mem_of_property? hprop) .inList (.list []) true ⟨[], rfl⟩ trivial

/-- The predicates made for the elements of a list that is not empty make a well-formed group. -/
theorem wellFormed_mapM {f : Value → Result Predicate} {items : List Value} {ps : List Predicate}
    (hne : items ≠ []) (h : items.mapM f = .ok ps)
    (hf : ∀ v q, f v = .ok q → q.WellFormed map) (conjunction : Conjunction) :
    WellFormed map (.group conjunction false ps) := by
  rw [mapM_eq_ok_iff] at h
  refine .group ?_ fun q hq => ?_
  · rintro rfl
    exact hne (List.forall₂_nil_right_iff.mp h)
  · obtain ⟨v, -, hv⟩ := exists_of_mem_right h hq
    exact hf v q hv

/-! ### The whole predicate -/

/-- The predicate made under any bindings is well formed. -/
theorem wellFormed_ofExpr_bind (e : Expr) (b : Bindings) (p : Predicate)
    (h : ofExpr rules map b e = .ok p) : p.WellFormed map := by
  replace h := becomes_of_ofExpr h
  induction h with
  | member h | notMember h => exact wellFormed_truth h
  | compare h => exact wellFormed_compare h
  | and _ _ ihl ihr => exact ihl.joined ihr .and
  | or _ _ ihl ihr => exact ihl.joined ihr .or
  | not _ ih => exact ih.negate
  | overNothing _ _ h => exact wellFormed_overNothing h
  | overItems _ _ hne hps _ ih => exact wellFormed_mapM hne hps ih _
  | call _ _ h => exact wellFormed_call h

end Predicate

/-- A group with an item is written. -/
theorem Sql.whereText_of_wellFormed {map : EntityMap} {g : Group} (h : g.WellFormed map)
    (d : Dialect) (reserved : List String) :
    whereText d (some g) reserved = " WHERE " ++ groupText d g reserved := by
  have hne : g.isEmpty = false := by
    cases h with
    | group nonempty h => simpa [Group.isEmpty] using nonempty
  refine String.toList_injective ?_
  simp [whereText, groupText, activeCondition, hne, whereClause, Fragments.render, Fragment.render]

/-- **What a filter becomes is well formed and never empty.** Under any rules, the group of a filter and
every group in it has at least one item, so its condition is always written. Every condition is on the
column of a property, with the value type of that property; tests for null carry null, tests against a
list carry a list and all others a value that is not null, and nowhere in a value is an element of an
enumeration left. -/
theorem ofExpr_wellFormed (rules : FilterRules) (map : EntityMap) (e : Expr) (g : Group)
    (h : Group.ofExpr rules map e = .ok g) :
    g.WellFormed map ∧ ∀ d reserved,
      Sql.whereText d (some g) reserved = " WHERE " ++ Sql.groupText d g reserved := by
  have hg : g.WellFormed map := by
    unfold Group.ofExpr at h
    split at h
    · next hp =>
      cases h
      exact Predicate.wellFormed_ofExpr_bind e [] _ hp
    · next hp =>
      cases h
      refine .group (List.cons_ne_nil _ _) fun q hq => ?_
      rw [List.mem_singleton.mp hq]
      exact Predicate.wellFormed_ofExpr_bind e [] _ hp
    · cases h
  exact ⟨hg, Sql.whereText_of_wellFormed hg⟩

namespace Sample

/-- An issue that is open. -/
def isOpen : Value := .enumeration ⟨"Open", 1⟩

/-- Issues with a state that may be null. -/
def issue : EntityMap :=
  ⟨"Issue", "Issue",
    [⟨"State", "state", ⟨.enumeration ⟨"State", [⟨"Open", 1⟩, ⟨"Done", 2⟩]⟩, true⟩, none, false⟩]⟩

/-- The state is known and is neither open nor the list of open alone. -/
def notOpen : Expr :=
  .not (.or
    (.call .any (.constant (.list [isOpen, .list [isOpen]]))
      [.lambda "v" (.compare .eq (.parameter "v") (.member "State"))])
    (.compare .eq (.member "State") (.constant .null)))

/-- The condition on the state that a part of the filter becomes. -/
def stateIs (op : Operator) (v : Value) : Predicate :=
  .condition (.make ⟨"state", some .enumeration⟩ op v)

end Sample

/-- Under three-valued nulls, the groups for the elements of the list are negated with the rest. -/
theorem ofExpr_wellFormed_issue :
    ∃ g, Group.ofExpr ⟨.threeValued, .number⟩ Sample.issue Sample.notOpen = .ok g ∧
      g.WellFormed Sample.issue ∧ g.negated = true ∧ g.items =
        [.group .and false [Sample.stateIs .equal (.int 1), Sample.stateIs .isNotNull .null],
          .group .and false [Sample.stateIs .equal (.list [.int 1]), Sample.stateIs .isNotNull .null],
          Sample.stateIs .isNull .null] :=
  ⟨_, rfl, (ofExpr_wellFormed ⟨.threeValued, .number⟩ Sample.issue Sample.notOpen _ rfl).1, rfl, rfl⟩

end EntitySql
