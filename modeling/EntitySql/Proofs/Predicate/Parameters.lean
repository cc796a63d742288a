import EntitySql.Proofs.Command
import EntitySql.Proofs.Predicate.ParameterNames
import EntitySql.Proofs.Result

/-!
# The parameters of a filter

A condition is bound under as many names as it has values, so the parameters of a filter are its names
in their order (`Group.map_name_parameters`), and since the names are apart, **every name of a
condition has the value of that condition or list element** (`Group.valueOf_parameterNames`).
-/

namespace EntitySql

open Text

/-- The values that a condition is bound to. -/
def Condition.boundValues (c : Condition) : List Value :=
  if c.operator.isNullCheck then [] else if c.operator.isList then c.listValues else [c.value]

/-- The value under a name, null if there is none. -/
def valueOf (ps : List BoundParameter) (name : String) : Value :=
  ((ps.find? (Command.isNamed name)).map BoundParameter.value).getD .null

theorem valueOf_of_mem {ps : List BoundParameter} (h : Apart ps) {p : BoundParameter} (hp : p ∈ ps) :
    valueOf ps p.name = p.value := by
  rw [valueOf, find?_isNamed h hp]
  rfl

/-- A condition gets as many names as it has values. -/
theorem Condition.length_parameterNames (used : List String) (c : Condition) :
    (c.parameterNames used).length = c.boundValues.length := by
  unfold Condition.parameterNames Condition.nameCount Condition.boundValues
  cases hn : c.operator.isNullCheck with
  | true => rfl
  | false =>
    cases hl : c.operator.isList with
    | true => simp [length_freeNames]
    | false => simp [length_freeNames]

/-- The names of conditions, each as many as its values. -/
theorem forall₂_conditionNames (used : List String) (cs : List Condition) :
    List.Forall₂ (fun c names => names.length = c.boundValues.length) cs
      (conditionNames used cs) := by
  induction cs generalizing used with
  | nil => exact .nil
  | cons c rest ih => exact .cons (c.length_parameterNames used) (ih _)

theorem Condition.map_bound {c : Condition} {names : List String}
    (h : names.length = c.boundValues.length) :
    (c.bound names).map BoundParameter.name = names ∧
      (c.bound names).map BoundParameter.value = c.boundValues := by
  unfold Condition.boundValues at h ⊢
  unfold Condition.bound
  cases hn : c.operator.isNullCheck with
  | true =>
    rw [hn] at h
    have hnil : names = [] := List.eq_nil_of_length_eq_zero h
    simp [hnil]
  | false =>
    rw [hn] at h
    simp only [Bool.false_eq_true, if_false] at h ⊢
    rw [List.map_map, List.map_map]
    exact ⟨List.map_fst_zip (Nat.le_of_eq h), List.map_snd_zip (Nat.le_of_eq h.symm)⟩

/-- The parameters of conditions under names. -/
def boundConditions (cs : List Condition) (names : List (List String)) : List BoundParameter :=
  (cs.zip names).flatMap fun (c, names) => c.bound names

theorem map_name_boundConditions {cs : List Condition} {names : List (List String)}
    (h : List.Forall₂ (fun c names => names.length = c.boundValues.length) cs names) :
    (boundConditions cs names).map BoundParameter.name = names.flatten := by
  induction h with
  | nil => rfl
  | @cons c ns cs names hc _ ih =>
    have hsplit : boundConditions (c :: cs) (ns :: names) =
        c.bound ns ++ boundConditions cs names := rfl
    rw [hsplit, List.map_append, ih, (Condition.map_bound hc).1, List.flatten_cons]

/-- The names of conditions have their values wherever their parameters are found. -/
theorem forall₂_boundConditions {β : Type} {cs : List Condition} {names : List (List String)}
    (h : List.Forall₂ (fun c names => names.length = c.boundValues.length) cs names)
    {value : String → β} {f : Value → β}
    (hvalue : ∀ p ∈ boundConditions cs names, value p.name = f p.value) :
    List.Forall₂ (fun c names => names.map value = c.boundValues.map f) cs names := by
  induction h with
  | nil => exact .nil
  | @cons c ns cs names hc _ ih =>
    have hsplit : boundConditions (c :: cs) (ns :: names) =
        c.bound ns ++ boundConditions cs names := rfl
    rw [hsplit] at hvalue
    obtain ⟨hfirst, hrest⟩ := List.forall_mem_append.mp hvalue
    refine .cons ?_ (ih hrest)
    obtain ⟨hname, hbound⟩ := Condition.map_bound hc
    calc ns.map value = ((c.bound ns).map BoundParameter.name).map value := by rw [hname]
      _ = ((c.bound ns).map BoundParameter.value).map f := by
        rw [List.map_map, List.map_map]
        exact List.map_congr_left hfirst
      _ = c.boundValues.map f := by rw [hbound]

/-! ### The parameters of a group -/

theorem Group.map_name_parameters (g : Group) (reserved : List String) :
    (g.parameters reserved).map BoundParameter.name = (g.parameterNames reserved).flatten :=
  map_name_boundConditions (forall₂_conditionNames _ _)

/-- No two parameters of a filter have one name. -/
theorem Group.apart_parameters (g : Group) (reserved : List String) :
    Apart (g.parameters reserved) := by
  have h := (conditionNames_distinct (reserved.map lower) g.conditions).1
  refine apart_of_nodup ?_
  show ((g.parameters reserved).map (lower ∘ BoundParameter.name)).Nodup
  rw [← List.map_map, g.map_name_parameters]
  exact h

/-- The names of the conditions have their values wherever the parameters of the group are found. -/
theorem Group.forall₂_parameterNames {β : Type} (g : Group) (reserved : List String)
    {value : String → β} {f : Value → β}
    (hvalue : ∀ p ∈ g.parameters reserved, value p.name = f p.value) :
    List.Forall₂ (fun c names => names.map value = c.boundValues.map f) g.conditions
      (g.parameterNames reserved) :=
  forall₂_boundConditions (forall₂_conditionNames _ _) hvalue

/-- **Every name of a condition has the value of that condition or list element.** -/
theorem Group.valueOf_parameterNames (g : Group) (reserved : List String) :
    List.Forall₂ (fun c names => names.map (valueOf (g.parameters reserved)) = c.boundValues)
      g.conditions (g.parameterNames reserved) := by
  have h := g.forall₂_parameterNames reserved (f := id) fun p hp =>
    valueOf_of_mem (g.apart_parameters reserved) hp
  simpa only [List.map_id] using h

/-- A filter has no parameters if its conditions are bound to no values. -/
theorem Group.parameters_eq_nil_iff (g : Group) (reserved : List String) :
    g.parameters reserved = [] ↔ ∀ c ∈ g.conditions, c.boundValues = [] := by
  have hlengths := forall₂_conditionNames (reserved.map lower) g.conditions
  rw [← List.map_eq_nil_iff (f := BoundParameter.name), g.map_name_parameters,
    List.flatten_eq_nil_iff]
  constructor
  · intro h c hc
    obtain ⟨names, hnames, hlength⟩ := exists_of_mem_left hlengths hc
    rw [h names hnames] at hlength
    exact List.eq_nil_of_length_eq_zero hlength.symm
  · intro h names hnames
    obtain ⟨c, hc, hlength⟩ := exists_of_mem_right hlengths hnames
    rw [h c hc] at hlength
    exact List.eq_nil_of_length_eq_zero hlength

end EntitySql
