import EntitySql.Proofs.Filter.Forms
import EntitySql.Proofs.Filter.Substitution
import EntitySql.Proofs.Predicate.Comparison

/-!
# What filters say

`Expr.verdict` reads a filter over a stored row part by part: the connectives are those of `Truth`, a
comparison says what the condition on the column says, with the operator that fits the side on which
the property stands (`CompareOp.ofLeft`, `CompareOp.ofRight`), a comparison with null asks whether the
column is null, and a call over a list says its body of every element. An expression that says
nothing of a row, such as a value by itself, has no verdict.

The main statement, `verdict_ofExpr`, is that the predicate made from a filter under two-valued nulls
has the verdict of the filter. Making it changes operators, sides and groups on the way; that all of
this leaves the verdict alone is an induction over the filter, with the bindings of the lambdas around
each part.
-/

namespace EntitySql

/-! ### Comparisons from either side -/

namespace CompareOp

/-- What a comparison asks of the property on its left: `Age < 5` asks for lower ages. -/
def ofLeft : CompareOp → Operator
  | eq => .equal
  | ne => .notEqual
  | gt => .greaterThan
  | lt => .lessThan
  | ge => .greaterOrEqual
  | le => .lessOrEqual

/-- What a comparison asks of the property on its right: `5 < Age` asks for greater ages. -/
def ofRight : CompareOp → Operator
  | eq => .equal
  | ne => .notEqual
  | gt => .lessThan
  | lt => .greaterThan
  | ge => .lessOrEqual
  | le => .greaterOrEqual

theorem toOperator_eq_ofLeft (op : CompareOp) : op.toOperator = op.ofLeft := by cases op <;> rfl

theorem mirror_toOperator (op : CompareOp) : op.toOperator.mirror = op.ofRight := by
  cases op <;> rfl

end CompareOp

namespace Expr

variable (map : EntityMap) (repr : EnumRepr) (I : Interpretation) (row : StoredRow)

/-! ### The reading -/

/-- A property compared with a value: a test for null if the value is null. -/
def memberVerdict (name : String) (op : Operator) (v : Value) : Option Truth :=
  (map.property? name).bind fun p =>
    if v.isNull then
      match op with
      | .equal => some (.ofBool (row p.column).isNull)
      | .notEqual => some (.ofBool !(row p.column).isNull)
      | _ => none
    else some (I row (.make (Predicate.fieldOf p) op (p.columnValue repr v)))

/-- A property with a fallback compared with the fallback: that holds of null, and elsewhere says
what the comparison of the property says. -/
def coalesceVerdict (name : String) (fallback : Value) (op : Operator) (v : Value) : Option Truth :=
  (map.property? name).bind fun p =>
    if op = .equal ∧ !v.isNull ∧ fallback.equal v then
      some (if (row p.column).isNull then .holds
        else I row (.make (Predicate.fieldOf p) .equal (p.columnValue repr v)))
    else none

/-- What is asked of the side of a comparison that is no value. -/
def subjectVerdict (op : Operator) (v : Value) : Expr → Option Truth
  | member name => memberVerdict map repr I row name op v
  | coalesce (member name) (constant fallback) => coalesceVerdict map repr I row name fallback op v
  | _ => none

/-- A comparison with a value, which stands on the right or on the left. -/
def compareVerdict (op : CompareOp) : Expr → Expr → Option Truth
  | subject, constant v => subjectVerdict map repr I row op.ofLeft v subject
  | constant v, subject => subjectVerdict map repr I row op.ofRight v subject
  | _, _ => none

/-- A method that asks for equality with a value. -/
def equalsVerdict (name : String) (caseSensitive : Bool) (v : Value) : Option Truth :=
  (map.property? name).bind fun p =>
    if v.isNull then none
    else some (I row ⟨Predicate.fieldOf p, .equal, p.columnValue repr v, caseSensitive⟩)

/-- A method that asks for a pattern. -/
def likeVerdict (name pattern : String) : Option Truth :=
  (map.property? name).bind fun p =>
    some (I row (.make (Predicate.fieldOf p) .like (.text pattern)))

/-- A method that asks whether a list has the value of a property. -/
def inVerdict (name : String) (items : List Value) : Option Truth :=
  (map.property? name).bind fun p =>
    some (if items.isEmpty then .fails
      else I row (.make (Predicate.fieldOf p) .inList (p.columnValue repr (.list items))))

/-- A call whose argument is no lambda. -/
def callVerdict : Method → Expr → Expr → Option Truth
  | .contains, constant (.list items), member name => inVerdict map repr I row name items
  | .contains, member name, constant (.text s) => likeVerdict map I row name ("%" ++ s ++ "%")
  | .startsWith, member name, constant (.text s) => likeVerdict map I row name (s ++ "%")
  | .endsWith, member name, constant (.text s) => likeVerdict map I row name ("%" ++ s)
  | .equals, member name, constant v => equalsVerdict map repr I row name true v
  | .equals, constant v, member name => equalsVerdict map repr I row name true v
  | .equalsIgnoreCase, member name, constant v => equalsVerdict map repr I row name false v
  | .equalsIgnoreCase, constant v, member name => equalsVerdict map repr I row name false v
  | _, _, _ => none

/-- A property of truth values by itself: that it is true. -/
def flagVerdict (name : String) : Option Truth :=
  (map.property? name).bind fun p =>
    if p.valueType = .bool then some (I row (.make (Predicate.fieldOf p) .equal (.bool true)))
    else none

/-- What a filter says of a stored row, if it says anything. -/
def verdict (e : Expr) : Option Truth :=
  match e with
  | member name => flagVerdict map I row name
  | compare op l r => compareVerdict map repr I row op l r
  | and l r => (verdict l).bind fun s => (verdict r).map s.and
  | or l r => (verdict l).bind fun s => (verdict r).map s.or
  | not e => (verdict e).map Truth.not
  | call .all (constant (.list items)) [lambda p body] =>
    (items.mapM fun v => verdict (body.substitute p v)).map Truth.all
  | call .any (constant (.list items)) [lambda p body] =>
    (items.mapM fun v => verdict (body.substitute p v)).map Truth.any
  | call m target [arg] => callVerdict map repr I row m target arg
  | _ => none
termination_by e.size
decreasing_by all_goals simp only [size, sizeAll, size_substitute]; omega

end Expr

/-! ### The parts of a predicate that are conditions -/

/-- The stored form of a list has as many items as the list. -/
theorem Value.storedItems_isEmpty (repr : EnumRepr) (items : List Value) :
    (storedItems repr items).isEmpty = items.isEmpty := by
  cases items <;> rfl

namespace Predicate

variable {map : EntityMap} {repr : EnumRepr} {I : Interpretation} {row : StoredRow}
  {b : Bindings} {whole : Expr} {name : String} {p : Predicate}

theorem verdict_truth (h : truth map b whole name true = .ok p) :
    Expr.flagVerdict map I row name = some (p.verdict I row) := by
  obtain ⟨q, hq, hbool, rfl⟩ := of_truth h
  simp only [Expr.flagVerdict, hq, Option.bind_some, if_pos hbool]
  rfl

/-- Being false is the complement of being true, since the column holds nothing else. -/
theorem verdict_truth_false (hI : I.Complementary) (hrow : row.Fits map)
    (h : truth map b whole name false = .ok p) :
    (Expr.flagVerdict map I row name).map Truth.not = some (p.verdict I row) := by
  obtain ⟨q, hq, hbool, rfl⟩ := of_truth h
  have hv := hI.bool row (fieldOf q) (congrArg some hbool)
    (hrow q (EntityMap.mem_of_property? hq) hbool)
  simp only [Expr.flagVerdict, hq, Option.bind_some, if_pos hbool, Option.map_some, ← hv]
  rfl

theorem verdict_compareMember {op : Operator} {v : Value}
    (hop : op.isNullCheck = false ∧ op.isList = false)
    (h : compareMember ⟨.twoValued, repr⟩ map b whole name op v = .ok p) :
    Expr.memberVerdict map repr I row name op v = some (p.verdict I row) := by
  obtain ⟨q, hq, hcompared⟩ := of_compareMember h
  simp only [Expr.memberVerdict, hq, Option.bind_some]
  cases hcompared with
  | isNull hv | isNotNull hv =>
    rw [if_pos hv]
    rfl
  | plain hv =>
    rw [hv, if_neg Bool.false_ne_true]
    exact congrArg some (Condition.verdict_of_scalar hop.1 hop.2).symm
  | equal _ hnulls | notEqual _ hnulls => cases hnulls

theorem verdict_compareCoalesce {op : Operator} {fallback v : Value}
    (h : compareCoalesce ⟨.twoValued, repr⟩ map b whole name fallback op v = .ok p) :
    Expr.coalesceVerdict map repr I row name fallback op v = some (p.verdict I row) := by
  obtain ⟨hop, hv, hsame, q, hq, rfl⟩ := of_compareCoalesce h
  have hsaid : op = .equal ∧ (!v.isNull) = true ∧ fallback.equal v = true :=
    ⟨hop, by rw [hv, Bool.not_false], hsame⟩
  simp only [Expr.coalesceVerdict, hq, Option.bind_some, if_pos hsaid]
  have hf : (fieldOf q).name = q.column := rfl
  -- On a null row the second item holds; elsewhere it fails and the first one decides.
  cases hn : (row q.column).isNull <;>
    simp [verdict, verdicts, Condition.verdict, Condition.make, Conjunction.truth, Truth.signed,
      Truth.ofBool, hf, hn]

theorem verdict_compareSubject {op : Operator} {v : Value} {subject : Expr}
    (hop : op.isNullCheck = false ∧ op.isList = false)
    (h : compareSubject ⟨.twoValued, repr⟩ map b whole op v subject = .ok p) :
    Expr.subjectVerdict map repr I row op v (subject.bind b) = some (p.verdict I row) := by
  obtain ⟨name, rfl, h⟩ | ⟨name, fallback, w, rfl, hw, h⟩ := of_compareSubject h
  · rw [Expr.bind_member]
    exact verdict_compareMember hop h
  · rw [Expr.value?_eq_some_iff] at hw
    rw [Expr.bind_coalesce, Expr.bind_member, hw]
    exact verdict_compareCoalesce h

theorem verdict_compare {op : CompareOp} {l r : Expr}
    (h : compare ⟨.twoValued, repr⟩ map b op l r = .ok p) :
    Expr.compareVerdict map repr I row op (l.bind b) (r.bind b) = some (p.verdict I row) := by
  obtain ⟨v, hv, h⟩ | ⟨hnone, v, hv, h⟩ := of_compare h
  · rw [Expr.value?_eq_some_iff] at hv
    rw [hv, Expr.compareVerdict, ← op.toOperator_eq_ofLeft]
    exact verdict_compareSubject (isNullCheck_toOperator op) h
  · rw [Expr.value?_eq_some_iff] at hv
    rw [hv, Expr.compareVerdict, ← op.mirror_toOperator]
    · exact verdict_compareSubject (isNullCheck_mirror op) h
    · exact Expr.bind_ne_constant hnone

/-! ### Calls -/

/-- A method that asks for equality has the verdict of the equality. -/
theorem callVerdict_equality {method : Method} {caseSensitive : Bool}
    (h : equality? method = some caseSensitive) (v : Value) :
    Expr.callVerdict map repr I row method (.member name) (.constant v) =
      Expr.equalsVerdict map repr I row name caseSensitive v := by
  cases method with
  | equals | equalsIgnoreCase =>
    cases h
    rfl
  | _ => cases h

/-- A method that asks for a pattern has the verdict of the pattern. -/
theorem callVerdict_pattern {method : Method} {s pattern : String}
    (h : likePattern method s = some pattern) :
    Expr.callVerdict map repr I row method (.member name) (.constant (.text s)) =
      Expr.likeVerdict map I row name pattern := by
  cases method with
  | contains | startsWith | endsWith =>
    cases h
    rfl
  | _ => cases h

theorem verdict_callMember {method : Method} {v : Value}
    (h : callMember ⟨.twoValued, repr⟩ map b whole method name v = .ok p) :
    Expr.callVerdict map repr I row method (.member name) (.constant v) = some (p.verdict I row) := by
  obtain ⟨q, hq, ⟨cs, hcs, hv, rfl⟩ | ⟨s, pattern, rfl, hpattern, rfl⟩⟩ := of_callMember h
  · rw [callVerdict_equality hcs, Expr.equalsVerdict, hq, Option.bind_some, hv,
      if_neg Bool.false_ne_true]
    rfl
  · rw [callVerdict_pattern hpattern, Expr.likeVerdict, hq, Option.bind_some]
    rfl

theorem verdict_callValue {method : Method} {v : Value}
    (h : callValue ⟨.twoValued, repr⟩ map b whole method v name = .ok p) :
    Expr.callVerdict map repr I row method (.constant v) (.member name) = some (p.verdict I row) := by
  obtain ⟨items, q, rfl, rfl, hq, rfl⟩ | ⟨hequality, h⟩ := of_callValue h
  · have hi := Value.storedItems_isEmpty (q.repr.getD repr) items
    simp only [Expr.callVerdict, Expr.inVerdict, hq, Option.bind_some, verdict, Condition.verdict,
      Condition.make, Condition.listValues, Property.columnValue, Value.stored, hi]
  · -- Equality has its sides in either order.
    cases method <;> first | exact verdict_callMember h | cases hequality

theorem verdict_call {method : Method} {target arg : Expr}
    (h : call ⟨.twoValued, repr⟩ map b method target arg = .ok p) :
    Expr.callVerdict map repr I row method (target.bind b) (arg.bind b) = some (p.verdict I row) := by
  obtain ⟨name, v, rfl, hv, h⟩ | ⟨name, v, rfl, hv, h⟩ := of_call h
  · rw [Expr.value?_eq_some_iff] at hv
    rw [hv, Expr.bind_member]
    exact verdict_callMember h
  · rw [Expr.value?_eq_some_iff] at hv
    rw [hv, Expr.bind_member]
    exact verdict_callValue h

/-- A call over nothing says what its conjunction is of nothing. -/
theorem verdict_overNothing {body : Expr} {conjunction : Conjunction}
    (h : overNothing map b whole body conjunction = .ok p) :
    p.verdict I row = conjunction.truth [] := by
  obtain ⟨-, -, -, -, ⟨rfl, rfl⟩ | ⟨rfl, rfl⟩⟩ := of_overNothing h
  · rfl
  · rfl

/-! ### The whole predicate -/

/-- The verdicts of the predicates made for the elements of a list. -/
theorem mapM_verdict {f : Value → Result Predicate} {g : Value → Option Truth} {items : List Value}
    {ps : List Predicate} (h : items.mapM f = .ok ps)
    (hfg : ∀ v q, f v = .ok q → g v = some (q.verdict I row)) :
    items.mapM g = some (verdicts I row ps) := by
  rw [mapM_eq_ok_iff] at h
  induction h with
  | nil => rfl
  | cons hv _ ih => simp only [List.mapM_cons, hfg _ _ hv, ih, verdicts, Option.bind_eq_bind,
      Option.bind_some, Option.pure_def]

/-- A call over a list says its body of all or of any of the elements. -/
theorem verdict_quantified {method : Method} {conjunction : Conjunction} {items : List Value}
    {param : String} {body : Expr} (hm : quantifier? method = some conjunction) :
    (Expr.call method (.constant (.list items)) [.lambda param body]).verdict map repr I row =
      (items.mapM fun v => (body.substitute param v).verdict map repr I row).map
        conjunction.truth := by
  cases method with
  | all => cases hm; rw [Expr.verdict]; rfl
  | any => cases hm; rw [Expr.verdict]; rfl
  | _ => cases hm

/-- A call by another method has the verdict of its sides. -/
theorem verdict_plainCall {method : Method} {target arg : Expr}
    (hm : ¬(quantifier? method).isSome = true) :
    (Expr.call method target [arg]).verdict map repr I row =
      Expr.callVerdict map repr I row method target arg := by
  rw [Expr.verdict]
  · rintro _ _ _ rfl
    exact absurd rfl hm
  · rintro _ _ _ rfl
    exact absurd rfl hm

/-- The predicate made under bindings has the verdict of the filter with the bindings in place. -/
theorem verdict_ofExpr_bind (hI : I.Complementary) (hrow : row.Fits map) (e : Expr) (b : Bindings)
    (p : Predicate) (h : ofExpr ⟨.twoValued, repr⟩ map b e = .ok p) :
    (e.bind b).verdict map repr I row = some (p.verdict I row) := by
  replace h := becomes_of_ofExpr h
  induction h with
  | member h =>
    rw [Expr.bind_member, Expr.verdict]
    exact verdict_truth h
  | compare h =>
    rw [Expr.bind_compare, Expr.verdict]
    exact verdict_compare h
  | and _ _ ihl ihr =>
    rw [Expr.bind_and, Expr.verdict, ihl, ihr]
    simp only [Option.bind_some, Option.map_some, verdict, Truth.signed, verdicts_append,
      Conjunction.truth_append, verdict_itemsFor, Bool.false_eq_true, if_false]
  | or _ _ ihl ihr =>
    rw [Expr.bind_or, Expr.verdict, ihl, ihr]
    simp only [Option.bind_some, Option.map_some, verdict, Truth.signed, verdicts_append,
      Conjunction.truth_append, verdict_itemsFor, Bool.false_eq_true, if_false]
  | notMember h =>
    rw [Expr.bind_not, Expr.bind_member, Expr.verdict, Expr.verdict]
    exact verdict_truth_false hI hrow h
  | not _ ih =>
    rw [Expr.bind_not, Expr.verdict, ih, verdict_negate hI]
    rfl
  | overNothing hm ht h =>
    rw [Expr.value?_eq_some_iff] at ht
    rw [Expr.bind_call, ht, Expr.bind_lambda, verdict_quantified hm, verdict_overNothing h]
    rfl
  | overItems hm ht _ hps _ ih =>
    rw [Expr.value?_eq_some_iff] at ht
    rw [Expr.bind_call, ht, Expr.bind_lambda, verdict_quantified hm,
      mapM_verdict hps (g := fun v => _) fun v q hq => by
        rw [Expr.substitute_bind_without]; exact ih v q hq]
    rfl
  | call _ hm h =>
    rw [Expr.bind_call, verdict_plainCall hm]
    exact verdict_call h

end Predicate

/-- **Filters keep their meaning**: where the predicate of a filter can be made, the filter says
something of every row that fits the entity, and the predicate says the same. -/
theorem verdict_ofExpr (map : EntityMap) (repr : EnumRepr) (I : Interpretation) (row : StoredRow)
    (hI : I.Complementary) (hrow : row.Fits map) (e : Expr) (g : Group)
    (h : Group.ofExpr ⟨.twoValued, repr⟩ map e = .ok g) :
    e.verdict map repr I row = some (g.verdict I row) := by
  unfold Group.ofExpr at h
  split at h
  case h_1 conjunction negated items hp =>
    cases h
    exact Predicate.verdict_ofExpr_bind hI hrow e [] _ hp
  case h_2 c hp =>
    cases h
    have hc : (Group.single c).verdict I row = c.verdict I row := by
      simp [Group.single, Group.of, Group.verdict, Predicate.verdicts, Predicate.verdict,
        Truth.signed, Conjunction.truth]
    rw [hc]
    exact Predicate.verdict_ofExpr_bind hI hrow e [] _ hp
  case h_3 => cases h

/-! ### A filter over a list, with a value on the left -/

namespace Sample

/-- People with an age that may be null and a column of truth values. -/
def people : EntityMap :=
  ⟨"Person", "Person",
    [⟨"Age", "age", ⟨.int32, true⟩, none, false⟩, ⟨"Active", "active", ⟨.bool, false⟩, none, false⟩]⟩

/-- Not any of `[3, null]` is the age, the person is active, and four is below the age. -/
def ageless : Expr :=
  .and
    (.and
      (.not (.call .any (.constant (.list [.int 3, .null]))
        [.lambda "v" (.compare .eq (.parameter "v") (.member "Age"))]))
      (.member "Active"))
    (.compare .lt (.constant (.int 4)) (.member "Age"))

/-- An active person of age 5. -/
def five : StoredRow := fun column => if column = "active" then .bool true else .int 5

/-- The condition on the age that an element of the list becomes. -/
def ageIs (op : Operator) (v : Value) : Predicate :=
  .condition (.make ⟨"age", some .int32⟩ op v)

/-- The group that the filter becomes. -/
def agelessGroup : Group :=
  .of .and
    [.group .or true [ageIs .equal (.int 3), ageIs .isNull .null],
      .condition (.make ⟨"active", some .bool⟩ .equal (.bool true)),
      ageIs .greaterThan (.int 4)]

theorem five_fits : five.Fits people := by
  intro p hp hb
  simp only [people, List.mem_cons, List.not_mem_nil, or_false] at hp
  rcases hp with rfl | rfl
  · cases hb
  · exact .inr ⟨true, rfl⟩

end Sample

/-- The verdict of a filter on a row that it holds of. -/
theorem verdict_ofExpr_ageless :
    Comparisons.plain.interpretation.Complementary ∧ Sample.five.Fits Sample.people ∧
      Group.ofExpr ⟨.twoValued, .name⟩ Sample.people Sample.ageless = .ok Sample.agelessGroup ∧
      Sample.ageless.verdict Sample.people .name Comparisons.plain.interpretation Sample.five =
        some (Sample.agelessGroup.verdict Comparisons.plain.interpretation Sample.five) ∧
      Sample.agelessGroup.verdict Comparisons.plain.interpretation Sample.five = .holds :=
  ⟨Comparisons.lawful_plain.complementary, Sample.five_fits, rfl,
    verdict_ofExpr Sample.people .name _ _ Comparisons.lawful_plain.complementary Sample.five_fits
      Sample.ageless Sample.agelessGroup rfl,
    by decide⟩

end EntitySql
