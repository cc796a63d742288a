import EntitySql.Predicate.OfExpr
import EntitySql.Proofs.Result

/-!
# The forms of filters

A filter is refused unless it is one of a few forms, and each form has its own way of becoming a predicate.
`Predicate.Becomes` lists the forms, with the predicates of the parts where a form has parts, and
**`Predicate.becomes_of_ofExpr`** says that there are no others: whatever is to be shown of all predicates
that filters become is shown by induction on the form.

A call over a list becomes one predicate for every element, each made of the same body under bindings of
its own, so the bindings are not fixed along the induction.

The forms without parts are comparisons and calls. One lemma for each function that makes a condition says
what it was made of (`of_compareMember` to `of_overNothing`), and what is proved of all conditions starts
from these.
-/

namespace EntitySql

theorem EntityMap.resolve_eq_ok_iff {map : EntityMap} {name : String} {p : Property} :
    map.resolve name = .ok p ↔ map.property? name = some p := by
  unfold resolve
  cases map.property? name <;> simp

theorem EntityMap.mem_of_property? {map : EntityMap} {name : String} {p : Property}
    (h : map.property? name = some p) : p ∈ map.properties := List.mem_of_find?_eq_some h

namespace Predicate

/-! ### All forms -/

variable {rules : FilterRules} {map : EntityMap}

/-- An expression becomes a predicate under the bindings, by the form that it has. -/
inductive Becomes (rules : FilterRules) (map : EntityMap) : Bindings → Expr → Predicate → Prop where
  | member {b : Bindings} {name : String} {p : Predicate}
      (h : truth map b (.member name) name true = .ok p) : Becomes rules map b (.member name) p
  | compare {b : Bindings} {op : CompareOp} {l r : Expr} {p : Predicate}
      (h : Predicate.compare rules map b op l r = .ok p) : Becomes rules map b (.compare op l r) p
  | and {b : Bindings} {l r : Expr} {p q : Predicate} (left : Becomes rules map b l p)
      (right : Becomes rules map b r q) :
      Becomes rules map b (.and l r) (.group .and false (itemsFor .and p ++ itemsFor .and q))
  | or {b : Bindings} {l r : Expr} {p q : Predicate} (left : Becomes rules map b l p)
      (right : Becomes rules map b r q) :
      Becomes rules map b (.or l r) (.group .or false (itemsFor .or p ++ itemsFor .or q))
  | notMember {b : Bindings} {name : String} {p : Predicate}
      (h : truth map b (.not (.member name)) name false = .ok p) :
      Becomes rules map b (.not (.member name)) p
  | not {b : Bindings} {e : Expr} {p : Predicate} (body : Becomes rules map b e p) :
      Becomes rules map b (.not e) p.negate
  | overNothing {b : Bindings} {method : Method} {conjunction : Conjunction} {target body : Expr}
      {param : String} {p : Predicate} (quantified : quantifier? method = some conjunction)
      (list : target.value? b = some (.list []))
      (h : Predicate.overNothing map b (.call method target [.lambda param body]) body conjunction =
        .ok p) :
      Becomes rules map b (.call method target [.lambda param body]) p
  | overItems {b : Bindings} {method : Method} {conjunction : Conjunction} {target body : Expr}
      {param : String} {items : List Value} {ps : List Predicate}
      (quantified : quantifier? method = some conjunction)
      (list : target.value? b = some (.list items)) (nonempty : items ≠ [])
      (made : items.mapM (fun item => ofExpr rules map ((param, item) :: b) body) = .ok ps)
      (each : ∀ item q, ofExpr rules map ((param, item) :: b) body = .ok q →
        Becomes rules map ((param, item) :: b) body q) :
      Becomes rules map b (.call method target [.lambda param body]) (.group conjunction false ps)
  | call {b : Bindings} {method : Method} {target arg : Expr} {p : Predicate}
      (argument : ∀ param body, arg ≠ .lambda param body)
      (plain : ¬(quantifier? method).isSome = true)
      (h : Predicate.call rules map b method target arg = .ok p) :
      Becomes rules map b (.call method target [arg]) p

/-- **Filters of other forms are refused.** -/
theorem becomes_of_ofExpr {b : Bindings} {e : Expr} {p : Predicate}
    (h : ofExpr rules map b e = .ok p) : Becomes rules map b e p := by
  induction b, e using ofExpr.induct generalizing p with
  | case1 b name =>
    rw [ofExpr] at h
    exact .member h
  | case2 b op l r =>
    rw [ofExpr] at h
    exact .compare h
  | case3 b l r ihl ihr =>
    rw [ofExpr] at h
    obtain ⟨q, hq, h⟩ := bind_eq_ok_iff.mp h
    obtain ⟨s, hs, h⟩ := bind_eq_ok_iff.mp h
    cases h
    exact .and (ihl hq) (ihr hs)
  | case4 b l r ihl ihr =>
    rw [ofExpr] at h
    obtain ⟨q, hq, h⟩ := bind_eq_ok_iff.mp h
    obtain ⟨s, hs, h⟩ := bind_eq_ok_iff.mp h
    cases h
    exact .or (ihl hq) (ihr hs)
  | case5 b name =>
    rw [ofExpr] at h
    exact .notMember h
  | case6 b e hm ih =>
    rw [ofExpr.eq_6 _ _ _ _ hm] at h
    obtain ⟨q, hq, h⟩ := bind_eq_ok_iff.mp h
    cases h
    exact .not (ih hq)
  | case7 b method target param body conjunction ht hm =>
    simp only [ofExpr, hm, ht] at h
    exact .overNothing hm ht h
  | case8 b method target param body conjunction items hi ht hm ih =>
    simp only [ofExpr, hm, ht] at h
    obtain ⟨ps, hps, h⟩ := bind_eq_ok_iff.mp h
    cases h
    exact .overItems hm ht hi hps fun v _ hq => ih v hq
  | case9 b method target param body hn hl =>
    -- the method runs over no list, or what it is called on is none
    rw [ofExpr] at h
    split at h
    case h_1 => exact (hn _ ‹_› ‹_›).elim
    case h_2 => exact (hl _ _ ‹_› ‹_›).elim
    case h_3 => cases h
  | case10 b method target arg ha hm =>
    rw [ofExpr.eq_8 _ _ _ _ _ _ ha, if_pos hm] at h
    cases h
  | case11 b method target arg ha hm =>
    rw [ofExpr.eq_8 _ _ _ _ _ _ ha, if_neg hm] at h
    exact .call ha hm h
  | case12 b e h₁ h₂ h₃ h₄ h₅ h₆ h₇ h₈ =>
    rw [ofExpr.eq_9 _ _ _ _ h₁ h₂ h₃ h₄ h₅ h₆ h₇ h₈] at h
    cases h

/-! ### Comparisons -/

variable {b : Bindings} {whole : Expr} {name : String} {op : Operator} {v : Value} {p : Predicate}

theorem of_truth {t : Bool} (h : truth map b whole name t = .ok p) :
    ∃ q, map.property? name = some q ∧ q.valueType = .bool ∧
      p = .condition (.make (fieldOf q) .equal (.bool t)) := by
  obtain ⟨q, hq, h⟩ := bind_eq_ok_iff.mp h
  split at h
  case isTrue hbool => exact ⟨q, EntityMap.resolve_eq_ok_iff.mp hq, hbool, (Except.ok.inj h).symm⟩
  case isFalse => cases h

/-- What the comparison of a property with a value becomes. A comparison with null is a test for null,
and three-valued nulls add such a test to an equation and an inequation. -/
inductive Compared (rules : FilterRules) (q : Property) (v : Value) : Operator → Predicate → Prop where
  | isNull (null : v.isNull = true) :
      Compared rules q v .equal (.condition (.make (fieldOf q) .isNull .null))
  | isNotNull (null : v.isNull = true) :
      Compared rules q v .notEqual (.condition (.make (fieldOf q) .isNotNull .null))
  | plain {op : Operator} (value : v.isNull = false)
      (decided : rules.nulls = .threeValued → op ≠ .equal ∧ op ≠ .notEqual) :
      Compared rules q v op (.condition (.make (fieldOf q) op (q.columnValue rules.repr v)))
  | equal (value : v.isNull = false) (nulls : rules.nulls = .threeValued) :
      Compared rules q v .equal (.group .and false
        [.condition (.make (fieldOf q) .equal (q.columnValue rules.repr v)),
          .condition (.make (fieldOf q) .isNotNull .null)])
  | notEqual (value : v.isNull = false) (nulls : rules.nulls = .threeValued) :
      Compared rules q v .notEqual (.group .or false
        [.condition (.make (fieldOf q) .notEqual (q.columnValue rules.repr v)),
          .condition (.make (fieldOf q) .isNull .null)])

theorem of_compareMember (h : compareMember rules map b whole name op v = .ok p) :
    ∃ q, map.property? name = some q ∧ Compared rules q v op p := by
  obtain ⟨q, hq, hmade⟩ := bind_eq_ok_iff.mp h
  refine ⟨q, EntityMap.resolve_eq_ok_iff.mp hq, ?_⟩
  cases hv : v.isNull with
  | true =>
    simp only [hv, if_true] at hmade
    split at hmade
    case h_1 =>
      cases hmade
      exact .isNull hv
    case h_2 =>
      cases hmade
      exact .isNotNull hv
    case h_3 => cases hmade
  | false =>
    simp only [hv, Bool.false_eq_true, if_false] at hmade
    split at hmade
    case h_1 hnulls =>
      cases hmade
      exact .notEqual hv hnulls
    case h_2 hnulls =>
      cases hmade
      exact .equal hv hnulls
    case h_3 hnotEqual hequal =>
      cases hmade
      exact .plain hv fun hnulls => ⟨hequal hnulls, hnotEqual hnulls⟩

/-- Only an equation with the fallback can be said of a property that has one. -/
theorem of_compareCoalesce {fallback : Value}
    (h : compareCoalesce rules map b whole name fallback op v = .ok p) :
    op = .equal ∧ v.isNull = false ∧ fallback.equal v = true ∧
      ∃ q, map.property? name = some q ∧ p = .group .or false
        [.condition (.make (fieldOf q) .equal (q.columnValue rules.repr v)),
          .condition (.make (fieldOf q) .isNull .null)] := by
  unfold compareCoalesce at h
  split at h
  case isTrue => cases h
  case isFalse hsaid =>
    obtain ⟨hop, hv, hsame⟩ : op = .equal ∧ v.isNull = false ∧ fallback.equal v = true := by
      simpa [not_or, Classical.not_not] using hsaid
    obtain ⟨q, hq, h⟩ := bind_eq_ok_iff.mp h
    exact ⟨hop, hv, hsame, q, EntityMap.resolve_eq_ok_iff.mp hq, (Except.ok.inj h).symm⟩

theorem of_compareSubject {subject : Expr}
    (h : compareSubject rules map b whole op v subject = .ok p) :
    (∃ name, subject = .member name ∧ compareMember rules map b whole name op v = .ok p) ∨
      ∃ name fallback w, subject = .coalesce (.member name) fallback ∧ fallback.value? b = some w ∧
        compareCoalesce rules map b whole name w op v = .ok p := by
  unfold compareSubject at h
  split at h
  case h_1 name => exact .inl ⟨name, rfl, h⟩
  case h_2 name fallback =>
    split at h
    case h_1 w hw => exact .inr ⟨name, fallback, w, rfl, hw, h⟩
    case h_2 => cases h
  case h_3 => cases h

/-- The value of a comparison stands on the right, or on the left and changes the sides. -/
theorem of_compare {op : CompareOp} {l r : Expr} (h : compare rules map b op l r = .ok p) :
    (∃ v, r.value? b = some v ∧
        compareSubject rules map b (.compare op l r) op.toOperator v l = .ok p) ∨
      r.value? b = none ∧ ∃ v, l.value? b = some v ∧
        compareSubject rules map b (.compare op l r) op.toOperator.mirror v r = .ok p := by
  unfold compare at h
  split at h
  case h_1 v hv => exact .inl ⟨v, hv, h⟩
  case h_2 hnone =>
    split at h
    case h_1 v hv => exact .inr ⟨hnone, v, hv, h⟩
    case h_2 => cases h

/-- The operators of comparisons are neither tests for null nor tests against lists. -/
theorem isNullCheck_toOperator (op : CompareOp) :
    op.toOperator.isNullCheck = false ∧ op.toOperator.isList = false := by
  cases op <;> exact ⟨rfl, rfl⟩

theorem isNullCheck_mirror (op : CompareOp) :
    op.toOperator.mirror.isNullCheck = false ∧ op.toOperator.mirror.isList = false := by
  cases op <;> exact ⟨rfl, rfl⟩

/-! ### Calls -/

variable {method : Method}

theorem of_callMember (h : callMember rules map b whole method name v = .ok p) :
    ∃ q, map.property? name = some q ∧
      ((∃ caseSensitive, equality? method = some caseSensitive ∧ v.isNull = false ∧
          p = .condition ⟨fieldOf q, .equal, q.columnValue rules.repr v, caseSensitive⟩) ∨
        ∃ s pattern, v = .text s ∧ likePattern method s = some pattern ∧
          p = .condition (.make (fieldOf q) .like (.text pattern))) := by
  unfold callMember at h
  split at h
  case h_1 caseSensitive hequality =>
    split at h
    case isTrue => cases h
    case isFalse hv =>
      obtain ⟨q, hq, h⟩ := bind_eq_ok_iff.mp h
      exact ⟨q, EntityMap.resolve_eq_ok_iff.mp hq,
        .inl ⟨caseSensitive, hequality, by simpa using hv, (Except.ok.inj h).symm⟩⟩
  case h_2 =>
    split at h
    case h_1 pattern hpattern =>
      obtain ⟨q, hq, h⟩ := bind_eq_ok_iff.mp h
      obtain ⟨s, hs, hpattern⟩ := Option.bind_eq_some_iff.mp hpattern
      obtain rfl : v = .text s := by cases v <;> simp_all [Value.asText]
      exact ⟨q, EntityMap.resolve_eq_ok_iff.mp hq,
        .inr ⟨s, pattern, rfl, hpattern, (Except.ok.inj h).symm⟩⟩
    case h_2 => cases h

/-- A list is asked whether it has the value of a property, and an equality has its sides in either
order. -/
theorem of_callValue (h : callValue rules map b whole method v name = .ok p) :
    (∃ items q, method = .contains ∧ v = .list items ∧ map.property? name = some q ∧
        p = .condition (.make (fieldOf q) .inList (q.columnValue rules.repr (.list items)))) ∨
      (equality? method).isSome = true ∧ callMember rules map b whole method name v = .ok p := by
  unfold callValue at h
  split at h
  case h_1 items =>
    obtain ⟨q, hq, h⟩ := bind_eq_ok_iff.mp h
    exact .inl ⟨items, q, rfl, rfl, EntityMap.resolve_eq_ok_iff.mp hq, (Except.ok.inj h).symm⟩
  case h_2 =>
    split at h
    case isTrue hequality => exact .inr ⟨hequality, h⟩
    case isFalse => cases h

theorem of_call {target arg : Expr} (h : call rules map b method target arg = .ok p) :
    (∃ name v, target = .member name ∧ arg.value? b = some v ∧
        callMember rules map b (.call method target [arg]) method name v = .ok p) ∨
      ∃ name v, arg = .member name ∧ target.value? b = some v ∧
        callValue rules map b (.call method target [arg]) method v name = .ok p := by
  unfold call at h
  split at h
  case h_1 name =>
    split at h
    case h_1 v hv => exact .inl ⟨name, v, rfl, hv, h⟩
    case h_2 => cases h
  case h_2 name _ =>
    split at h
    case h_1 v hv => exact .inr ⟨name, v, rfl, hv, h⟩
    case h_2 => cases h
  case h_3 => cases h

theorem of_overNothing {body : Expr} {conjunction : Conjunction}
    (h : overNothing map b whole body conjunction = .ok p) :
    ∃ name q, body.firstMember = some name ∧ map.property? name = some q ∧
      ((conjunction = .and ∧ p = .condition (.make (fieldOf q) .notInList (.list []))) ∨
        conjunction = .or ∧ p = .condition (.make (fieldOf q) .inList (.list []))) := by
  unfold overNothing at h
  split at h
  case h_1 => cases h
  case h_2 name hname =>
    obtain ⟨q, hq, h⟩ := bind_eq_ok_iff.mp h
    refine ⟨name, q, hname, EntityMap.resolve_eq_ok_iff.mp hq, ?_⟩
    cases conjunction with
    | and => exact .inl ⟨rfl, (Except.ok.inj h).symm⟩
    | or => exact .inr ⟨rfl, (Except.ok.inj h).symm⟩

end Predicate

end EntitySql
