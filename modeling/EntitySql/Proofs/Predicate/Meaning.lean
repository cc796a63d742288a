import EntitySql.Predicate.OfExpr
import EntitySql.Proofs.Truth

/-!
# What predicates say

The verdict of a predicate on a stored row. What a single condition says is left open: an
`Interpretation` gives it for every row, and only tests for null and tests against an empty list are
fixed. The verdict of a group is the conjunction or disjunction of those of its items, or the
complement of that.
-/

namespace EntitySql

/-- The values that a row has in the columns of a table. -/
abbrev StoredRow := String → Value

/-- The row keeps nothing but truth values and nulls in the columns of truth values. -/
def StoredRow.Fits (row : StoredRow) (map : EntityMap) : Prop :=
  ∀ p ∈ map.properties, p.valueType = .bool → row p.column = .null ∨ ∃ b, row p.column = .bool b

/-- What conditions that are no tests for null say of rows. -/
abbrev Interpretation := StoredRow → Condition → Truth

/-- Complementary operators have complementary truth, and a column of truth values is false exactly
where it is not true. -/
structure Interpretation.Complementary (I : Interpretation) : Prop where
  negate : ∀ row c, c.operator.isNullCheck = false → I row c.negate = (I row c).not
  bool : ∀ row field, field.type = some .bool →
    (row field.name = .null ∨ ∃ b, row field.name = .bool b) →
    I row (.make field .equal (.bool false)) = (I row (.make field .equal (.bool true))).not

variable (I : Interpretation) (row : StoredRow)

/-- The verdict of a condition. Nothing is in an empty list. -/
def Condition.verdict (c : Condition) : Truth :=
  match c.operator with
  | .isNull => .ofBool (row c.field.name).isNull
  | .isNotNull => .ofBool !(row c.field.name).isNull
  | .inList => if c.listValues.isEmpty then .fails else I row c
  | .notInList => if c.listValues.isEmpty then .holds else I row c
  | _ => I row c

/-- The truth of items that are joined. -/
def Conjunction.truth : Conjunction → List Truth → Truth
  | and, ts => .all ts
  | or, ts => .any ts

/-- The truth of a body with its negation. -/
def Truth.signed (negated : Bool) (t : Truth) : Truth := if negated then t.not else t

mutual
/-- The verdict of a predicate. -/
def Predicate.verdict : Predicate → Truth
  | .condition c => c.verdict I row
  | .group conjunction negated items => .signed negated (conjunction.truth (Predicate.verdicts items))

/-- The verdicts of the predicates in a list. -/
def Predicate.verdicts : List Predicate → List Truth
  | [] => []
  | p :: rest => Predicate.verdict p :: Predicate.verdicts rest
end

/-- The verdict of a group. -/
def Group.verdict (g : Group) : Truth :=
  .signed g.negated (g.conjunction.truth (Predicate.verdicts I row g.items))

/-! ### Laws -/

variable {I row}

theorem Conjunction.truth_append (conjunction : Conjunction) (ts us : List Truth) :
    conjunction.truth (ts ++ us) =
      match conjunction with
      | .and => (Conjunction.and.truth ts).and (Conjunction.and.truth us)
      | .or => (Conjunction.or.truth ts).or (Conjunction.or.truth us) := by
  cases conjunction with
  | and => exact Truth.all_append ts us
  | or => exact Truth.any_append ts us

@[simp] theorem Conjunction.truth_singleton (conjunction : Conjunction) (t : Truth) :
    conjunction.truth [t] = t := by
  cases conjunction <;> simp [Conjunction.truth]

theorem Truth.signed_not (negated : Bool) (t : Truth) :
    Truth.signed (!negated) t = (Truth.signed negated t).not := by
  cases negated <;> simp [Truth.signed]

theorem Predicate.verdicts_append (ps qs : List Predicate) :
    verdicts I row (ps ++ qs) = verdicts I row ps ++ verdicts I row qs := by
  induction ps with
  | nil => rfl
  | cons p ps ih => simp only [List.cons_append, verdicts, ih]

/-- A condition that is no test for null or against a list says what the interpretation says. -/
theorem Condition.verdict_of_scalar {c : Condition} (hn : c.operator.isNullCheck = false)
    (hl : c.operator.isList = false) : c.verdict I row = I row c := by
  obtain ⟨field, op, v, cs⟩ := c
  cases op with
  | isNull | isNotNull => simp [Operator.isNullCheck] at hn
  | inList | notInList => simp [Operator.isList] at hl
  | _ => rfl

/-- The list that a condition compares with does not depend on its operator. -/
theorem Condition.listValues_negate (c : Condition) : c.negate.listValues = c.listValues := rfl

theorem Condition.verdict_negate (hI : I.Complementary) (c : Condition) :
    c.negate.verdict I row = (c.verdict I row).not := by
  have h := hI.negate row c
  have hl := c.listValues_negate
  obtain ⟨field, op, v, cs⟩ := c
  cases op with
  | isNull => simp [verdict, negate, Operator.negate]
  | isNotNull => simp [verdict, negate, Operator.negate]
  | inList | notInList =>
    have h := h rfl
    simp only [verdict, negate, Operator.negate] at h hl ⊢
    simp only [hl]
    split
    · rfl
    · exact h
  | _ => exact h rfl

/-- The complement of a predicate says the opposite. -/
theorem Predicate.verdict_negate (hI : I.Complementary) (p : Predicate) :
    p.negate.verdict I row = (p.verdict I row).not := by
  cases p with
  | condition c => exact c.verdict_negate hI
  | group conjunction negated items => exact Truth.signed_not negated _

/-- Taking over the items of a plain group of the same conjunction changes nothing. -/
theorem Predicate.verdict_itemsFor (conjunction : Conjunction) (p : Predicate) :
    conjunction.truth (verdicts I row (itemsFor conjunction p)) = p.verdict I row := by
  cases p with
  | condition c => simp [itemsFor, verdicts]
  | group c negated items =>
    cases negated with
    | true => simp [itemsFor, verdicts]
    | false =>
      by_cases h : c = conjunction
      · subst h; simp [itemsFor, verdict, Truth.signed]
      · simp [itemsFor, h, verdicts]

end EntitySql
