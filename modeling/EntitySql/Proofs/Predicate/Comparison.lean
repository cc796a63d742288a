import EntitySql.Proofs.Predicate.Meaning
import EntitySql.Text.LowerCase

/-!
# How a database compares values

`Comparisons` holds what a database brings to a condition: the truth of a comparison of two values, of
a value being in a list, and the lower-case form of a value. It gives an `Interpretation`, and
`Comparisons.plain` is one in which nulls are unknown, numbers are ordered and `%` and `_` stand for
characters in a pattern.
-/

namespace EntitySql

/-- What a database says of values. -/
structure Comparisons where
  scalar : Operator → Value → Value → Truth
  list : Value → List Value → Truth
  lower : Value → Value

namespace Comparisons

/-- What a condition says of a value. The case of letters counts in scalar comparisons only. -/
def judge (C : Comparisons) (c : Condition) (x : Value) : Truth :=
  match c.operator with
  | .inList => C.list x c.listValues
  | .notInList => (C.list x c.listValues).not
  | op =>
    if c.caseSensitive then C.scalar op x c.value else C.scalar op (C.lower x) (C.lower c.value)

/-- The interpretation of conditions by the value that the row has in their column. -/
def interpretation (C : Comparisons) : Interpretation := fun row c => C.judge c (row c.field.name)

/-- Complementary operators have complementary truth, and of the two truth values a column has
one. -/
structure Lawful (C : Comparisons) : Prop where
  negate : ∀ op x v, op.isNullCheck = false → op.isList = false →
    C.scalar op.negate x v = (C.scalar op x v).not
  null : ∀ b, C.scalar .equal .null (.bool b) = .unknown
  bool : ∀ b, C.scalar .equal (.bool b) (.bool false) = (C.scalar .equal (.bool b) (.bool true)).not

theorem Lawful.complementary {C : Comparisons} (h : C.Lawful) : C.interpretation.Complementary where
  negate := by
    intro row c hc
    obtain ⟨field, op, v, cs⟩ := c
    have hs := fun x w => h.negate op x w hc
    cases op with
    | isNull | isNotNull => cases hc
    | inList => rfl
    | notInList => exact (Truth.not_not _).symm
    | _ =>
      cases cs with
      | true => exact hs (row field.name) v rfl
      | false => exact hs (C.lower (row field.name)) (C.lower v) rfl
  bool := by
    rintro row field - (hn | ⟨b, hb⟩)
    · show C.scalar .equal (row field.name) (.bool false) =
        (C.scalar .equal (row field.name) (.bool true)).not
      rw [hn, h.null, h.null]
      rfl
    · show C.scalar .equal (row field.name) (.bool false) =
        (C.scalar .equal (row field.name) (.bool true)).not
      rw [hb]
      exact h.bool b

/-! ### Plain comparisons -/

/-- Whether a text fits a pattern in which `%` stands for any characters and `_` for one. -/
def likes : (pattern : List Char) → List Char → Bool
  | [], s => s.isEmpty
  | '%' :: rest, s => (List.range (s.length + 1)).any fun n => likes rest (s.drop n)
  | '_' :: rest, _ :: s => likes rest s
  | c :: rest, d :: s => c = d && likes rest s
  | _ :: _, [] => false

/-- Whether a value stands before another; only integers are ordered. -/
def precedes : Value → Value → Bool
  | .int m, .int n => m.toInt < n.toInt
  | _, _ => false

/-- Whether a comparison of two values that are not null holds. -/
def compares : Operator → Value → Value → Bool
  | .equal, x, v => x.equal v
  | .notEqual, x, v => !x.equal v
  | .greaterThan, x, v => precedes v x
  | .lessThan, x, v => precedes x v
  | .greaterOrEqual, x, v => !precedes x v
  | .lessOrEqual, x, v => !precedes v x
  | .like, .text s, .text pattern => likes pattern.toList s.toList
  | .notLike, .text s, .text pattern => !likes pattern.toList s.toList
  | .notLike, _, _ => true
  | _, _, _ => false

/-- A comparison is unknown if a side is null. -/
def scalarPlain (op : Operator) (x v : Value) : Truth :=
  if x.isNull || v.isNull then .unknown else .ofBool (compares op x v)

/-- Comparisons in which a value is in a list if it equals an element. -/
def plain : Comparisons where
  scalar := scalarPlain
  list x vs := .any (vs.map (scalarPlain .equal x))
  lower
    | .text s => .text (Text.lower s)
    | v => v

theorem compares_negate {op : Operator} (hn : op.isNullCheck = false) (hl : op.isList = false)
    (x v : Value) : compares op.negate x v = !compares op x v := by
  cases op with
  | isNull | isNotNull => cases hn
  | inList | notInList => cases hl
  | like | notLike => cases x <;> cases v <;> simp [Operator.negate, compares]
  | _ => simp [Operator.negate, compares]

theorem lawful_plain : plain.Lawful where
  negate := by
    intro op x v hn hl
    simp only [plain, scalarPlain, compares_negate hn hl]
    split
    · rfl
    · exact (Truth.not_ofBool _).symm
  null := fun _ => rfl
  bool := by
    intro b
    cases b <;> rfl

end Comparisons

end EntitySql
