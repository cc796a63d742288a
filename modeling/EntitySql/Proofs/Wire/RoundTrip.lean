import EntitySql.Proofs.Wire.Expr
import EntitySql.Proofs.Wire.Schema

/-!
# Written texts are read back

A value, condition, group or expression without binary numbers is read back from its JSON text with
civil times if the brackets of the text are nested no deeper than is read at all, and not read
otherwise; the texts of columns, orders and operations are never nested so deeply
(**`readText_written`**). Where every leap second follows a second 59, what is read back is the same
value in every part, a decimal with its scale and a column with its parameter name.
-/

namespace EntitySql.Wire

variable {α : Type} {read : Nat → Json.Document → Option α} {write : α → Json} {a b : α}

/-- The text of what is written is read as `b`, if it is nested no deeper than is read. -/
def ReadsAs (read : Nat → Json.Document → Option α) (write : α → Json) (a b : α) : Prop :=
  readText read (write a).toText = if (write a).depth ≤ Json.maxNesting then some b else none

/-- The text of a value within the limit is read. -/
theorem ReadsAs.readText_eq (h : ReadsAs read write a b)
    (hdepth : (write a).depth ≤ Json.maxNesting) : readText read (write a).toText = some b := by
  rw [h, if_pos hdepth]

theorem readsAs_value {v : Value} (h : v.IsCanonical) : ReadsAs readValue ofValue v v.civil :=
  readText_toText (isIntegral_ofValue h) (readValue_ofValue _ h)

theorem readGroup_ofGroup (room : Nat) {g : Group} (h : Predicate.AllCanonical g.items) :
    Restores room (readGroup room) (ofGroup g) g.civil :=
  readGroupRecord_groupRecord g.civil fun less hless => forall₂_ofPredicates g.items (by omega) h

/-- **What is written is read back**: values, conditions, groups and expressions within the limit
for nesting with civil times, which are their own exactly if every leap second in them follows a
second 59; columns, orders and operations always. -/
theorem readText_written :
    (∀ v : Value, v.IsCanonical →
      ReadsAs readValue ofValue v v.civil ∧ (v.civil = v ↔ v.IsCivil)) ∧
    (∀ c : Condition, c.value.IsCanonical →
      ReadsAs readCondition ofCondition c c.civil ∧ (c.civil = c ↔ c.value.IsCivil)) ∧
    (∀ g : Group, Predicate.AllCanonical g.items →
      ReadsAs readGroup ofGroup g g.civil ∧ (g.civil = g ↔ Predicate.AllCivil g.items)) ∧
    (∀ e : Expr, e.IsCanonical →
      ReadsAs readExpr ofExpr e e.civil ∧ (e.civil = e ↔ e.IsCivil)) ∧
    (∀ c : Column, readText readColumn (ofColumn c).toText = some c) ∧
    (∀ o : OrderField, readText readOrderField (ofOrderField o).toText = some o) ∧
    ∀ op : Operation, readText readOperation (ofOperation op).toText = some op := by
  refine ⟨fun v h => ⟨readsAs_value h, v.civil_eq_self_iff⟩,
    fun c h => ⟨?_, c.civil_eq_self_iff⟩, fun g h => ⟨?_, g.civil_eq_self_iff⟩,
    fun e h => ⟨?_, e.civil_eq_self_iff⟩, fun c => ?_, fun o => ?_, fun op => ?_⟩
  · exact readText_toText (isIntegral_ofCondition h) (readCondition_ofCondition _ h)
  · exact readText_toText (isIntegral_groupRecord (itemsIntegral_ofPredicates h))
      (readGroup_ofGroup _ h)
  · exact readText_toText (isIntegral_ofExpr h) (readExpr_ofExpr e _ h)
  · have hcolumn : ReadsAs readColumn ofColumn c c :=
      readText_toText (isIntegral_ofColumn c) (readColumn_ofColumn _ c)
    exact hcolumn.readText_eq (by rw [depth_ofColumn]; decide)
  · have horder : ReadsAs readOrderField ofOrderField o o :=
      readText_toText (isIntegral_ofOrderField o) (readOrderField_ofOrderField _ o)
    exact horder.readText_eq (by rw [depth_ofOrderField]; decide)
  · have hoperation : ReadsAs readOperation ofOperation op op :=
      readText_toText (isIntegral_ofOperation op) (readOperation_ofOperation _ op)
    exact hoperation.readText_eq ((depth_ofOperation op).trans (by decide))

/-- Half a second into the leap second behind this second of a minute. -/
def leapTime (second : Nat) : Time :=
  ⟨20, 45, second % 60, 1500000000, by decide, by decide, Nat.mod_lt second (by decide), by decide⟩

/-- A list of a decimal, a text, a time in a leap second and a JSON part. -/
def stockValue : Value :=
  .list [.decimal ⟨150, 2, by decide, by decide⟩, .text "a \"b\"", .time (leapTime 59),
    .json (.object [("at", .array [.number (.integer (-2)), .null]), ("of", .string "é")])]

/-- A condition on the list. -/
def stockCondition : Condition := ⟨⟨"Price", some .decimal⟩, .inList, stockValue, false⟩

/-- A group of the condition in a negated group. -/
def stockGroup : Group := ⟨.or, false, [.group .and true [.condition stockCondition]]⟩

/-- A call whose arguments hold the list. -/
def stockExpr : Expr := .not (.call .contains (.member "Price") [.constant stockValue])

theorem isCanonical_stockValue : stockValue.IsCanonical := by
  have hsorted : ["at", "of"].Pairwise (· < ·) := by decide
  have hnumber : -(twoTo 63 : Int) ≤ -2 ∧ (-2 : Int) < twoTo 64 := by decide
  exact ⟨trivial, trivial, trivial, ⟨hsorted, ⟨hnumber, trivial, trivial⟩, trivial, trivial⟩, trivial⟩

theorem isCivil_stockValue : stockValue.IsCivil :=
  ⟨trivial, trivial, fun _ => rfl, trivial, trivial⟩

/-- The list is read back by itself and as part of a condition, a group and an expression. -/
theorem readText_written_stock : stockValue.IsCanonical ∧ stockValue.IsCivil ∧
    readText readValue (ofValue stockValue).toText = some stockValue ∧
    readText readCondition (ofCondition stockCondition).toText = some stockCondition ∧
    readText readGroup (ofGroup stockGroup).toText = some stockGroup ∧
    readText readExpr (ofExpr stockExpr).toText = some stockExpr := by
  have hvalue := isCanonical_stockValue
  have hcivil := isCivil_stockValue
  obtain ⟨hv, hc, hg, he, -⟩ := readText_written
  obtain ⟨hvread, hvsame⟩ := hv stockValue hvalue
  obtain ⟨hcread, hcsame⟩ := hc stockCondition hvalue
  obtain ⟨hgread, hgsame⟩ := hg stockGroup ⟨⟨hvalue, trivial⟩, trivial⟩
  obtain ⟨heread, hesame⟩ := he stockExpr ⟨trivial, hvalue, trivial⟩
  rw [hvsame.mpr hcivil] at hvread
  rw [hcsame.mpr hcivil] at hcread
  rw [hgsame.mpr ⟨⟨hcivil, trivial⟩, trivial⟩] at hgread
  rw [hesame.mpr ⟨trivial, hcivil, trivial⟩] at heread
  exact ⟨hvalue, hcivil, hvread.readText_eq (by decide), hcread.readText_eq (by decide),
    hgread.readText_eq (by decide), heread.readText_eq (by decide)⟩

/-- Null in the given number of lists. -/
def nestedList : Nat → Value
  | 0 => .null
  | n + 1 => .list [nestedList n]

theorem isCanonical_nestedList : ∀ n, (nestedList n).IsCanonical
  | 0 => trivial
  | n + 1 => ⟨isCanonical_nestedList n, trivial⟩

theorem depth_nestedList : ∀ n, (ofValue (nestedList n)).depth = 2 * n
  | 0 => rfl
  | n + 1 => by
    have ih := depth_nestedList n
    rw [nestedList, ofValue, depth_form, Json.depth, ofValues, ofValues, Json.itemsDepth, ih]
    simp only [Json.itemsDepth]
    omega

/-- A value of 64 lists inside each other is written in 128 brackets, one more than are read, and a
time in a leap second behind second 5 is read as another time, in second 6. -/
theorem readText_nestedList_leapTime :
    ((nestedList 64).IsCanonical ∧
      readText readValue (ofValue (nestedList 64)).toText = none) ∧
    (Value.time (leapTime 5)).IsCanonical ∧
      readText readValue (ofValue (.time (leapTime 5))).toText ≠ some (.time (leapTime 5)) := by
  have hcanonical := isCanonical_nestedList 64
  have hdepth : ¬(ofValue (nestedList 64)).depth ≤ Json.maxNesting := by
    rw [depth_nestedList]
    decide
  have hleap := (readsAs_value (v := .time (leapTime 5)) trivial).readText_eq (by decide)
  refine ⟨⟨hcanonical, ?_⟩, trivial, ?_⟩
  · rw [readsAs_value hcanonical, if_neg hdepth]
  · rw [hleap, ne_eq, Option.some.injEq, Value.civil_eq_self_iff]
    intro hcivil
    have hsecond : (5 : Nat) = 59 := hcivil (by decide)
    cases hsecond

end EntitySql.Wire
