import EntitySql.Proofs.Predicate.Parameters
import Mathlib.Order.Bounds.Basic

/-!
# Parameter names are the least that are free

Names are given to the conditions of a filter from left to right. A condition asks for a whole block
of names at once, those of the number zero first, and goes on to the next number as long as one name
of the block is taken. The numbers it may end at have no bound of their own, and the search ends all
the same: `Condition.parameterNames_isLeast` says that the names of a condition are the block of the
least number that is free, and `conditionNames_least` that this goes on with every condition, each
with the names of those before it taken as well.

**`Group.parameterNames_least`** adds what the blocks amount to: as many names as the condition has
values, and no two names of a filter, or of a filter and what was reserved, that differ at most in
the case of their letters.
-/

namespace EntitySql

open Text

/-- The names of a condition that a number of its stem stands for; a test for null has none. -/
def Condition.namesAt (c : Condition) (n : Nat) : List String :=
  match c.nameCount with
  | none => []
  | some count => stemNames (numberedStem (parameterName c.field.name) n) count

/-- The numbers for which no name of a condition is taken, whatever the case of its letters. -/
def Condition.freeNumbers (c : Condition) (taken : List String) : Set Nat :=
  {n | ∀ name ∈ c.namesAt n, lower name ∉ taken.map lower}

/-- One condition takes the names of the least number that is free. -/
theorem Condition.parameterNames_isLeast (taken : List String) (c : Condition) :
    ∃ n, IsLeast (c.freeNumbers taken) n ∧
      c.parameterNames (taken.map lower) = c.namesAt n := by
  unfold Condition.freeNumbers Condition.namesAt Condition.parameterNames
  cases c.nameCount with
  | none => exact ⟨0, ⟨by simp, fun _ _ => Nat.zero_le _⟩, rfl⟩
  | some count =>
    obtain ⟨n, hnames, hleast⟩ := freeNames_least (taken.map lower) (parameterName c.field.name) count
    exact ⟨n, hleast, hnames⟩

theorem Condition.freeNumbers_congr (c : Condition) {taken taken' : List String}
    (h : ∀ name, name ∈ taken.map lower ↔ name ∈ taken'.map lower) :
    c.freeNumbers taken = c.freeNumbers taken' := by
  unfold Condition.freeNumbers
  simp only [h]

/-- Every condition takes the names of the least number that is free once those before it have
theirs. -/
theorem conditionNames_least (taken : List String) (cs : List Condition) (i : Nat) (c : Condition)
    (hc : cs[i]? = some c) :
    ∃ n, IsLeast (c.freeNumbers (taken ++ ((conditionNames (taken.map lower) cs).take i).flatten)) n ∧
      (conditionNames (taken.map lower) cs)[i]? = some (c.namesAt n) := by
  induction cs generalizing taken i with
  | nil => cases hc
  | cons first rest ih =>
    have hstep : conditionNames (taken.map lower) (first :: rest) =
        first.parameterNames (taken.map lower) ::
          conditionNames ((first.parameterNames (taken.map lower) ++ taken).map lower) rest := by
      rw [conditionNames, List.map_append]
    rw [hstep]
    cases i with
    | zero =>
      obtain ⟨n, hleast, hnames⟩ := first.parameterNames_isLeast taken
      obtain rfl : first = c := Option.some.inj hc
      refine ⟨n, ?_, ?_⟩
      · simpa using hleast
      · rw [List.getElem?_cons_zero, hnames]
    | succ i =>
      obtain ⟨n, hleast, hnames⟩ := ih (first.parameterNames (taken.map lower) ++ taken) i hc
      refine ⟨n, ?_, hnames⟩
      rw [List.take_succ_cons, List.flatten_cons, ← List.append_assoc]
      refine (c.freeNumbers_congr fun name => ?_) ▸ hleast
      simp only [List.map_append, List.mem_append]
      constructor
      · rintro ((h | h) | h)
        · exact .inl (.inr h)
        · exact .inl (.inl h)
        · exact .inr h
      · rintro ((h | h) | h)
        · exact .inl (.inr h)
        · exact .inl (.inl h)
        · exact .inr h

/-- **Parameter names are apart, and each is the least that is free.** A filter gives every condition
one list of names, from left to right: none to a test for null, one for every element to a test of
membership and one to any other condition. No name of the filter is another or a reserved one in
lower case, and the names of a condition are those of the least number, zero being the plain stem,
for which none is taken by what is reserved or by the conditions before it. -/
theorem Group.parameterNames_least (g : Group) (reserved : List String) :
    List.Forall₂ (fun c names => names.length =
        if c.operator.isNullCheck then 0 else if c.operator.isList then c.listValues.length else 1)
      g.conditions (g.parameterNames reserved) ∧
    ((g.parameterNames reserved).flatten.map lower).Nodup ∧
    (∀ name ∈ (g.parameterNames reserved).flatten, lower name ∉ reserved.map lower) ∧
    ∀ (i : Nat) (c : Condition), g.conditions[i]? = some c →
      ∃ n, IsLeast (c.freeNumbers (reserved ++ ((g.parameterNames reserved).take i).flatten)) n ∧
        (g.parameterNames reserved)[i]? = some (c.namesAt n) := by
  have hapart := conditionNames_distinct (reserved.map lower) g.conditions
  have hcount := forall₂_conditionNames (reserved.map lower) g.conditions
  refine ⟨hcount.imp fun c names h => ?_, hapart.1, hapart.2, ?_⟩
  · rw [h, Condition.boundValues]
    split
    · rfl
    · split <;> rfl
  · intro i c hc
    exact conditionNames_least reserved g.conditions i c hc

/-- The test of a list gets the number two: a column is named as an element of its stem would be, and
the number one is reserved. -/
theorem Group.parameterNames_least_elements :
    let named : Condition := ⟨⟨"Id_In_0", none⟩, .equal, .int 4, true⟩
    let listed : Condition := ⟨⟨"Id", none⟩, .inList, .list [.int 1, .int 2], true⟩
    let g : Group := ⟨.and, false, [.condition named, .condition listed]⟩
    g.parameterNames ["ID_1_IN_0"] = [["Id_In_0"], ["Id_2_In_0", "Id_2_In_1"]] ∧
      ∃ n, IsLeast (listed.freeNumbers ["ID_1_IN_0", "Id_In_0"]) n ∧
        ["Id_2_In_0", "Id_2_In_1"] = listed.namesAt n := by
  intro named listed g
  have hnames : g.parameterNames ["ID_1_IN_0"] = [["Id_In_0"], ["Id_2_In_0", "Id_2_In_1"]] := by
    decide +kernel
  obtain ⟨n, hleast, hn⟩ := (Group.parameterNames_least g ["ID_1_IN_0"]).2.2.2 1 listed rfl
  rw [hnames] at hleast hn
  exact ⟨hnames, n, hleast, Option.some.inj hn⟩

end EntitySql
