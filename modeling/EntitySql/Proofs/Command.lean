import EntitySql.Command
import EntitySql.Proofs.Text.LowerCase

/-!
# The parameters of a command

Setting a parameter changes what is under its name and under no other (**`content_get?_set`**), and no
two parameters of a command have one name, whatever the case of the letters from A to Z
(`apart_extend`). After several parameters are set, a name has the value that was set under it, if all
that were set under it agree (**`value?_extend`**).
-/

namespace EntitySql

open Text

/-- What a parameter carries under its name. -/
def BoundParameter.content (p : BoundParameter) : Value × Option ValueType := (p.value, p.type)

/-- No two parameters have one name, whatever the case of the letters from A to Z. -/
def Apart (ps : List BoundParameter) : Prop :=
  ps.Pairwise fun p q => equalIgnoringCase p.name q.name = false

theorem equalIgnoringCase_iff {a b : String} :
    equalIgnoringCase a b = true ↔
      a.toList.map Char.toLower = b.toList.map Char.toLower := by
  simp [equalIgnoringCase]

theorem equalIgnoringCase_comm (a b : String) : equalIgnoringCase a b = equalIgnoringCase b a := by
  rw [Bool.eq_iff_iff, equalIgnoringCase_iff, equalIgnoringCase_iff, eq_comm]

/-- Names that are equal but for case are equal to the same names. -/
theorem equalIgnoringCase_congr {a b : String} (h : equalIgnoringCase a b = true) (c : String) :
    equalIgnoringCase a c = equalIgnoringCase b c := by
  rw [Bool.eq_iff_iff, equalIgnoringCase_iff, equalIgnoringCase_iff, equalIgnoringCase_iff.mp h]

/-- Among things whose names are apart a name tells one, whatever the case of its letters. -/
theorem eq_of_equalIgnoringCase {α : Type} {name : α → String} {xs : List α}
    (h : xs.Pairwise fun x y => equalIgnoringCase (name x) (name y) = false) {x y : α}
    (hx : x ∈ xs) (hy : y ∈ xs) (heq : equalIgnoringCase (name x) (name y) = true) : x = y := by
  induction xs with
  | nil => cases hx
  | cons z rest ih =>
    obtain ⟨hz, hrest⟩ := List.pairwise_cons.mp h
    rcases List.mem_cons.mp hx with rfl | hxrest
    · rcases List.mem_cons.mp hy with rfl | hyrest
      · rfl
      · rw [hz y hyrest] at heq
        cases heq
    · rcases List.mem_cons.mp hy with rfl | hyrest
      · rw [equalIgnoringCase_comm, hz x hxrest] at heq
        cases heq
      · exact ih hrest hxrest hyrest

/-- Parameters with distinct names in lower case are apart. -/
theorem apart_of_nodup {ps : List BoundParameter}
    (h : (ps.map fun p => lower p.name).Nodup) : Apart ps := by
  refine (List.pairwise_map.mp h).imp fun {p q} hpq => ?_
  rw [Bool.eq_false_iff]
  exact fun heq => hpq (lower_eq_of_equalIgnoringCase heq)

theorem find?_isNamed {ps : List BoundParameter} (h : Apart ps) {p : BoundParameter} (hp : p ∈ ps) :
    ps.find? (Command.isNamed p.name) = some p := by
  have hsome : (ps.find? (Command.isNamed p.name)).isSome = true :=
    List.find?_isSome.mpr ⟨p, hp, equalIgnoringCase_refl p.name⟩
  obtain ⟨q, hq⟩ := Option.isSome_iff_exists.mp hsome
  have hname : Command.isNamed p.name q = true := List.find?_some hq
  rw [hq, eq_of_equalIgnoringCase h (List.mem_of_find?_eq_some hq) hp hname]

/-- Among parameters that are apart, a name that is there is there once. -/
theorem countP_isNamed {ps : List BoundParameter} (h : Apart ps) {name : String}
    (hname : ∃ p ∈ ps, equalIgnoringCase p.name name = true) :
    ps.countP (Command.isNamed name) = 1 := by
  induction ps with
  | nil =>
    obtain ⟨p, hp, -⟩ := hname
    cases hp
  | cons q rest ih =>
    obtain ⟨hq, hrest⟩ := List.pairwise_cons.mp h
    cases hqname : equalIgnoringCase q.name name with
    | true =>
      have hzero : rest.countP (Command.isNamed name) = 0 := by
        refine List.countP_eq_zero.mpr fun p hp hpname => ?_
        have hpq := hq p hp
        rw [equalIgnoringCase_congr hqname, equalIgnoringCase_comm] at hpq
        rw [Command.isNamed, hpq] at hpname
        cases hpname
      rw [List.countP_cons, hzero, Command.isNamed, hqname]
      rfl
    | false =>
      have hskip : Command.isNamed name q = false := hqname
      rw [List.countP_cons, hskip]
      refine ih hrest ?_
      obtain ⟨p, hp, hpname⟩ := hname
      rcases List.mem_cons.mp hp with rfl | hp
      · rw [hqname] at hpname
        cases hpname
      · exact ⟨p, hp, hpname⟩

namespace Command

/-! ### Setting a parameter -/

theorem find?_setIn (p : BoundParameter) (ps : List BoundParameter) (name : String) :
    ((setIn p ps).find? (isNamed name)).map BoundParameter.content =
      if equalIgnoringCase p.name name then some p.content
      else (ps.find? (isNamed name)).map BoundParameter.content := by
  induction ps with
  | nil =>
    cases h : equalIgnoringCase p.name name <;> simp [setIn, isNamed, h]
  | cons q rest ih =>
    by_cases hq : equalIgnoringCase q.name p.name = true
    · have hname := equalIgnoringCase_congr hq name
      cases h : equalIgnoringCase p.name name with
      | true => simp [setIn, isNamed, hq, hname, h, BoundParameter.content]
      | false => simp [setIn, isNamed, hq, hname, h]
    · cases h : equalIgnoringCase q.name name with
      | true =>
        have hp : equalIgnoringCase p.name name = false := by
          rw [Bool.eq_false_iff]
          intro hp
          rw [equalIgnoringCase_comm p.name, ← equalIgnoringCase_congr h] at hp
          exact hq hp
        simp [setIn, isNamed, hq, h, hp]
      | false =>
        have hskip : isNamed p.name q = false := Bool.eq_false_iff.mpr hq
        rw [setIn, hskip, if_neg (by simp), List.find?_cons_of_neg (by simp [isNamed, h]), ih,
          List.find?_cons_of_neg (by simp [isNamed, h])]

theorem value?_eq_map_content (c : Command) (name : String) :
    c.value? name = ((c.get? name).map BoundParameter.content).map Prod.fst := by
  rw [Option.map_map]
  rfl

/-- **Setting a parameter changes what is under its name and nothing else.** -/
theorem content_get?_set (c : Command) (p : BoundParameter) (name : String) :
    ((c.set p).get? name).map BoundParameter.content =
      if equalIgnoringCase p.name name then some p.content
      else (c.get? name).map BoundParameter.content :=
  find?_setIn p c.parameters name

theorem value?_set (c : Command) (p : BoundParameter) (name : String) :
    (c.set p).value? name = if equalIgnoringCase p.name name then some p.value else c.value? name := by
  rw [value?_eq_map_content, content_get?_set, apply_ite (Option.map Prod.fst),
    ← value?_eq_map_content]
  rfl

/-- A name is among the parameters after one is set if it was before, or is the name set. -/
theorem mem_setIn {p r : BoundParameter} {ps : List BoundParameter} (h : r ∈ setIn p ps) :
    r = p ∨ ∃ q ∈ ps, r.name = q.name := by
  induction ps with
  | nil => exact .inl (List.mem_singleton.mp h)
  | cons q rest ih =>
    unfold setIn at h
    split at h
    · rcases List.mem_cons.mp h with rfl | h
      · exact .inr ⟨q, List.mem_cons_self, rfl⟩
      · exact .inr ⟨r, List.mem_cons_of_mem q h, rfl⟩
    · rcases List.mem_cons.mp h with rfl | h
      · exact .inr ⟨r, List.mem_cons_self, rfl⟩
      · rcases ih h with rfl | ⟨s, hs, heq⟩
        · exact .inl rfl
        · exact .inr ⟨s, List.mem_cons_of_mem q hs, heq⟩

theorem apart_setIn {p : BoundParameter} {ps : List BoundParameter} (h : Apart ps) :
    Apart (setIn p ps) := by
  induction ps with
  | nil => exact List.pairwise_singleton _ _
  | cons q rest ih =>
    obtain ⟨hq, hrest⟩ := List.pairwise_cons.mp h
    unfold setIn
    split
    · exact List.pairwise_cons.mpr ⟨hq, hrest⟩
    · next hne =>
      refine List.pairwise_cons.mpr ⟨fun r hr => ?_, ih hrest⟩
      rcases mem_setIn hr with rfl | ⟨s, hs, heq⟩
      · exact Bool.eq_false_iff.mpr hne
      · rw [heq]
        exact hq s hs

/-- A name with a value is the name of a parameter. -/
theorem exists_of_value? {c : Command} {name : String} {v : Value} (h : c.value? name = some v) :
    ∃ p ∈ c.parameters, equalIgnoringCase p.name name = true := by
  obtain ⟨p, hp, -⟩ := Option.map_eq_some_iff.mp h
  have hnamed : isNamed name p = true := List.find?_some (p := isNamed name) hp
  exact ⟨p, List.mem_of_find?_eq_some hp, hnamed⟩

/-! ### Setting several parameters -/

theorem text_extend (c : Command) (ps : List BoundParameter) : (c.extend ps).text = c.text := by
  induction ps generalizing c with
  | nil => rfl
  | cons p rest ih => exact ih (c.set p)

/-- No two parameters of a command have one name. -/
theorem apart_extend {c : Command} (h : Apart c.parameters) (ps : List BoundParameter) :
    Apart (c.extend ps).parameters := by
  induction ps generalizing c with
  | nil => exact h
  | cons p rest ih => exact ih (c := c.set p) (apart_setIn h)

/-- The names of the parameters are those that were there and those that were set. -/
theorem mem_extend {c : Command} {ps : List BoundParameter} {r : BoundParameter}
    (h : r ∈ (c.extend ps).parameters) : ∃ q ∈ c.parameters ++ ps, r.name = q.name := by
  induction ps generalizing c with
  | nil => exact ⟨r, List.mem_append_left [] h, rfl⟩
  | cons p rest ih =>
    obtain ⟨q, hq, heq⟩ := ih (c := c.set p) h
    rcases List.mem_append.mp hq with hq | hq
    · rcases mem_setIn hq with rfl | ⟨s, hs, hname⟩
      · exact ⟨q, by simp, heq⟩
      · exact ⟨s, List.mem_append_left _ hs, heq.trans hname⟩
    · exact ⟨q, by simp [hq], heq⟩

/-- A name that is not set keeps its value. -/
theorem value?_extend_of_ne {c : Command} {ps : List BoundParameter} {name : String}
    (h : ∀ p ∈ ps, equalIgnoringCase p.name name = false) :
    (c.extend ps).value? name = c.value? name := by
  induction ps generalizing c with
  | nil => rfl
  | cons p rest ih =>
    obtain ⟨hp, hrest⟩ := List.forall_mem_cons.mp h
    have hset := ih (c := c.set p) hrest
    rw [value?_set, hp] at hset
    exact hset

/-- **A name has the value that was set under it**, if all that were set under it agree. -/
theorem value?_extend {c : Command} {ps : List BoundParameter} {name : String} {v : Value}
    (hset : ∃ p ∈ ps, equalIgnoringCase p.name name = true)
    (hagree : ∀ p ∈ ps, equalIgnoringCase p.name name = true → p.value = v) :
    (c.extend ps).value? name = some v := by
  induction ps generalizing c with
  | nil =>
    obtain ⟨p, hp, -⟩ := hset
    cases hp
  | cons q rest ih =>
    obtain ⟨hq, hrest⟩ := List.forall_mem_cons.mp hagree
    by_cases hlater : ∃ p ∈ rest, equalIgnoringCase p.name name = true
    · exact ih (c := c.set q) hlater hrest
    · have hne : ∀ p ∈ rest, equalIgnoringCase p.name name = false := fun p hp =>
        Bool.eq_false_iff.mpr fun heq => hlater ⟨p, hp, heq⟩
      have hname : equalIgnoringCase q.name name = true := by
        obtain ⟨p, hp, heq⟩ := hset
        rcases List.mem_cons.mp hp with rfl | hp
        · exact heq
        · rw [hne p hp] at heq
          cases heq
      show ((c.set q).extend rest).value? name = some v
      rw [value?_extend_of_ne hne, value?_set, hname, if_pos rfl, hq hname]

end Command

end EntitySql
