import EntitySql.Entity.Basic
import EntitySql.Proofs.Result
import Mathlib.Data.List.Nodup

/-!
# What a column gives back

A property is read from one row, put into the form of its column, and written into another row. Reading,
the form of an enumeration and the conversion to the declared type are three functions over fifteen types;
what holds them together is which values a type has (`PropertyType.Holds`). Everything that is converted to
a type is one of its values (`PropertyType.holds_of_toProperty`), so a row keeps to the declared types
(`EntityMap.Typed`) whatever is written; and a value comes back from its form, whether an element of an
enumeration is stored as its name or as its number (**`Value.toProperty_stored`**).

A setter changes a row in place, or fails. **`EntityMap.column_restores`**: the setter of a property takes
the form of any value that the property has in another row, gives the property that value, and leaves the
rest of the row alone; where it fails, all of the row is left alone. Binary numbers are left out, which
are compared by their own rules.
-/

namespace EntitySql

/-! ### The values of a type -/

/-- A value of a type that always has a value. -/
inductive ScalarType.Holds : ScalarType → Value → Prop
  | int64 (n : Int64) : Holds .int64 (.int n)
  | int32 {n : Int64} (h : Value.fitsBits 32 n.toInt = true) : Holds .int32 (.int n)
  | int16 {n : Int64} (h : Value.fitsBits 16 n.toInt = true) : Holds .int16 (.int n)
  | float64 (x : Binary64) : Holds .float64 (.float x)
  | float32 (x : Binary64) : Holds .float32 (.float x.toSingle)
  | bool (b : Bool) : Holds .bool (.bool b)
  | text (s : String) : Holds .text (.text s)
  | decimal (d : Decimal) : Holds .decimal (.decimal d)
  | uuid (u : Uuid) : Holds .uuid (.uuid u)
  | dateTime (t : DateTime) : Holds .dateTime (.dateTime t)
  | date (d : Date) : Holds .date (.date d)
  | time (t : Time) : Holds .time (.time t)
  | bytes (bs : List UInt8) : Holds .bytes (.bytes bs)
  | json (j : Json) : Holds .json (.json j)
  | enumeration {type : EnumType} {e : EnumValue} (h : e ∈ type.elements) :
      Holds (.enumeration type) (.enumeration e)

/-- A value of a property type. -/
def PropertyType.Holds (type : PropertyType) (v : Value) : Prop :=
  type.optional = true ∧ v = .null ∨ type.scalar.Holds v

theorem ScalarType.Holds.isNull_eq_false {type : ScalarType} {v : Value} (h : type.Holds v) :
    v.isNull = false := by
  cases h <;> rfl

/-- No two elements have one name, and no two have one number. -/
structure EnumType.Distinct (type : EnumType) : Prop where
  names : (type.elements.map EnumValue.name).Nodup
  numbers : (type.elements.map EnumValue.number).Nodup

/-! ### What is converted is of the type -/

namespace Value

variable {v w : Value}

theorem fitsBits_of_toIntOf {bits : Nat} {name : String} {n : Int64}
    (h : toIntOf bits name v = .ok n) : fitsBits bits n.toInt = true := by
  unfold toIntOf at h
  split at h
  · split at h
    · next hfits =>
      obtain rfl := Except.ok.inj h
      exact hfits
    · cases h
  · cases h

/-- Whichever way an element is looked up, it is looked up among the elements of the type. -/
theorem mem_of_toElement {type : EnumType} {e : EnumValue} (h : toElement type v = .ok e) :
    e ∈ type.elements := by
  unfold toElement at h
  split at h
  case h_4 => cases h
  all_goals
    dsimp only at h
    split at h
    · next hfound =>
      obtain rfl := Except.ok.inj h
      exact List.mem_of_find?_eq_some hfound
    · cases h

end Value

namespace ScalarType

variable {type : ScalarType} {v w : Value}

theorem holds_of_toScalar (h : v.toScalar type = .ok w) : type.Holds w := by
  cases type with
  | int64 =>
    obtain ⟨n, -, rfl⟩ := map_eq_ok_iff.mp h
    exact .int64 n
  | int32 =>
    obtain ⟨n, hn, rfl⟩ := map_eq_ok_iff.mp h
    exact .int32 (Value.fitsBits_of_toIntOf hn)
  | int16 =>
    obtain ⟨n, hn, rfl⟩ := map_eq_ok_iff.mp h
    exact .int16 (Value.fitsBits_of_toIntOf hn)
  | float64 =>
    obtain ⟨x, -, rfl⟩ := map_eq_ok_iff.mp h
    exact .float64 x
  | float32 =>
    obtain ⟨x, -, rfl⟩ := map_eq_ok_iff.mp h
    exact .float32 x
  | enumeration type =>
    obtain ⟨e, he, rfl⟩ := map_eq_ok_iff.mp h
    exact .enumeration (Value.mem_of_toElement he)
  | bool => cases v <;> cases h <;> constructor
  | text => cases v <;> cases h <;> constructor
  | decimal => cases v <;> cases h <;> constructor
  | dateTime => cases v <;> cases h; constructor
  | date => cases v <;> cases h <;> constructor
  | time => cases v <;> cases h <;> constructor
  | bytes => cases v <;> cases h; constructor
  | uuid =>
    cases v with
    | uuid u =>
      cases h
      exact .uuid u
    | text s =>
      simp only [Value.toScalar] at h
      split at h
      · cases h
        constructor
      · cases h
    | _ => cases h
  | json =>
    cases v with
    | json j =>
      cases h
      exact .json j
    | text s =>
      simp only [Value.toScalar] at h
      split at h
      · cases h
        constructor
      · cases h
    | _ => cases h

end ScalarType

theorem PropertyType.holds_of_toProperty {type : PropertyType} {v w : Value}
    (h : v.toProperty type = .ok w) : type.Holds w := by
  unfold Value.toProperty at h
  split at h
  · next hnull =>
    cases h
    exact .inl ⟨hnull.1, rfl⟩
  · exact .inr (ScalarType.holds_of_toScalar h)

/-! ### What comes back -/

/-- Among things whose keys are different a key finds what it is the key of. -/
theorem find?_eq_of_nodup {α β : Type} [DecidableEq β] {key : α → β} {xs : List α}
    (h : (xs.map key).Nodup) {x : α} (hx : x ∈ xs) :
    xs.find? (fun y => key y = key x) = some x := by
  have hsome : (xs.find? fun y => key y = key x).isSome = true :=
    List.find?_isSome.mpr ⟨x, hx, decide_eq_true rfl⟩
  obtain ⟨y, hy⟩ := Option.isSome_iff_exists.mp hsome
  have hkey : key y = key x := of_decide_eq_true (List.find?_some (p := fun y => decide (key y = key x)) hy)
  rw [hy, List.inj_on_of_nodup_map h (List.mem_of_find?_eq_some hy) hx hkey]

namespace Value

variable {v : Value}

/-- An element is found by its name and by its number. -/
theorem toElement_stored {type : EnumType} (hdistinct : type.Distinct) {e : EnumValue}
    (he : e ∈ type.elements) (repr : EnumRepr) :
    ((enumeration e).stored repr).toElement type = .ok e := by
  cases repr with
  | name => simp only [stored, toElement, find?_eq_of_nodup hdistinct.names he]
  | number => simp only [stored, toElement, find?_eq_of_nodup hdistinct.numbers he]

theorem toScalar_stored {type : ScalarType} (hdistinct : ∀ t, type = .enumeration t → t.Distinct)
    (hfloat : type ∉ [.float64, .float32]) (h : type.Holds v) (repr : EnumRepr) :
    (v.stored repr).toScalar type = .ok v := by
  cases h with
  | int32 h => simp only [stored, toScalar, toIntOf, toInt64, h, if_true, Except.map]
  | int16 h => simp only [stored, toScalar, toIntOf, toInt64, h, if_true, Except.map]
  | enumeration h =>
    rw [toScalar, toElement_stored (hdistinct _ rfl) h]
    rfl
  | float64 x => exact absurd List.mem_cons_self hfloat
  | float32 x => exact absurd (List.mem_cons_of_mem _ List.mem_cons_self) hfloat
  | _ => rfl

/-- A value that is stored is null only if it was null. -/
theorem isNull_stored (repr : EnumRepr) (v : Value) : (v.stored repr).isNull = v.isNull := by
  cases v with
  | enumeration e => cases repr <;> rfl
  | _ => rfl

/-- **A value comes back from its form in a column.** -/
theorem toProperty_stored {type : PropertyType}
    (hdistinct : ∀ t, type.scalar = .enumeration t → t.Distinct)
    (hfloat : type.scalar ∉ [.float64, .float32]) (h : type.Holds v) (repr : EnumRepr) :
    (v.stored repr).toProperty type = .ok v := by
  rcases h with ⟨hoptional, rfl⟩ | h
  · exact if_pos ⟨hoptional, rfl⟩
  · have hnull : ¬(type.optional = true ∧ (v.stored repr).isNull = true) := by
      rw [isNull_stored, h.isNull_eq_false]
      exact fun hnull => Bool.false_ne_true hnull.2
    rw [toProperty, if_neg hnull]
    exact toScalar_stored hdistinct hfloat h repr

end Value

/-! ### Rows -/

/-- A setter changes a row in place, or ends with an error. -/
abbrev Setter := Value → ExceptT Error (StateM Row) Unit

/-- What a setter answers, and the row that it leaves. -/
def Setter.run (setter : Setter) (v : Value) (row : Row) : Result Unit × Row := (setter v).run row

namespace EntityMap

/-- Every value in the row is of the declared type of its property. -/
def Typed (map : EntityMap) (row : Row) : Prop :=
  List.Forall₂ (fun p v => p.type.Holds v) map.properties row

/-- The value of the property in a place. -/
def getter (i : Nat) (row : Row) : Value := row.getD i .null

/-- Converts a value, and then writes it in a place. -/
def assign (type : PropertyType) (i : Nat) : Setter := fun v => do
  let w ← v.toProperty type
  modify fun row => List.set row i w

/-- The setter of the property in a place, if it can be written. -/
def setter? (map : EntityMap) (i : Nat) : Option Setter :=
  match map.properties[i]? with
  | some p => if p.readOnly then none else some (assign p.type i)
  | none => none

variable {map : EntityMap} {i : Nat} {p : Property} {type : PropertyType} {v w : Value} {row : Row}

theorem setter?_eq (hp : map.properties[i]? = some p) (hwrite : p.readOnly = false) :
    map.setter? i = some (assign p.type i) := by
  rw [setter?, hp]
  simp only [hwrite, Bool.false_eq_true, if_false]

theorem run_assign_of_ok (h : v.toProperty type = .ok w) :
    (assign type i).run v row = (.ok (), List.set row i w) := by
  simp only [Setter.run, assign, h]
  rfl

/-- A value that cannot be converted is not written. -/
theorem run_assign_of_error {err : Error} (h : v.toProperty type = .error err) :
    (assign type i).run v row = (.error err, row) := by
  simp only [Setter.run, assign, h]
  rfl

/-- Setting a property of a row is what its setter does. -/
theorem set_eq_run (v : Value) (row : Row) :
    map.set row p v = ((assign p.type (map.index p)).run v row).1.map
      fun _ => ((assign p.type (map.index p)).run v row).2 := by
  rw [set]
  cases h : v.toProperty p.type with
  | ok w =>
    rw [run_assign_of_ok h]
    rfl
  | error err =>
    rw [run_assign_of_error h]
    rfl

theorem getter_set_self (h : i < row.length) : getter i (List.set row i w) = w := by
  rw [getter, List.getD_eq_getElem?_getD, List.getElem?_set_self h, Option.getD_some]

theorem getter_set_of_ne {j : Nat} (h : j ≠ i) : getter j (List.set row i w) = getter j row := by
  rw [getter, getter, List.getD_eq_getElem?_getD, List.getD_eq_getElem?_getD,
    List.getElem?_set_ne h.symm]

namespace Typed

theorem lt_length (h : map.Typed row) (hp : map.properties[i]? = some p) : i < row.length := by
  rw [← List.Forall₂.length_eq h]
  exact (List.getElem?_eq_some_iff.mp hp).1

theorem holds_getter (h : map.Typed row) (hp : map.properties[i]? = some p) :
    p.type.Holds (getter i row) := by
  obtain ⟨hi, rfl⟩ := List.getElem?_eq_some_iff.mp hp
  rw [getter, List.getD_eq_getElem?_getD, List.getElem?_eq_getElem (h.lt_length hp), Option.getD_some]
  exact (List.forall₂_iff_get.mp h).2 i hi (h.lt_length hp)

/-- A row keeps to the declared types when a value of the type is written. -/
theorem set (h : map.Typed row) (hp : map.properties[i]? = some p) (hw : p.type.Holds w) :
    map.Typed (List.set row i w) := by
  refine List.forall₂_iff_get.mpr ⟨by rw [List.length_set, List.Forall₂.length_eq h], fun j hj hj' => ?_⟩
  rw [List.get_eq_getElem, List.get_eq_getElem, List.getElem_set]
  split
  · next heq =>
    subst heq
    obtain ⟨_, rfl⟩ := List.getElem?_eq_some_iff.mp hp
    exact hw
  · exact (List.forall₂_iff_get.mp h).2 j hj (by rwa [List.length_set] at hj')

end Typed

/-- **A property survives its column.** The setter of a property that can be written and has no binary
numbers takes the form that any value of the property in another row has in the column, under either
representation of enumerations; then the property has that value, and all other properties are as they
were. The row keeps to the declared types whatever is written, and where the setter fails it is left as it
was. Getting and setting a property of a row is the same, for the first of properties that are alike. -/
theorem column_restores (hp : map.properties[i]? = some p) (hwrite : p.readOnly = false)
    (hfloat : p.type.scalar ∉ [.float64, .float32])
    (hdistinct : ∀ t, p.type.scalar = .enumeration t → t.Distinct) {e d : Row} (he : map.Typed e)
    (hd : map.Typed d) (repr : EnumRepr) :
    ∃ setter, map.setter? i = some setter ∧
      (∃ d', setter.run ((getter i e).stored repr) d = (.ok (), d') ∧
        getter i d' = getter i e ∧ ∀ j ≠ i, getter j d' = getter j d) ∧
      (∀ v, map.Typed (setter.run v d).2) ∧
      (∀ v err, (setter.run v d).1 = .error err → (setter.run v d).2 = d) ∧
      (map.index p = i → map.get e p = getter i e ∧
        ∀ v, map.set d p v = (setter.run v d).1.map fun _ => (setter.run v d).2) := by
  have hback := Value.toProperty_stored hdistinct hfloat (he.holds_getter hp) repr
  refine ⟨_, setter?_eq hp hwrite, ⟨_, run_assign_of_ok hback, ?_, fun j hj => ?_⟩,
    fun v => ?_, fun v err herr => ?_, ?_⟩
  · exact getter_set_self (hd.lt_length hp)
  · exact getter_set_of_ne hj
  · cases h : v.toProperty p.type with
    | ok w =>
      rw [run_assign_of_ok h]
      exact hd.set hp (PropertyType.holds_of_toProperty h)
    | error err =>
      rw [run_assign_of_error h]
      exact hd
  · cases h : v.toProperty p.type with
    | ok w =>
      rw [run_assign_of_ok h] at herr
      cases herr
    | error err => rw [run_assign_of_error h]
  · rintro rfl
    exact ⟨rfl, fun v => set_eq_run v d⟩

end EntityMap

namespace Sample

/-- How urgent a task is, if anybody knows. -/
def urgency : Property :=
  ⟨"Urgency", "urgency", ⟨.enumeration ⟨"Urgency", [⟨"Low", 1⟩, ⟨"High", 2⟩]⟩, true⟩, none, false⟩

/-- Tasks. -/
def task : EntityMap := ⟨"Task", "Task", [⟨"Title", "Title", ⟨.text, false⟩, none, false⟩, urgency]⟩

/-- A task that is urgent. -/
def reply : Row := [.text "Reply", .enumeration ⟨"High", 2⟩]

/-- A task of which nobody knows. -/
def sort : Row := [.text "Sort", .null]

end Sample

/-- The urgency of one task, stored as its number, is given to another one. -/
theorem EntityMap.column_restores_urgency :
    Sample.task.properties[1]? = some Sample.urgency ∧ Sample.urgency.readOnly = false ∧
      Sample.task.Typed Sample.reply ∧ Sample.task.Typed Sample.sort ∧
      ∃ setter d', Sample.task.setter? 1 = some setter ∧
        setter.run (.int 2) Sample.sort = (.ok (), d') ∧
        getter 1 d' = .enumeration ⟨"High", 2⟩ ∧ getter 0 d' = .text "Sort" := by
  have hplace : Sample.task.properties[1]? = some Sample.urgency := rfl
  have hdistinct : ∀ t, Sample.urgency.type.scalar = .enumeration t → t.Distinct := by
    rintro t ⟨⟩
    exact ⟨by decide, by decide⟩
  have hreply : Sample.task.Typed Sample.reply :=
    .cons (.inr (.text _)) (.cons (.inr (.enumeration (by decide))) .nil)
  have hsort : Sample.task.Typed Sample.sort :=
    .cons (.inr (.text _)) (.cons (.inl ⟨rfl, rfl⟩) .nil)
  obtain ⟨setter, hsetter, ⟨d', hrun, hself, hother⟩, -⟩ :=
    column_restores hplace rfl (by decide) hdistinct hreply hsort .number
  exact ⟨hplace, rfl, hreply, hsort, setter, d', hsetter, hrun, hself, hother 0 (by decide)⟩

end EntitySql
