import EntitySql.Proofs.Calendar
import EntitySql.Proofs.Number.Decimal
import EntitySql.Proofs.Uuid
import EntitySql.Proofs.Wire.Reading

/-!
# Written values are read back

A value without binary numbers whose JSON parts are canonical is read back with civil times
(**`readValue_ofValue`**), by induction along the value: a list enters two brackets, that of its form
and that of its items, and every other value is known by its kind and its content. It is the value
itself exactly if every leap second in it follows a second 59 (`Value.civil_eq_self_iff`).
-/

namespace EntitySql

mutual
/-- There is no binary number in the value, and its JSON parts are canonical. -/
def Value.IsCanonical : Value → Prop
  | .float _ => False
  | .json j => j.IsCanonical
  | .list vs => Value.AllCanonical vs
  | .null | .bool _ | .int _ | .decimal _ | .text _ | .bytes _ | .uuid _ | .dateTime _ | .date _
  | .time _ | .enumeration _ => True

/-- All values of a list are canonical. -/
def Value.AllCanonical : List Value → Prop
  | [] => True
  | v :: vs => v.IsCanonical ∧ Value.AllCanonical vs
end

/-! ### Leap seconds in values -/

mutual
/-- Every leap second in the value follows a second 59. -/
def Value.IsCivil : Value → Prop
  | .dateTime t => t.time.IsCivil
  | .time t => t.IsCivil
  | .list vs => Value.AllCivil vs
  | .null | .bool _ | .int _ | .float _ | .decimal _ | .text _ | .bytes _ | .uuid _ | .date _
  | .json _ | .enumeration _ => True

/-- Every leap second in the values of a list follows a second 59. -/
def Value.AllCivil : List Value → Prop
  | [] => True
  | v :: vs => v.IsCivil ∧ Value.AllCivil vs
end

mutual
/-- The value with civil times. -/
def Value.civil : Value → Value
  | .dateTime t => .dateTime t.civil
  | .time t => .time t.civil
  | .list vs => .list (Value.civilItems vs)
  | v => v

/-- The values of a list with civil times. -/
def Value.civilItems : List Value → List Value
  | [] => []
  | v :: vs => v.civil :: Value.civilItems vs
end

mutual
theorem Value.civil_eq_self_iff : ∀ v : Value, v.civil = v ↔ v.IsCivil
  | .dateTime t => by simp only [civil, IsCivil, dateTime.injEq, t.civil_eq_self_iff]
  | .time t => by simp only [civil, IsCivil, time.injEq, t.civil_eq_self_iff]
  | .list vs => by simp only [civil, IsCivil, list.injEq, civilItems_eq_self_iff vs]
  | .null | .bool _ | .int _ | .float _ | .decimal _ | .text _ | .bytes _ | .uuid _ | .date _
  | .json _ | .enumeration _ => iff_of_true rfl trivial

theorem Value.civilItems_eq_self_iff : ∀ vs : List Value, civilItems vs = vs ↔ AllCivil vs
  | [] => iff_of_true rfl trivial
  | v :: vs => by
    simp only [civilItems, AllCivil, List.cons.injEq, v.civil_eq_self_iff,
      civilItems_eq_self_iff vs]
end

namespace Wire

open Json (Document)

variable {α : Type}

/-! ### Written values have integers only -/

theorem itemsIntegral_bytes (bs : List UInt8) :
    Json.ItemsIntegral (bs.map fun b => integer b.toNat) := by
  induction bs with
  | nil => trivial
  | cons b bs ih => exact ⟨trivial, ih⟩

mutual
theorem isIntegral_ofValue : ∀ {v : Value}, v.IsCanonical → (ofValue v).IsIntegral
  | .null, _ => trivial
  | .bool _, _ | .int _, _ | .decimal _, _ | .text _, _ | .uuid _, _ | .dateTime _, _ | .date _, _
  | .time _, _ => isIntegral_form trivial
  | .bytes bs, _ => isIntegral_form (itemsIntegral_bytes bs)
  | .json _, h => isIntegral_form (Json.IsCanonical.isIntegral h)
  | .enumeration _, _ => isIntegral_form ⟨trivial, trivial, trivial⟩
  | .list _, h => isIntegral_form (itemsIntegral_ofValues h)

theorem itemsIntegral_ofValues : ∀ {vs : List Value}, Value.AllCanonical vs →
    Json.ItemsIntegral (ofValues vs)
  | [], _ => trivial
  | _ :: _, h => ⟨isIntegral_ofValue h.1, itemsIntegral_ofValues h.2⟩
end

/-! ### Contents of forms -/

theorem readSpelled_ofList {read : List Char → Option α} {cs : List Char} {a : α}
    (h : read cs = some a) :
    readSpelled read (Json.string (String.ofList cs)).document = some a := by
  rw [readSpelled, readString_string, Option.bind_some, String.toList_ofList, h]

theorem readDecimal_toText (d : Decimal) :
    readDecimal (Json.string d.toText).document = some d := by
  let read : List Char → Option Decimal :=
    fun s => (Decimal.read? s).orElse fun _ => Decimal.readScientific? s
  have hread : read d.toChars = some d := by
    simp [read, Decimal.read?_toChars d]
  exact readSpelled_ofList hread

theorem readEnumValue_object (room : Nat) (e : EnumValue) :
    Restores room (readEnumValue room)
      (.object [("name", .string e.name), ("number", integer e.number.toInt)]) e := by
  cases room with
  | zero => rfl
  | succ room =>
    simp [Restores, readEnumValue, readRecord_object, Json.depth, Json.membersDepth]

theorem forall₂_bytes (room : Nat) (bs : List UInt8) :
    List.Forall₂ (Restores room readByte) (bs.map fun b => integer b.toNat) bs := by
  induction bs with
  | nil => exact .nil
  | cons b bs ih => exact .cons (restores_of_eq_some (depth_integer _) (readByte_integer b)) ih

/-- A form other than null and a list is read by its content. -/
theorem readValue_form {kind : String} (hnull : kind ≠ "Null") (hlist : kind ≠ "List") (room : Nat)
    (content : Json) :
    readValue (room + 1) (form kind content).document = readContent room kind content.document := by
  rw [readValue, readForm_form]
  split
  · next heq => simp_all
  · next heq => simp_all
  · next heq =>
    cases heq
    rfl
  · simp_all

/-- A form is restored if its content is, in the room that the bracket of the form leaves. -/
theorem restores_form {kind : String} (hnull : kind ≠ "Null") (hlist : kind ≠ "List")
    {read : Nat → Document → Option α} {f : α → Value}
    (hread : ∀ room d, readContent room kind d = (read room d).map f) {content : Json} {a : α}
    (h : ∀ room, Restores room (read room) content a) (room : Nat) :
    Restores room (readValue room) (form kind content) (f a) := by
  cases room with
  | zero => rfl
  | succ room =>
    have hcontent := (h room).map f
    simp only [Restores] at hcontent
    rw [Restores, readValue_form hnull hlist, hread, hcontent, depth_form]
    simp only [Nat.add_le_add_iff_right]

/-- A form whose content has no brackets. -/
theorem restores_plain {kind : String} (hnull : kind ≠ "Null") (hlist : kind ≠ "List")
    {read : Document → Option α} {f : α → Value}
    (hread : ∀ room d, readContent room kind d = (read d).map f) {content : Json} {a : α}
    (hdepth : content.depth = 0) (h : read content.document = some a) (room : Nat) :
    Restores room (readValue room) (form kind content) (f a) :=
  restores_form hnull hlist hread (fun _ => restores_of_eq_some hdepth h) room

mutual
/-- A value is read back with civil times from what it is written as. -/
theorem readValue_ofValue : ∀ {v : Value} (room : Nat), v.IsCanonical →
    Restores room (readValue room) (ofValue v) v.civil
  | .null, 0, _ | .null, _ + 1, _ => rfl
  | .bool b, room, _ =>
    restores_plain (by decide) (by decide) (fun _ _ => rfl) rfl (readBool_bool b) room
  | .int n, room, _ =>
    restores_plain (by decide) (by decide) (fun _ _ => rfl) rfl (readInt64_integer n) room
  | .decimal d, room, _ =>
    restores_plain (by decide) (by decide) (fun _ _ => rfl) rfl (readDecimal_toText d) room
  | .text s, room, _ =>
    restores_plain (by decide) (by decide) (fun _ _ => rfl) rfl (readString_string s) room
  | .bytes bs, room, _ =>
    restores_form (by decide) (by decide) (fun _ _ => rfl)
      (fun _ => readList_array fun less _ => forall₂_bytes less bs) room
  | .uuid u, room, _ =>
    restores_plain (by decide) (by decide) (fun _ _ => rfl) rfl (readSpelled_ofList u.read?_toChars)
      room
  | .dateTime t, room, _ =>
    restores_plain (by decide) (by decide) (fun _ _ => rfl) rfl
      (readSpelled_ofList t.read?_dateTimeChars) room
  | .date d, room, _ =>
    restores_plain (by decide) (by decide) (fun _ _ => rfl) rfl
      (readSpelled_ofList d.read?_dateChars) room
  | .time t, room, _ =>
    restores_plain (by decide) (by decide) (fun _ _ => rfl) rfl
      (readSpelled_ofList t.read?_timeChars) room
  | .json j, room, h =>
    restores_form (by decide) (by decide) (fun _ _ => rfl) (fun room => Json.toJson?_document room h)
      room
  | .enumeration e, room, _ =>
    restores_form (by decide) (by decide) (fun _ _ => rfl) (fun room => readEnumValue_object room e)
      room
  | .list vs, 0, _ => rfl
  | .list vs, 1, _ => rfl
  | .list vs, room + 2, h => by
    -- two brackets are entered for the items, that of the form and that of the list
    have hitems := mapM_documents (forall₂_ofValues room h)
    rw [Restores, Value.civil, ofValue, depth_form, Json.depth, readValue, readForm_form, Json.document]
    simp only [hitems, Nat.add_le_add_iff_right]
    split <;> rfl

theorem forall₂_ofValues : ∀ {vs : List Value} (room : Nat), Value.AllCanonical vs →
    List.Forall₂ (Restores room (readValue room)) (ofValues vs) (Value.civilItems vs)
  | [], _, _ => .nil
  | _ :: _, room, h => .cons (readValue_ofValue room h.1) (forall₂_ofValues room h.2)
end

end Wire

end EntitySql
