import EntitySql.Proofs.Wire.Predicate
import EntitySql.Wire.Schema

/-!
# Written columns, operations and orders are read back

Columns, with or without a parameter name, orders and operations are restored
(**`readColumn_ofColumn`**, **`readOrderField_ofOrderField`**, **`readOperation_ofOperation`**).
None of them is written in more than two brackets inside each other.
-/

namespace EntitySql.Wire

open Json (Document)

/-! ### Orders -/

theorem find?_sortOrders (o : SortOrder) : sortOrders.find? (sortOrders.nameOf o) = some o := by
  cases o <;> rfl

theorem find?_aggregates (f : Aggregate) : aggregates.find? (aggregates.nameOf f) = some f := by
  cases f <;> rfl

theorem readOrderField_ofOrderField (room : Nat) (o : OrderField) :
    Restores room (readOrderField room) (ofOrderField o) o := by
  cases room with
  | zero => rfl
  | succ room =>
    have horder := readName_name (find?_sortOrders o.order) room
    simp [Restores, readOrderField, ofOrderField, readRecord_object, Json.depth, Json.membersDepth,
      horder]

theorem depth_ofOrderField (o : OrderField) : (ofOrderField o).depth = 1 := by
  simp [ofOrderField, Json.depth, Json.membersDepth]

/-! ### Columns -/

theorem readOptional_string (s : Option String) :
    readOptional readString (optional Json.string s).document = some s :=
  readOptional_optional readString_string (fun _ => Document.noConfusion) s

theorem readOptional_word (n : Option UInt32) :
    readOptional readWord (optional (fun n => integer n.toNat) n).document = some n :=
  readOptional_optional readWord_integer (fun _ => Document.noConfusion) n

theorem readOptional_byte (n : Option UInt8) :
    readOptional readByte (optional (fun n => integer n.toNat) n).document = some n :=
  readOptional_optional readByte_integer (fun _ => Document.noConfusion) n

theorem depth_ofColumn (c : Column) : (ofColumn c).depth = 1 := by
  have hstring (s : Option String) : (optional Json.string s).depth = 0 :=
    depth_optional (fun _ => rfl) s
  cases hp : c.parameter <;>
    simp [ofColumn, hp, Json.depth, Json.membersDepth, depth_optional, hstring]

/-- The members of a written column. -/
def columnMembers (c : Column) : List (String × Json) :=
  match ofColumn c with
  | .object members => members
  | _ => []

/-- A column is written with all of its fields or with all but the last. -/
theorem readRecord_ofColumn (room : Nat) (c : Column) :
    readRecord columnFields 1 (room + 1) (ofColumn c).document =
      some (fieldDocuments (columnMembers c)) := by
  have hkeys : ((columnMembers c).map Prod.fst).Sublist columnFields := by
    unfold columnMembers ofColumn
    cases c.parameter with
    | none => exact List.dropLast_sublist columnFields
    | some p => exact .refl columnFields
  exact readRecord_object hkeys (by decide) 1 room

/-- A parameter name that was left out is none. -/
theorem optional_parameter (c : Column) :
    (fieldDocuments (columnMembers c)).optional "parameter" readString = some c.parameter := by
  unfold columnMembers ofColumn
  cases c.parameter with
  | none => rfl
  | some p => exact readOptional_string (some p)

theorem bind_eq_of_eq_some {α β : Type} {x : Option α} {a : α} {f : α → Option β} {r : Option β}
    (hx : x = some a) (hf : f a = r) : x.bind f = r := by
  rw [hx, Option.bind_some, hf]

/-- A column is read back from what it is written as, with its parameter name if it has one. -/
theorem readColumn_ofColumn (room : Nat) (c : Column) :
    Restores room (readColumn room) (ofColumn c) c := by
  cases room with
  | zero => rfl
  | succ room =>
    rw [Restores, depth_ofColumn, if_pos (by omega), readColumn]
    -- the fields one after the other, each found under its name
    refine bind_eq_of_eq_some (readRecord_ofColumn room c) ?_
    refine bind_eq_of_eq_some (readString_string c.name) ?_
    refine bind_eq_of_eq_some (readBool_bool c.primary) ?_
    refine bind_eq_of_eq_some (readBool_bool c.identity) ?_
    refine bind_eq_of_eq_some (readBool_bool c.nullable) ?_
    refine bind_eq_of_eq_some (readName_name (find?_valueTypes c.type) room) ?_
    refine bind_eq_of_eq_some (readOptional_word c.size) ?_
    refine bind_eq_of_eq_some (readOptional_byte c.precision) ?_
    refine bind_eq_of_eq_some (readOptional_byte c.scale) ?_
    refine bind_eq_of_eq_some (readOptional_string c.databaseType) ?_
    refine bind_eq_of_eq_some (readBool_bool c.hasDefault) ?_
    refine bind_eq_of_eq_some (readBool_bool c.generated) ?_
    refine bind_eq_of_eq_some (readOptional_string c.provider) ?_
    exact bind_eq_of_eq_some (optional_parameter c) rfl

/-! ### Operations -/

@[simp] theorem readInt64_int64 (n : Int64) : readInt64 (int64 n).document = some n :=
  readInt64_integer n

@[simp] theorem depth_int64 (n : Int64) : (int64 n).depth = 0 := depth_integer _

theorem readOptional_int64 (n : Option Int64) :
    readOptional readInt64 (optional int64 n).document = some n :=
  readOptional_optional readInt64_int64 (fun _ => Document.noConfusion) n

theorem readOperation_string {op : Operation} (h : plainOperations.find? op.name = some op)
    (room : Nat) : Restores room (readOperation room) (.string op.name) op := by
  refine restores_of_eq_some rfl ?_
  simp only [readOperation, readForm_string, h]
  rfl

/-- An operation with content is read in the room that the bracket of its form leaves. -/
theorem readOperation_form {kind : String} (hkind : plainOperations.find? kind = none)
    {content : Json} {op : Operation}
    (h : ∀ room, Restores room (readOperationContent room kind) content op) (room : Nat) :
    Restores room (readOperation room) (form kind content) op := by
  cases room with
  | zero => rfl
  | succ room =>
    have hcontent := h room
    simp only [Restores] at hcontent
    rw [Restores, depth_form]
    simp only [readOperation, readForm_form, hkind, Nat.add_sub_cancel, hcontent,
      Nat.add_le_add_iff_right]

/-- An operation is read back from what it is written as. -/
theorem readOperation_ofOperation (room : Nat) (op : Operation) :
    Restores room (readOperation room) (ofOperation op) op := by
  cases op with
  | query top =>
    refine readOperation_form rfl (fun room => ?_) room
    have htop := depth_optional depth_int64 top
    cases room with
    | zero => rfl
    | succ room =>
      simp [Restores, readOperationContent, readRecord_object, Json.depth, Json.membersDepth, htop,
        readOptional_int64, Operation.name]
  | aggregate f field =>
    refine readOperation_form rfl (fun room => ?_) room
    cases room with
    | zero => rfl
    | succ room =>
      have hf := readName_name (find?_aggregates f) room
      simp [Restores, readOperationContent, readRecord_object, Json.depth, Json.membersDepth, hf,
        Operation.name]
  | pagedQuery _ _ | skipQuery _ _ | insertAll _ | updateAll _ | mergeAll _ =>
    refine readOperation_form rfl (fun room => ?_) room
    cases room with
    | zero => rfl
    | succ room =>
      simp [Restores, readOperationContent, readRecord_object, Json.depth, Json.membersDepth,
        Operation.name]
  | insert | update | merge | delete | deleteAll | «exists» | count | truncate =>
    exact readOperation_string rfl room

/-- The form of an operation and the record inside it are all the brackets there are. -/
theorem depth_ofOperation (op : Operation) : (ofOperation op).depth ≤ 2 := by
  cases op with
  | query top =>
    have htop := depth_optional depth_int64 top
    simp [ofOperation, depth_form, Json.depth, Json.membersDepth, htop]
  | pagedQuery _ _ | skipQuery _ _ | insertAll _ | updateAll _ | mergeAll _ | aggregate _ _ =>
    simp [ofOperation, depth_form, Json.depth, Json.membersDepth]
  | insert | update | merge | delete | deleteAll | «exists» | count | truncate =>
    simp [ofOperation, Json.depth]

/-! ### Written records have integers only -/

theorem isIntegral_ofColumn (c : Column) : (ofColumn c).IsIntegral := by
  have hstring := isIntegral_optional Json.string fun _ => trivial
  have hword := isIntegral_optional (fun n : UInt32 => integer n.toNat) fun _ => trivial
  have hbyte := isIntegral_optional (fun n : UInt8 => integer n.toNat) fun _ => trivial
  have hparameter :
      Json.MembersIntegral (c.parameter.map fun p => ("parameter", .string p)).toList := by
    cases c.parameter <;> trivial
  exact ⟨trivial, trivial, trivial, trivial, trivial, hword _, hbyte _, hbyte _, hstring _, trivial,
    trivial, hstring _, hparameter⟩

theorem isIntegral_ofOperation (op : Operation) : (ofOperation op).IsIntegral := by
  cases op with
  | query top =>
    have htop := isIntegral_optional int64 (fun _ => trivial) top
    exact isIntegral_form ⟨htop, trivial⟩
  | pagedQuery _ _ | skipQuery _ _ | aggregate _ _ =>
    exact isIntegral_form ⟨trivial, trivial, trivial⟩
  | insertAll _ | updateAll _ | mergeAll _ => exact isIntegral_form ⟨trivial, trivial⟩
  | insert | update | merge | delete | deleteAll | «exists» | count | truncate => trivial

theorem isIntegral_ofOrderField (o : OrderField) : (ofOrderField o).IsIntegral :=
  ⟨trivial, trivial, trivial⟩

end EntitySql.Wire
