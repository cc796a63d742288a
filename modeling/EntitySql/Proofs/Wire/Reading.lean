import EntitySql.Proofs.Json.RoundTrip
import EntitySql.Wire.Value

/-!
# Parts of JSON documents are read back

A reader restores what was written if it gives it back whenever there is room for the brackets of
its written form, and nothing otherwise (**`Restores`**). What restores the parts of a list, a form
or a record restores the whole, one bracket deeper, and what restores a document restores the text
(`readText_toText`).
-/

namespace EntitySql.Wire

open Json (Document)

variable {α β : Type}

/-- Reading the document of a value gives back what was written, provided that there is room for the
brackets of the value. -/
def Restores (room : Nat) (read : Document → Option α) (j : Json) (a : α) : Prop :=
  read j.document = if j.depth ≤ room then some a else none

theorem restores_of_eq_some {room : Nat} {read : Document → Option α} {j : Json} {a : α}
    (hdepth : j.depth = 0) (h : read j.document = some a) : Restores room read j a := by
  rw [Restores, h, hdepth, if_pos (Nat.zero_le room)]

theorem Restores.map {room : Nat} {read : Document → Option α} {j : Json} {a : α}
    (h : Restores room read j a) (f : α → β) :
    Restores room (fun d => (read d).map f) j (f a) := by
  simp only [Restores] at h ⊢
  rw [h]
  split <;> rfl

/-! ### Simple values -/

@[simp] theorem readString_string (s : String) : readString (Json.string s).document = some s := by
  rw [Json.document, readString, Json.pieces, Json.stringText?_pieces, Option.map_some,
    String.ofList_toList]

@[simp] theorem readBool_bool (b : Bool) : readBool (Json.bool b).document = some b := by
  rw [Json.document, readBool]

@[simp] theorem depth_integer (n : Int) : (integer n).depth = 0 := by
  rw [integer, Json.depth]

theorem readInteger_integer {low high n : Int} (h : low ≤ n ∧ n ≤ high)
    (hbits : -(twoTo 63 : Int) ≤ n ∧ n < twoTo 64) :
    readInteger low high (integer n).document = some n := by
  rw [integer, Json.document, readInteger, readNumber, Json.value?_ofInt hbits]
  exact if_pos h

@[simp] theorem readInt64_integer (n : Int64) : readInt64 (integer n.toInt).document = some n := by
  have hlow : -(twoTo 63 : Int) ≤ n.toInt := n.le_toInt
  have hhigh : n.toInt < (twoTo 63 : Int) := n.toInt_lt
  have hroom : (twoTo 63 : Int) < twoTo 64 := by decide
  rw [readInt64, readInteger_integer ⟨hlow, by omega⟩ ⟨hlow, by omega⟩, Option.map_some,
    Int64.ofInt_toInt]

@[simp] theorem readWord_integer (n : UInt32) : readWord (integer n.toNat).document = some n := by
  have hlt : n.toNat < twoTo 32 := n.toNat_lt
  have hroom : (twoTo 32 : Int) < twoTo 64 := by decide
  rw [readWord, readInteger_integer ⟨by omega, by omega⟩ ⟨by omega, by omega⟩, Option.map_some,
    Int.toNat_natCast, UInt32.ofNat_toNat]

@[simp] theorem readByte_integer (n : UInt8) : readByte (integer n.toNat).document = some n := by
  have hlt : n.toNat < 256 := n.toNat_lt
  have hroom : (256 : Int) < twoTo 64 := by decide
  rw [readByte, readInteger_integer ⟨by omega, by omega⟩ ⟨by omega, by omega⟩, Option.map_some,
    Int.toNat_natCast, UInt8.ofNat_toNat]

/-! ### Forms -/

theorem readForm_string (room : Nat) (s : String) :
    readForm room (Json.string s).document = some (s, none) := by
  rw [Json.document, readForm, Json.pieces, Json.stringText?_pieces, Option.map_some,
    String.ofList_toList]

theorem readForm_form (room : Nat) (name : String) (content : Json) :
    readForm (room + 1) (form name content).document = some (name, some content.document) := by
  rw [form, Json.document, Json.memberDocuments, Json.memberDocuments, readForm, Json.pieces,
    Json.stringText?_pieces, Option.map_some, String.ofList_toList]

theorem depth_form (name : String) (content : Json) :
    (form name content).depth = content.depth + 1 := by
  rw [form, Json.depth, Json.membersDepth, Json.membersDepth, Nat.max_zero]

/-! ### Names -/

@[simp] theorem depth_name [DecidableEq α] (table : Names α) (a : α) :
    (name table a).depth = 0 := by
  rw [name, Json.depth]

theorem readName_name [DecidableEq α] {table : Names α} {a : α}
    (h : table.find? (table.nameOf a) = some a) (room : Nat) :
    readName table room (name table a).document = some a := by
  rw [name, readName, readForm_string]
  exact h

/-! ### Lists -/

theorem document_array (items : List Json) :
    (Json.array items).document = .array (Json.documents items) := by
  rw [Json.document]

theorem mapM_documents {room : Nat} {read : Document → Option α} {js : List Json} {as : List α}
    (h : List.Forall₂ (Restores room read) js as) :
    (Json.documents js).mapM read = if Json.itemsDepth js ≤ room then some as else none := by
  induction h with
  | nil =>
    rw [Json.itemsDepth, if_pos (Nat.zero_le room)]
    rfl
  | @cons j a js as hread _ ih =>
    rw [Json.documents, List.mapM_cons, ih, hread, Json.itemsDepth]
    by_cases hj : j.depth ≤ room <;> by_cases hjs : Json.itemsDepth js ≤ room <;> simp [hj, hjs]

/-- A list is read back if its items are, in the room that its bracket leaves. -/
theorem readList_array {room : Nat} {read : Nat → Document → Option α} {js : List Json}
    {as : List α} (h : ∀ less, less + 1 = room → List.Forall₂ (Restores less (read less)) js as) :
    Restores room (readList room read) (.array js) as := by
  cases room with
  | zero => rfl
  | succ room =>
    rw [Restores, Json.document, readList, mapM_documents (h room rfl), Json.depth]
    simp only [Nat.add_le_add_iff_right]

/-! ### Records -/

/-- The documents of the members of a record. -/
def fieldDocuments (members : List (String × Json)) : Fields :=
  members.map fun (k, x) => (k, x.document)

theorem fieldsOfMembers_memberDocuments (names : List String) {members : List (String × Json)}
    (hnames : ∀ k ∈ members.map Prod.fst, k ∈ names) (hnodup : (members.map Prod.fst).Nodup) :
    fieldsOfMembers names (Json.memberDocuments members) = some (fieldDocuments members) := by
  induction members with
  | nil => rfl
  | cons m ms ih =>
    obtain ⟨k, x⟩ := m
    obtain ⟨hk, hms⟩ := List.forall_mem_cons.mp hnames
    obtain ⟨hfresh, hnodup⟩ := List.nodup_cons.mp hnodup
    have hany : (fieldDocuments ms).any (fun field => field.1 = k) = false := by
      rw [List.any_eq_false]
      rintro ⟨n, d⟩ hmem heq
      obtain ⟨⟨n', x'⟩, hx, hpair⟩ := List.mem_map.mp hmem
      cases hpair
      exact hfresh (List.mem_map.mpr ⟨_, hx, by simpa using heq⟩)
    rw [Json.memberDocuments, fieldsOfMembers, Json.pieces, Json.stringText?_pieces, ih hms hnodup]
    simp only [String.ofList_toList, hk, not_true_eq_false, if_false]
    exact if_neg (Bool.eq_false_iff.mp hany)

theorem readFields_object {names : List String} {members : List (String × Json)}
    (hkeys : (members.map Prod.fst).Sublist names) (hnodup : names.Nodup) (spare : Nat) :
    readFields names spare (Json.object members).document = some (fieldDocuments members) := by
  rw [Json.document, readFields,
    fieldsOfMembers_memberDocuments names (fun _ hk => hkeys.subset hk) (hnodup.sublist hkeys)]

theorem readRecord_object {names : List String} {members : List (String × Json)}
    (hkeys : (members.map Prod.fst).Sublist names) (hnodup : names.Nodup) (spare room : Nat) :
    readRecord names spare (room + 1) (Json.object members).document =
      some (fieldDocuments members) := by
  rw [readRecord, readFields_object hkeys hnodup]

@[simp] theorem required_fieldDocuments (k : String) (x : Json) (members : List (String × Json))
    (name : String) (read : Document → Option α) :
    (fieldDocuments ((k, x) :: members)).required name read =
      if k = name then read x.document else (fieldDocuments members).required name read := by
  by_cases h : k = name <;> simp [fieldDocuments, Fields.required, h]

@[simp] theorem optional_fieldDocuments (k : String) (x : Json) (members : List (String × Json))
    (name : String) (read : Document → Option α) :
    (fieldDocuments ((k, x) :: members)).optional name read =
      if k = name then readOptional read x.document
      else (fieldDocuments members).optional name read := by
  by_cases h : k = name <;> simp [fieldDocuments, Fields.optional, h]

@[simp] theorem optional_fieldDocuments_nil (name : String) (read : Document → Option α) :
    (fieldDocuments []).optional name read = some none := rfl

theorem depth_optional {write : α → Json} (h : ∀ a, (write a).depth = 0) (a : Option α) :
    (optional write a).depth = 0 := by
  cases a with
  | none => rw [optional, Json.depth]
  | some a => exact h a

theorem readOptional_optional {read : Document → Option α} {write : α → Json}
    (hread : ∀ a, read (write a).document = some a) (hnull : ∀ a, (write a).document ≠ .null)
    (a : Option α) : readOptional read (optional write a).document = some a := by
  cases a with
  | none => rfl
  | some a =>
    rw [optional, readOptional.eq_2 _ _ (hnull a), hread]
    rfl

/-! ### Texts -/

theorem isIntegral_form {name : String} {content : Json} (h : content.IsIntegral) :
    (form name content).IsIntegral :=
  ⟨h, trivial⟩

theorem isIntegral_optional (write : α → Json) (h : ∀ a, (write a).IsIntegral) (a : Option α) :
    (optional write a).IsIntegral := by
  cases a with
  | none => trivial
  | some a => exact h a

/-- What is read back from a document is read back from the text. -/
theorem readText_toText {read : Nat → Document → Option α} {j : Json} {a : α} (hj : j.IsIntegral)
    (h : Restores Json.maxNesting (read Json.maxNesting) j a) :
    readText read j.toText = if j.depth ≤ Json.maxNesting then some a else none := by
  rw [readText, Json.Document.read?_toText hj, Option.bind_some, h]

end EntitySql.Wire
