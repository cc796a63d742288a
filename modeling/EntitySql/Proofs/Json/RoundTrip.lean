import EntitySql.Proofs.Json.Lexing
import Mathlib.Data.String.Basic

/-!
# Written JSON is read back

A value is canonical if its numbers are integers that are read as such and its objects are as they
are read, with the members in the order of their names. The document of a canonical value is read back
as the same value, if there is room for its brackets (**`toJson?_document`**).
-/

namespace EntitySql.Json

/-! ### Strings -/

theorem stringText?_pieces (cs : List Char) : stringText? (cs.map .ofChar) = some cs := by
  induction cs with
  | nil => rfl
  | cons c cs ih =>
    rw [List.map_cons, StringPiece.ofChar]
    split
    · next hcontrol =>
      have hlow : ¬(0xD800 ≤ c.toNat ∧ c.toNat < 0xDC00) ∧
          ¬(0xDC00 ≤ c.toNat ∧ c.toNat < 0xE000) := by
        omega
      rw [stringText?.eq_def]
      simp only [hlow.1, hlow.2, if_false, ih, Option.map_some, Char.ofNat_toNat]
    · rw [stringText?, ih]
      rfl

/-! ### Numbers -/

theorem takeSignificand_of_lt (ds : List Char) (n : Nat) (h : Nat.ofDigitChars 10 ds n < twoTo 64) :
    takeSignificand n ds = (Nat.ofDigitChars 10 ds n, []) := by
  induction ds generalizing n with
  | nil => rfl
  | cons d ds ih =>
    have hnext : Nat.ofDigitChars 10 (d :: ds) n = Nat.ofDigitChars 10 ds (n * 10 + digitValue d) :=
      ofDigitChars_cons d ds n
    rw [hnext] at h ⊢
    have hle := le_ofDigitChars ds (n * 10 + digitValue d)
    rw [takeSignificand, if_pos (by omega)]
    exact ih _ h

theorem value?_ofInt {n : Int} (h : -(twoTo 63 : Int) ≤ n ∧ n < twoTo 64) :
    (NumberText.ofInt n).value? = some (.integer n) := by
  have hroom : (twoTo 63 : Int) < twoTo 64 := by decide
  have hsignificand : takeSignificand 0 (Nat.toDigits 10 n.natAbs) = (n.natAbs, []) := by
    have hvalue := takeSignificand_of_lt (Nat.toDigits 10 n.natAbs) 0
    rw [Nat.ofDigitChars_ten_toDigits] at hvalue
    exact hvalue (by omega)
  unfold NumberText.value? NumberText.ofInt
  simp only [hsignificand, List.isEmpty_nil, Option.isNone_none, and_self, if_true]
  by_cases hneg : n < 0
  · have hrange : 0 < n.natAbs ∧ n.natAbs ≤ twoTo 63 := by omega
    have hvalue : -(n.natAbs : Int) = n := by omega
    rw [decide_eq_true hneg, if_neg (by decide), if_pos hrange, hvalue]
  · have hvalue : (n.natAbs : Int) = n := by omega
    rw [decide_eq_false hneg, if_pos (by decide), hvalue]

/-! ### Objects -/

theorem insertMember_of_lt (name : String) (value : Json) (members : List (String × Json))
    (h : ∀ m ∈ members, m.1 < name) :
    insertMember name value members = members ++ [(name, value)] := by
  induction members with
  | nil => rfl
  | cons m ms ih =>
    obtain ⟨hm, hms⟩ := List.forall_mem_cons.mp h
    rw [insertMember, if_neg (lt_asymm hm), if_neg (ne_of_gt hm), ih hms, List.cons_append]

/-- Members that stand behind smaller ones in the order of their names are put there one by one. -/
theorem foldl_insertMember (members before : List (String × Json))
    (h : ((before ++ members).map Prod.fst).Pairwise (· < ·)) :
    members.foldl (fun acc (k, v) => insertMember k v acc) before = before ++ members := by
  induction members generalizing before with
  | nil => exact (List.append_nil before).symm
  | cons m ms ih =>
    obtain ⟨k, v⟩ := m
    have hbefore : ∀ x ∈ before, x.1 < k := by
      intro x hx
      rw [List.map_append, List.pairwise_append] at h
      exact h.2.2 _ (List.mem_map_of_mem hx) _ (List.mem_map_of_mem List.mem_cons_self)
    rw [List.foldl_cons]
    simp only [insertMember_of_lt k v before hbefore]
    rw [ih _ (by simpa using h), List.append_assoc, List.singleton_append]

/-- Members that stand in the order of their names stay as they are. -/
theorem ofMembers_of_pairwise {members : List (String × Json)}
    (h : (members.map Prod.fst).Pairwise (· < ·)) : ofMembers members = .object members := by
  rw [ofMembers, foldl_insertMember members [] h, List.nil_append]

/-! ### Canonical values -/

mutual
/-- Every number is an integer of at most 64 bits, and the members of every object stand in the
order of their names. -/
def IsCanonical : Json → Prop
  | .null | .bool _ | .string _ => True
  | .number (.integer n) => -(twoTo 63 : Int) ≤ n ∧ n < twoTo 64
  | .number (.float _) => False
  | .array items => ItemsCanonical items
  | .object members => (members.map Prod.fst).Pairwise (· < ·) ∧ MembersCanonical members

/-- All items of an array are canonical. -/
def ItemsCanonical : List Json → Prop
  | [] => True
  | x :: xs => IsCanonical x ∧ ItemsCanonical xs

/-- The values of all members of an object are canonical. -/
def MembersCanonical : List (String × Json) → Prop
  | [] => True
  | (_, x) :: xs => IsCanonical x ∧ MembersCanonical xs
end

mutual
theorem IsCanonical.isIntegral : ∀ {j : Json}, j.IsCanonical → j.IsIntegral
  | .null, _ | .bool _, _ | .string _, _ | .number (.integer _), _ => trivial
  | .array _, h => itemsIntegral_of_itemsCanonical h
  | .object _, h => membersIntegral_of_membersCanonical h.2

theorem itemsIntegral_of_itemsCanonical : ∀ {items : List Json},
    ItemsCanonical items → ItemsIntegral items
  | [], _ => trivial
  | _ :: _, h => ⟨h.1.isIntegral, itemsIntegral_of_itemsCanonical h.2⟩

theorem membersIntegral_of_membersCanonical : ∀ {members : List (String × Json)},
    MembersCanonical members → MembersIntegral members
  | [], _ => trivial
  | _ :: _, h => ⟨h.1.isIntegral, membersIntegral_of_membersCanonical h.2⟩
end

/-! ### Nesting -/

mutual
/-- How deeply the brackets of a value are nested. -/
def depth : Json → Nat
  | .null | .bool _ | .number _ | .string _ => 0
  | .array items => itemsDepth items + 1
  | .object members => membersDepth members + 1

/-- How deeply the brackets of the items of an array are nested. -/
def itemsDepth : List Json → Nat
  | [] => 0
  | x :: xs => max (depth x) (itemsDepth xs)

/-- How deeply the brackets of the members of an object are nested. -/
def membersDepth : List (String × Json) → Nat
  | [] => 0
  | (_, x) :: xs => max (depth x) (membersDepth xs)
end

mutual
/-- A value is read back if there is room for its brackets. -/
theorem toJson?_document : ∀ {j : Json} (room : Nat), j.IsCanonical →
    j.document.toJson? room = if j.depth ≤ room then some j else none
  | .null, room, _ | .bool _, room, _ => by
    rw [depth, if_pos (Nat.zero_le room), document, Document.toJson?]
  | .number (.integer n), room, h => by
    rw [depth, if_pos (Nat.zero_le room), document, Document.toJson?, value?_ofInt h]
    rfl
  | .string s, room, _ => by
    rw [depth, if_pos (Nat.zero_le room), document, Document.toJson?, pieces, stringText?_pieces,
      Option.map_some, String.ofList_toList]
  | .array items, 0, _ => rfl
  | .array items, room + 1, h => by
    rw [depth, document, Document.toJson?, itemsToJson?_documents room h]
    by_cases hroom : itemsDepth items ≤ room
    · rw [if_pos hroom, if_pos (Nat.succ_le_succ hroom), Option.map_some]
    · rw [if_neg hroom, if_neg fun h => hroom (Nat.le_of_succ_le_succ h), Option.map_none]
  | .object members, 0, _ => rfl
  | .object members, room + 1, h => by
    rw [depth, document, Document.toJson?, membersToJson?_documents room h.2]
    by_cases hroom : membersDepth members ≤ room
    · rw [if_pos hroom, if_pos (Nat.succ_le_succ hroom), Option.map_some, ofMembers_of_pairwise h.1]
    · rw [if_neg hroom, if_neg fun h => hroom (Nat.le_of_succ_le_succ h), Option.map_none]

theorem itemsToJson?_documents : ∀ {items : List Json} (room : Nat), ItemsCanonical items →
    Document.itemsToJson? room (documents items) =
      if itemsDepth items ≤ room then some items else none
  | [], room, _ => by
    rw [itemsDepth, if_pos (Nat.zero_le room), documents, Document.itemsToJson?]
  | x :: xs, room, h => by
    rw [documents, Document.itemsToJson?, toJson?_document room h.1,
      itemsToJson?_documents room h.2, itemsDepth]
    by_cases hx : x.depth ≤ room <;> by_cases hxs : itemsDepth xs ≤ room <;>
      simp [hx, hxs]

theorem membersToJson?_documents : ∀ {members : List (String × Json)} (room : Nat),
    MembersCanonical members → Document.membersToJson? room (memberDocuments members) =
      if membersDepth members ≤ room then some members else none
  | [], room, _ => by
    rw [membersDepth, if_pos (Nat.zero_le room), memberDocuments, Document.membersToJson?]
  | (k, x) :: xs, room, h => by
    rw [memberDocuments, Document.membersToJson?, toJson?_document room h.1,
      membersToJson?_documents room h.2, membersDepth, pieces, stringText?_pieces]
    by_cases hx : x.depth ≤ room <;> by_cases hxs : membersDepth xs ≤ room <;>
      simp [hx, hxs]
end

end EntitySql.Json
