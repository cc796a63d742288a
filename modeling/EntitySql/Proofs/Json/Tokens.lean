import EntitySql.Json.Document
import EntitySql.Proofs.Text.Digits

/-!
# The tokens of written JSON

What a value is written as has a document (`Json.document`), and a document has tokens
(`Document.tokens`). Here the tokens of any document are assembled into the document again
(**`Document.ofTokens?_tokens`**). Assembling keeps the open brackets on a stack, so the lemma for
the induction says what the tokens of a document do in front of others: they hand the document to
the bracket around it, whatever that bracket holds already (`Document.assemble_tokens`).
-/

namespace EntitySql.Json

/-! ### Documents of values -/

/-- An integer as it is written. -/
def NumberText.ofInt (n : Int) : NumberText := ⟨n < 0, Nat.toDigits 10 n.natAbs, [], none⟩

/-- The control characters that have an escape of their own. -/
def shortEscapes : List Char := ['\n', '\r', '\t', '\x08', '\x0c']

/-- The piece of a string that a character is written as. -/
def StringPiece.ofChar (c : Char) : StringPiece :=
  if c.toNat < 0x20 ∧ c ∉ shortEscapes then .unit c.toNat else .char c

/-- The pieces that a string is written as. -/
def pieces (s : String) : List StringPiece := s.toList.map .ofChar

mutual
/-- The document of the written form of a value without binary numbers. -/
def document : Json → Document
  | .null => .null
  | .bool b => .bool b
  | .number (.integer n) => .number (.ofInt n)
  | .number (.float _) => .null
  | .string s => .string (pieces s)
  | .array items => .array (documents items)
  | .object members => .object (memberDocuments members)

/-- The documents of the items of an array. -/
def documents : List Json → List Document
  | [] => []
  | x :: xs => document x :: documents xs

/-- The documents of the members of an object. -/
def memberDocuments : List (String × Json) → List (List StringPiece × Document)
  | [] => []
  | (k, x) :: xs => (pieces k, document x) :: memberDocuments xs
end

mutual
/-- The tokens that a document is written in. -/
def Document.tokens : Document → List Token
  | .null => [.null]
  | .bool b => [.bool b]
  | .number n => [.number n]
  | .string s => [.string s]
  | .array items => .openArray :: itemTokens true items ++ [.closeArray]
  | .object members => .openObject :: memberTokens true members ++ [.closeObject]

/-- Items with commas between them; `first` tells that nothing stands before them. -/
def Document.itemTokens (first : Bool) : List Document → List Token
  | [] => []
  | x :: xs => (if first then [] else [.comma]) ++ x.tokens ++ itemTokens false xs

/-- Members with commas between them; `first` tells that nothing stands before them. -/
def Document.memberTokens (first : Bool) : List (List StringPiece × Document) → List Token
  | [] => []
  | (k, x) :: xs =>
    (if first then [] else [.comma]) ++ .string k :: .colon :: x.tokens ++ memberTokens false xs
end

/-! ### Assembling -/

namespace Document

theorem tokens_eq_cons (d : Document) : ∃ t ts, d.tokens = t :: ts ∧ t ≠ .closeArray := by
  cases d with
  | array items => exact ⟨.openArray, _, by rw [tokens, List.cons_append], by decide⟩
  | object members => exact ⟨.openObject, _, by rw [tokens, List.cons_append], by decide⟩
  | null | bool _ | number _ | string _ => exact ⟨_, [], by rw [tokens], Token.noConfusion⟩

/-- The first item of an array is read like any other. -/
theorem assemble_firstItem (stack : List Frame) (d : Document) (rest : List Token) :
    assemble stack .firstItem (d.tokens ++ rest) =
      assemble (.array [] :: stack) .value (d.tokens ++ rest) := by
  obtain ⟨t, ts, hts, ht⟩ := d.tokens_eq_cons
  have hstep : advance stack .firstItem t = startValue (.array [] :: stack) t := by
    cases t <;> first | rfl | exact absurd rfl ht
  rw [hts, List.cons_append, assemble, assemble, hstep, advance]

mutual
/-- The tokens of a document hand the document to the bracket around it. -/
theorem assemble_tokens : ∀ (d : Document) (stack : List Frame) (rest : List Token),
    assemble stack .value (d.tokens ++ rest) =
      assemble (complete d stack).1 (complete d stack).2 rest
  | .null, _, _ | .bool _, _, _ | .number _, _, _ | .string _, _, _ => by
    rw [tokens, List.singleton_append, assemble]
    rfl
  | .array [], stack, rest => by
    rw [tokens, itemTokens]
    rfl
  | .array (d :: ds), stack, rest => by
    have hfirst : assemble stack .value ((Document.array (d :: ds)).tokens ++ rest) =
        assemble stack .firstItem (d.tokens ++ (itemTokens false ds ++ .closeArray :: rest)) := by
      simp [tokens, itemTokens, assemble, advance, startValue]
    rw [hfirst, assemble_firstItem, assemble_tokens d]
    exact assemble_itemTokens ds [d] stack rest
  | .object [], stack, rest => by
    rw [tokens, memberTokens]
    rfl
  | .object ((k, d) :: ms), stack, rest => by
    have hfirst : assemble stack .value ((Document.object ((k, d) :: ms)).tokens ++ rest) =
        assemble (.member [] k :: stack) .value
          (d.tokens ++ (memberTokens false ms ++ .closeObject :: rest)) := by
      simp [tokens, memberTokens, assemble, advance, startValue]
    rw [hfirst, assemble_tokens d]
    exact assemble_memberTokens ms [(k, d)] stack rest

theorem assemble_itemTokens : ∀ (ds read : List Document) (stack : List Frame) (rest : List Token),
    assemble stack (.afterItem read) (itemTokens false ds ++ .closeArray :: rest) =
      assemble (complete (.array (read.reverse ++ ds)) stack).1
        (complete (.array (read.reverse ++ ds)) stack).2 rest
  | [], read, stack, rest => by
    rw [itemTokens, List.append_nil]
    rfl
  | d :: ds, read, stack, rest => by
    have hcomma : assemble stack (.afterItem read)
          (itemTokens false (d :: ds) ++ .closeArray :: rest) =
        assemble (.array read :: stack) .value
          (d.tokens ++ (itemTokens false ds ++ .closeArray :: rest)) := by
      simp [itemTokens, assemble, advance]
    have hnext := assemble_itemTokens ds (d :: read) stack rest
    rw [List.reverse_cons, List.append_assoc, List.singleton_append] at hnext
    rw [hcomma, assemble_tokens d]
    exact hnext

theorem assemble_memberTokens : ∀ (ms read : List (List StringPiece × Document))
    (stack : List Frame) (rest : List Token),
    assemble stack (.afterMember read) (memberTokens false ms ++ .closeObject :: rest) =
      assemble (complete (.object (read.reverse ++ ms)) stack).1
        (complete (.object (read.reverse ++ ms)) stack).2 rest
  | [], read, stack, rest => by
    rw [memberTokens, List.append_nil]
    rfl
  | (k, d) :: ms, read, stack, rest => by
    have hcomma : assemble stack (.afterMember read)
          (memberTokens false ((k, d) :: ms) ++ .closeObject :: rest) =
        assemble (.member read k :: stack) .value
          (d.tokens ++ (memberTokens false ms ++ .closeObject :: rest)) := by
      simp [memberTokens, assemble, advance]
    have hnext := assemble_memberTokens ms ((k, d) :: read) stack rest
    rw [List.reverse_cons, List.append_assoc, List.singleton_append] at hnext
    rw [hcomma, assemble_tokens d]
    exact hnext
end

/-- A document is assembled from its tokens. -/
theorem ofTokens?_tokens (d : Document) : ofTokens? d.tokens = some d := by
  have h := assemble_tokens d [] []
  rw [List.append_nil] at h
  exact h

end Document

end EntitySql.Json
