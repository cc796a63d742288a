import EntitySql.Proofs.Predicate.ParameterNames
import EntitySql.Sql.Fragment

/-!
# Tokens of a statement

How a database takes the text of a statement apart. A token is as long as it can be: a word of
letters, numerals and underscores, a sign, a quoted name, or an at sign with the name of a parameter.
A quoted name ends at a closing quote that is not followed by another one; two of them stand for one
character of the name. Blanks stand between tokens only.

`lexFrom` reads one character after the other and keeps the token that is not finished yet. The
**placeholders** of a text are those among its tokens, so an at sign inside a quoted name is none.
-/

namespace EntitySql.Sql

/-- A token. The text of a name is the name itself, without quotes and with no quote doubled. -/
inductive Token where
  | word (s : String)
  | sign (s : String)
  | name (s : String)
  | placeholder (parameter : String)
  /-- A quoted name without an end. -/
  | unclosed (s : String)
deriving DecidableEq, Repr

/-- The signs of two characters. -/
def signPairs : List (List Char) := [['<', '>'], ['<', '='], ['>', '='], ['!', '=']]

/-- A token that is not finished, or none. -/
inductive Pending where
  | idle
  | word (s : List Char)
  | sign (s : List Char)
  | placeholder (s : List Char)
  | name (s : List Char)
  /-- A name with a closing quote, which may be the first of two. -/
  | closing (s : List Char)
deriving DecidableEq

namespace Pending

/-- The token, if it ends here. -/
def token : Pending → List Token
  | idle => []
  | word s => [.word (String.ofList s)]
  | sign s => [.sign (String.ofList s)]
  | placeholder s => [.placeholder (String.ofList s)]
  | name s => [.unclosed (String.ofList s)]
  | closing s => [.name (String.ofList s)]

/-- The token that a character starts. -/
def start (d : Dialect) (c : Char) : Pending :=
  if c = d.openQuote then name []
  else if c = '@' then placeholder []
  else if isNameChar c then word [c]
  else if Text.isBlank c then idle
  else sign [c]

/-- The token with another character, if that belongs to it. -/
def extend (d : Dialect) : Pending → Char → Option Pending
  | idle, _ => none
  | word s, c => if isNameChar c then some (word (s ++ [c])) else none
  | sign s, c => if signPairs.contains (s ++ [c]) then some (sign (s ++ [c])) else none
  | placeholder s, c => if isNameChar c then some (placeholder (s ++ [c])) else none
  | name s, c => some (if c = d.closeQuote then closing s else name (s ++ [c]))
  | closing s, c => if c = d.closeQuote then some (name (s ++ [c])) else none

/-- What is pending after a character. -/
def next (d : Dialect) (p : Pending) (c : Char) : Pending := (p.extend d c).getD (start d c)

end Pending

/-- The tokens of a text, the first of which is pending. -/
def lexFrom (d : Dialect) (p : Pending) : List Char → List Token
  | [] => p.token
  | c :: rest =>
    match p.extend d c with
    | some q => lexFrom d q rest
    | none => p.token ++ lexFrom d (.start d c) rest

/-- The tokens of a text. -/
def lex (d : Dialect) (s : List Char) : List Token := lexFrom d .idle s

/-- The parameter of a placeholder. -/
def Token.placeholder? : Token → Option String
  | .placeholder p => some p
  | _ => none

/-- The parameters of the placeholders in a text, in their order. -/
def placeholdersIn (d : Dialect) (text : String) : List String :=
  (lex d text.toList).filterMap Token.placeholder?

example : lex .sqlServer "NOT ([a]]@x] <= @p_1)".toList =
    [.word "NOT", .sign "(", .name "a]@x", .sign "<=", .placeholder "p_1", .sign ")"] := by
  decide

/-! ### Reading on -/

variable {d : Dialect} {p : Pending}

/-- What is pending after a text. -/
def Pending.after (d : Dialect) (p : Pending) (s : List Char) : Pending := s.foldl (next d) p

theorem lexFrom_of_extend_none {c : Char} (h : p.extend d c = none) (rest : List Char) :
    lexFrom d p (c :: rest) = p.token ++ lex d (c :: rest) := by
  rw [lex, lexFrom, lexFrom, h]
  rfl

/-- A text is read up to a point and from there on. -/
theorem lexFrom_append (p : Pending) (s : List Char) :
    ∃ ts, lexFrom d p s = ts ++ (p.after d s).token ∧
      ∀ t, lexFrom d p (s ++ t) = ts ++ lexFrom d (p.after d s) t := by
  induction s generalizing p with
  | nil => exact ⟨[], rfl, fun _ => rfl⟩
  | cons c s ih =>
    cases h : p.extend d c with
    | some q =>
      have hnext : p.next d c = q := by rw [Pending.next, h, Option.getD_some]
      obtain ⟨ts, hs, ht⟩ := ih q
      refine ⟨ts, ?_, fun t => ?_⟩
      · simp only [lexFrom, h, Pending.after, List.foldl_cons, hnext]
        exact hs
      · simp only [List.cons_append, lexFrom, h, Pending.after, List.foldl_cons, hnext]
        exact ht t
    | none =>
      have hnext : p.next d c = .start d c := by rw [Pending.next, h, Option.getD_none]
      obtain ⟨ts, hs, ht⟩ := ih (.start d c)
      refine ⟨p.token ++ ts, ?_, fun t => ?_⟩
      · simp only [lexFrom, h, Pending.after, List.foldl_cons, hnext, List.append_assoc]
        rw [hs]
        rfl
      · simp only [List.cons_append, lexFrom, h, Pending.after, List.foldl_cons, hnext,
          List.append_assoc]
        rw [ht t]
        rfl

/-- A quoted name is read as the name, whatever characters it has. -/
theorem lexFrom_name (s n rest : List Char) :
    lexFrom d (.name s) (n.flatMap (quoteChar d.closeQuote) ++ rest) =
      lexFrom d (.name (s ++ n)) rest := by
  induction n generalizing s with
  | nil => simp
  | cons c n ih =>
    have hstep : lexFrom d (.name s)
        (quoteChar d.closeQuote c ++ (n.flatMap (quoteChar d.closeQuote) ++ rest)) =
        lexFrom d (.name (s ++ [c])) (n.flatMap (quoteChar d.closeQuote) ++ rest) := by
      by_cases hc : c = d.closeQuote
      · simp [quoteChar, hc, lexFrom, Pending.extend]
      · simp [quoteChar, hc, lexFrom, Pending.extend]
    rw [List.flatMap_cons, List.append_assoc, hstep, ih]
    simp

theorem lexFrom_placeholder (s : List Char) {n : List Char} (hn : ∀ c ∈ n, isNameChar c = true)
    (rest : List Char) :
    lexFrom d (.placeholder s) (n ++ rest) = lexFrom d (.placeholder (s ++ n)) rest := by
  induction n generalizing s with
  | nil => simp
  | cons c n ih =>
    have hc : isNameChar c = true := hn c (by simp)
    have hrest := ih (s ++ [c]) fun x hx => hn x (List.mem_cons_of_mem c hx)
    rw [List.cons_append, lexFrom]
    simp only [Pending.extend, hc, if_true]
    rw [hrest, List.append_assoc, List.singleton_append]

/-- A name between quotes is one token, which its closing quote leaves pending. -/
theorem lexFrom_quoteChars (h : p.extend d d.openQuote = none) (n t : List Char) :
    lexFrom d p (quoteChars d n ++ t) = p.token ++ lexFrom d (.closing n) t := by
  have hname := lexFrom_name (d := d) [] n (d.closeQuote :: t)
  rw [List.nil_append, lexFrom] at hname
  simp only [Pending.extend, if_true] at hname
  rw [quoteChars, List.cons_append, List.cons_append, List.append_assoc, List.singleton_append,
    lexFrom, h]
  simp only [Pending.start, if_true]
  rw [hname]

/-- An at sign with letters behind it is one token, which is pending. -/
theorem lexFrom_at (h : p.extend d '@' = none) {n : List Char}
    (hn : ∀ c ∈ n, isNameChar c = true) (t : List Char) :
    lexFrom d p ('@' :: n ++ t) = p.token ++ lexFrom d (.placeholder n) t := by
  have hstart : Pending.start d '@' = .placeholder [] := by cases d <;> decide
  rw [List.cons_append, lexFrom, h]
  simp only [hstart]
  rw [lexFrom_placeholder [] hn, List.nil_append]

end EntitySql.Sql
