import EntitySql.Proofs.Sql.SearchCondition

/-!
# Reading tokens one after the other

A `Reading` takes what it can from the start of a list of tokens and leaves the others. The pieces from
which the grammar of a statement is put together are a fixed sequence of tokens (`tokens`), a part that
may be missing (`optionally`), and items with a separator between them (`readSeparated`); each of them
reads back what was written (`tokens_append`, `readSeparated_withBetween`).

Of the text of a statement two things have to be known here: a number is one word
(`lex_number_append`), and a semicolon is a token only where it was written (`mem_of_sign_mem_lex`), so
that a statement ends at its own semicolon.
-/

namespace EntitySql.Sql

/-- What is read from the start of a list of tokens, and the tokens behind it. -/
abbrev Reading (α : Type) := StateT (List Token) Option α

namespace Reading

variable {α β : Type}

@[simp] theorem bind_apply (p : Reading α) (f : α → Reading β) (ts : List Token) :
    (p >>= f) ts = (p ts).bind fun x => f x.1 x.2 := rfl

@[simp] theorem pure_apply (x : α) (ts : List Token) : (pure x : Reading α) ts = some (x, ts) := rfl

@[simp] theorem map_apply (f : α → β) (p : Reading α) (ts : List Token) :
    (f <$> p) ts = (p ts).map fun x => (f x.1, x.2) := by
  cases h : p ts <;> simp [Functor.map, StateT.map, h]

@[simp] theorem orElse_apply (p q : Reading α) (ts : List Token) :
    (p <|> q) ts = (p ts).or (q ts) := by
  cases h : p ts <;> simp [HOrElse.hOrElse, OrElse.orElse, Alternative.orElse, StateT.orElse, h]

end Reading

/-! ### Pieces -/

/-- Reads this token. -/
def token (t : Token) : Reading Unit
  | u :: rest => if u = t then some ((), rest) else none
  | [] => none

/-- Reads these tokens. -/
def tokens : List Token → Reading Unit
  | [] => pure ()
  | t :: ts => do
    token t
    tokens ts

/-- Reads a part that may be missing, and tells whether it is there. -/
def optionally (p : Reading Unit) : Reading Bool := (p >>= fun _ => pure true) <|> pure false

/-- Leaves out everything in front of this token. -/
def skipTo (t : Token) : Reading Unit := fun ts => some ((), ts.dropWhile (· ≠ t))

/-- Reads a name. -/
def readName : Reading String
  | .name n :: rest => some (n, rest)
  | _ => none

/-- Reads what stands in brackets. -/
def readBrackets {α : Type} (read : Reading α) : Reading α := do
  token (.sign "(")
  let x ← read
  token (.sign ")")
  return x

/-- Reads items with a separator between them, at most `n`. -/
def readItems {α : Type} (separator : Token) (read : Reading α) : Nat → Reading (List α)
  | 0 => failure
  | n + 1 => do
    let x ← read
    if ← optionally (token separator) then
      let xs ← readItems separator read n
      return x :: xs
    else return [x]

/-- Reads items with a separator between them. -/
def readSeparated {α : Type} (separator : Token) (read : Reading α) : Reading (List α) := fun ts =>
  readItems separator read (ts.length + 1) ts

/-- Reads items with commas between them. -/
def readCommas {α : Type} (read : Reading α) : Reading (List α) := readSeparated (.sign ",") read

example : readCommas readName [.name "a", .sign ",", .name "b", .sign ")"] =
    some (["a", "b"], [.sign ")"]) := by decide

/-! ### Reading back -/

section ReadingBack

variable {α : Type} {t : Token} {rest : List Token}

@[simp] theorem token_cons (t : Token) (rest : List Token) :
    token t (t :: rest) = some ((), rest) := by
  rw [token, if_pos rfl]

theorem token_ne {u : Token} (h : u ≠ t) (rest : List Token) : token t (u :: rest) = none := by
  rw [token, if_neg h]

theorem token_none (h : rest.head? ≠ some t) : token t rest = none := by
  cases rest with
  | nil => rfl
  | cons u rest => exact token_ne (fun hu => h (congrArg some hu)) rest

theorem tokens_none {ts : List Token} (h : rest.head? ≠ some t) : tokens (t :: ts) rest = none := by
  simp [tokens, token_none h]

@[simp] theorem readName_name (n : String) (rest : List Token) :
    readName (.name n :: rest) = some (n, rest) := rfl

theorem tokens_append (ts rest : List Token) : tokens ts (ts ++ rest) = some ((), rest) := by
  induction ts with
  | nil => rfl
  | cons t ts ih => simp [tokens, ih]

theorem optionally_token_cons (t : Token) (rest : List Token) :
    optionally (token t) (t :: rest) = some (true, rest) := by
  simp [optionally]

theorem optionally_none {p : Reading Unit} (h : p rest = none) :
    optionally p rest = some (false, rest) := by
  simp [optionally, h]

theorem skipTo_append {ts : List Token} (h : t ∉ ts) (rest : List Token) :
    skipTo t (ts ++ t :: rest) = some ((), t :: rest) := by
  have hall : ∀ u ∈ ts, decide (u ≠ t) = true := by
    intro u hu
    rw [decide_eq_true_eq]
    rintro rfl
    exact h hu
  rw [skipTo, List.dropWhile_append_of_pos hall, List.dropWhile_cons_of_neg (by simp)]

theorem readBrackets_append {read : Reading α} {x : α} {ts : List Token}
    (h : read (ts ++ .sign ")" :: rest) = some (x, .sign ")" :: rest)) :
    readBrackets read (.sign "(" :: (ts ++ .sign ")" :: rest)) = some (x, rest) := by
  simp [readBrackets, h]

theorem readItems_withBetween {read : Reading α} {tokensOf : α → List Token} {xs : List α}
    (hne : xs ≠ []) (h : ∀ x ∈ xs, ∀ rest, read (tokensOf x ++ rest) = some (x, rest))
    (hrest : rest.head? ≠ some t) {n : Nat} (hn : xs.length ≤ n) :
    readItems t read n (withBetween t (xs.map tokensOf) ++ rest) = some (xs, rest) := by
  induction xs generalizing n with
  | nil => exact absurd rfl hne
  | cons x xs ih =>
    obtain ⟨hx, hxs⟩ := List.forall_mem_cons.mp h
    obtain ⟨k, rfl⟩ : ∃ k, n = k + 1 := ⟨n - 1, by rw [List.length_cons] at hn; omega⟩
    cases xs with
    | nil =>
      have hstop := optionally_none (token_none hrest)
      simp [readItems, withBetween, hx, hstop]
    | cons y ys =>
      have hk : (y :: ys).length ≤ k := by simpa using hn
      have hnext := ih (by simp) hxs hk
      rw [List.map_cons] at hnext
      simp [readItems, withBetween, hx, optionally_token_cons, hnext]

theorem length_le_length_withBetween (t : Token) (tss : List (List Token)) :
    tss.length ≤ (withBetween t tss).length + 1 := by
  induction tss with
  | nil => simp
  | cons ts tss ih =>
    cases tss with
    | nil => simp
    | cons us tss =>
      have hstep : withBetween t (ts :: us :: tss) = ts ++ t :: withBetween t (us :: tss) := rfl
      simp only [hstep, List.length_append, List.length_cons] at ih ⊢
      omega

/-- **Items with a separator between them are read back** where no separator follows. -/
theorem readSeparated_withBetween {read : Reading α} {tokensOf : α → List Token} {xs : List α}
    (hne : xs ≠ []) (h : ∀ x ∈ xs, ∀ rest, read (tokensOf x ++ rest) = some (x, rest))
    (hrest : rest.head? ≠ some t) :
    readSeparated t read (withBetween t (xs.map tokensOf) ++ rest) = some (xs, rest) := by
  have hlength := length_le_length_withBetween t (xs.map tokensOf)
  rw [List.length_map] at hlength
  refine readItems_withBetween hne h hrest ?_
  rw [List.length_append]
  omega

end ReadingBack

/-! ### Text -/

variable {d : Dialect}

/-- What is pending does not depend on the dialect outside of quotes. -/
theorem start_eq_of_isPlain {c : Char} (hc : isPlain c = true) :
    Pending.start d c = .start .postgres c := by
  have hquote : ∀ d : Dialect, c ≠ d.openQuote := by
    rintro d rfl
    cases d <;> exact absurd hc (by decide)
  rw [Pending.start, if_neg (hquote d), Pending.start, if_neg (hquote .postgres)]

theorem lexFrom_eq_of_isPlain {p : Pending} (hp : p.IsPlain) {s : List Char}
    (hs : s.all isPlain = true) : lexFrom d p s = lexFrom .postgres p s := by
  induction s generalizing p with
  | nil => rfl
  | cons c s ih =>
    simp only [List.all_cons, Bool.and_eq_true] at hs
    have hextend : p.extend d c = p.extend .postgres c := by
      cases p with
      | idle | word s | sign s => rfl
      | placeholder s | name s | closing s => cases hp
    have hnext := ih (isPlain_next (d := .postgres) hp hs.1) hs.2
    rw [lexFrom, lexFrom, hextend, start_eq_of_isPlain hs.1]
    cases h : p.extend .postgres c with
    | some q =>
      rw [Pending.next, h] at hnext
      exact hnext
    | none =>
      rw [Pending.next, h] at hnext
      exact congrArg (p.token ++ ·) hnext

/-- The tokens of plain text. -/
def Lexes (s : String) (ts : List Token) : Prop :=
  s.toList.all isPlain = true ∧ lex .postgres s.toList = ts

instance (s : String) (ts : List Token) : Decidable (Lexes s ts) :=
  inferInstanceAs (Decidable (_ ∧ _))

theorem Lexes.tokens_text {s : String} {ts : List Token} (h : Lexes s ts) (fs : Fragments) :
    Fragments.tokens d (.text s :: fs) = ts ++ fs.tokens d := by
  rw [Fragments.tokens_text, lex, lexFrom_eq_of_isPlain idle_isPlain h.1, ← lex, h.2]

theorem tokens_name (n : String) (fs : Fragments) :
    Fragments.tokens d (.name n :: fs) = .name n :: fs.tokens d := rfl

theorem tokens_placeholder (p : String) (fs : Fragments) :
    Fragments.tokens d (.placeholder p :: fs) = .placeholder p :: fs.tokens d := rfl

theorem tokens_commaList {α : Type} (f : α → Fragments) (xs : List α) :
    (commaList f xs).tokens d =
      withBetween (.sign ",") (xs.map fun x => (f x).tokens d) := by
  have hcomma : lex d ", ".toList = [.sign ","] := by cases d <;> decide
  rw [commaList, tokens_separated hcomma, List.map_map]
  rfl

theorem lexFrom_word (s : List Char) {n : List Char} (hn : ∀ c ∈ n, isNameChar c = true) :
    lexFrom d (.word s) n = [.word (String.ofList (s ++ n))] := by
  induction n generalizing s with
  | nil => simp [lexFrom, Pending.token]
  | cons c n ih =>
    obtain ⟨hc, hn⟩ := List.forall_mem_cons.mp hn
    rw [lexFrom]
    simp only [Pending.extend, hc, if_true]
    rw [ih _ hn, List.append_assoc, List.singleton_append]

/-- A number is a word. -/
theorem lex_number (n : Nat) : lex d (toString n).toList = [.word (toString n)] := by
  have hplain : ∀ c ∈ Nat.toDigits 10 n, isNameChar c = true := by
    intro c hc
    exact isNameChar_of_word (by simp [Char.isAlphanum, isDigit_of_mem_digits hc])
  have hlist : (toString n).toList = Nat.toDigits 10 n := by
    rw [Nat.toString_eq_repr, Nat.toList_repr]
  obtain ⟨c, cs, hcs⟩ := List.exists_cons_of_ne_nil (Nat.toDigits_ne_nil (n := n) (b := 10))
  have hstart : Pending.start d c = .word [c] := by
    have hc := hplain c (by simp [hcs])
    have hdigit := isDigit_of_mem_digits (n := n) (c := c) (by simp [hcs])
    have hquote : c ≠ d.openQuote := by
      rintro rfl
      cases d <;> exact absurd hdigit (by decide)
    have hat : c ≠ '@' := by
      rintro rfl
      exact absurd hdigit (by decide)
    rw [Pending.start, if_neg hquote, if_neg hat, if_pos hc]
  have hword := lexFrom_word (d := d) [c] (n := cs) fun x hx => hplain x (by simp [hcs, hx])
  rw [List.singleton_append, ← hcs, ← hlist, String.ofList_toList] at hword
  rw [hlist, hcs, lex, lexFrom]
  simp only [Pending.extend, Pending.token, List.nil_append, hstart]
  exact hword

theorem semicolon_of_mem_start {c : Char} (h : .sign ";" ∈ (Pending.start d c).token) : c = ';' := by
  unfold Pending.start at h
  split at h
  · cases List.mem_singleton.mp h
  split at h
  · cases List.mem_singleton.mp h
  split at h
  · cases List.mem_singleton.mp h
  split at h
  · cases h
  · have hsign := Token.sign.inj (List.mem_singleton.mp h)
    have hlist : ";".toList = [c] := by rw [hsign, String.toList_ofList]
    exact (List.cons.inj hlist).1.symm

/-- A token that goes on is no semicolon. -/
theorem notMem_token_of_extend {p q : Pending} {c : Char} (h : p.extend d c = some q) :
    .sign ";" ∉ q.token := by
  intro hmem
  cases p with
  | idle => cases h
  | word s | placeholder s | closing s =>
    simp only [Pending.extend, Option.ite_none_right_eq_some, Option.some.injEq] at h
    obtain ⟨-, rfl⟩ := h
    cases List.mem_singleton.mp hmem
  | name s =>
    simp only [Pending.extend, Option.some.injEq] at h
    split at h
    · subst h
      cases List.mem_singleton.mp hmem
    · subst h
      cases List.mem_singleton.mp hmem
  | sign s =>
    simp only [Pending.extend, Option.ite_none_right_eq_some, Option.some.injEq] at h
    obtain ⟨hpair, rfl⟩ := h
    have hsign := Token.sign.inj (List.mem_singleton.mp hmem)
    have hlist : ";".toList = s ++ [c] := by rw [hsign, String.toList_ofList]
    rw [← hlist] at hpair
    exact absurd hpair (by decide)

/-- A semicolon is a token only where it was written. -/
theorem mem_of_sign_mem_lexFrom {p : Pending} {s : List Char}
    (h : .sign ";" ∈ lexFrom d p s) : .sign ";" ∈ p.token ∨ ';' ∈ s := by
  induction s generalizing p with
  | nil => exact .inl h
  | cons c s ih =>
    rw [lexFrom] at h
    cases hc : p.extend d c with
    | some q =>
      rw [hc] at h
      rcases ih h with hq | hs
      · exact absurd hq (notMem_token_of_extend hc)
      · exact .inr (List.mem_cons_of_mem c hs)
    | none =>
      rw [hc] at h
      rcases List.mem_append.mp h with hp | hrest
      · exact .inl hp
      · rcases ih hrest with hq | hs
        · exact .inr (by simp [semicolon_of_mem_start hq])
        · exact .inr (List.mem_cons_of_mem c hs)

/-- Fragments without a semicolon in their text have none among their tokens. -/
theorem semicolon_notMem_tokens {fs : Fragments} (h : ∀ s, .text s ∈ fs → ';' ∉ s.toList) :
    .sign ";" ∉ fs.tokens d := by
  intro hmem
  obtain ⟨f, hf, hmem⟩ := List.mem_flatMap.mp hmem
  cases f with
  | text s =>
    rcases mem_of_sign_mem_lexFrom hmem with hp | hs
    · cases hp
    · exact h s hf hs
  | name n | placeholder p => cases List.mem_singleton.mp hmem

end EntitySql.Sql
