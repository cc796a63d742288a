import EntitySql.Proofs.Predicate.Comparison
import EntitySql.Proofs.Sql.Token

/-!
# Reading a condition

How a database reads the tokens of a condition. The tokens of a single test stay together
(`symbolsFrom`): a bracket opens a group where a test may start and belongs to the test everywhere
else, and `NOT` complements what follows unless a test has begun. The tests, connectives and brackets
are then read by a stack machine (`Reader.step`) in which **`NOT` binds closer than `AND`, and `AND`
closer than `OR`**: an operand takes the complements in front of it, then joins the conjunction, and
`OR` or the end of the group adds the conjunction to the disjunction.

The result is a `Formula`, whose truth follows from the comparisons of the database, the values of
the columns and the values of the parameters.
-/

namespace EntitySql.Sql

/-! ### Formulas -/

/-- A value in a test. A column is given by the parts of its name. -/
inductive Scalar where
  | column (path : List String)
  | parameter (name : String)
  | number (n : Nat)
  | lower (x : Scalar)
deriving DecidableEq, Repr

/-- A condition as it is understood. -/
inductive Formula where
  | isNull (x : Scalar)
  | compare (x : Scalar) (operator : Operator) (y : Scalar)
  | within (x : Scalar) (parameters : List String)
  | not (f : Formula)
  | and (f g : Formula)
  | or (f g : Formula)
deriving DecidableEq, Repr

section Truth

variable (C : Comparisons) (columns : List String → Value) (parameters : String → Value)

/-- The value in a test. -/
def Scalar.value : Scalar → Value
  | .column path => columns path
  | .parameter name => parameters name
  | .number n => .int (Int64.ofNat n)
  | .lower x => C.lower (Scalar.value x)

/-- The truth of a condition. Equality of numbers that stand in the text is decided by the numbers. -/
def Formula.truth : Formula → Truth
  | .isNull x => .ofBool (x.value C columns parameters).isNull
  | .compare (.number m) .equal (.number n) => .ofBool (m = n)
  | .compare x op y => C.scalar op (x.value C columns parameters) (y.value C columns parameters)
  | .within x ps => C.list (x.value C columns parameters) (ps.map parameters)
  | .not f => (Formula.truth f).not
  | .and f g => (Formula.truth f).and (Formula.truth g)
  | .or f g => (Formula.truth f).or (Formula.truth g)

end Truth

/-! ### Reading a test -/

/-- Reads the parts of a name with points between them. -/
def readPath : List Token → Option (List String × List Token)
  | .name n :: .sign "." :: rest => (readPath rest).map fun (path, rest) => (n :: path, rest)
  | .name n :: rest => some ([n], rest)
  | _ => none

/-- Reads a value. -/
def readScalar : List Token → Option (Scalar × List Token)
  | .word "LOWER" :: .sign "(" :: rest =>
    match readScalar rest with
    | some (x, .sign ")" :: rest) => some (.lower x, rest)
    | _ => none
  | .placeholder p :: rest => some (.parameter p, rest)
  | .word n :: rest =>
    if n.toList.all Char.isDigit then some (.number (Nat.ofDigitChars 10 n.toList 0), rest)
    else none
  | ts => (readPath ts).map fun (path, rest) => (.column path, rest)

/-- Reads the operator of a comparison. -/
def readOperator : List Token → Option (Operator × List Token)
  | .sign "=" :: rest => some (.equal, rest)
  | .sign "<>" :: rest => some (.notEqual, rest)
  | .sign ">" :: rest => some (.greaterThan, rest)
  | .sign "<" :: rest => some (.lessThan, rest)
  | .sign ">=" :: rest => some (.greaterOrEqual, rest)
  | .sign "<=" :: rest => some (.lessOrEqual, rest)
  | .word "LIKE" :: rest => some (.like, rest)
  | .word "NOT" :: .word "LIKE" :: rest => some (.notLike, rest)
  | _ => none

/-- Reads the rest of a list of placeholders to the end. -/
def readList : List Token → Option (List String)
  | [.placeholder p, .sign ")"] => some [p]
  | .placeholder p :: .sign "," :: rest => (readList rest).map fun ps => p :: ps
  | _ => none

/-- Reads what stands behind the value at the start of a test. -/
def readTestOf (x : Scalar) : List Token → Option Formula
  | [.word "IS", .word "NULL"] => some (.isNull x)
  | [.word "IS", .word "NOT", .word "NULL"] => some (.not (.isNull x))
  | .word "IN" :: .sign "(" :: rest => (readList rest).map fun ps => .within x ps
  | .word "NOT" :: .word "IN" :: .sign "(" :: rest =>
    (readList rest).map fun ps => .not (.within x ps)
  | ts => do
    let (op, rest) ← readOperator ts
    match ← readScalar rest with
    | (y, []) => return .compare x op y
    | _ => none

/-- Reads a test. -/
def readTest (ts : List Token) : Option Formula := do
  let (x, rest) ← readScalar ts
  readTestOf x rest

/-! ### Symbols -/

/-- A test with its tokens, a connective or a bracket. -/
inductive Symbol where
  | test (ts : List Token)
  | and
  | or
  | not
  | opening
  | closing
deriving DecidableEq

/-- The symbol of a test that is finished, if there is one. -/
def testSymbol (ts : List Token) : List Symbol := if ts = [] then [] else [.test ts]

/-- The symbols of tokens. `test` holds the tokens of the test around this point, and `depth` counts
the brackets open in it. -/
def symbolsFrom (test : List Token) (depth : Nat) : List Token → List Symbol
  | [] => testSymbol test
  | t :: rest =>
    if t = .word "AND" then testSymbol test ++ .and :: symbolsFrom [] 0 rest
    else if t = .word "OR" then testSymbol test ++ .or :: symbolsFrom [] 0 rest
    else if t = .word "NOT" ∧ test = [] then .not :: symbolsFrom [] 0 rest
    else if t = .sign "(" then
      if test = [] then .opening :: symbolsFrom [] 0 rest
      else symbolsFrom (test ++ [t]) (depth + 1) rest
    else if t = .sign ")" then
      if depth = 0 then testSymbol test ++ .closing :: symbolsFrom [] 0 rest
      else symbolsFrom (test ++ [t]) (depth - 1) rest
    else symbolsFrom (test ++ [t]) depth rest

/-- The symbols of tokens. -/
def symbols (ts : List Token) : List Symbol := symbolsFrom [] 0 ts

/-! ### The stack machine -/

/-- What is known of a group where an operand is to follow. -/
structure Frame where
  /-- The conjunctions before the current one. -/
  disjunction : Option Formula
  /-- The operands of the current conjunction. -/
  conjunction : Option Formula
  /-- How many complements stand in front of the operand. -/
  negations : Nat

/-- Nothing is known at the start of a group. -/
def Frame.empty : Frame := ⟨none, none, 0⟩

/-- A state of reading, with the groups around the current one. -/
inductive Reader where
  | operand (outer : List Frame) (frame : Frame)
  | operator (outer : List Frame) (disjunction : Option Formula) (conjunction : Formula)

/-- A formula with complements. -/
def negations : Nat → Formula → Formula
  | 0, f => f
  | n + 1, f => negations n (.not f)

/-- A formula joined to those before it. -/
def joinedTo (connective : Formula → Formula → Formula) : Option Formula → Formula → Formula
  | none, f => f
  | some e, f => connective e f

namespace Reader

/-- Takes an operand. -/
def absorb (outer : List Frame) (frame : Frame) (f : Formula) : Reader :=
  .operator outer frame.disjunction
    (joinedTo .and frame.conjunction (negations frame.negations f))

/-- Reads a symbol. -/
def step : Reader → Symbol → Option Reader
  | operand outer frame, .not =>
    some (operand outer { frame with negations := frame.negations + 1 })
  | operand outer frame, .opening => some (operand (frame :: outer) .empty)
  | operand outer frame, .test ts => (readTest ts).map (absorb outer frame)
  | operator outer dis con, .and => some (operand outer ⟨dis, some con, 0⟩)
  | operator outer dis con, .or => some (operand outer ⟨some (joinedTo .or dis con), none, 0⟩)
  | operator (frame :: outer) dis con, .closing =>
    some (absorb outer frame (joinedTo .or dis con))
  | _, _ => none

/-- Reads symbols. -/
def run (r : Reader) (xs : List Symbol) : Option Reader := xs.foldlM step r

/-- The condition that was read, if it is complete. -/
def result : Reader → Option Formula
  | operator [] dis con => some (joinedTo .or dis con)
  | _ => none

end Reader

/-- Reads a condition. -/
def readCondition (d : Dialect) (text : String) : Option Formula := do
  let r ← Reader.run (.operand [] .empty) (symbols (lex d text.toList))
  r.result

example :
    readCondition .postgres "\"a\" = @p OR NOT \"b\" IS NULL AND 1 = 0" =
      some (.or (.compare (.column ["a"]) .equal (.parameter "p"))
        (.and (.not (.isNull (.column ["b"]))) (.compare (.number 1) .equal (.number 0)))) := by
  decide

/-! ### The tokens of a test -/

/-- A token that is neither a connective nor a bracket. -/
def Token.Inert (t : Token) : Prop :=
  t ∉ [.word "AND", .word "OR", .word "NOT", .sign "(", .sign ")"]

instance (t : Token) : Decidable t.Inert := inferInstanceAs (Decidable (t ∉ _))

/-- The tokens belong to the test that has begun; the brackets open in it are `a` before and `b`
behind them. -/
def CarriesOn (a : Nat) (ts : List Token) (b : Nat) : Prop :=
  ∀ test ≠ [], ∀ rest, symbolsFrom test a (ts ++ rest) = symbolsFrom (test ++ ts) b rest

/-- Tokens behind which a test ends. -/
def Breaks (rest : List Token) : Prop :=
  rest = [] ∨ ∃ t ts, rest = t :: ts ∧ t ∈ [.word "AND", .word "OR", .sign ")"]

theorem symbolsFrom_inert {t : Token} (h : t.Inert) (test rest : List Token) (depth : Nat) :
    symbolsFrom test depth (t :: rest) = symbolsFrom (test ++ [t]) depth rest := by
  simp only [Token.Inert, List.mem_cons, List.not_mem_nil, or_false, not_or] at h
  rw [symbolsFrom, if_neg h.1, if_neg h.2.1, if_neg fun hn => h.2.2.1 hn.1, if_neg h.2.2.2.1,
    if_neg h.2.2.2.2]

theorem CarriesOn.append {a b c : Nat} {ts us : List Token} (h : CarriesOn a ts b)
    (h' : CarriesOn b us c) : CarriesOn a (ts ++ us) c := by
  intro test htest rest
  rw [List.append_assoc, h test htest, h' (test ++ ts) (by simp [htest]), List.append_assoc]

theorem CarriesOn.inert {a : Nat} {ts : List Token} (h : ∀ t ∈ ts, t.Inert) :
    CarriesOn a ts a := by
  induction ts with
  | nil =>
    intro test _ rest
    rw [List.append_nil, List.nil_append]
  | cons t ts ih =>
    obtain ⟨ht, hts⟩ := List.forall_mem_cons.mp h
    have hone : CarriesOn a [t] a := fun test _ rest => symbolsFrom_inert ht test rest a
    exact hone.append (ih hts)

theorem CarriesOn.not (a : Nat) : CarriesOn a [.word "NOT"] a := by
  intro test htest rest
  simp [symbolsFrom, htest]

theorem CarriesOn.opening (a : Nat) : CarriesOn a [.sign "("] (a + 1) := by
  intro test htest rest
  simp [symbolsFrom, htest]

theorem CarriesOn.closing (a : Nat) : CarriesOn (a + 1) [.sign ")"] a := by
  intro test htest rest
  simp [symbolsFrom]

/-- A test keeps its tokens together. -/
theorem symbols_test {t : Token} {ts rest : List Token} (ht : t.Inert) (hts : CarriesOn 0 ts 0)
    (hrest : Breaks rest) : symbols (t :: ts ++ rest) = .test (t :: ts) :: symbols rest := by
  rw [symbols, List.cons_append, symbolsFrom_inert ht, hts _ (by simp)]
  rcases hrest with rfl | ⟨u, us, rfl, hu⟩
  · rfl
  · simp only [List.mem_cons, List.not_mem_nil, or_false] at hu
    rcases hu with rfl | rfl | rfl <;> simp [symbols, symbolsFrom, testSymbol]

/-! ### Operands and bodies -/

/-- The tokens are an operand that is read as the formula. -/
def ReadsAs (ts : List Token) (f : Formula) : Prop :=
  ∀ rest, Breaks rest → ∀ outer frame,
    Reader.run (.operand outer frame) (symbols (ts ++ rest)) =
      Reader.run (.absorb outer frame f) (symbols rest)

/-- The tokens are the body of a group that is read as the formula. -/
def ReadsAsBody (ts : List Token) (f : Formula) : Prop :=
  ∀ rest, Breaks rest → ∀ outer, ∃ dis con, joinedTo .or dis con = f ∧
    Reader.run (.operand outer .empty) (symbols (ts ++ rest)) =
      Reader.run (.operator outer dis con) (symbols rest)

theorem breaks_nil : Breaks [] := .inl rfl

theorem breaks_and (rest : List Token) : Breaks (.word "AND" :: rest) :=
  .inr ⟨_, _, rfl, by simp⟩

theorem breaks_or (rest : List Token) : Breaks (.word "OR" :: rest) :=
  .inr ⟨_, _, rfl, by simp⟩

theorem breaks_closing (rest : List Token) : Breaks (.sign ")" :: rest) :=
  .inr ⟨_, _, rfl, by simp⟩

theorem symbols_and (rest : List Token) :
    symbols (.word "AND" :: rest) = .and :: symbols rest := by
  simp [symbols, symbolsFrom, testSymbol]

theorem symbols_or (rest : List Token) : symbols (.word "OR" :: rest) = .or :: symbols rest := by
  simp [symbols, symbolsFrom, testSymbol]

theorem symbols_not (rest : List Token) :
    symbols (.word "NOT" :: rest) = .not :: symbols rest := by
  simp [symbols, symbolsFrom]

theorem symbols_opening (rest : List Token) :
    symbols (.sign "(" :: rest) = .opening :: symbols rest := by
  simp [symbols, symbolsFrom]

theorem symbols_closing (rest : List Token) :
    symbols (.sign ")" :: rest) = .closing :: symbols rest := by
  simp [symbols, symbolsFrom, testSymbol]

theorem run_cons {r q : Reader} {x : Symbol} (h : r.step x = some q) (xs : List Symbol) :
    r.run (x :: xs) = q.run xs := by
  rw [Reader.run, List.foldlM_cons, h]
  rfl

theorem ReadsAs.test {t : Token} {ts : List Token} {f : Formula} (ht : t.Inert)
    (hts : CarriesOn 0 ts 0) (hread : readTest (t :: ts) = some f) : ReadsAs (t :: ts) f := by
  intro rest hrest outer frame
  rw [symbols_test ht hts hrest]
  refine run_cons ?_ _
  simp [Reader.step, hread]

theorem ReadsAs.not {ts : List Token} {f : Formula} (h : ReadsAs ts f) :
    ReadsAs (.word "NOT" :: ts) (.not f) := by
  intro rest hrest outer frame
  rw [List.cons_append, symbols_not, run_cons (q := .operand outer _) rfl, h rest hrest]
  rfl

theorem ReadsAs.body {ts : List Token} {f : Formula} (h : ReadsAs ts f) : ReadsAsBody ts f :=
  fun rest hrest outer => ⟨none, f, rfl, h rest hrest outer .empty⟩

/-- A group in brackets is an operand. -/
theorem ReadsAsBody.brackets {ts : List Token} {f : Formula} (h : ReadsAsBody ts f) :
    ReadsAs (.sign "(" :: ts ++ [.sign ")"]) f := by
  intro rest hrest outer frame
  obtain ⟨dis, con, rfl, hrun⟩ := h (.sign ")" :: rest) (breaks_closing rest)
    (frame :: outer)
  rw [List.cons_append, List.cons_append, List.append_assoc, List.singleton_append,
    symbols_opening, run_cons (q := .operand (frame :: outer) .empty) rfl, hrun, symbols_closing,
    run_cons (q := .absorb outer frame (joinedTo .or dis con)) rfl]

/-- A body is all of a condition. -/
theorem ReadsAsBody.readCondition {text : String} {d : Dialect} {f : Formula}
    (h : ReadsAsBody (lex d text.toList) f) : readCondition d text = some f := by
  obtain ⟨dis, con, rfl, hrun⟩ := h [] breaks_nil []
  rw [List.append_nil] at hrun
  rw [Sql.readCondition, hrun]
  rfl

/-! ### Groups -/

/-- Operands with a connective between neighbours. -/
def withBetween (connective : Token) : List (List Token) → List Token
  | [] => []
  | [ts] => ts
  | ts :: rest => ts ++ connective :: withBetween connective rest

/-- The formula of items that are joined. -/
def Formula.joinAll : Conjunction → List Formula → Formula
  | .and, [] => .compare (.number 1) .equal (.number 1)
  | .or, [] => .compare (.number 1) .equal (.number 0)
  | .and, f :: rest => rest.foldl .and f
  | .or, f :: rest => rest.foldl .or f

theorem run_withBetween_and {f : Formula} {fs : List Formula} {ts : List Token}
    {tss : List (List Token)} (hts : ReadsAs ts f) (htss : List.Forall₂ ReadsAs tss fs)
    {rest : List Token} (hrest : Breaks rest) (outer : List Frame) (dis con : Option Formula) :
    Reader.run (.operand outer ⟨dis, con, 0⟩)
        (symbols (withBetween (.word "AND") (ts :: tss) ++ rest)) =
      Reader.run (.operator outer dis (fs.foldl .and (joinedTo .and con f))) (symbols rest) := by
  induction htss generalizing ts f con with
  | nil => exact hts rest hrest outer _
  | cons hts' _ ih =>
    rw [withBetween, List.append_assoc, List.cons_append, hts _ (breaks_and _), symbols_and,
      run_cons rfl, ih hts']
    · rfl
    · simp

theorem run_withBetween_or {f : Formula} {fs : List Formula} {ts : List Token}
    {tss : List (List Token)} (hts : ReadsAs ts f) (htss : List.Forall₂ ReadsAs tss fs)
    {rest : List Token} (hrest : Breaks rest) (outer : List Frame) (dis : Option Formula) :
    ∃ dis' con, joinedTo .or dis' con = fs.foldl .or (joinedTo .or dis f) ∧
      Reader.run (.operand outer ⟨dis, none, 0⟩)
          (symbols (withBetween (.word "OR") (ts :: tss) ++ rest)) =
        Reader.run (.operator outer dis' con) (symbols rest) := by
  induction htss generalizing ts f dis with
  | nil => exact ⟨dis, f, rfl, hts rest hrest outer _⟩
  | cons hts' _ ih =>
    obtain ⟨dis', con, hjoin, hrun⟩ := ih hts' (some (joinedTo .or dis f))
    refine ⟨dis', con, hjoin, ?_⟩
    rw [withBetween, List.append_assoc, List.cons_append, hts _ (breaks_or _), symbols_or,
      run_cons rfl]
    · exact hrun
    · simp

/-- Operands that are joined are the body of a group. -/
theorem readsAsBody_withBetween (conjunction : Conjunction) {f : Formula} {fs : List Formula}
    {ts : List Token} {tss : List (List Token)} (hts : ReadsAs ts f)
    (htss : List.Forall₂ ReadsAs tss fs) :
    ReadsAsBody (withBetween (.word conjunction.keyword) (ts :: tss))
      (.joinAll conjunction (f :: fs)) := by
  intro rest hrest outer
  cases conjunction with
  | and =>
    exact ⟨none, fs.foldl .and f, rfl, run_withBetween_and hts htss hrest outer none none⟩
  | or => exact run_withBetween_or hts htss hrest outer none

/-- The truth of items that are joined. -/
theorem Formula.truth_joinAll (C : Comparisons) (columns : List String → Value)
    (parameters : String → Value) (conjunction : Conjunction) (fs : List Formula) :
    (joinAll conjunction fs).truth C columns parameters =
      conjunction.truth (fs.map (Formula.truth C columns parameters)) := by
  have hand : ∀ (fs : List Formula) (f : Formula), (fs.foldl .and f).truth C columns parameters =
      (f.truth C columns parameters).and (.all (fs.map (Formula.truth C columns parameters))) := by
    intro fs
    induction fs with
    | nil => simp
    | cons g fs ih =>
      intro f
      rw [List.foldl_cons, ih, Formula.truth, List.map_cons, Truth.all_cons, Truth.and_assoc]
  have hor : ∀ (fs : List Formula) (f : Formula), (fs.foldl .or f).truth C columns parameters =
      (f.truth C columns parameters).or (.any (fs.map (Formula.truth C columns parameters))) := by
    intro fs
    induction fs with
    | nil => simp
    | cons g fs ih =>
      intro f
      rw [List.foldl_cons, ih, Formula.truth, List.map_cons, Truth.any_cons, Truth.or_assoc]
  cases conjunction with
  | and =>
    cases fs with
    | nil => rfl
    | cons f fs => exact hand fs f
  | or =>
    cases fs with
    | nil => rfl
    | cons f fs => exact hor fs f

end EntitySql.Sql
