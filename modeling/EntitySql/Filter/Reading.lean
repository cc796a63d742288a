import EntitySql.Filter.Nesting
import EntitySql.Filter.Term
import EntitySql.Filter.Token

/-!
# Reading a filter

A filter is read lexeme by lexeme. From the weakest to the strongest bind the disjunction, the
conjunction, the negation, the comparison and the fallback; members and calls follow their target
at once. The reader keeps for every open bracket what stands before the current operand, one slot
for each of these, so a filter of any depth is read in one pass over the list of lexemes.

Where a filter goes wrong inside brackets, the error is reported at the outermost of them; where a
fallback is missing or wrong, at its sign; otherwise at the lexeme itself.
-/

namespace EntitySql.Filter

/-! ### The state -/

/-- What stands before the current operand inside its brackets. -/
structure Level where
  /-- Where errors are reported, inside brackets. -/
  refusal : Option (List Char)
  disjunction : Option Term := none
  conjunction : Option Term := none
  negations : Nat := 0
  comparison : Option (CompareOp × Term) := none
  /-- The value that the current operand is the fallback of, and the text from the sign on. -/
  fallback : Option (Term × List Char) := none

/-- An open bracket: the level around it, and for the arguments of a call what is known of them. -/
inductive Frame where
  | group (outer : Level)
  | call (outer : Level) (target : Term) (method : String) (done : List Term)
      (binder : Option String)

/-- What the next lexeme may be. -/
inductive Expect where
  | operand
  /-- An operator, a closing bracket or a point after a complete term. -/
  | suffix (term : Term)
  /-- The name after a point; the text is what follows the point. -/
  | member (term : Term) (after : List Char)
  /-- The bracket of a call, or whatever may follow a member. -/
  | called (term : Term) (name : String)
  | firstArgument
  | argument
  /-- The arrow after a parameter, or whatever may follow an identifier. -/
  | argumentWord (name : String)
  /-- The items of a list so far; errors in the list are reported at `refusal`. -/
  | firstItem (refusal : List Char)
  | item (refusal : List Char) (done : List Value)
  | afterItem (refusal : List Char) (done : List Value)

/-- The state of the reader. -/
structure State where
  stack : List Frame
  level : Level
  expect : Expect

/-- A step of the reader: the next state, or the text from the place of the error on. -/
abbrev Step := Except (List Char) State

namespace Level

/-- Where a lexeme that may not stand here is reported. -/
def refuseToken (l : Level) (start : List Char) : List Char := l.refusal.getD start

/-- Where a lexeme that is no operand is reported. -/
def refuseOperand (l : Level) (start : List Char) : List Char :=
  l.refusal.getD ((l.fallback.map Prod.snd).getD start)

/-- The operand of a comparison that ends with a term. -/
def operandTerm (l : Level) (t : Term) : Term :=
  match l.fallback with
  | some (v, _) => .coalesce v t
  | none => t

/-- The comparison that ends with a term, under its negations. -/
def unaryTerm (l : Level) (t : Term) : Term :=
  let compared :=
    match l.comparison with
    | some (op, left) => .compare op left (l.operandTerm t)
    | none => l.operandTerm t
  Nat.repeat .not l.negations compared

/-- The conjunction that ends with a term. -/
def conjunctionTerm (l : Level) (t : Term) : Term :=
  match l.conjunction with
  | some c => .and c (l.unaryTerm t)
  | none => l.unaryTerm t

/-- The disjunction that ends with a term. -/
def term (l : Level) (t : Term) : Term :=
  match l.disjunction with
  | some d => .or d (l.conjunctionTerm t)
  | none => l.conjunctionTerm t

/-- Whether a negation may stand here. -/
def atUnary (l : Level) : Bool := l.comparison.isNone && l.fallback.isNone

end Level

/-- An argument: the body of a lambda if a parameter was read, otherwise the term itself. -/
def argumentTerm (binder : Option String) (t : Term) : Term :=
  match binder with
  | some p => .lambda p t
  | none => t

/-- The term that a word alone is. -/
def wordTerm (w : String) : Term :=
  if w = "true" then .constant (.bool true)
  else if w = "false" then .constant (.bool false)
  else if w = "null" then .constant .null
  else .identifier w

/-- The value that a lexeme is by itself. -/
def literal? : Token → Option Value
  | .word w => match wordTerm w with | .constant v => some v | _ => none
  | .text s => some (.text s)
  | .integer n => some (.int n)
  | .real x => some (.float x)
  | _ => none

/-- The operator that a token is. -/
def compareOp? : Token → Option CompareOp
  | .equal => some .eq
  | .notEqual => some .ne
  | .greaterOrEqual => some .ge
  | .lessOrEqual => some .le
  | .greater => some .gt
  | .less => some .lt
  | _ => none

/-! ### Steps -/

namespace State

/-- Reads the start of an operand. -/
def operand (s : State) (x : Lexeme) : Step :=
  let l := s.level
  match x.token with
  | .openGroup =>
    .ok ⟨.group l :: s.stack, { refusal := some (l.refuseOperand x.start) }, .operand⟩
  | .openList => .ok { s with expect := .firstItem (l.refuseOperand x.start) }
  | .bang =>
    if l.atUnary then
      .ok { s with level := { l with negations := l.negations + 1 }, expect := .operand }
    else .error (l.refuseOperand x.start)
  | .notEqual => .error (l.refuseOperand (if l.atUnary then x.start.tail else x.start))
  | .word w => .ok { s with expect := .suffix (wordTerm w) }
  | token =>
    match literal? token with
    | some v => .ok { s with expect := .suffix (.constant v) }
    | none => .error (l.refuseOperand x.start)

/-- Closes the innermost bracket after a term. -/
def close (s : State) (t : Term) (x : Lexeme) : Step :=
  match s.stack with
  | [] => .error (s.level.refuseToken x.start)
  | .group outer :: stack => .ok ⟨stack, outer, .suffix (s.level.term t)⟩
  | .call outer target method done binder :: stack =>
    let args := done ++ [argumentTerm binder (s.level.term t)]
    .ok ⟨stack, outer, .suffix (.call target method args)⟩

/-- Goes on to the next argument after a term. -/
def nextArgument (s : State) (t : Term) (x : Lexeme) : Step :=
  match s.stack with
  | .call outer target method done binder :: stack =>
    let done := done ++ [argumentTerm binder (s.level.term t)]
    .ok ⟨.call outer target method done none :: stack, { refusal := s.level.refusal }, .argument⟩
  | _ => .error (s.level.refuseToken x.start)

/-- Reads what follows a complete term. -/
def suffix (s : State) (t : Term) (x : Lexeme) : Step :=
  let l := s.level
  match x.token with
  | .dot => .ok { s with expect := .member t x.start.tail }
  | .fallback =>
    if l.fallback.isSome then .error (l.refuseToken x.start)
    else .ok { s with level := { l with fallback := some (t, x.start) }, expect := .operand }
  | .conjoin =>
    .ok { s with
      level :=
        { refusal := l.refusal
          disjunction := l.disjunction
          conjunction := some (l.conjunctionTerm t) }
      expect := .operand }
  | .disjoin =>
    .ok { s with
      level := { refusal := l.refusal, disjunction := some (l.term t) }
      expect := .operand }
  | .closeGroup => s.close t x
  | .comma => s.nextArgument t x
  | token =>
    match compareOp? token with
    | some op =>
      if l.comparison.isSome then .error (l.refuseToken x.start)
      else
        .ok { s with
          level := { l with comparison := some (op, l.operandTerm t), fallback := none }
          expect := .operand }
    | none => .error (l.refuseToken x.start)

/-- Opens the arguments of a call, or reads what follows a member. -/
def called (s : State) (t : Term) (name : String) (x : Lexeme) : Step :=
  match x.token with
  | .openGroup =>
    .ok ⟨.call s.level t name [] none :: s.stack,
      { refusal := some (s.level.refuseToken x.start) }, .firstArgument⟩
  | _ => s.suffix (.access t name) x

/-- Reads the start of an argument. -/
def argument (s : State) (x : Lexeme) : Step :=
  match x.token with
  | .word w => .ok { s with expect := .argumentWord w }
  | _ => s.operand x

/-- Closes an empty list of arguments, or reads the start of the first one. -/
def firstArgument (s : State) (x : Lexeme) : Step :=
  match x.token, s.stack with
  | .closeGroup, .call outer target method _ _ :: stack =>
    .ok ⟨stack, outer, .suffix (.call target method [])⟩
  | _, _ => s.argument x

/-- Binds a parameter, or reads what follows an identifier. -/
def argumentWord (s : State) (w : String) (x : Lexeme) : Step :=
  match x.token, s.stack with
  | .arrow, .call outer target method done _ :: stack =>
    .ok { s with stack := .call outer target method done (some w) :: stack, expect := .operand }
  | _, _ => s.suffix (wordTerm w) x

/-- Reads an item of a list. -/
def item (s : State) (refusal : List Char) (done : List Value) (x : Lexeme) : Step :=
  match literal? x.token with
  | some v => .ok { s with expect := .afterItem refusal (done ++ [v]) }
  | none => .error refusal

/-- Reads one lexeme. -/
def advance (s : State) (x : Lexeme) : Step :=
  match s.expect with
  | .operand => s.operand x
  | .suffix t => s.suffix t x
  | .member t after =>
    match x.token, x.spaced with
    | .word name, false => .ok { s with expect := .called t name }
    | _, _ => .error (s.level.refuseOperand after)
  | .called t name => s.called t name x
  | .firstArgument => s.firstArgument x
  | .argument => s.argument x
  | .argumentWord w => s.argumentWord w x
  | .firstItem refusal =>
    match x.token with
    | .closeList => .ok { s with expect := .suffix (.constant (.list [])) }
    | _ => s.item refusal [] x
  | .item refusal done => s.item refusal done x
  | .afterItem refusal done =>
    match x.token with
    | .comma => .ok { s with expect := .item refusal done }
    | .closeList => .ok { s with expect := .suffix (.constant (.list done)) }
    | _ => .error refusal

/-- The term at the end of the text. -/
def finish (s : State) : Except (List Char) Term :=
  let complete (t : Term) : Except (List Char) Term :=
    match s.stack with
    | [] => .ok (s.level.term t)
    | _ => .error (s.level.refuseToken [])
  match s.expect with
  | .suffix t => complete t
  | .called t name => complete (.access t name)
  | .argumentWord w => complete (wordTerm w)
  | .member _ after => .error (s.level.refuseOperand after)
  | .firstItem refusal => .error refusal
  | .item refusal _ => .error refusal
  | .afterItem refusal _ => .error refusal
  | _ => .error (s.level.refuseOperand [])

/-- The state before the first lexeme. -/
def start : State := ⟨[], { refusal := none }, .operand⟩

end State

/-- Splits a leading `name =>` off. -/
def splitRoot : List Lexeme → Option String × List Lexeme
  | ⟨.word w, _, _⟩ :: ⟨.arrow, _, _⟩ :: rest => (some w, rest)
  | lexemes => (none, lexemes)

/-- The name of the row, if it is given, and the term that lexemes spell. -/
def readTerm (lexemes : List Lexeme) : Except (List Char) (Option String × Term) := do
  let (root, lexemes) := splitRoot lexemes
  let s ← lexemes.foldlM State.advance State.start
  let t ← s.finish
  return (root, t)

/-! ### From text to expression -/

/-- The length of a text in bytes. -/
def byteLength (s : List Char) : Nat := s.foldl (fun n c => n + c.utf8Size) 0

/-- How many characters of the text an error shows. -/
def shownLength : Nat := 20

/-- The error at the place in `text` from which `rest` is left. -/
def syntaxError (text rest : List Char) : Error :=
  let position := byteLength text - byteLength rest
  if rest.isEmpty then .argument (.filterEnds position)
  else .argument (.filterText position (String.ofList (rest.take shownLength)))

/-- The expression that a filter text spells. -/
def readChars (text : List Char) : Result Expr :=
  match tooDeepAt? text with
  | some position => .error (.argument (.nestingTooDeep maxNesting position))
  | none =>
    match readTerm (lex text) with
    | .ok (root, t) => t.resolve root []
    | .error rest => .error (syntaxError text rest)

/-- The expression that a filter text spells. -/
def read (text : String) : Result Expr := readChars text.toList

end EntitySql.Filter
