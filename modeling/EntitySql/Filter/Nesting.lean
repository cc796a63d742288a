import EntitySql.Text.Blank

/-!
# Nesting of a filter

How deep a filter nests is told from its characters alone, before anything is read: round and
square brackets that are open, and the `!` that stand right before the current point, blanks
between them allowed. Brackets inside strings do not count, and the sign `!=` is no negation.
-/

namespace EntitySql.Filter

/-- The deepest nesting that is read. -/
def maxNesting : Nat := 128

/-- Where a scan for nesting is. -/
structure NestingState where
  /-- The position of the next character in bytes. -/
  position : Nat
  depth : Nat
  negations : Nat
deriving DecidableEq

/-- Counts one character outside strings, given the character after it. -/
def NestingState.count (s : NestingState) (c : Char) (next : Option Char) : NestingState :=
  if c = '(' ∨ c = '[' then { s with depth := s.depth + 1 }
  else if c = ')' ∨ c = ']' then { s with depth := s.depth - 1 }
  else if c = '!' ∧ next ≠ some '=' then { s with negations := s.negations + 1 }
  else s

/-- Goes past one character; a run of negations lasts over blanks only. -/
def NestingState.pass (s : NestingState) (c : Char) : NestingState :=
  { s with
    position := s.position + c.utf8Size
    negations := if c ≠ '!' ∧ !Text.isBlank c then 0 else s.negations }

mutual
/-- Scans outside strings for the first character that nests too deeply. -/
def scanNesting (s : NestingState) : List Char → Option Nat
  | [] => none
  | c :: rest =>
    let counted := s.count c rest.head?
    if maxNesting < counted.depth + counted.negations then some s.position
    else if c = '"' then scanNestingString (counted.pass c) rest
    else scanNesting (counted.pass c) rest

/-- Scans the inside of a string. -/
def scanNestingString (s : NestingState) : List Char → Option Nat
  | [] => none
  | '\\' :: escaped :: rest =>
    scanNestingString { s with position := s.position + 1 + escaped.utf8Size } rest
  | c :: rest =>
    let s := { s with position := s.position + c.utf8Size }
    if c = '"' then scanNesting s rest else scanNestingString s rest
end

/-- The position in bytes of the first character that nests too deeply. -/
def tooDeepAt? (text : List Char) : Option Nat := scanNesting ⟨0, 0, 0⟩ text

end EntitySql.Filter
