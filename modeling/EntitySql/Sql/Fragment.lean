import EntitySql.Sql.Dialect
import EntitySql.Text.Blank

/-!
# Fragments of a statement

A statement is put together from fragments: text that means what it says, quoted names and
placeholders of parameters. Only here do names and placeholders become characters: a name stands
between the quotes of the dialect with its closing quotes doubled, and a placeholder is an at sign
and the name of the parameter.
-/

namespace EntitySql.Sql

/-- A piece of a statement. -/
inductive Fragment where
  /-- Keywords and punctuation. -/
  | text (s : String)
  /-- A name, quoted when it is written. -/
  | name (part : String)
  /-- The place of a parameter. -/
  | placeholder (parameter : String)
deriving DecidableEq, Repr

/-- A statement, or a part of one. -/
abbrev Fragments := List Fragment

/-! ### Writing -/

/-- A character of a quoted name. -/
def quoteChar (close c : Char) : List Char := if c = close then [c, c] else [c]

/-- A name between quotes. -/
def quoteChars (d : Dialect) (name : List Char) : List Char :=
  d.openQuote :: name.flatMap (quoteChar d.closeQuote) ++ [d.closeQuote]

/-- A name between quotes. -/
def quote (d : Dialect) (name : String) : String := String.ofList (quoteChars d name.toList)

/-- The mark of a placeholder with the name of its parameter. -/
def placeholderText (parameter : String) : String := "@" ++ parameter

/-- The characters of a fragment. -/
def Fragment.render (d : Dialect) : Fragment → List Char
  | text s => s.toList
  | name part => quoteChars d part.toList
  | placeholder p => '@' :: p.toList

/-- The characters of a statement. -/
def Fragments.render (d : Dialect) (fs : Fragments) : List Char := fs.flatMap (Fragment.render d)

/-! ### Putting together -/

/-- Fragments with a separator between neighbours. -/
def separated (separator : String) : List Fragments → Fragments
  | [] => []
  | [fs] => fs
  | fs :: rest => fs ++ .text separator :: separated separator rest

/-- The same kind of fragment for every item, separated by commas. -/
def commaList {α : Type} (f : α → Fragments) (items : List α) : Fragments :=
  separated ", " (items.map f)

/-! ### Names with points -/

/-- The parts of a list of characters between points. -/
def splitAtPoints : List Char → List (List Char)
  | [] => [[]]
  | c :: rest =>
    if c = '.' then [] :: splitAtPoints rest
    else
      match splitAtPoints rest with
      | part :: parts => (c :: part) :: parts
      | [] => [[c]]

/-- The parts of a name that may say where a table or column belongs, without blanks around them. -/
def nameParts (name : String) : List String :=
  (splitAtPoints name.toList).map fun part => String.ofList (Text.trimChars part)

/-- A name in parts. -/
def pathFragments (parts : List String) : Fragments := separated "." (parts.map fun p => [.name p])

/-- A name quoted part by part. -/
def dottedName (name : String) : Fragments := pathFragments (nameParts name)

/-- A name quoted part by part. -/
def quoteName (d : Dialect) (name : String) : String :=
  String.ofList (Fragments.render d (dottedName name))

/-- What follows the table where hints are given. -/
def hintClause (hints : String) : String := " WITH (" ++ hints ++ ")"

end EntitySql.Sql
