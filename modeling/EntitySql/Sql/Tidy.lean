import EntitySql.Sql.Build

/-!
# Tidying a statement

The last pass over the text of a statement closes the gap between the name of an aggregate function
and its bracket: `COUNT (1)` becomes `COUNT(1)`. Quoted text is left alone, whichever of the four
quotes it has; a closing quote written twice does not end it.
-/

namespace EntitySql.Sql

/-- The names of the aggregate functions. -/
def aggregateWords : List (List Char) :=
  ["COUNT_BIG".toList, "COUNT".toList, "MIN".toList, "MAX".toList, "SUM".toList, "AVG".toList]

/-- The character that ends the quoted text that a character starts. -/
def closingQuote? (c : Char) : Option Char :=
  if c = '[' then some ']'
  else if c = '"' ∨ c = '\x60' ∨ c = '\'' then some c
  else none

/-- Whether a character belongs to a word. -/
def isWordChar (c : Char) : Bool := c.isAlphanum || c = '_'

/-- Whether a blank may go: it stands between an aggregate function and its bracket. `word` holds
the word before it, last character first. -/
def dropsBlank (word : List Char) (c : Char) (rest : List Char) : Bool :=
  c = ' ' && rest.head? = some '(' && aggregateWords.contains word.reverse

/-- Tidies the rest of a text. `quote` is the character that ends the quoted text around this point,
`word` the word that ends here and `done` the text so far, both last character first. -/
def tidyFrom (quote : Option Char) (word done : List Char) : List Char → List Char
  | [] => done.reverse
  | c :: rest =>
    match quote with
    | some close =>
      if c = close then
        if rest.head? = some close then tidyPair close word (c :: done) rest
        else tidyFrom none word (c :: done) rest
      else tidyFrom quote word (c :: done) rest
    | none =>
      if isWordChar c then tidyFrom none (c :: word) (c :: done) rest
      else if dropsBlank word c rest then tidyFrom none [] done rest
      else tidyFrom (closingQuote? c) [] (c :: done) rest
where
  /-- Goes past the second of two closing quotes. -/
  tidyPair (close : Char) (word done : List Char) : List Char → List Char
  | [] => done.reverse
  | c :: rest => tidyFrom (some close) word (c :: done) rest

/-- The text without blanks between aggregate functions and their brackets. -/
def tidyChars (s : List Char) : List Char := tidyFrom none [] [] s

/-- The text without blanks between aggregate functions and their brackets. -/
def tidy (s : String) : String := String.ofList (tidyChars s.toList)

/-- The text of statements before it is tidied. -/
def rawText (d : Dialect) (ss : List Statement) : List Char := Fragments.render d (statementList ss)

/-- The text of the statements of an operation. -/
def statementText (d : Dialect) (op : Operation) (r : Request) : Result String :=
  (statements d op r).map fun ss => String.ofList (tidyChars (rawText d ss))

end EntitySql.Sql
