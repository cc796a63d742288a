import EntitySql.Predicate.Parameter
import EntitySql.Text.Nearest

/-!
# Commands

A `Command` is the text of a statement with the values of its parameters, in the order in which
they were first set. A parameter is found by its name, whatever the case of the letters from A to Z,
and setting it again changes its value in place.
-/

namespace EntitySql

/-- A statement with its parameters. -/
structure Command where
  text : String
  parameters : List BoundParameter

namespace Command

/-- The command without parameters. -/
def make (text : String) : Command := ⟨text, []⟩

/-- Whether a parameter has this name, whatever the case of its letters. -/
def isNamed (name : String) (p : BoundParameter) : Bool := Text.equalIgnoringCase p.name name

/-- Sets a parameter among others. The first one of the name takes the value and type and keeps its
spelling; a new one goes to the end. -/
def setIn (p : BoundParameter) : List BoundParameter → List BoundParameter
  | [] => [p]
  | q :: rest =>
    if isNamed p.name q then { q with value := p.value, type := p.type } :: rest
    else q :: setIn p rest

/-- Sets a parameter. -/
def set (c : Command) (p : BoundParameter) : Command :=
  { c with parameters := setIn p c.parameters }

/-- Sets parameters in their order. -/
def extend (c : Command) (ps : List BoundParameter) : Command := ps.foldl set c

/-- The parameter of this name. -/
def get? (c : Command) (name : String) : Option BoundParameter := c.parameters.find? (isNamed name)

/-- The value of the parameter of this name. -/
def value? (c : Command) (name : String) : Option Value := (c.get? name).map BoundParameter.value

/-- The command without its parameters. -/
def clear (c : Command) : Command := { c with parameters := [] }

end Command

end EntitySql
