import EntitySql.Entity.Basic
import EntitySql.Schema.Column

/-!
# Handlers

A handler converts between the values of a property and those of its column, in place of the usual
form of the values. Handlers are registered for a property of an entity; a later one takes the place
of an earlier one.
-/

namespace EntitySql

/-- A conversion between the values of a property and those of its column, both ways. -/
structure Handler where
  toColumn : Value → Column → Result Value
  fromColumn : Value → Column → Result Value

/-- The handlers of the properties of entities. -/
structure Handlers where
  entries : List ((String × String) × Handler)

namespace Handlers

/-- No handlers. -/
def empty : Handlers := ⟨[]⟩

/-- The handler of a property of an entity. -/
def get? (hs : Handlers) (entity property : String) : Option Handler :=
  (hs.entries.find? fun (k, _) => k = (entity, property)).map Prod.snd

/-- Registers a handler for a property of an entity. -/
def register (hs : Handlers) (entity property : String) (h : Handler) : Handlers :=
  ⟨((entity, property), h) :: hs.entries.filter fun (k, _) => k ≠ (entity, property)⟩

/-- How many properties have a handler. -/
def size (hs : Handlers) : Nat := hs.entries.length

/-- Whether no property has a handler. -/
def isEmpty (hs : Handlers) : Bool := hs.entries.isEmpty

end Handlers

end EntitySql
