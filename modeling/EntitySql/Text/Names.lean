/-!
# Tables of names

A table gives the elements of a small enumeration their names. It is meant to hold every element
and every name once, so that `find?` and `nameOf` undo each other.
-/

namespace EntitySql

/-- A table of names. -/
abbrev Names (α : Type) := List (String × α)

namespace Names

variable {α : Type}

/-- The element of a name. -/
def find? (table : Names α) (name : String) : Option α :=
  (List.find? (fun (n, _) => n = name) table).map Prod.snd

/-- The name of an element. -/
def nameOf [DecidableEq α] (table : Names α) (a : α) : String :=
  ((List.find? (fun (_, b) => b = a) table).map Prod.fst).getD ""

end Names

end EntitySql
