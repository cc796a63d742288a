import EntitySql.Text.Names

/-!
# TOML tables

A table is a list of entries, and a document is a table. Tables grow by three means: a header opens
a table, or a further table of an array of tables, at a path from the root; an entry under it adds a
value at a dotted path from that table; and a path makes the tables on its way that are not there.
How a table came to be says what may still be added to it. A header opens a table that so far was
only on the way of another header. A dotted path goes through tables that are on the way of other
paths, but not through one that a header has opened, and adds its value to no table but one that
dotted paths have made. A table in braces is complete.
-/

namespace EntitySql.Toml

/-- How a table came to be. -/
inductive TableKind where
  /-- A header opened it. -/
  | opened
  /-- It is on the way of a header. -/
  | implied
  /-- It is on the way of a dotted path. -/
  | dotted
  /-- It stands in braces. -/
  | inBraces
deriving DecidableEq, Repr

/-- A value. Numbers that are not integers and moments in time are kept as they are written. -/
inductive Value where
  | string (s : String)
  | integer (n : Int)
  | float (text : String)
  | boolean (b : Bool)
  | moment (text : String)
  | array (items : List Value)
  | table (kind : TableKind) (entries : List (String × Value))
  /-- An array of tables that headers have opened, the last one first. -/
  | tables (items : List (List (String × Value)))
deriving Inhabited

/-- The entries of a table. -/
abbrev Entries := List (String × Value)

namespace Entries

/-- The value of a key. -/
def find? (entries : Entries) (key : String) : Option Value :=
  (List.find? (fun (k, _) => k = key) entries).map Prod.snd

/-- The entries with another value for a key. -/
def set (entries : Entries) (key : String) (value : Value) : Entries :=
  if entries.any fun (k, _) => k = key then
    entries.map fun (k, v) => if k = key then (k, value) else (k, v)
  else entries ++ [(key, value)]

/-- The entries with a value for a key that has none. -/
def add (entries : Entries) (key : String) (value : Value) : Option Entries :=
  if (entries.find? key).isSome then none else some (entries.set key value)

/-- Changes the table at a path from a table of some kind, given how; the way may be `dotted` or
that of a header. -/
def change (dotted : Bool) (f : TableKind → Entries → Option Entries) :
    (path : List String) → TableKind → Entries → Option Entries
  | [], kind, entries => f kind entries
  | key :: path, _, entries =>
    let made := if dotted then TableKind.dotted else .implied
    match entries.find? key with
    | none => (change dotted f path made []).map fun es => entries.set key (.table made es)
    | some (.table kind es) =>
      if kind = .inBraces ∨ (dotted ∧ kind = .opened) then none
      else (change dotted f path kind es).map fun es => entries.set key (.table kind es)
    | some (.tables (es :: rest)) =>
      (change dotted f path .opened es).map fun es => entries.set key (.tables (es :: rest))
    | some _ => none

/-- Adds a value at a dotted path, which ends with `key`. -/
def addDotted (path : List String) (key : String) (value : Value) (entries : Entries) :
    Option Entries :=
  change true
    (fun kind es => if path.isEmpty ∨ kind = .dotted then es.add key value else none)
    path .opened entries

/-- The table of entries at dotted paths. -/
def ofPairs : List (List String × String × Value) → Entries → Option Entries
  | [], entries => some entries
  | (path, key, value) :: rest, entries => (entries.addDotted path key value).bind (ofPairs rest)

/-- Opens the table `key` of a table. -/
def openTable (key : String) (_ : TableKind) (entries : Entries) : Option Entries :=
  match entries.find? key with
  | none => some (entries.set key (.table .opened []))
  | some (.table .implied es) => some (entries.set key (.table .opened es))
  | some _ => none

/-- Opens a further table of the array of tables `key` of a table. -/
def openItem (key : String) (_ : TableKind) (entries : Entries) : Option Entries :=
  match entries.find? key with
  | none => some (entries.set key (.tables [[]]))
  | some (.tables items) => some (entries.set key (.tables ([] :: items)))
  | some _ => none

end Entries

/-! ### Lines -/

/-- A line of a document: an entry at a dotted path, or a header. Every path ends with `key`. -/
inductive Line where
  | entry (path : List String) (key : String) (value : Value)
  | table (path : List String) (key : String)
  | item (path : List String) (key : String)

/-- A document that is being read: its root, and the path of the table that entries are added to. -/
structure Draft where
  root : Entries
  current : List String

/-- Adds a line. -/
def Draft.add (d : Draft) : Line → Option Draft
  | .entry path key value =>
    (d.root.change false (fun _ es => es.addDotted path key value) d.current .opened).map
      fun root => { d with root := root }
  | .table path key =>
    (d.root.change false (Entries.openTable key) path .opened).map fun root => ⟨root, path ++ [key]⟩
  | .item path key =>
    (d.root.change false (Entries.openItem key) path .opened).map fun root => ⟨root, path ++ [key]⟩

/-- The document that lines make. -/
def ofLines (lines : List Line) : Option Entries :=
  (lines.foldlM Draft.add ⟨[], []⟩).map Draft.root

end EntitySql.Toml
