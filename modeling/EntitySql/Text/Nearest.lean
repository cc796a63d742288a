/-!
# The nearest name

The distance of two texts is the least number of characters to insert, delete or replace that turn
one into the other. A misspelt name is answered with the first of the nearest names, if it is near
enough for its length.
-/

namespace EntitySql.Text

/-- The next row of the table of distances: `diagonal` is the entry above the previous column and
`left` the entry just computed. -/
def distanceRow (c : Char) (diagonal left : Nat) : List Char → List Nat → List Nat
  | d :: word, above :: row =>
    let here := min (min (above + 1) (left + 1)) (diagonal + if c = d then 0 else 1)
    here :: distanceRow c above here word row
  | _, _ => []

/-- The rows of the table of distances, one character of the first word after the other. -/
def distanceFrom (word : List Char) : (row : List Nat) → List Char → Nat
  | row, [] => row.getLastD 0
  | [], _ => 0
  | first :: row, c :: rest =>
    distanceFrom word ((first + 1) :: distanceRow c first (first + 1) word row) rest

/-- The distance of two texts. -/
def distance (a b : List Char) : Nat := distanceFrom b (List.range (b.length + 1)) a

/-- How far a name may be from an input of so many bytes. -/
def tolerance (bytes : Nat) : Nat := if bytes ≤ 2 then 0 else if bytes ≤ 5 then 2 else 3

/-- The first of the names nearest to the input, if it is near enough. -/
def nearest? (input : String) (names : List String) : Option String :=
  let scored := names.map fun name => (distance input.toList name.toList, name)
  let near := scored.filter fun (d, _) => d ≤ tolerance input.utf8ByteSize
  (near.foldl
    (fun best (d, name) =>
      match best with
      | some (e, _) => if d < e then some (d, name) else best
      | none => some (d, name))
    none).map Prod.snd

/-- Equality of texts up to the case of the letters from A to Z. -/
def equalIgnoringCase (a b : String) : Bool := a.toList.map Char.toLower = b.toList.map Char.toLower

end EntitySql.Text
