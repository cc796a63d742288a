import EntitySql.Predicate.Parameter
import EntitySql.Schema.Column
import EntitySql.Sql.Fragment

/-!
# Search conditions

A `SearchCondition` is what stands after `WHERE`: tests of columns against placeholders, joined by
`AND` or `OR`. It comes from the filter of a request, whose values have become parameters, or from
the key columns of a row.
-/

namespace EntitySql.Sql

/-- A condition in a statement. A column is given by the parts of its name. -/
inductive SearchCondition where
  | nullTest (column : List String) (operator : Operator)
  | compare (column : List String) (operator : Operator) (caseSensitive : Bool) (parameter : String)
  | membership (column : List String) (operator : Operator) (parameters : List String)
  | group (conjunction : Conjunction) (negated : Bool) (items : List SearchCondition)

/-! ### Writing -/

/-- A part of a statement in lower case, as the database understands it. -/
def lowered (fs : Fragments) : Fragments := .text "LOWER(" :: fs ++ [.text ")"]

/-- A comparison of two sides. -/
def comparison (operator : Operator) (caseSensitive : Bool) (left right : Fragments) : Fragments :=
  let sign : Fragment := .text (" " ++ operator.symbol ++ " ")
  if caseSensitive then left ++ sign :: right else lowered left ++ sign :: lowered right

/-- A test whether a column is in a list. Nothing is in an empty list. -/
def membershipTest (column : List String) (operator : Operator) (parameters : List String) :
    Fragments :=
  if parameters.isEmpty then [.text (if operator = .inList then "(1 = 0)" else "(1 = 1)")]
  else
    pathFragments column ++ .text (" " ++ operator.symbol ++ " (") ::
      commaList (fun p => [.placeholder p]) parameters ++ [.text ")"]

/-- The items of a group joined by its word. A group without items is what its conjunction is of
nothing. -/
def joined (conjunction : Conjunction) (items : List Fragments) : Fragments :=
  if items.isEmpty then [.text (match conjunction with | .and => "1 = 1" | .or => "1 = 0")]
  else separated (" " ++ conjunction.keyword ++ " ") items

/-- The body of a group with its negation, in brackets unless it is outermost and plain. -/
def bracketed (outermost negated : Bool) (body : Fragments) : Fragments :=
  if negated then .text "NOT (" :: body ++ [.text ")"]
  else if outermost then body
  else .text "(" :: body ++ [.text ")"]

mutual
/-- The condition as it is written; the outermost one without brackets. -/
def SearchCondition.fragments (outermost : Bool) : SearchCondition → Fragments
  | .nullTest column operator => pathFragments column ++ [.text (" " ++ operator.symbol)]
  | .compare column operator caseSensitive p =>
    comparison operator caseSensitive (pathFragments column) [.placeholder p]
  | .membership column operator ps => membershipTest column operator ps
  | .group conjunction negated items =>
    bracketed outermost negated (joined conjunction (SearchCondition.fragmentsOf items))

/-- The conditions of a list as they are written inside a group. -/
def SearchCondition.fragmentsOf : List SearchCondition → List Fragments
  | [] => []
  | c :: rest => SearchCondition.fragments false c :: SearchCondition.fragmentsOf rest
end

/-- The clause of an optional condition. -/
def whereClause : Option SearchCondition → Fragments
  | some c => .text " WHERE " :: c.fragments true
  | none => []

/-! ### From filters and keys -/

/-- The test that a condition makes with the names of its parameters. -/
def SearchCondition.ofCondition (c : Condition) (names : List String) : SearchCondition :=
  let column := nameParts c.field.name
  if c.operator.isNullCheck then .nullTest column c.operator
  else if c.operator.isList then .membership column c.operator names
  else .compare column c.operator c.caseSensitive (names.headD "")

mutual
/-- The condition that a predicate makes. `names` holds the parameter names of its conditions and of
those after it; the names left over are given back. -/
def SearchCondition.ofPredicate (names : List (List String)) :
    Predicate → SearchCondition × List (List String)
  | .condition c => (.ofCondition c (names.headD []), names.tail)
  | .group conjunction negated items =>
    let (items, names) := SearchCondition.ofPredicates names items
    (.group conjunction negated items, names)

/-- The conditions that a list of predicates makes. -/
def SearchCondition.ofPredicates (names : List (List String)) :
    List Predicate → List SearchCondition × List (List String)
  | [] => ([], names)
  | p :: rest =>
    let (c, names) := SearchCondition.ofPredicate names p
    let (cs, names) := SearchCondition.ofPredicates names rest
    (c :: cs, names)
end

/-- The condition that a filter makes. Its parameters keep clear of the `reserved` names. -/
def SearchCondition.ofGroup (g : Group) (reserved : List String) : SearchCondition :=
  (ofPredicate (g.parameterNames reserved) g.toPredicate).1

/-- The condition that the columns of a key have the values of their parameters. -/
def SearchCondition.ofKeys (keys : List Column) (parameter : Column → String) : SearchCondition :=
  .group .and false (keys.map fun k => .compare [k.name] .equal true (parameter k))

/-- The text of a filter without `WHERE`. -/
def groupText (d : Dialect) (g : Group) (reserved : List String) : String :=
  String.ofList (Fragments.render d ((SearchCondition.ofGroup g reserved).fragments true))

/-- The condition of a filter, if it has any item. -/
def activeCondition (g : Option Group) (reserved : List String) : Option SearchCondition :=
  match g with
  | some g => if g.isEmpty then none else some (.ofGroup g reserved)
  | none => none

/-- The clause of a filter; none without items. -/
def whereText (d : Dialect) (g : Option Group) (reserved : List String) : String :=
  String.ofList (Fragments.render d (whereClause (activeCondition g reserved)))

end EntitySql.Sql
