import EntitySql.Predicate.Operator
import EntitySql.Value.Basic

/-!
# Filter expressions

An `Expr` is a filter over the rows of one entity: comparisons of members with values, joined by
the logical operators, calls such as `x.Name.StartsWith("Jo")`, and lambdas as arguments of the
calls that run over a list. A lambda binds a parameter; `substitute` puts a value in its place.
-/

namespace EntitySql

/-- The operator of a comparison. -/
inductive CompareOp where
  | eq | ne | gt | lt | ge | le
deriving DecidableEq, Repr

namespace CompareOp

/-- The sign of the operator in a filter. -/
def symbol : CompareOp → String
  | eq => "=="
  | ne => "!="
  | gt => ">"
  | lt => "<"
  | ge => ">="
  | le => "<="

/-- The operator of the condition. -/
def toOperator : CompareOp → Operator
  | eq => .equal
  | ne => .notEqual
  | gt => .greaterThan
  | lt => .lessThan
  | ge => .greaterOrEqual
  | le => .lessOrEqual

end CompareOp

/-- A method that a filter may call. -/
inductive Method where
  | contains | startsWith | endsWith
  | equals | equalsIgnoreCase
  | all | any
deriving DecidableEq, Repr

namespace Method

/-- The name of the method in a filter. -/
def name : Method → String
  | contains => "Contains"
  | startsWith => "StartsWith"
  | endsWith => "EndsWith"
  | equals => "Equals"
  | equalsIgnoreCase => "EqualsIgnoreCase"
  | all => "All"
  | any => "Any"

/-- Every method. -/
def every : List Method := [contains, startsWith, endsWith, equals, equalsIgnoreCase, all, any]

/-- The method of a name. -/
def ofName? (s : String) : Option Method := every.find? fun m => m.name = s

end Method

/-- A filter expression. -/
inductive Expr where
  /-- A property of the filtered row. -/
  | member (name : String)
  | constant (value : Value)
  /-- The parameter of an enclosing lambda. -/
  | parameter (name : String)
  | compare (op : CompareOp) (left right : Expr)
  | and (left right : Expr)
  | or (left right : Expr)
  | not (body : Expr)
  /-- The value, or the fallback where the value is null. -/
  | coalesce (value fallback : Expr)
  | call (method : Method) (target : Expr) (args : List Expr)
  | lambda (param : String) (body : Expr)
deriving Inhabited

namespace Expr

/-! ### Substitution -/

mutual
/-- Puts a value in the place of a parameter. A lambda that binds the same name keeps its body. -/
def substitute (param : String) (value : Value) : Expr → Expr
  | member name => member name
  | constant v => constant v
  | parameter name => if name = param then constant value else parameter name
  | compare op l r => compare op (substitute param value l) (substitute param value r)
  | and l r => and (substitute param value l) (substitute param value r)
  | or l r => or (substitute param value l) (substitute param value r)
  | not e => not (substitute param value e)
  | coalesce e f => coalesce (substitute param value e) (substitute param value f)
  | call m target args => call m (substitute param value target) (substituteAll param value args)
  | lambda p body => if p = param then lambda p body else lambda p (substitute param value body)

/-- Puts a value in the place of a parameter in every expression of a list. -/
def substituteAll (param : String) (value : Value) : List Expr → List Expr
  | [] => []
  | e :: rest => substitute param value e :: substituteAll param value rest
end

/-! ### Members -/

mutual
/-- The first member that the expression mentions, from left to right. -/
def firstMember : Expr → Option String
  | member name => some name
  | constant _ => none
  | parameter _ => none
  | compare _ l r => (firstMember l).orElse fun _ => firstMember r
  | and l r => (firstMember l).orElse fun _ => firstMember r
  | or l r => (firstMember l).orElse fun _ => firstMember r
  | not e => firstMember e
  | coalesce e f => (firstMember e).orElse fun _ => firstMember f
  | call _ target args => (firstMember target).orElse fun _ => firstMemberOf args
  | lambda _ body => firstMember body

/-- The first member that a list of expressions mentions. -/
def firstMemberOf : List Expr → Option String
  | [] => none
  | e :: rest => (firstMember e).orElse fun _ => firstMemberOf rest
end

/-! ### Text -/

mutual
/-- The expression as a filter over the row `x`. Logical operators and fallbacks stand in
brackets, comparisons do not. -/
def display : Expr → String
  | member name => "x." ++ name
  | constant v => v.display
  | parameter name => name
  | compare op l r => display l ++ " " ++ op.symbol ++ " " ++ display r
  | and l r => "(" ++ display l ++ " && " ++ display r ++ ")"
  | or l r => "(" ++ display l ++ " || " ++ display r ++ ")"
  | not e => "!(" ++ display e ++ ")"
  | coalesce e f => "(" ++ display e ++ " ?? " ++ display f ++ ")"
  | call m target args => display target ++ "." ++ m.name ++ "(" ++ displayArgs true args ++ ")"
  | lambda p body => p ++ " => " ++ display body

/-- Arguments with commas between them; `first` tells that nothing stands before them. -/
def displayArgs (first : Bool) : List Expr → String
  | [] => ""
  | e :: rest => (if first then "" else ", ") ++ display e ++ displayArgs false rest
end

end Expr

end EntitySql
