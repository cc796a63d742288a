import EntitySql.Error
import EntitySql.Expr.Basic

/-!
# Terms of a filter

A `Term` is a filter as it is written, before it is known what its identifiers stand for.
`Term.resolve` decides that. A filter may name its row first, as in `x => x.Age > 3`: then
properties are written after that name. Without a row name every identifier that no lambda binds is
a property.
-/

namespace EntitySql.Filter

/-- A filter before its identifiers are resolved. -/
inductive Term where
  | constant (v : Value)
  | identifier (name : String)
  | access (target : Term) (property : String)
  | call (target : Term) (method : String) (args : List Term)
  | lambda (param : String) (body : Term)
  | compare (op : CompareOp) (left right : Term)
  | and (left right : Term)
  | or (left right : Term)
  | not (body : Term)
  | coalesce (value fallback : Term)
deriving Inhabited

namespace Term

/-- Resolves an identifier that stands alone. -/
def resolveIdentifier (root : Option String) (scope : List String) (name : String) : Result Expr :=
  if name ∈ scope then .ok (.parameter name)
  else
    match root with
    | none => .ok (.member name)
    | some row =>
      if row = name then .error (.argument (.rootWithoutProperty name))
      else .error (.argument (.unknownIdentifier name))

/-- Resolves a property written after a target, which has to be the row. -/
def resolveAccess (root : Option String) (scope : List String) (target : Term) (property : String) :
    Result Expr :=
  match target with
  | identifier name =>
    if root = some name ∧ name ∉ scope then .ok (.member property)
    else .error (.unsupportedExpression (name ++ "." ++ property))
  | _ => .error (.unsupportedExpression ("nested member access '." ++ property ++ "'"))

mutual
/-- Resolves the identifiers of a term. `scope` holds the parameters of the lambdas around it. -/
def resolve (root : Option String) (scope : List String) : Term → Result Expr
  | constant v => .ok (.constant v)
  | identifier name => resolveIdentifier root scope name
  | access target property => resolveAccess root scope target property
  | call target name args =>
    match Method.ofName? name with
    | none => .error (.argument (.unknownMethod name))
    | some method => do
      let target ← resolve root scope target
      let args ← resolveAll root scope args
      return .call method target args
  | lambda p body => do
    let body ← resolve root (p :: scope) body
    return .lambda p body
  | compare op l r => do
    let l ← resolve root scope l
    let r ← resolve root scope r
    return .compare op l r
  | and l r => do
    let l ← resolve root scope l
    let r ← resolve root scope r
    return .and l r
  | or l r => do
    let l ← resolve root scope l
    let r ← resolve root scope r
    return .or l r
  | not e => do
    let e ← resolve root scope e
    return .not e
  | coalesce e f => do
    let e ← resolve root scope e
    let f ← resolve root scope f
    return .coalesce e f

/-- Resolves the identifiers of a list of terms. -/
def resolveAll (root : Option String) (scope : List String) : List Term → Result (List Expr)
  | [] => .ok []
  | t :: rest => do
    let e ← resolve root scope t
    let es ← resolveAll root scope rest
    return e :: es
end

end Term

end EntitySql.Filter
