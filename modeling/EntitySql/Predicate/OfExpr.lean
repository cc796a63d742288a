import EntitySql.Entity.Basic
import EntitySql.Expr.Basic
import EntitySql.Predicate.Basic

/-!
# Filters as predicates

A filter expression becomes a predicate over the columns of an entity: members become columns,
values take the form in which the column stores them, a call that runs over a list becomes one
predicate for every element. Expressions that no condition can say are refused, with the part
concerned.

The parameter of a lambda is known by the time its body is met, so the bindings are passed down and
looked up where a value may stand.
-/

namespace EntitySql

/-- What comparisons with null columns mean: whatever the database answers, or plain truth
values. -/
inductive NullSemantics where
  | twoValued
  | threeValued
deriving DecidableEq, Repr

/-- The rules by which filters become predicates. -/
structure FilterRules where
  nulls : NullSemantics
  /-- How elements of enumerations are stored where a property does not say. -/
  repr : EnumRepr
deriving DecidableEq

/-- The values of the parameters of the lambdas around an expression, the innermost first. -/
abbrev Bindings := List (String × Value)

/-- The value bound to a parameter. -/
def Bindings.value? (bindings : Bindings) (param : String) : Option Value :=
  (bindings.find? fun (p, _) => p = param).map Prod.snd

namespace Expr

/-- The expression with the bound values in place; of two bindings of a name the inner one
counts. -/
def bind (bindings : Bindings) (e : Expr) : Expr :=
  bindings.foldl (fun e (p, v) => e.substitute p v) e

/-- The value that an expression is, if it is one. -/
def value? (bindings : Bindings) : Expr → Option Value
  | constant v => some v
  | parameter p => bindings.value? p
  | _ => none

end Expr

namespace Predicate

/-- The error for an expression that no condition can say. -/
def refuse {α : Type} (bindings : Bindings) (e : Expr) : Result α :=
  .error (.unsupportedExpression (e.bind bindings).display)

/-- The column of a property. -/
def fieldOf (p : Property) : Field := ⟨p.column, some p.valueType⟩

/-- A property of truth values that is the given one; another property is refused with `whole`. -/
def truth (map : EntityMap) (bindings : Bindings) (whole : Expr) (name : String) (b : Bool) :
    Result Predicate := do
  let p ← map.resolve name
  if p.valueType = .bool then return .condition (.make (fieldOf p) .equal (.bool b))
  else refuse bindings whole

/-- Compares a property with a value. A comparison with null is a test for null. Under three-valued
nulls an equation and its negation also say what holds of a null column. -/
def compareMember (rules : FilterRules) (map : EntityMap) (bindings : Bindings) (whole : Expr)
    (name : String) (op : Operator) (v : Value) : Result Predicate := do
  let p ← map.resolve name
  let field := fieldOf p
  if v.isNull then
    match op with
    | .equal => return .condition (.make field .isNull .null)
    | .notEqual => return .condition (.make field .isNotNull .null)
    | _ => refuse bindings whole
  else
    let compared := .condition (.make field op (p.columnValue rules.repr v))
    match rules.nulls, op with
    | .threeValued, .notEqual =>
      return .group .or false [compared, .condition (.make field .isNull .null)]
    | .threeValued, .equal =>
      return .group .and false [compared, .condition (.make field .isNotNull .null)]
    | _, _ => return compared

/-- Compares a property that has a fallback with a value: only equality with the fallback itself can
be said, which holds of the value and of null. -/
def compareCoalesce (rules : FilterRules) (map : EntityMap) (bindings : Bindings) (whole : Expr)
    (name : String) (fallback : Value) (op : Operator) (v : Value) : Result Predicate :=
  if op ≠ .equal ∨ v.isNull ∨ !fallback.equal v then refuse bindings whole
  else do
    let p ← map.resolve name
    let field := fieldOf p
    return .group .or false
      [.condition (.make field .equal (p.columnValue rules.repr v)),
        .condition (.make field .isNull .null)]

/-- Compares a property, with or without a fallback, with a value. -/
def compareSubject (rules : FilterRules) (map : EntityMap) (bindings : Bindings) (whole : Expr)
    (op : Operator) (v : Value) : Expr → Result Predicate
  | .member name => compareMember rules map bindings whole name op v
  | .coalesce (.member name) fallback =>
    match fallback.value? bindings with
    | some fallback => compareCoalesce rules map bindings whole name fallback op v
    | none => refuse bindings whole
  | _ => refuse bindings whole

/-- A comparison; a value on the left changes the sides. -/
def compare (rules : FilterRules) (map : EntityMap) (bindings : Bindings) (op : CompareOp)
    (l r : Expr) : Result Predicate :=
  let whole := Expr.compare op l r
  match r.value? bindings with
  | some v => compareSubject rules map bindings whole op.toOperator v l
  | none =>
    match l.value? bindings with
    | some v => compareSubject rules map bindings whole op.toOperator.mirror v r
    | none => refuse bindings whole

/-- The pattern for texts that contain a text, start or end with it. -/
def likePattern : Method → String → Option String
  | .contains, s => some ("%" ++ s ++ "%")
  | .startsWith, s => some (s ++ "%")
  | .endsWith, s => some ("%" ++ s)
  | _, _ => none

/-- The equality that a method asks for: whether the case of letters counts. -/
def equality? : Method → Option Bool
  | .equals => some true
  | .equalsIgnoreCase => some false
  | _ => none

/-- A method of a property that takes a value. -/
def callMember (rules : FilterRules) (map : EntityMap) (bindings : Bindings) (whole : Expr)
    (method : Method) (name : String) (v : Value) : Result Predicate :=
  match equality? method with
  | some caseSensitive =>
    if v.isNull then refuse bindings whole
    else do
      let p ← map.resolve name
      return .condition ⟨fieldOf p, .equal, p.columnValue rules.repr v, caseSensitive⟩
  | none =>
    match v.asText.bind (likePattern method) with
    | some pattern => do
      let p ← map.resolve name
      return .condition (.make (fieldOf p) .like (.text pattern))
    | none => refuse bindings whole

/-- A method of a value that takes a property. -/
def callValue (rules : FilterRules) (map : EntityMap) (bindings : Bindings) (whole : Expr)
    (method : Method) (v : Value) (name : String) : Result Predicate :=
  match method, v with
  | .contains, .list items => do
    let p ← map.resolve name
    return .condition (.make (fieldOf p) .inList (p.columnValue rules.repr (.list items)))
  | _, _ =>
    if (equality? method).isSome then callMember rules map bindings whole method name v
    else refuse bindings whole

/-- A call with one argument. -/
def call (rules : FilterRules) (map : EntityMap) (bindings : Bindings) (method : Method)
    (target arg : Expr) : Result Predicate :=
  let whole := Expr.call method target [arg]
  match target, arg with
  | .member name, arg =>
    match arg.value? bindings with
    | some v => callMember rules map bindings whole method name v
    | none => refuse bindings whole
  | target, .member name =>
    match target.value? bindings with
    | some v => callValue rules map bindings whole method v name
    | none => refuse bindings whole
  | _, _ => refuse bindings whole

/-- The conjunction that a method over a list stands for. -/
def quantifier? : Method → Option Conjunction
  | .all => some .and
  | .any => some .or
  | _ => none

/-- What a method over an empty list says: all of nothing holds, any of nothing does not. The column
is the first one that the body mentions. -/
def overNothing (map : EntityMap) (bindings : Bindings) (whole body : Expr)
    (conjunction : Conjunction) : Result Predicate :=
  match body.firstMember with
  | none => refuse bindings whole
  | some name => do
    let p ← map.resolve name
    let op := match conjunction with | .and => Operator.notInList | .or => Operator.inList
    return .condition (.make (fieldOf p) op (.list []))

/-- The items that a predicate adds to a group: a plain group of the same conjunction adds its
own. -/
def itemsFor (conjunction : Conjunction) : Predicate → List Predicate
  | .group c false items => if c = conjunction then items else [.group c false items]
  | p => [p]

/-- The negation: of a condition by its operator, of a group as a whole. -/
def negate : Predicate → Predicate
  | .condition c => .condition c.negate
  | .group conjunction negated items => .group conjunction (!negated) items

/-- The predicate that an expression stands for. -/
def ofExpr (rules : FilterRules) (map : EntityMap) (bindings : Bindings) : Expr → Result Predicate
  | .member name => truth map bindings (.member name) name true
  | .compare op l r => compare rules map bindings op l r
  | .and l r => do
    let p ← ofExpr rules map bindings l
    let q ← ofExpr rules map bindings r
    return .group .and false (itemsFor .and p ++ itemsFor .and q)
  | .or l r => do
    let p ← ofExpr rules map bindings l
    let q ← ofExpr rules map bindings r
    return .group .or false (itemsFor .or p ++ itemsFor .or q)
  | .not (.member name) => truth map bindings (.not (.member name)) name false
  | .not e => do
    let p ← ofExpr rules map bindings e
    return p.negate
  | .call method target [.lambda param body] =>
    let whole := Expr.call method target [.lambda param body]
    match quantifier? method, target.value? bindings with
    | some conjunction, some (.list []) => overNothing map bindings whole body conjunction
    | some conjunction, some (.list items) => do
      let parts ← items.mapM fun item => ofExpr rules map ((param, item) :: bindings) body
      return .group conjunction false parts
    | _, _ => refuse bindings whole
  | .call method target [arg] =>
    if (quantifier? method).isSome then refuse bindings (.call method target [arg])
    else call rules map bindings method target arg
  | e => refuse bindings e

end Predicate

/-- The group that an expression over an entity stands for. -/
def Group.ofExpr (rules : FilterRules) (map : EntityMap) (e : Expr) : Result Group :=
  match Predicate.ofExpr rules map [] e with
  | .ok (.group conjunction negated items) => .ok ⟨conjunction, negated, items⟩
  | .ok (.condition c) => .ok (.single c)
  | .error e => .error e

end EntitySql
