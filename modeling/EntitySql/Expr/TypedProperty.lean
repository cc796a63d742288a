import EntitySql.Expr.Basic
import EntitySql.Value.Conversion

/-!
# Properties of a declared type

A `TypedProperty` is a property together with its declared type, and its functions build filters on
it. The values that a filter compares with are converted to the type first, so a filter that
compares an integer with a text is an error where it is built.
-/

namespace EntitySql

/-- A property with the type of the values it is compared with. -/
structure TypedProperty where
  name : String
  type : ScalarType
deriving DecidableEq

namespace TypedProperty

/-- The property itself. -/
def expr (c : TypedProperty) : Expr := .member c.name

/-- Compares the property with a value. -/
def compare (c : TypedProperty) (op : CompareOp) (v : Value) : Result Expr :=
  (v.toScalar c.type).map fun v => .compare op c.expr (.constant v)

/-- The property is null. -/
def isNull (c : TypedProperty) : Expr := .compare .eq c.expr (.constant .null)

/-- The property is not null. -/
def isNotNull (c : TypedProperty) : Expr := .compare .ne c.expr (.constant .null)

/-- The property is one of the values. -/
def inList (c : TypedProperty) (vs : List Value) : Result Expr :=
  (vs.mapM (Value.toScalar c.type)).map fun vs => .call .contains (.constant (.list vs)) [c.expr]

/-- Compares the property, or the fallback where it is null, with a value. -/
def coalesce (c : TypedProperty) (fallback : Value) (op : CompareOp) (v : Value) : Result Expr :=
  (fallback.toScalar c.type).map fun fallback =>
    .compare op (.coalesce c.expr (.constant fallback)) (.constant v)

/-- Runs a condition on the property over the values. -/
def perElement (c : TypedProperty) (method : Method) (vs : List Value) (body : Expr → Expr → Expr) :
    Result Expr :=
  (vs.mapM (Value.toScalar c.type)).map fun vs =>
    .call method (.constant (.list vs)) [.lambda "v" (body c.expr (.parameter "v"))]

/-- The property equals every value, or any of them. -/
def equalsEach (c : TypedProperty) (method : Method) (vs : List Value) : Result Expr :=
  c.perElement method vs fun property v => .compare .eq property v

/-- Calls a method of the property with a value. -/
def call (c : TypedProperty) (method : Method) (v : Value) : Result Expr :=
  (v.toScalar c.type).map fun v => .call method c.expr [.constant v]

/-- Calls a method of the property with every value, or with any of them. -/
def callEach (c : TypedProperty) (run method : Method) (vs : List Value) : Result Expr :=
  c.perElement run vs fun property v => .call method property [v]

end TypedProperty

end EntitySql
