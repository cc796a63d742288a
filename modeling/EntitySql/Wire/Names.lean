import EntitySql.Expr.Basic
import EntitySql.Schema.Catalog
import EntitySql.Sql.Dialect
import EntitySql.Sql.Operation
import EntitySql.Text.Names

/-!
# Names in JSON

The names under which the small enumerations are written in JSON. Each table holds every element
once.
-/

namespace EntitySql.Wire

/-- The value types. -/
def valueTypes : Names ValueType :=
  [("Bool", .bool), ("Int16", .int16), ("Int32", .int32), ("Int64", .int64),
    ("Float32", .float32), ("Float64", .float64), ("Decimal", .decimal), ("Text", .text),
    ("Bytes", .bytes), ("Uuid", .uuid), ("DateTime", .dateTime), ("Date", .date),
    ("Time", .time), ("Json", .json), ("Enum", .enumeration)]

/-- The comparisons. -/
def compareOps : Names CompareOp :=
  [("Eq", .eq), ("Ne", .ne), ("Gt", .gt), ("Lt", .lt), ("Ge", .ge), ("Le", .le)]

/-- The methods. -/
def methods : Names Method := Method.every.map fun m => (m.name, m)

/-- The operators of conditions. -/
def operators : Names Operator :=
  [("Equal", .equal), ("NotEqual", .notEqual),
    ("GreaterThan", .greaterThan), ("LessThan", .lessThan),
    ("GreaterOrEqual", .greaterOrEqual), ("LessOrEqual", .lessOrEqual), ("Like", .like),
    ("NotLike", .notLike), ("In", .inList), ("NotIn", .notInList), ("IsNull", .isNull),
    ("IsNotNull", .isNotNull)]

/-- The conjunctions. -/
def conjunctions : Names Conjunction := [("And", .and), ("Or", .or)]

/-- The aggregate functions. -/
def aggregates : Names Aggregate := [("Min", .min), ("Max", .max), ("Sum", .sum), ("Avg", .avg)]

/-- The directions of an order. -/
def sortOrders : Names SortOrder := [("Asc", .asc), ("Desc", .desc)]

/-- The dialects. -/
def dialects : Names Dialect :=
  [("sqlserver", .sqlServer), ("postgres", .postgres), ("mysql", .mySql), ("sqlite", .sqlite)]

/-- The kinds of schema objects. -/
def objectKinds : Names ObjectKind := [("Table", .table), ("View", .view)]

end EntitySql.Wire
