import EntitySql.Plan.Cache
import EntitySql.Schema.Cache

/-!
# Engines

An engine gives plans for requests and keeps what it has made: the columns of tables and the plans.
A request for a plan first looks for the plan, then for the columns of the table, and makes the plan
from them. A failure keeps nothing but the counts.
-/

namespace EntitySql

/-- The options and handlers of an engine and what it has made so far. -/
structure Engine where
  options : Options
  handlers : Handlers
  schemas : SchemaCache
  plans : PlanCache
  /-- How many plans have been made. -/
  made : Nat

namespace Engine

/-- The engine before any request. -/
def make (options : Options) : Engine :=
  ⟨options, .empty, .empty options.schemaCache, .empty options.capacity, 0⟩

/-- The engine with handlers; plans made without them are forgotten. -/
def withHandlers (e : Engine) (handlers : Handlers) : Engine :=
  { e with handlers := handlers, plans := e.plans.clear }

/-- Forgets plans and columns. -/
def clear (e : Engine) : Engine := { e with plans := e.plans.clear, schemas := e.schemas.clear }

/-- The group that a filter over an entity stands for. -/
def compile (e : Engine) (map : EntityMap) (filter : Expr) : Result Group :=
  Group.ofExpr e.options.rules map filter

/-- The plan of a request, if it is kept. -/
def cached (e : Engine) (map : EntityMap) (r : PlanRequest) : Option Plan × Engine :=
  let (found, plans) := e.plans.get (r.key map e.options.dialect)
  (found, { e with plans := plans })

/-- Makes and keeps the plan of a request over a table with these columns. -/
def build (e : Engine) (map : EntityMap) (r : PlanRequest) (columns : List Column) :
    Result Plan × Engine :=
  match Plan.make e.options e.handlers map r columns e.made with
  | .ok p =>
    (.ok p, { e with plans := e.plans.publish (r.key map e.options.dialect) p, made := e.made + 1 })
  | .error err => (.error err, e)

/-- The columns of a table. -/
def columns (e : Engine) (source : SchemaSource) (table : String) : Result (List Column) × Engine :=
  let (found, schemas) := e.schemas.columns source table
  (found.mapError .schema, { e with schemas := schemas })

/-- The plan of a request, made if it is not kept. -/
def plan (e : Engine) (source : SchemaSource) (map : EntityMap) (r : PlanRequest) :
    Result Plan × Engine :=
  match e.cached map r with
  | (some p, e) => (.ok p, e)
  | (none, e) =>
    match e.columns source (r.shape map).table with
    | (.ok columns, e) => e.build map r columns
    | (.error err, e) => (.error err, e)

/-- The plan of a request that is given up where the columns of the table have to be fetched. The
source has been asked by then. -/
def planUnlessFetched (e : Engine) (map : EntityMap) (r : PlanRequest) :
    Option (Result Plan) × Engine :=
  match e.cached map r with
  | (some p, e) => (some (.ok p), e)
  | (none, e) =>
    match e.schemas.lookup? (r.shape map).table with
    | some columns => let (p, e) := e.build map r columns; (some p, e)
    | none => (none, { e with schemas := e.schemas.asked })

/-- The command of a request for rows. -/
def command (e : Engine) (source : SchemaSource) (map : EntityMap) (r : PlanRequest)
    (rows : List Row) : Result Command × Engine :=
  match e.plan source map r with
  | (.ok p, e) => (p.command rows r.predicate, e)
  | (.error err, e) => (.error err, e)

end Engine

end EntitySql
