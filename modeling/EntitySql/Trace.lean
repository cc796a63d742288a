import EntitySql.Command

/-!
# Tracing

An engine runs no commands. Whoever runs one can tell a tracer before and after; what a tracer does
with that is a change of its own state.
-/

namespace EntitySql

/-- What a tracer is told of a run. -/
structure TraceLog where
  operation : String
  text : String
  parameters : List BoundParameter

/-- What a tracer is told about the run of a command. -/
def TraceLog.make (operation : String) (c : Command) : TraceLog := ⟨operation, c.text, c.parameters⟩

/-- Someone who is told before and after a run. -/
structure Tracer (σ : Type) where
  before : TraceLog → σ → σ
  after : TraceLog → σ → σ

/-- Runs an action between the two events of a tracer. -/
def traced {σ α : Type} (t : Tracer σ) (log : TraceLog) (run : StateM σ α) : StateM σ α := do
  modify (t.before log)
  let a ← run
  modify (t.after log)
  return a

end EntitySql
