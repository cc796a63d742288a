import EntitySql.Proofs.Plan.Binding
import EntitySql.Proofs.Sql.FilterShape

/-!
# What an engine keeps cannot be seen

An engine over a fixed catalog answers a sequence of calls: plans are asked for, and everything that is
kept is forgotten. The plan of a request depends on its key alone (`Plan.make_congr`), since what is
written and bound of a filter is told by its shape, and the columns of a table depend on its name in
lower case alone. So columns that are kept are those that the catalog gives, and a plan that is kept
under a key is the one that a new engine would make for any request of that key (`Engine.Keeps`), up to
the serial number by which an engine counts its plans.

The main statement, **`Engine.run_eq_fresh`**, is that every call has the outcome that it has in a new
engine, whatever was asked before, and however many plans and columns are kept. Keys hold the shape of a
filter itself, so that filters of different shapes cannot be taken for one another.
-/

namespace EntitySql

/-! ### The plan of a key -/

/-- The plan but for its serial number. -/
def Plan.unnumbered (p : Plan) : Plan := { p with serial := 0 }

/-- The setter of the key, for an operation that gives it back. -/
def KeySetter.makeFor (map : EntityMap) (handlers : Handlers) (op : Operation) (key : Option Column) :
    Result (Option KeySetter) :=
  match key with
  | some key => if op.returnsKey then (KeySetter.make map handlers key).map some else .ok none
  | none => .ok none

/-- A plan but for its serial number, made step by step. -/
theorem Plan.unnumbered_make (options : Options) (handlers : Handlers) (map : EntityMap)
    (r : PlanRequest) (columns : List Column) (serial : Nat) :
    (Plan.make options handlers map r columns serial).map Plan.unnumbered = do
      let fields ← (r.shape map).fields.mapM (requestedColumn (r.shape map).table columns)
      let text ← Sql.statementText options.dialect r.operation
        (r.statement (r.shape map) options.keyPolicy fields columns)
      let inputs ← (r.statement (r.shape map) options.keyPolicy fields columns).boundColumns r.operation
      let binders ← inputs.mapM (ColumnBinder.make map handlers options.repr)
      let keySetter ← KeySetter.makeFor map handlers r.operation
        (r.statement (r.shape map) options.keyPolicy fields columns).key
      return ⟨0, map, r.operation, (r.shape map).table, text, inputs,
        inputs.map Column.parameterName, r.predicateShape, binders, keySetter⟩ := by
  unfold make KeySetter.makeFor
  dsimp only [bind, Except.bind]
  cases (r.shape map).fields.mapM (requestedColumn (r.shape map).table columns) with
  | error err => rfl
  | ok fields =>
    dsimp only
    cases Sql.statementText options.dialect r.operation
        (r.statement (r.shape map) options.keyPolicy fields columns) with
    | error err => rfl
    | ok text =>
      dsimp only
      cases (r.statement (r.shape map) options.keyPolicy fields columns).boundColumns r.operation with
      | error err => rfl
      | ok inputs =>
        dsimp only
        cases inputs.mapM (ColumnBinder.make map handlers options.repr) with
        | error err => rfl
        | ok binders =>
          dsimp only
          cases (r.statement (r.shape map) options.keyPolicy fields columns).key with
          | none => rfl
          | some key =>
            dsimp only
            split
            · cases KeySetter.make map handlers key <;> rfl
            · rfl

/-- Requests whose filters have one shape have one statement, but for the values of the filter. -/
theorem PlanRequest.skeleton_statement_congr {r r' : PlanRequest} (hhints : r.hints = r'.hints)
    (hfilter : r.predicateShape = r'.predicateShape) (shape : PlanShape) (policy : KeyPolicy)
    (fields columns : List Column) :
    (r.statement shape policy fields columns).skeleton =
      (r'.statement shape policy fields columns).skeleton := by
  have hskeleton : r.activePredicate.map Group.skeleton = r'.activePredicate.map Group.skeleton := by
    unfold predicateShape at hfilter
    cases hr : r.activePredicate with
    | none =>
      rw [hr] at hfilter
      rw [Option.map_eq_none_iff.mp hfilter.symm]
    | some f =>
      rw [hr] at hfilter
      obtain ⟨g, hg, hshape⟩ := Option.map_eq_some_iff.mp hfilter.symm
      rw [hg, Option.map_some, Option.map_some, Group.shape_eq_iff.mp hshape]
  rw [Request.skeleton, Request.skeleton, activePredicate_statement, activePredicate_statement,
    hskeleton, statement, statement, hhints]

/-- **The plan of a request depends on its key alone**, but for its serial number. -/
theorem Plan.make_congr {map map' : EntityMap} {r r' : PlanRequest} {d : Dialect}
    (hkey : r.key map d = r'.key map' d) (options : Options) (handlers : Handlers)
    (columns : List Column) (serial serial' : Nat) :
    (Plan.make options handlers map r columns serial).map Plan.unnumbered =
      (Plan.make options handlers map' r' columns serial').map Plan.unnumbered := by
  simp only [PlanRequest.key, PlanKey.mk.injEq] at hkey
  obtain ⟨rfl, -, hoperation, hshape, hhints, hfilter⟩ := hkey
  have hskeleton := PlanRequest.skeleton_statement_congr hhints hfilter (r.shape map)
    options.keyPolicy
  have htext := fun fields => Sql.statementText_congr (hskeleton fields columns) options.dialect
    r'.operation
  have hinputs := fun fields => Request.boundColumns_congr (hskeleton fields columns) r'.operation
  have hkey : ∀ fields, (r.statement (r.shape map) options.keyPolicy fields columns).key =
      (r'.statement (r.shape map) options.keyPolicy fields columns).key := fun _ => rfl
  rw [Plan.unnumbered_make, Plan.unnumbered_make]
  simp only [← hshape, hoperation, htext, hinputs, hkey, hfilter]

/-! ### Columns -/

/-- The columns of a table as a source gives them, with parameter names assigned. -/
def SchemaSource.fetch (source : SchemaSource) (table : String) : Result (List Column) :=
  ((source table).map Column.assignNames).mapError .schema

/-! ### A sample -/

namespace Sample

/-- A catalog of the table of accounts. -/
def catalog : Catalog := Catalog.empty.add .table "Account" accountColumns

/-- The update of the accounts that are Grace's. -/
def onGrace : PlanRequest :=
  { onAda .update with
    predicate := some (.single (.make ⟨"Owner", some .text⟩ .equal (.text "Grace"))) }

end Sample

namespace Engine

/-! ### What is made of a request -/

/-- The plan of a request from the columns of its table, but for its serial number. -/
def outcome (options : Options) (handlers : Handlers) (source : SchemaSource) (map : EntityMap)
    (r : PlanRequest) : Result Plan :=
  source.fetch (r.shape map).table >>= fun columns =>
    (Plan.make options handlers map r columns 0).map Plan.unnumbered

/-- Requests of one key have one outcome. -/
theorem outcome_congr {map map' : EntityMap} {r r' : PlanRequest} {d : Dialect}
    (hkey : r.key map d = r'.key map' d) (options : Options) (handlers : Handlers)
    (source : SchemaSource) :
    outcome options handlers source map r = outcome options handlers source map' r' := by
  have htable : (r.shape map).table = (r'.shape map').table := by
    simp only [PlanRequest.key, PlanKey.mk.injEq] at hkey
    rw [hkey.2.2.2.1]
  rw [outcome, outcome, htable]
  exact bind_congr fun columns => Plan.make_congr hkey options handlers columns 0 0

/-- What an engine keeps is what it would make again. -/
structure Keeps (options : Options) (handlers : Handlers) (source : SchemaSource) (e : Engine) :
    Prop where
  options_eq : e.options = options
  handlers_eq : e.handlers = handlers
  columns : ∀ x ∈ e.schemas.entries, ∀ table, Text.lower table = x.1 → source.fetch table = .ok x.2
  plans : ∀ x ∈ e.plans.store.entries, ∀ map r, r.key map options.dialect = x.1 →
    outcome options handlers source map r = .ok x.2.unnumbered

/-! ### One step -/

variable {options : Options} {handlers : Handlers} {source : SchemaSource} {e e' : Engine}
variable {map : EntityMap} {r : PlanRequest}

/-- The engine with these options and handlers before any request. -/
def fresh (options : Options) (handlers : Handlers) : Engine := (make options).withHandlers handlers

theorem keeps_fresh (options : Options) (handlers : Handlers) (source : SchemaSource) :
    Keeps options handlers source (fresh options handlers) :=
  ⟨rfl, rfl, fun _ hx => (List.not_mem_nil hx).elim, fun _ hx => (List.not_mem_nil hx).elim⟩

theorem keeps_clear (h : Keeps options handlers source e) : Keeps options handlers source e.clear :=
  ⟨h.options_eq, h.handlers_eq, fun _ hx => (List.not_mem_nil hx).elim,
    fun _ hx => (List.not_mem_nil hx).elim⟩

/-- A plan that is kept is the outcome of the request. -/
theorem keeps_cached (h : Keeps options handlers source e) {found : Option Plan}
    (hc : e.cached map r = (found, e')) :
    Keeps options handlers source e' ∧
      ∀ p, found = some p → outcome options handlers source map r = .ok p.unnumbered := by
  unfold cached PlanCache.get at hc
  split at hc
  next plan plans hp =>
  split at hp
  · next p hget =>
    cases hp
    cases hc
    have hkept := h.plans _ (RecentStore.mem_of_get? hget)
    refine ⟨⟨h.options_eq, h.handlers_eq, h.columns, fun x hx => ?_⟩, fun q hq => ?_⟩
    · rcases RecentStore.mem_put hx with rfl | hx
      · exact hkept
      · exact h.plans x hx
    · cases hq
      exact hkept map r (by rw [h.options_eq])
  · cases hp
    cases hc
    exact ⟨⟨h.options_eq, h.handlers_eq, h.columns, h.plans⟩, fun p hp => by cases hp⟩

/-- The columns of a table are those that the source gives, kept or not. -/
theorem keeps_columns (hs : source.IgnoresCase) (h : Keeps options handlers source e)
    {table : String} {result : Result (List Column)} (hc : e.columns source table = (result, e')) :
    Keeps options handlers source e' ∧ result = source.fetch table := by
  unfold columns at hc
  cases hkept : e.schemas.lookup? table with
  | some kept =>
    rw [SchemaCache.columns_of_lookup? hkept] at hc
    cases hc
    refine ⟨⟨h.options_eq, h.handlers_eq, h.columns, h.plans⟩, ?_⟩
    exact (h.columns _ (SchemaCache.mem_entries_of_lookup? hkept) table rfl).symm
  | none =>
    cases hsource : source table with
    | ok cs =>
      rw [SchemaCache.columns_of_source hkept hsource] at hc
      cases hc
      refine ⟨⟨h.options_eq, h.handlers_eq, fun x hx => ?_, h.plans⟩, ?_⟩
      · rcases SchemaCache.mem_entries_of_keep hx with rfl | hx
        · intro other hother
          rw [SchemaSource.fetch, hs table other cs hother hsource]
          rfl
        · exact h.columns x hx
      · rw [SchemaSource.fetch, hsource]
        rfl
    | error fault =>
      rw [SchemaCache.columns_of_fault hkept hsource] at hc
      cases hc
      refine ⟨⟨h.options_eq, h.handlers_eq, h.columns, h.plans⟩, ?_⟩
      rw [SchemaSource.fetch, hsource]
      rfl

/-- A plan that is made from the columns of its table is the outcome of its request. -/
theorem keeps_build (h : Keeps options handlers source e) {columns : List Column}
    (hcolumns : source.fetch (r.shape map).table = .ok columns) {result : Result Plan}
    (hb : e.build map r columns = (result, e')) :
    Keeps options handlers source e' ∧
      result.map Plan.unnumbered = outcome options handlers source map r := by
  have houtcome : (Plan.make e.options e.handlers map r columns e.made).map Plan.unnumbered =
      outcome options handlers source map r := by
    rw [outcome, hcolumns, h.options_eq, h.handlers_eq]
    exact Plan.make_congr (d := options.dialect) rfl options handlers columns e.made 0
  unfold build at hb
  split at hb
  · next p hp =>
    cases hb
    rw [hp] at houtcome
    refine ⟨⟨h.options_eq, h.handlers_eq, h.columns, fun x hx => ?_⟩, houtcome⟩
    rcases RecentStore.mem_put hx with rfl | hx
    · intro map' r' hkey
      rw [h.options_eq] at hkey
      rw [outcome_congr hkey, ← houtcome]
      rfl
    · exact h.plans x hx
  · next err hp =>
    cases hb
    rw [hp] at houtcome
    exact ⟨h, houtcome⟩

/-- **A call has the outcome that it has in a new engine**, and leaves nothing else to be kept. -/
theorem keeps_plan (hs : source.IgnoresCase) (h : Keeps options handlers source e)
    {result : Result Plan} (hp : e.plan source map r = (result, e')) :
    Keeps options handlers source e' ∧
      result.map Plan.unnumbered = outcome options handlers source map r := by
  unfold plan at hp
  split at hp
  · next p e₁ hcached =>
    cases hp
    obtain ⟨hkeeps, houtcome⟩ := keeps_cached h hcached
    exact ⟨hkeeps, (houtcome p rfl).symm⟩
  · next e₁ hcached =>
    have hkeeps := (keeps_cached h hcached).1
    split at hp
    · next columns e₂ hcolumns =>
      obtain ⟨hkeeps, hfetch⟩ := keeps_columns hs hkeeps hcolumns
      exact keeps_build hkeeps hfetch.symm hp
    · next err e₂ hcolumns =>
      cases hp
      obtain ⟨hkeeps, hfetch⟩ := keeps_columns hs hkeeps hcolumns
      refine ⟨hkeeps, ?_⟩
      rw [outcome, ← hfetch]
      rfl

/-! ### Any run -/

/-- What an engine is asked to do. -/
inductive Call where
  /-- A plan is asked for. -/
  | plan (map : EntityMap) (r : PlanRequest)
  /-- All plans and columns are forgotten. -/
  | clear

/-- The answers of an engine to calls, one after the other. The serial numbers of plans, which count
the plans that the engine has made, are left out. -/
def run (source : SchemaSource) (e : Engine) : List Call → List (Result Plan)
  | [] => []
  | .plan map r :: rest =>
    let (result, e) := e.plan source map r
    result.map Plan.unnumbered :: run source e rest
  | .clear :: rest => run source e.clear rest

/-- The answer of a new engine to a call. -/
def Call.freshAnswer? (options : Options) (handlers : Handlers) (source : SchemaSource) :
    Call → Option (Result Plan)
  | .plan map r => some (((fresh options handlers).plan source map r).1.map Plan.unnumbered)
  | .clear => none

/-- A new engine makes of a request what is made of it from the columns of its table. -/
theorem plan_fresh (hs : source.IgnoresCase) (options : Options) (handlers : Handlers)
    (map : EntityMap) (r : PlanRequest) :
    ((fresh options handlers).plan source map r).1.map Plan.unnumbered =
      outcome options handlers source map r :=
  (keeps_plan hs (keeps_fresh options handlers source) (Prod.eta _).symm).2

theorem run_of_keeps (hs : source.IgnoresCase) (h : Keeps options handlers source e)
    (calls : List Call) :
    run source e calls = calls.filterMap (Call.freshAnswer? options handlers source) := by
  induction calls generalizing e with
  | nil => rfl
  | cons call rest ih =>
    cases call with
    | plan map r =>
      obtain ⟨hkeeps, houtcome⟩ := keeps_plan hs h (Prod.eta (e.plan source map r)).symm
      have hanswer : Call.freshAnswer? options handlers source (.plan map r) =
          some (outcome options handlers source map r) :=
        congrArg some (plan_fresh hs options handlers map r)
      show (e.plan source map r).1.map Plan.unnumbered :: run source (e.plan source map r).2 rest = _
      rw [houtcome, ih hkeeps, List.filterMap_cons_some hanswer]
    | clear => exact ih (keeps_clear h)

/-- **What an engine keeps cannot be seen.** Over a fixed catalog, with any bound on the plans that are
kept and whether columns are kept or not, every request has the answer that it has in a new engine,
whatever was asked before; and requests of one key have one answer. -/
theorem run_eq_fresh (options : Options) (handlers : Handlers) (catalog : Catalog) :
    (∀ calls : List Call, run catalog.source (fresh options handlers) calls =
      calls.filterMap (Call.freshAnswer? options handlers catalog.source)) ∧
    ∀ (map map' : EntityMap) (r r' : PlanRequest),
      r.key map options.dialect = r'.key map' options.dialect →
        Call.freshAnswer? options handlers catalog.source (.plan map r) =
          Call.freshAnswer? options handlers catalog.source (.plan map' r') := by
  have hs := catalog.source_ignoresCase
  refine ⟨run_of_keeps hs (keeps_fresh options handlers catalog.source), ?_⟩
  intro map map' r r' hkey
  refine congrArg some ?_
  rw [plan_fresh hs, plan_fresh hs, outcome_congr hkey]

/-- Updates of Ada's accounts and of Grace's have one key, so each has the plan that the other has, be
it made for it, kept from the other, or made again after everything was forgotten. -/
theorem run_eq_fresh_owners :
    (Sample.onAda .update).key Sample.account .sqlServer =
        Sample.onGrace.key Sample.account .sqlServer ∧
      ∃ p, run Sample.catalog.source (fresh .standard .empty)
          [.plan Sample.account (Sample.onAda .update), .plan Sample.account Sample.onGrace, .clear,
            .plan Sample.account Sample.onGrace] = [.ok p, .ok p, .ok p] := by
  have hkey : (Sample.onAda .update).key Sample.account .sqlServer =
      Sample.onGrace.key Sample.account .sqlServer := rfl
  obtain ⟨hrun, hanswers⟩ := run_eq_fresh .standard .empty Sample.catalog
  obtain ⟨p, hada⟩ : ∃ p, Call.freshAnswer? .standard .empty Sample.catalog.source
      (.plan Sample.account (Sample.onAda .update)) = some (.ok p) := ⟨_, rfl⟩
  have hgrace : Call.freshAnswer? .standard .empty Sample.catalog.source
      (.plan Sample.account Sample.onGrace) = some (.ok p) :=
    (hanswers _ _ _ _ hkey).symm.trans hada
  refine ⟨hkey, p, (hrun _).trans ?_⟩
  rw [List.filterMap_cons_some hada, List.filterMap_cons_some hgrace,
    List.filterMap_cons_none rfl, List.filterMap_cons_some hgrace, List.filterMap_nil]

end Engine

end EntitySql
