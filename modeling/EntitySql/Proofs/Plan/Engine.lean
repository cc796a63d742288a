import EntitySql.Proofs.Plan.Making
import EntitySql.Proofs.Schema.KeptColumns

/-!
# What an engine keeps

An engine starts with nothing and is used in any order: handlers are registered, plans and columns are
asked for, kept ones are forgotten (`Engine.Reachable`). Whatever was done, the columns that are kept for
a table came from a source, with parameter names assigned, and a plan that is kept under a key was made
from such columns, with the options and handlers of the engine, for a request of that key
(`Engine.Inv`, **`Engine.inv_of_reachable`**). So a plan that the engine gives for a request is one that
was made for a request of the same key (**`Engine.plan_spec`**).
-/

namespace EntitySql

/-- All lists of columns that the source gives have the property. -/
def SchemaSource.Gives (source : SchemaSource) (P : List Column → Prop) : Prop :=
  ∀ table cs, source table = .ok cs → P cs

namespace Engine

/-- The engines that are reached when all sources give lists of columns with a property. -/
inductive Reachable (P : List Column → Prop) : Engine → Prop where
  | make (options : Options) : Reachable P (make options)
  | withHandlers {e : Engine} (handlers : Handlers) : Reachable P e →
      Reachable P (e.withHandlers handlers)
  | clear {e : Engine} : Reachable P e → Reachable P e.clear
  | clearPlans {e : Engine} : Reachable P e → Reachable P { e with plans := e.plans.clear }
  | invalidate {e : Engine} (table : String) : Reachable P e →
      Reachable P { e with schemas := e.schemas.invalidate table }
  | columns {e : Engine} {source : SchemaSource} (table : String) : source.Gives P →
      Reachable P e → Reachable P (e.columns source table).2
  | cached {e : Engine} (map : EntityMap) (r : PlanRequest) : Reachable P e →
      Reachable P (e.cached map r).2
  | plan {e : Engine} {source : SchemaSource} (map : EntityMap) (r : PlanRequest) :
      source.Gives P → Reachable P e → Reachable P (e.plan source map r).2
  | planUnlessFetched {e : Engine} (map : EntityMap) (r : PlanRequest) : Reachable P e →
      Reachable P (e.planUnlessFetched map r).2

/-- The columns are those of a table that a source gave, with parameter names assigned. -/
def Fetched (P : List Column → Prop) (columns : List Column) : Prop :=
  ∃ cs, P cs ∧ columns = Column.assignNames cs

/-- The plan was made by an engine like this one for some request of the key. -/
def Makes (P : List Column → Prop) (e : Engine) (key : PlanKey) (p : Plan) : Prop :=
  ∃ map r columns serial, r.key map e.options.dialect = key ∧ Fetched P columns ∧
    Plan.make e.options e.handlers map r columns serial = .ok p

/-- The columns that are kept were fetched, and the plans that are kept were made for their keys. -/
structure Inv (P : List Column → Prop) (e : Engine) : Prop where
  schemas : ∀ x ∈ e.schemas.entries, Fetched P x.2
  plans : ∀ x ∈ e.plans.store.entries, Makes P e x.1 x.2

end Engine

/-! ### Stores -/

namespace RecentStore

variable {κ α : Type} [DecidableEq κ]

theorem mem_of_get? {s : RecentStore κ α} {key : κ} {a : α} (h : s.get? key = some a) :
    (key, a) ∈ s.entries := by
  obtain ⟨⟨k, b⟩, hfind, rfl⟩ := Option.map_eq_some_iff.mp h
  have hkey : k = key := by simpa using List.find?_some hfind
  rw [← hkey]
  exact List.mem_of_find?_eq_some hfind

/-- What is in a store after a value was put in it was there before, or is that value. -/
theorem mem_put {s : RecentStore κ α} {key : κ} {a : α} {x : κ × α}
    (h : x ∈ (s.put key a).entries) : x = (key, a) ∨ x ∈ s.entries := by
  have hmem : x ∈ (key, a) :: s.without key := by
    unfold put cut at h
    simp only at h
    split at h
    · exact List.mem_of_mem_take h
    · exact h
  rcases List.mem_cons.mp hmem with rfl | hmem
  · exact .inl rfl
  · exact .inr (List.mem_filter.mp hmem).1

end RecentStore

namespace Engine

variable {P : List Column → Prop} {e : Engine}

/-! ### One step -/

theorem inv_make (P : List Column → Prop) (options : Options) : Inv P (make options) :=
  ⟨fun _ hx => (List.not_mem_nil hx).elim, fun _ hx => (List.not_mem_nil hx).elim⟩

theorem inv_withHandlers (h : Inv P e) (handlers : Handlers) : Inv P (e.withHandlers handlers) :=
  ⟨h.schemas, fun _ hx => (List.not_mem_nil hx).elim⟩

theorem inv_clearPlans (h : Inv P e) : Inv P { e with plans := e.plans.clear } :=
  ⟨h.schemas, fun _ hx => (List.not_mem_nil hx).elim⟩

theorem inv_clear (h : Inv P e) : Inv P e.clear :=
  ⟨fun _ hx => (List.not_mem_nil hx).elim, (inv_clearPlans h).plans⟩

theorem inv_invalidate (h : Inv P e) (table : String) :
    Inv P { e with schemas := e.schemas.invalidate table } :=
  ⟨fun x hx => h.schemas x (List.mem_filter.mp hx).1, h.plans⟩

/-- Looking for a plan gives one that was made for the key of the request. -/
theorem cached_spec (h : Inv P e) {map : EntityMap} {r : PlanRequest} {found : Option Plan}
    {e' : Engine} (hc : e.cached map r = (found, e')) :
    Inv P e' ∧ e'.options = e.options ∧ e'.handlers = e.handlers ∧
      ∀ p, found = some p → Makes P e (r.key map e.options.dialect) p := by
  unfold cached PlanCache.get at hc
  split at hc
  · next p hp =>
    split at hp
    · next q hq =>
      cases hp
      cases hc
      have hmade := h.plans _ (RecentStore.mem_of_get? hq)
      refine ⟨⟨h.schemas, fun x hx => ?_⟩, rfl, rfl, fun p hp => ?_⟩
      · rcases RecentStore.mem_put hx with rfl | hx
        · exact hmade
        · exact h.plans x hx
      · cases hp
        exact hmade
    · cases hp
      cases hc
      exact ⟨⟨h.schemas, h.plans⟩, rfl, rfl, fun p hp => by cases hp⟩

/-- Building a plan from fetched columns keeps it under the key of the request. -/
theorem build_spec (h : Inv P e) {map : EntityMap} {r : PlanRequest} {columns : List Column}
    (hcolumns : Fetched P columns) {result : Result Plan} {e' : Engine}
    (hb : e.build map r columns = (result, e')) :
    Inv P e' ∧ ∀ p, result = .ok p → Makes P e (r.key map e.options.dialect) p := by
  unfold build at hb
  split at hb
  · next p hp =>
    cases hb
    have hmade : Makes P e (r.key map e.options.dialect) p := ⟨map, r, columns, _, rfl, hcolumns, hp⟩
    refine ⟨⟨h.schemas, fun x hx => ?_⟩, fun q hq => ?_⟩
    · rcases RecentStore.mem_put hx with rfl | hx
      · exact hmade
      · exact h.plans x hx
    · cases hq
      exact hmade
  · cases hb
    exact ⟨h, fun p hp => by cases hp⟩

theorem fetched_of_lookup? (h : Inv P e) {table : String} {columns : List Column}
    (hl : e.schemas.lookup? table = some columns) : Fetched P columns :=
  h.schemas _ (SchemaCache.mem_entries_of_lookup? hl)

/-- The columns of a table are fetched, and kept as they were fetched. -/
theorem columns_spec (h : Inv P e) {source : SchemaSource} (hs : source.Gives P) {table : String}
    {result : Result (List Column)} {e' : Engine} (hc : e.columns source table = (result, e')) :
    Inv P e' ∧ e'.options = e.options ∧ e'.handlers = e.handlers ∧
      ∀ columns, result = .ok columns → Fetched P columns := by
  unfold columns at hc
  cases hkept : e.schemas.lookup? table with
  | some kept =>
    rw [SchemaCache.columns_of_lookup? hkept] at hc
    cases hc
    refine ⟨⟨h.schemas, h.plans⟩, rfl, rfl, fun columns hcolumns => ?_⟩
    cases hcolumns
    exact fetched_of_lookup? h hkept
  | none =>
    cases hsource : source table with
    | ok cs =>
      rw [SchemaCache.columns_of_source hkept hsource] at hc
      cases hc
      have hfetched : Fetched P (Column.assignNames cs) := ⟨cs, hs table cs hsource, rfl⟩
      refine ⟨⟨fun x hx => ?_, h.plans⟩, rfl, rfl, fun columns hcolumns => ?_⟩
      · rcases SchemaCache.mem_entries_of_keep hx with rfl | hx
        · exact hfetched
        · exact h.schemas x hx
      · cases hcolumns
        exact hfetched
    | error fault =>
      rw [SchemaCache.columns_of_fault hkept hsource] at hc
      cases hc
      exact ⟨⟨h.schemas, h.plans⟩, rfl, rfl, fun columns hcolumns => by cases hcolumns⟩

/-- **A plan that is given for a request was made for a request of its key.** -/
theorem plan_spec (h : Inv P e) {source : SchemaSource} (hs : source.Gives P) {map : EntityMap}
    {r : PlanRequest} {result : Result Plan} {e' : Engine}
    (hp : e.plan source map r = (result, e')) :
    Inv P e' ∧ ∀ p, result = .ok p → Makes P e (r.key map e.options.dialect) p := by
  unfold plan at hp
  split at hp
  · next p e₁ hcached =>
    cases hp
    obtain ⟨hinv, -, -, hmade⟩ := cached_spec h hcached
    refine ⟨hinv, fun q hq => ?_⟩
    cases hq
    exact hmade p rfl
  · next e₁ hcached =>
    obtain ⟨hinv, hoptions, hhandlers, -⟩ := cached_spec h hcached
    split at hp
    · next columns e₂ hcolumns =>
      obtain ⟨hinv, hoptions', hhandlers', hfetched⟩ := columns_spec hinv hs hcolumns
      obtain ⟨hinv, hmade⟩ := build_spec hinv (hfetched columns rfl) hp
      refine ⟨hinv, fun p hp => ?_⟩
      have hmade := hmade p hp
      rw [Makes, hoptions', hhandlers', hoptions, hhandlers] at hmade
      exact hmade
    · next err e₂ hcolumns =>
      cases hp
      exact ⟨(columns_spec hinv hs hcolumns).1, fun p hp => by cases hp⟩

theorem inv_planUnlessFetched (h : Inv P e) (map : EntityMap) (r : PlanRequest) :
    Inv P (e.planUnlessFetched map r).2 := by
  unfold planUnlessFetched
  split
  · next hcached => exact (cached_spec h hcached).1
  · next hcached =>
    have hinv := (cached_spec h hcached).1
    split
    · next hlookup => exact (build_spec hinv (fetched_of_lookup? hinv hlookup) rfl).1
    · exact ⟨hinv.schemas, hinv.plans⟩

/-! ### Any run -/

/-- **What is kept was fetched from a source or made for its key**, in every engine that is reached. -/
theorem inv_of_reachable (h : Reachable P e) : Inv P e := by
  induction h with
  | make options => exact inv_make P options
  | withHandlers handlers _ ih => exact inv_withHandlers ih handlers
  | clear _ ih => exact inv_clear ih
  | clearPlans _ ih => exact inv_clearPlans ih
  | invalidate table _ ih => exact inv_invalidate ih table
  | columns table hs _ ih => exact (columns_spec ih hs rfl).1
  | cached map r _ ih => exact (cached_spec ih rfl).1
  | plan map r hs _ ih => exact (plan_spec ih hs rfl).1
  | planUnlessFetched map r _ ih => exact inv_planUnlessFetched ih map r

end Engine

end EntitySql
