import EntitySql.Proofs.Plan.Transparency

/-!
# Which plans an engine keeps

The cache of an engine is a list of plans that is rearranged by every call. What it holds can be told
without it, from the calls alone: look at the requests that were given a plan since everything was last
forgotten, the latest first, and leave out the keys that have come up already. The plans that are kept
are those of the first of these keys, as many as the capacity allows (`recentKeys`), in this order.

One call keeps this up (`Engine.recent_step`): a plan that is there moves to the front, a plan that is
made comes to the front and drives out the last one, and a request that fails changes nothing. So it
holds of every run (`Engine.recent_replay`), and the main statement, **`Engine.hit_iff_recent`**, tells of
any call after any run whether the plan is there, what is counted and what is kept.
-/

namespace EntitySql

/-! ### Lists without repetitions -/

section Distinct

variable {α : Type} [DecidableEq α]

/-- Leaving out elements and leaving out repetitions may be done in either order. -/
theorem eraseDups_filter (p : α → Bool) (l : List α) :
    (l.filter p).eraseDups = l.eraseDups.filter p := by
  match l with
  | [] => rfl
  | a :: rest =>
    -- what follows the first element is shorter once that element is left out of it
    have hrest := eraseDups_filter p (rest.filter fun b => !b == a)
    rw [List.eraseDups_cons]
    by_cases ha : p a = true
    · rw [List.filter_cons_of_pos ha, List.filter_cons_of_pos ha, List.eraseDups_cons, ← hrest]
      refine congrArg (fun l => a :: List.eraseDups l) ?_
      rw [List.filter_filter, List.filter_filter]
      exact List.filter_congr fun b _ => Bool.and_comm _ _
    · have hsame : rest.filter p = (rest.filter fun b => !b == a).filter p := by
        rw [List.filter_filter]
        refine List.filter_congr fun b _ => ?_
        by_cases hb : b = a
        · rw [hb]
          simp [ha]
        · simp [hb]
      rw [List.filter_cons_of_neg ha, List.filter_cons_of_neg ha, hsame, hrest]
termination_by l.length
decreasing_by exact Nat.lt_succ_of_le (List.length_filter_le _ rest)

theorem nodup_eraseDups (l : List α) : l.eraseDups.Nodup := by
  match l with
  | [] => exact List.nodup_nil
  | a :: rest =>
    rw [List.eraseDups_cons, List.nodup_cons, List.mem_eraseDups]
    exact ⟨by simp, nodup_eraseDups (rest.filter fun b => !b == a)⟩
termination_by l.length
decreasing_by exact Nat.lt_succ_of_le (List.length_filter_le _ rest)

/-- To move an element to the front, one place more of the list is enough. -/
theorem take_filter_take {l : List α} (h : l.Nodup) (a : α) (n : Nat) :
    ((l.take (n + 1)).filter fun b => b ≠ a).take n = (l.filter fun b => b ≠ a).take n := by
  induction l generalizing n with
  | nil => rfl
  | cons b rest ih =>
    obtain ⟨hb, hrest⟩ := List.nodup_cons.mp h
    rw [List.take_succ_cons]
    by_cases hba : b = a
    · have hall : ∀ c ∈ rest, decide (c ≠ a) = true := by
        intro c hc
        rw [decide_eq_true_eq]
        rintro rfl
        exact hb (hba ▸ hc)
      have htake : (rest.take n).filter (fun b => b ≠ a) = rest.take n :=
        List.filter_eq_self.mpr fun c hc => hall c (List.mem_of_mem_take hc)
      have hfilter : rest.filter (fun b => b ≠ a) = rest := List.filter_eq_self.mpr hall
      rw [List.filter_cons_of_neg (by simp [hba]), List.filter_cons_of_neg (by simp [hba]), htake,
        hfilter, List.take_take, Nat.min_self]
    · rw [List.filter_cons_of_pos (by simp [hba]), List.filter_cons_of_pos (by simp [hba])]
      cases n with
      | zero => rfl
      | succ n => rw [List.take_succ_cons, List.take_succ_cons, ih hrest]

end Distinct

/-! ### Stores -/

/-- The first of a list, as many as a number above zero allows; all of it without such a number. -/
def upTo {α : Type} (size : Option Nat) (l : List α) : List α :=
  match size with
  | some n => if 0 < n then l.take n else l
  | none => l

@[simp]
theorem upTo_nil {α : Type} (size : Option Nat) : upTo size ([] : List α) = [] := by
  cases size <;> simp [upTo]

theorem length_upTo_le {α : Type} {n : Nat} (hpos : 0 < n) (l : List α) :
    (upTo (some n) l).length ≤ n := by
  rw [upTo, if_pos hpos]
  exact List.length_take_le n l

namespace RecentStore

variable {κ α : Type}

/-- The keys of a store, that of the most recently used value first. -/
def keys (s : RecentStore κ α) : List κ := s.entries.map Prod.fst

/-- The capacity of a store as a number. -/
def limit (s : RecentStore κ α) : Option Nat := s.capacity.map Subtype.val

/-- A store with the capacity of the options keeps as many as the options say. -/
theorem upTo_limit {s : RecentStore κ α} {options : Options} (h : s.capacity = options.capacity)
    {β : Type} (l : List β) : upTo s.limit l = upTo options.planCapacity l := by
  rw [limit, h, Options.capacity]
  cases options.planCapacity with
  | none => rfl
  | some n =>
    by_cases hpos : 0 < n
    · rw [Option.bind_some, dif_pos hpos, Option.map_some]
    · rw [Option.bind_some, dif_neg hpos, upTo, if_neg hpos]
      rfl

theorem length_keys (s : RecentStore κ α) : s.keys.length = s.size := by
  rw [keys, List.length_map, size]

variable [DecidableEq κ]

theorem isSome_get? (s : RecentStore κ α) (key : κ) : (s.get? key).isSome ↔ key ∈ s.keys := by
  rw [get?, Option.isSome_map, List.find?_isSome, keys, List.mem_map]
  constructor
  · rintro ⟨x, hx, hkey⟩
    exact ⟨x, hx, by simpa using hkey⟩
  · rintro ⟨x, hx, hkey⟩
    exact ⟨x, hx, by simpa using hkey⟩

/-- Putting a value into a store moves its key to the front. -/
theorem keys_put (s : RecentStore κ α) (key : κ) (a : α) :
    (s.put key a).keys = upTo s.limit (key :: s.keys.filter fun k => k ≠ key) := by
  have hwithout : (s.without key).map Prod.fst = s.keys.filter fun k => k ≠ key := by
    rw [without, keys, List.filter_map]
    rfl
  rw [keys, put, cut, ← hwithout, limit]
  cases s.capacity with
  | none => rfl
  | some n =>
    rw [Option.map_some, upTo, if_pos n.property]
    exact List.map_take

/-- If a store keeps the first of some keys, then after one of them is used it keeps the first of the
keys in their new order. -/
theorem keys_put_of_keys_eq {s : RecentStore κ α} {used : List κ}
    (h : s.keys = upTo s.limit used.eraseDups) (key : κ) (a : α) :
    (s.put key a).keys = upTo s.limit (key :: used).eraseDups := by
  have hfront : (key :: used).eraseDups = key :: used.eraseDups.filter fun k => k ≠ key := by
    rw [List.eraseDups_cons, eraseDups_filter]
    refine congrArg _ (List.filter_congr fun k _ => ?_)
    by_cases hk : k = key <;> simp [hk]
  rw [keys_put, h, hfront]
  cases s.limit with
  | none => rfl
  | some n =>
    cases n with
    | zero => rfl
    | succ n =>
      have htake := take_filter_take (nodup_eraseDups used) key n
      simp only [upTo, n.succ_pos, if_true, List.take_succ_cons]
      rw [htake]

end RecentStore

namespace Engine

/-! ### What the calls tell -/

/-- What came of a call: a plan was asked for under a key, and given or not, or everything was
forgotten. -/
inductive Event where
  | asked (key : PlanKey) (given : Bool)
  | cleared

/-- One call. -/
def step (source : SchemaSource) (e : Engine) : Call → Event × Engine
  | .plan map r =>
    let (result, e') := e.plan source map r
    (.asked (r.key map e.options.dialect) result.isOk, e')
  | .clear => (.cleared, e.clear)

/-- Calls one after the other: what came of them, the latest first, and the engine after them. -/
def replay (source : SchemaSource) (e : Engine) (calls : List Call) : List Event × Engine :=
  calls.foldl (fun (events, e) call => ((e.step source call).1 :: events, (e.step source call).2))
    ([], e)

/-- The keys of the plans that were given since everything was last forgotten, the latest first. -/
def usedKeys : List Event → List PlanKey
  | .asked key true :: earlier => key :: usedKeys earlier
  | .asked _ false :: earlier => usedKeys earlier
  | .cleared :: _ => []
  | [] => []

/-- The most recently used distinct keys, as many as the capacity allows. -/
def recentKeys (size : Option Nat) (events : List Event) : List PlanKey :=
  upTo size (usedKeys events).eraseDups

/-- How often a plan was asked for. -/
def requests (events : List Event) : Nat :=
  events.countP fun
    | .asked .. => true
    | .cleared => false

/-! ### One call -/

/-- The engine keeps the plans of the most recently used keys and has counted every request. -/
structure Recent (options : Options) (events : List Event) (e : Engine) : Prop where
  options_eq : e.options = options
  capacity_eq : e.plans.store.capacity = options.capacity
  keys_eq : e.plans.store.keys = recentKeys options.planCapacity events
  counts_eq : e.plans.hits + e.plans.misses = requests events

variable {options : Options} {events : List Event} {e : Engine}

theorem recent_fresh (options : Options) (handlers : Handlers) :
    Recent options [] (fresh options handlers) :=
  ⟨rfl, rfl, (upTo_nil _).symm, rfl⟩

theorem recent_clear (h : Recent options events e) : Recent options (.cleared :: events) e.clear :=
  ⟨h.options_eq, h.capacity_eq, (upTo_nil _).symm, h.counts_eq⟩

/-- The ways of a request under a key, with what becomes of the plans. -/
inductive Outcome (plans : PlanCache) (key : PlanKey) : Result Plan → PlanCache → Prop where
  | hit {p : Plan} (found : plans.store.get? key = some p) :
    Outcome plans key (.ok p) ⟨plans.store.put key p, plans.hits + 1, plans.misses⟩
  | made {p : Plan} (missing : plans.store.get? key = none) :
    Outcome plans key (.ok p) ⟨plans.store.put key p, plans.hits, plans.misses + 1⟩
  | failed {err : Error} (missing : plans.store.get? key = none) :
    Outcome plans key (.error err) ⟨plans.store, plans.hits, plans.misses + 1⟩

theorem plan_outcome (e : Engine) (source : SchemaSource) (map : EntityMap) (r : PlanRequest) :
    Outcome e.plans (r.key map e.options.dialect) (e.plan source map r).1
        (e.plan source map r).2.plans ∧
      (e.plan source map r).2.options = e.options := by
  cases hget : e.plans.store.get? (r.key map e.options.dialect) with
  | some p =>
    have hplan : e.plan source map r = (.ok p, { e with plans :=
        ⟨e.plans.store.put (r.key map e.options.dialect) p, e.plans.hits + 1, e.plans.misses⟩ }) := by
      simp only [plan, cached, PlanCache.get, hget]
    rw [hplan]
    exact ⟨.hit hget, rfl⟩
  | none =>
    -- the columns of the table are looked for next, and that touches no plan
    cases hcolumns : (e.schemas.columns source (r.shape map).table).1 with
    | error err =>
      simp only [plan, cached, PlanCache.get, hget, columns, hcolumns, Except.mapError]
      exact ⟨.failed hget, trivial⟩
    | ok cs =>
      simp only [plan, cached, PlanCache.get, hget, columns, hcolumns, Except.mapError, build]
      cases hmake : Plan.make e.options e.handlers map r cs e.made with
      | error err => exact ⟨.failed hget, rfl⟩
      | ok p => exact ⟨.made hget, rfl⟩

/-- What a request does to the plans that are kept and to the counts. -/
structure Asked (options : Options) (events : List Event) (e : Engine) (key : PlanKey)
    (result : Result Plan) (e' : Engine) : Prop where
  options_eq : e'.options = options
  capacity_eq : e'.plans.store.capacity = options.capacity
  hits_eq : e'.plans.hits =
    e.plans.hits + if key ∈ recentKeys options.planCapacity events then 1 else 0
  misses_eq : e'.plans.misses =
    e.plans.misses + if key ∈ recentKeys options.planCapacity events then 0 else 1
  /-- A plan that is there is given. -/
  given : key ∈ recentKeys options.planCapacity events → result.isOk = true
  used : result.isOk = true →
    e'.plans.store.keys = upTo options.planCapacity (key :: usedKeys events).eraseDups
  /-- A request that fails leaves the plans and their order as they are. -/
  failed : result.isOk = false → e'.plans.store = e.plans.store

theorem asked_plan (h : Recent options events e) (source : SchemaSource) (map : EntityMap)
    (r : PlanRequest) :
    Asked options events e (r.key map options.dialect) (e.plan source map r).1
      (e.plan source map r).2 := by
  obtain ⟨houtcome, hoptions⟩ := plan_outcome e source map r
  have hkeys : e.plans.store.keys = upTo e.plans.store.limit (usedKeys events).eraseDups := by
    rw [RecentStore.upTo_limit h.capacity_eq]
    exact h.keys_eq
  have hput (p : Plan) := RecentStore.keys_put_of_keys_eq hkeys (r.key map options.dialect) p
  have hthere := e.plans.store.isSome_get? (r.key map options.dialect)
  simp only [RecentStore.upTo_limit h.capacity_eq] at hput
  rw [h.keys_eq] at hthere
  have hmissing (missing : e.plans.store.get? (r.key map options.dialect) = none) :
      r.key map options.dialect ∉ recentKeys options.planCapacity events := by
    rw [← hthere, missing]
    exact Bool.false_ne_true
  rw [h.options_eq] at houtcome hoptions
  generalize r.key map options.dialect = key at houtcome hput hthere hmissing ⊢
  generalize (e.plan source map r).1 = result at houtcome ⊢
  generalize (e.plan source map r).2 = e' at houtcome hoptions ⊢
  generalize hplans : e'.plans = plans' at houtcome
  cases houtcome with
  | hit found =>
    have hmem := hthere.mp (Option.isSome_iff_exists.mpr ⟨_, found⟩)
    refine ⟨hoptions, ?_, ?_, ?_, fun _ => rfl, fun _ => ?_, nofun⟩
    all_goals rw [hplans]
    · exact h.capacity_eq
    · rw [if_pos hmem]
    · rw [if_pos hmem]
      rfl
    · exact hput _
  | made missing =>
    have hmem := hmissing missing
    refine ⟨hoptions, ?_, ?_, ?_, fun hin => absurd hin hmem, fun _ => ?_, nofun⟩
    all_goals rw [hplans]
    · exact h.capacity_eq
    · rw [if_neg hmem]
      rfl
    · rw [if_neg hmem]
    · exact hput _
  | failed missing =>
    have hmem := hmissing missing
    refine ⟨hoptions, ?_, ?_, ?_, fun hin => absurd hin hmem, nofun, fun _ => ?_⟩
    all_goals rw [hplans]
    · exact h.capacity_eq
    · rw [if_neg hmem]
      rfl
    · rw [if_neg hmem]

theorem recent_step (h : Recent options events e) (source : SchemaSource) (call : Call) :
    Recent options ((e.step source call).1 :: events) (e.step source call).2 := by
  cases call with
  | clear => exact recent_clear h
  | plan map r =>
    have hasked := asked_plan h source map r
    have hkey : r.key map e.options.dialect = r.key map options.dialect := by rw [h.options_eq]
    have hcount : (e.plan source map r).2.plans.hits + (e.plan source map r).2.plans.misses =
        requests events + 1 := by
      rw [hasked.hits_eq, hasked.misses_eq, ← h.counts_eq]
      split <;> omega
    simp only [step, hkey]
    refine ⟨hasked.options_eq, hasked.capacity_eq, ?_, ?_⟩
    · cases hok : (e.plan source map r).1.isOk with
      | true => exact hasked.used hok
      | false =>
        rw [hasked.failed hok]
        exact h.keys_eq
    · rw [hcount, requests, requests, List.countP_cons_of_pos rfl]

/-! ### Any run -/

/-- **An engine keeps the plans of the most recently used keys**, whatever it was asked to do. -/
theorem recent_replay (options : Options) (handlers : Handlers) (source : SchemaSource)
    (calls : List Call) :
    Recent options ((fresh options handlers).replay source calls).1
      ((fresh options handlers).replay source calls).2 := by
  have hall : ∀ (calls : List Call) (events : List Event) (e : Engine), Recent options events e →
      Recent options
        (calls.foldl (fun (events, e) call =>
          ((e.step source call).1 :: events, (e.step source call).2)) (events, e)).1
        (calls.foldl (fun (events, e) call =>
          ((e.step source call).1 :: events, (e.step source call).2)) (events, e)).2 := by
    intro calls
    induction calls with
    | nil => exact fun _ _ h => h
    | cons call rest ih => exact fun events e h => ih _ _ (recent_step h source call)
  exact hall calls [] _ (recent_fresh options handlers)

/-- Every request in a run has its event. -/
theorem requests_replay (source : SchemaSource) (e : Engine) (calls : List Call) :
    requests (e.replay source calls).1 = calls.countP fun
      | .plan .. => true
      | .clear => false := by
  have hall : ∀ (calls : List Call) (events : List Event) (e : Engine),
      requests (calls.foldl (fun (events, e) call =>
          ((e.step source call).1 :: events, (e.step source call).2)) (events, e)).1 =
        requests events + calls.countP fun
          | .plan .. => true
          | .clear => false := by
    intro calls
    induction calls with
    | nil => exact fun _ _ => rfl
    | cons call rest ih =>
      intro events e
      rw [List.foldl_cons, ih]
      cases call with
      | plan map r =>
        rw [List.countP_cons_of_pos rfl, step, requests, requests, List.countP_cons_of_pos rfl]
        omega
      | clear =>
        rw [List.countP_cons_of_neg (by simp), step, requests, requests,
          List.countP_cons_of_neg (by simp)]
  rw [replay, hall, requests, List.countP_nil, Nat.zero_add]

/-- **A plan is there exactly when its key is among the most recently used ones.** After any run of an
engine, the plans that are kept are those of the distinct keys that were given a plan since everything
was last forgotten, the most recently used first and no more than the capacity, and every request of the
run was counted as a hit or as a miss. The next request finds its plan exactly when its key is one of
them; it counts as a hit then and otherwise as a miss, and if it fails, what is kept stays as it is, in
its order. -/
theorem hit_iff_recent (options : Options) (handlers : Handlers) (source : SchemaSource)
    (calls : List Call) :
    let (events, e) := (fresh options handlers).replay source calls
    e.plans.store.keys = recentKeys options.planCapacity events ∧
      (∀ c, options.planCapacity = some c → 0 < c → e.plans.store.size ≤ c) ∧
      e.plans.hits + e.plans.misses = calls.countP (fun
        | .plan .. => true
        | .clear => false) ∧
      ∀ (map : EntityMap) (r : PlanRequest),
        let recent := r.key map options.dialect ∈ recentKeys options.planCapacity events
        let (result, e') := e.plan source map r
        ((e.cached map r).1.isSome ↔ recent) ∧
          e'.plans.hits = e.plans.hits + (if recent then 1 else 0) ∧
          e'.plans.misses = e.plans.misses + (if recent then 0 else 1) ∧
          (recent → result.isOk = true) ∧
          (result.isOk = false → e'.plans.store = e.plans.store) := by
  have hrecent := recent_replay options handlers source calls
  have hcount := requests_replay source (fresh options handlers) calls
  generalize (fresh options handlers).replay source calls = run at hrecent hcount
  obtain ⟨events, e⟩ := run
  refine ⟨hrecent.keys_eq, fun c hc hpos => ?_, hrecent.counts_eq.trans hcount, fun map r => ?_⟩
  · rw [← RecentStore.length_keys, hrecent.keys_eq, recentKeys, hc]
    exact length_upTo_le hpos _
  · have hasked := asked_plan hrecent source map r
    refine ⟨?_, hasked.hits_eq, hasked.misses_eq, hasked.given, hasked.failed⟩
    have hthere := e.plans.store.isSome_get? (r.key map options.dialect)
    rw [hrecent.keys_eq] at hthere
    refine Iff.trans ?_ hthere
    unfold cached PlanCache.get
    rw [hrecent.options_eq]
    cases e.plans.store.get? (r.key map options.dialect) <;> exact Iff.rfl

end Engine

end EntitySql
