import EntitySql.Schema.Cache
import Mathlib.Data.Set.Card

/-!
# What a cache of schemas keeps

A cache stands in front of the source of columns: columns are asked for, those of one table are
forgotten, or those of all tables. What it keeps can be told without it, from the calls alone. A table
is held, under its name in lower case, if the source has answered for it and nothing since has made the
cache forget it (`SchemaCache.Held`); of the calls that were answered since, the first one asked the
source.

One call keeps this up (`SchemaCache.agrees_perform`), so it holds of every run
(`SchemaCache.agrees_after`). The main statement, **`SchemaCache.columns_after`**, tells of any call
after any run what is answered, whether the source is asked, and how many tables are kept: the answer is
always that of the source, with parameter names assigned.
-/

namespace EntitySql

/-- The source gives the same columns for names that differ in case only. -/
def SchemaSource.IgnoresCase (source : SchemaSource) : Prop :=
  ∀ table other cs, Text.lower other = Text.lower table → source table = .ok cs →
    source other = .ok cs

theorem Catalog.source_ignoresCase (c : Catalog) : c.source.IgnoresCase := by
  intro table other cs hlower h
  unfold source at h ⊢
  rw [hlower]
  split at h
  · exact h
  · cases h

/-- A catalog fails only for a table that it does not have, and says under which name it was asked
for. -/
theorem Catalog.fault_of_source (c : Catalog) {table : String} {fault : SchemaFault}
    {f : List Column → List Column} (h : (c.source table).map f = .error fault) :
    fault = .tableNotFound table := by
  unfold source at h
  split at h
  · cases h
  · cases h
    rfl

namespace SchemaCache

/-! ### Calls -/

/-- What a cache is asked to do. -/
inductive Call where
  /-- The columns of a table are asked for. -/
  | columns (table : String)
  /-- The columns of a table are forgotten. -/
  | invalidate (table : String)
  /-- The columns of all tables are forgotten. -/
  | clear
deriving DecidableEq

/-- The call makes a cache forget the table of this name in lower case. -/
def Call.Forgets (name : String) : Call → Prop
  | .columns _ => False
  | .invalidate table => Text.lower table = name
  | .clear => True

/-- The call asks for the columns of the table of this name in lower case, and the source has them. -/
def Call.Answered (source : SchemaSource) (name : String) : Call → Prop
  | .columns table => Text.lower table = name ∧ ∃ cs, source table = .ok cs
  | .invalidate _ => False
  | .clear => False

/-- The cache after a call. -/
def perform (source : SchemaSource) (c : SchemaCache) : Call → SchemaCache
  | .columns table => (c.columns source table).2
  | .invalidate table => c.invalidate table
  | .clear => c.clear

/-- The cache after calls, one after the other. -/
def after (source : SchemaSource) (c : SchemaCache) (calls : List Call) : SchemaCache :=
  calls.foldl (perform source) c

/-- The columns of the table were asked for and answered, and nothing since has made a cache forget
them. The table is given by its name in lower case. -/
def Held (source : SchemaSource) (calls : List Call) (name : String) : Prop :=
  ∃ before call since, calls = before ++ call :: since ∧ call.Answered source name ∧
    ∀ later ∈ since, ¬later.Forgets name

variable {source : SchemaSource} {calls : List Call} {c : SchemaCache} {name table : String}

theorem not_held_nil : ¬Held source [] name := by
  rintro ⟨before, call, since, h, -⟩
  simp at h

/-- What is held after one call more. -/
theorem held_concat_iff {call : Call} :
    Held source (calls ++ [call]) name ↔
      call.Answered source name ∨ Held source calls name ∧ ¬call.Forgets name := by
  constructor
  · rintro ⟨before, answered, since, heq, hanswered, hsince⟩
    rcases List.eq_nil_or_concat since with rfl | ⟨since, last, rfl⟩
    · obtain ⟨-, rfl⟩ := List.append_singleton_inj.mp heq
      exact .inl hanswered
    · rw [List.concat_eq_append, ← List.cons_append, ← List.append_assoc] at heq
      obtain ⟨rfl, rfl⟩ := List.append_singleton_inj.mp heq
      simp only [List.concat_eq_append, List.mem_append, List.mem_singleton] at hsince
      exact .inr ⟨⟨before, answered, since, rfl, hanswered, fun later h => hsince later (.inl h)⟩,
        hsince _ (.inr rfl)⟩
  · rintro (hanswered | ⟨⟨before, answered, since, rfl, hanswered, hsince⟩, hcall⟩)
    · exact ⟨calls, call, [], rfl, hanswered, by simp⟩
    · refine ⟨before, answered, since ++ [call], by simp, hanswered, fun later h => ?_⟩
      rcases List.mem_append.mp h with h | h
      · exact hsince later h
      · rwa [List.mem_singleton.mp h]

theorem held_columns_iff :
    Held source (calls ++ [.columns table]) name ↔
      (Call.columns table).Answered source name ∨ Held source calls name := by
  rw [held_concat_iff]
  simp [Call.Forgets]

theorem held_invalidate_iff :
    Held source (calls ++ [.invalidate table]) name ↔
      Held source calls name ∧ Text.lower table ≠ name := by
  rw [held_concat_iff]
  simp [Call.Answered, Call.Forgets]

theorem not_held_clear : ¬Held source (calls ++ [.clear]) name := by
  rw [held_concat_iff]
  simp [Call.Answered, Call.Forgets]

/-! ### What is kept -/

/-- The names of the tables whose columns are kept. -/
def names (c : SchemaCache) : List String := c.entries.map Prod.fst

theorem mem_entries_of_lookup? {cs : List Column} (h : c.lookup? table = some cs) :
    (Text.lower table, cs) ∈ c.entries := by
  unfold lookup? at h
  split at h
  · obtain ⟨x, hx, rfl⟩ := Option.map_eq_some_iff.mp h
    have hname : x.1 = Text.lower table := by simpa using List.find?_some hx
    rw [← hname]
    exact List.mem_of_find?_eq_some hx
  · cases h

theorem lookup?_eq_none_iff (he : c.enabled = true) :
    c.lookup? table = none ↔ Text.lower table ∉ c.names := by
  rw [lookup?, if_pos he, Option.map_eq_none_iff, List.find?_eq_none, names, List.mem_map]
  constructor
  · rintro h ⟨x, hx, hname⟩
    exact h x hx (by simpa using hname)
  · intro h x hx hname
    exact h ⟨x, hx, by simpa using hname⟩

/-- The cache keeps the columns of the tables that are held after these calls, each once. -/
structure Agrees (source : SchemaSource) (calls : List Call) (c : SchemaCache) : Prop where
  enabled : c.enabled = true
  nodup : c.names.Nodup
  held : ∀ name, name ∈ c.names ↔ Held source calls name
  columns : ∀ x ∈ c.entries, ∀ table, Text.lower table = x.1 →
    (source table).map Column.assignNames = .ok x.2

theorem agrees_empty (source : SchemaSource) : Agrees source [] (empty true) :=
  ⟨rfl, List.nodup_nil, fun name => by simp [names, empty, not_held_nil], by simp [empty]⟩

/-- Columns that are kept are given back, and the cache stays as it is. -/
theorem columns_of_lookup? {cs : List Column} (h : c.lookup? table = some cs) :
    c.columns source table = (.ok cs, c) := by
  rw [SchemaCache.columns, h]

/-- Columns that are not kept are fetched. -/
theorem columns_of_source {cs : List Column} (h : c.lookup? table = none)
    (hsource : source table = .ok cs) :
    c.columns source table =
      (.ok (Column.assignNames cs), c.asked.keep table (Column.assignNames cs)) := by
  rw [SchemaCache.columns, h, hsource]

/-- What is kept after columns were fetched is theirs, or was kept. -/
theorem mem_entries_of_keep {cs : List Column} {x : String × List Column}
    (hx : x ∈ (c.keep table cs).entries) : x = (Text.lower table, cs) ∨ x ∈ c.entries := by
  unfold keep at hx
  split at hx
  · exact List.mem_cons.mp hx
  · exact .inr hx

/-- A table that the source does not know leaves nothing but the count. -/
theorem columns_of_fault {fault : SchemaFault} (h : c.lookup? table = none)
    (hsource : source table = .error fault) :
    c.columns source table = (.error fault, c.asked) := by
  rw [SchemaCache.columns, h, hsource]

namespace Agrees

/-- The table is kept if and only if it is held. -/
theorem lookup?_eq_none_iff (h : Agrees source calls c) :
    c.lookup? table = none ↔ ¬Held source calls (Text.lower table) := by
  rw [SchemaCache.lookup?_eq_none_iff h.enabled, h.held]

/-- The source has answered for a table that is held. -/
theorem source_of_lookup? (h : Agrees source calls c) {cs : List Column}
    (hkept : c.lookup? table = some cs) : (source table).map Column.assignNames = .ok cs :=
  h.columns _ (mem_entries_of_lookup? hkept) table rfl

theorem columns_call (hs : source.IgnoresCase) (h : Agrees source calls c) (table : String) :
    Agrees source (calls ++ [.columns table]) (c.columns source table).2 := by
  cases hkept : c.lookup? table with
  | some cs =>
    -- nothing is new: the table is held already
    have hheld : Held source calls (Text.lower table) := by
      rw [← h.held, names, List.mem_map]
      exact ⟨_, mem_entries_of_lookup? hkept, rfl⟩
    rw [columns_of_lookup? hkept]
    refine ⟨h.enabled, h.nodup, fun name => ?_, h.columns⟩
    rw [h.held, held_columns_iff]
    constructor
    · exact .inr
    · rintro (⟨rfl, -⟩ | hname)
      · exact hheld
      · exact hname
  | none =>
    cases hsource : source table with
    | error fault =>
      rw [columns_of_fault hkept hsource]
      refine ⟨h.enabled, h.nodup, fun name => ?_, h.columns⟩
      have hnot : ¬(Call.columns table).Answered source name := by
        rintro ⟨-, cs, hcs⟩
        rw [hsource] at hcs
        cases hcs
      rw [held_columns_iff, or_iff_right hnot]
      exact h.held name
    | ok cs =>
      rw [columns_of_source hkept hsource, keep, if_pos (show c.asked.enabled = true from h.enabled)]
      refine ⟨h.enabled, ?_, fun name => ?_, fun x hx other hother => ?_⟩
      · exact List.nodup_cons.mpr ⟨(SchemaCache.lookup?_eq_none_iff h.enabled).mp hkept, h.nodup⟩
      · have hanswered : (Call.columns table).Answered source name ↔ name = Text.lower table :=
          ⟨fun hname => hname.1.symm, fun hname => ⟨hname.symm, cs, hsource⟩⟩
        rw [held_columns_iff, hanswered, ← h.held]
        exact List.mem_cons
      · rcases List.mem_cons.mp hx with rfl | hx
        · rw [hs table other cs hother hsource]
          rfl
        · exact h.columns x hx other hother

theorem invalidate_call (h : Agrees source calls c) (table : String) :
    Agrees source (calls ++ [.invalidate table]) (c.invalidate table) := by
  have hnames : (c.invalidate table).names = c.names.filter fun name => name ≠ Text.lower table := by
    rw [names, invalidate, names, List.filter_map]
    rfl
  refine ⟨h.enabled, ?_, fun name => ?_, fun x hx => h.columns x (List.mem_filter.mp hx).1⟩
  · rw [hnames]
    exact h.nodup.filter _
  · rw [hnames, List.mem_filter, h.held, held_invalidate_iff, decide_eq_true_eq, ne_comm]

theorem clear_call (h : Agrees source calls c) : Agrees source (calls ++ [.clear]) c.clear := by
  refine ⟨h.enabled, List.nodup_nil, fun name => ?_, fun x hx => by cases hx⟩
  exact iff_of_false List.not_mem_nil not_held_clear

end Agrees

/-- **What is kept after one call more is what is held after it.** -/
theorem agrees_perform (hs : source.IgnoresCase) (h : Agrees source calls c) (call : Call) :
    Agrees source (calls ++ [call]) (c.perform source call) := by
  cases call with
  | columns table => exact h.columns_call hs table
  | invalidate table => exact h.invalidate_call table
  | clear => exact h.clear_call

/-- What is kept after any calls is what is held after them. -/
theorem agrees_after (hs : source.IgnoresCase) (calls : List Call) :
    Agrees source calls ((empty true).after source calls) := by
  induction calls using List.reverseRecOn with
  | nil => exact agrees_empty source
  | append_singleton calls call ih =>
    rw [after, List.foldl_concat]
    exact agrees_perform hs ih call

/-- As many tables are kept as are held. -/
theorem Agrees.size_eq (h : Agrees source calls c) :
    c.size = {name | Held source calls name}.ncard := by
  have hset : {name | Held source calls name} = c.names.toFinset := by
    ext name
    simp [h.held]
  rw [hset, Set.ncard_coe_finset, List.toFinset_card_of_nodup h.nodup, names, List.length_map, size]

/-- A cache that is turned off keeps nothing. -/
theorem entries_after_disabled (source : SchemaSource) (calls : List Call) :
    ((empty false).after source calls).enabled = false ∧
      ((empty false).after source calls).entries = [] := by
  induction calls using List.reverseRecOn with
  | nil => exact ⟨rfl, rfl⟩
  | append_singleton calls call ih =>
    rw [after, List.foldl_concat, ← after]
    generalize (empty false).after source calls = c at ih ⊢
    obtain ⟨henabled, hentries⟩ := ih
    cases call with
    | columns table =>
      have hkept : c.lookup? table = none := by simp [lookup?, henabled]
      cases hsource : source table with
      | ok cs =>
        rw [perform, columns_of_source hkept hsource]
        simp [keep, asked, henabled, hentries]
      | error fault =>
        rw [perform, columns_of_fault hkept hsource]
        exact ⟨henabled, hentries⟩
    | invalidate table => simp [perform, invalidate, henabled, hentries]
    | clear => exact ⟨henabled, rfl⟩

/-! ### Any call after any run -/

/-- Columns that are not kept are asked for, and what the source answers is given back. -/
theorem columns_unkept (source : SchemaSource) (h : c.lookup? table = none) :
    (c.columns source table).1 = (source table).map Column.assignNames ∧
      (c.columns source table).2.fetches = c.fetches + 1 := by
  cases hsource : source table with
  | ok cs =>
    rw [columns_of_source h hsource]
    refine ⟨rfl, ?_⟩
    unfold keep
    split <;> rfl
  | error fault =>
    rw [columns_of_fault h hsource]
    exact ⟨rfl, rfl⟩

/-- A failure keeps nothing. -/
theorem entries_columns_of_error {fault : SchemaFault}
    (h : (c.columns source table).1 = .error fault) :
    (c.columns source table).2.entries = c.entries := by
  cases hkept : c.lookup? table with
  | some cs => rw [columns_of_lookup? hkept]
  | none =>
    cases hsource : source table with
    | ok cs =>
      rw [columns_of_source hkept hsource] at h
      cases h
    | error fault' =>
      rw [columns_of_fault hkept hsource]
      rfl

/-- Over a table that is held the source is not asked, and otherwise once; the answer is the same. -/
theorem Agrees.columns_spec (h : Agrees source calls c) (table : String) :
    (c.columns source table).1 = (source table).map Column.assignNames ∧
      (Held source calls (Text.lower table) → (c.columns source table).2.fetches = c.fetches) ∧
      (¬Held source calls (Text.lower table) →
        (c.columns source table).2.fetches = c.fetches + 1) := by
  cases hkept : c.lookup? table with
  | some cs =>
    have hheld : Held source calls (Text.lower table) := by
      by_contra hnot
      rw [h.lookup?_eq_none_iff.mpr hnot] at hkept
      cases hkept
    rw [columns_of_lookup? hkept]
    exact ⟨(h.source_of_lookup? hkept).symm, fun _ => rfl, fun hnot => absurd hheld hnot⟩
  | none =>
    obtain ⟨hanswer, hfetches⟩ := columns_unkept source hkept
    have hnot := h.lookup?_eq_none_iff.mp hkept
    exact ⟨hanswer, fun hheld => absurd hheld hnot, fun _ => hfetches⟩

/-- **A cache answers as its source does, and asks it only for what is not held.** After any calls, the
columns of any table are those of the catalog, with parameter names assigned, or the catalog's fault for
that very name, which keeps nothing. The count of fetches starts at zero and goes up, by one, unless the
cache is turned on and the table is held; no other call changes it. As many tables are kept as are held,
and none where the cache is turned off. -/
theorem columns_after (catalog : Catalog) (enabled : Bool) (calls : List Call) (table : String) :
    let source := catalog.source
    let c := (empty enabled).after source calls
    let held := enabled = true ∧ Held source calls (Text.lower table)
    (c.columns source table).1 = (source table).map Column.assignNames ∧
    (∀ fault, (c.columns source table).1 = .error fault →
      fault = .tableNotFound table ∧ (c.columns source table).2.entries = c.entries) ∧
    (empty enabled).fetches = 0 ∧
    (held → (c.columns source table).2.fetches = c.fetches) ∧
    (¬held → (c.columns source table).2.fetches = c.fetches + 1) ∧
    (c.invalidate table).fetches = c.fetches ∧ c.clear.fetches = c.fetches ∧
    c.size = if enabled then {name | Held source calls name}.ncard else 0 := by
  intro source c held
  have hfault : ∀ fault, (source table).map Column.assignNames = .error fault →
      fault = .tableNotFound table := fun fault => catalog.fault_of_source
  cases enabled with
  | true =>
    have hagrees : Agrees source calls c := agrees_after catalog.source_ignoresCase calls
    obtain ⟨hanswer, hheld, hnot⟩ := hagrees.columns_spec table
    refine ⟨hanswer, fun fault h => ⟨hfault fault (hanswer ▸ h), entries_columns_of_error h⟩, rfl,
      fun h => hheld h.2, fun h => hnot fun hname => h ⟨rfl, hname⟩, rfl, rfl, hagrees.size_eq⟩
  | false =>
    obtain ⟨henabled, hentries⟩ := entries_after_disabled source calls
    have hkept : c.lookup? table = none := by simp [lookup?, c, henabled]
    obtain ⟨hanswer, hfetches⟩ := columns_unkept source hkept
    refine ⟨hanswer, fun fault h => ⟨hfault fault (hanswer ▸ h), entries_columns_of_error h⟩, rfl,
      fun h => absurd h.1 (by simp), fun _ => hfetches, rfl, rfl, ?_⟩
    simp [size, c, hentries]

example : ((empty true).after (Catalog.empty.add .table "Person" []).source
    [.columns "Person", .columns "PERSON", .columns "Ghost", .invalidate "person",
      .columns "Person"]).fetches = 3 := by rfl

end SchemaCache

end EntitySql
