import EntitySql.Plan.Basic

/-!
# The cache of plans

A `RecentStore` keeps values under keys, the most recently used first, and no more of them than its
capacity: a new value drives out the one that was not used for the longest time. The cache of plans
is such a store together with the counts of hits and misses.
-/

namespace EntitySql

/-- The greatest number of values that a store keeps. -/
abbrev Capacity := { n : Nat // 0 < n }

/-- Values under keys, the most recently used first. -/
structure RecentStore (κ α : Type) where
  /-- The greatest number of values; without it all are kept. -/
  capacity : Option Capacity
  entries : List (κ × α)

namespace RecentStore

variable {κ α : Type} [DecidableEq κ]

/-- The store of nothing. -/
def empty (capacity : Option Capacity) : RecentStore κ α := ⟨capacity, []⟩

/-- The value under a key. -/
def get? (s : RecentStore κ α) (key : κ) : Option α :=
  (s.entries.find? fun (k, _) => k = key).map Prod.snd

/-- The entries without that of a key. -/
def without (s : RecentStore κ α) (key : κ) : List (κ × α) := s.entries.filter fun (k, _) => k ≠ key

/-- The entries that the capacity allows. -/
def cut (s : RecentStore κ α) (entries : List (κ × α)) : List (κ × α) :=
  match s.capacity with
  | some n => entries.take n
  | none => entries

/-- Puts a value under a key, as the most recently used one. -/
def put (s : RecentStore κ α) (key : κ) (a : α) : RecentStore κ α :=
  { s with entries := s.cut ((key, a) :: s.without key) }

/-- Forgets all values. -/
def clear (s : RecentStore κ α) : RecentStore κ α := { s with entries := [] }

/-- How many values there are. -/
def size (s : RecentStore κ α) : Nat := s.entries.length

end RecentStore

/-- The capacity for plans. Where none or zero is given, all plans are kept. -/
def Options.capacity (options : Options) : Option Capacity :=
  options.planCapacity.bind fun n => if h : 0 < n then some ⟨n, h⟩ else none

/-- Plans that have been made, and how often one was there when it was asked for. -/
structure PlanCache where
  store : RecentStore PlanKey Plan
  hits : Nat
  misses : Nat

namespace PlanCache

/-- The cache before any plan is made. -/
def empty (capacity : Option Capacity) : PlanCache := ⟨.empty capacity, 0, 0⟩

/-- The plan of a key, which counts as used; a hit or a miss is counted. -/
def get (c : PlanCache) (key : PlanKey) : Option Plan × PlanCache :=
  match c.store.get? key with
  | some p => (some p, { c with store := c.store.put key p, hits := c.hits + 1 })
  | none => (none, { c with misses := c.misses + 1 })

/-- Keeps a plan. -/
def publish (c : PlanCache) (key : PlanKey) (p : Plan) : PlanCache :=
  { c with store := c.store.put key p }

/-- Forgets all plans; the counts stay. -/
def clear (c : PlanCache) : PlanCache := { c with store := c.store.clear }

end PlanCache

end EntitySql
