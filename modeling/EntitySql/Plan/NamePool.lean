/-!
# Pools of names

A pool keeps one copy of every name that it is given. A name stands for the place of its copy, so
equal names have equal places.
-/

namespace EntitySql

/-- The names of a pool in the order in which they came. -/
structure NamePool where
  names : List String

namespace NamePool

/-- The pool of no names. -/
def empty : NamePool := ⟨[]⟩

/-- The place of a name, which is added if it is new. -/
def intern (pool : NamePool) (name : String) : Nat × NamePool :=
  if name ∈ pool.names then (pool.names.findIdx fun n => n = name, pool)
  else (pool.names.length, ⟨pool.names ++ [name]⟩)

/-- The places of names. -/
def internAll (pool : NamePool) : List String → List Nat × NamePool
  | [] => ([], pool)
  | name :: rest =>
    let (i, pool) := pool.intern name
    let (is, pool) := pool.internAll rest
    (i :: is, pool)

/-- How many names there are. -/
def size (pool : NamePool) : Nat := pool.names.length

/-- Whether there are no names. -/
def isEmpty (pool : NamePool) : Bool := pool.names.isEmpty

end NamePool

end EntitySql
