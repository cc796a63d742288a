import EntitySql.Proofs.Sql.Building
import EntitySql.Proofs.Sql.Placeholders
import EntitySql.Proofs.Sql.Statement

/-!
# What statements write and what is bound

The builder decides operation by operation which columns it writes, and the binder sets the parameters
of the bound columns for every row and those of the filter. **`Renders`** says that the two agree: what
is written in the placeholders of some statements is bound by these columns, rows and filter (`sound`),
what is bound is written (`complete`), and the filter stands in one of the statements as a whole
(`filtered`).

A selection of the key of a row just written names the parameter of the key of the table, not of the
column that was asked for, so it is bound if these two are one column
(`mem_boundNames_of_mem_keyNames`).
-/

namespace EntitySql.Sql

/-! ### Rendering -/

/-- The parameter names of columns in rows. -/
def boundNames (inputs : List Column) (rows : List (Option Nat)) : List String :=
  rows.flatMap fun row => inputs.map fun c => c.parameterAt row

/-- The names under which rows are asked for the key of the table, if it is bound under any name. -/
def keyNames (r : Request) (inputs : List Column) (rows : List (Option Nat)) : List String :=
  match r.key with
  | some key => if Request.contains inputs key then rows.map key.parameterAt else []
  | none => []

/-- The statements write what these columns, rows and filter bind. -/
structure Renders (r : Request) (inputs : List Column) (rows : List (Option Nat))
    (filter : Option SearchCondition) (ss : List Statement) : Prop where
  clean : ∀ s ∈ ss, s.Clean
  sound : ∀ name ∈ statementParameters ss,
    name ∈ boundNames inputs rows ++ filterParameters filter ∨ name ∈ keyNames r inputs rows
  complete : ∀ name ∈ boundNames inputs rows ++ filterParameters filter,
    name ∈ statementParameters ss
  filtered : ∀ c, filter = some c → ∃ s ∈ ss, s.filter? = some c

/-- The rows of a batch, or the only row. -/
def rowsOf (batch : Option Nat) : List (Option Nat) :=
  match batch with
  | some n => (List.range n).map some
  | none => [none]

/-- A batch and a single row are built alike, row after row. -/
theorem eachRow_eq_flatMap (batch : Option Nat) (f : Option Nat → List Statement) :
    eachRow batch f = (rowsOf batch).flatMap f := by
  cases batch with
  | none => exact (List.flatMap_singleton f none).symm
  | some n => exact (List.flatMap_map some f (List.range n)).symm

theorem mem_boundNames {inputs : List Column} {rows : List (Option Nat)} {name : String} :
    name ∈ boundNames inputs rows ↔ ∃ row ∈ rows, ∃ c ∈ inputs, c.parameterAt row = name := by
  simp [boundNames]

/-- The key is bound where it is the column of its name that was asked for. -/
theorem mem_boundNames_of_mem_keyNames {r : Request} {inputs : List Column}
    {rows : List (Option Nat)} (hk : r.KeyApart) (hinputs : ∀ c ∈ inputs, c ∈ r.fields)
    {name : String} (h : name ∈ keyNames r inputs rows) : name ∈ boundNames inputs rows := by
  unfold keyNames at h
  split at h
  · next key hkey =>
    split at h
    · next hcontains =>
      obtain ⟨c, hc, hnamed⟩ := List.any_eq_true.mp hcontains
      obtain rfl := hk key hkey c (hinputs c hc) hnamed
      obtain ⟨row, hrow, rfl⟩ := List.mem_map.mp h
      exact mem_boundNames.mpr ⟨row, hrow, c, hc, rfl⟩
    · cases h
  · cases h

theorem mem_boundNames_one {inputs : List Column} {row : Option Nat} {name : String} :
    name ∈ boundNames inputs [row] ↔ ∃ c ∈ inputs, c.parameterAt row = name := by
  simp [boundNames]

theorem keyNames_mono {r : Request} {inputs : List Column} {rows : List (Option Nat)}
    {row : Option Nat} (hrow : row ∈ rows) {name : String} (h : name ∈ keyNames r inputs [row]) :
    name ∈ keyNames r inputs rows := by
  unfold keyNames at h ⊢
  split at h
  · split at h
    · next hcontains =>
      rw [if_pos hcontains, List.mem_singleton.mp h]
      exact List.mem_map_of_mem hrow
    · cases h
  · cases h

theorem append_filterParameters_none (names : List String) :
    names ++ filterParameters none = names :=
  List.append_nil names

/-- A statement whose parameters are those that are bound, one after the other, without a filter. -/
theorem Renders.one {r : Request} {inputs : List Column} {rows : List (Option Nat)} {s : Statement}
    (hclean : s.Clean) (h : s.parameters = boundNames inputs rows) :
    Renders r inputs rows none [s] := by
  have hone : statementParameters [s] = s.parameters := List.flatMap_singleton _ _
  refine ⟨by simpa using hclean, fun name hname => .inl ?_, fun name hname => ?_,
    fun c hc => by cases hc⟩
  · rw [append_filterParameters_none, ← h, ← hone]
    exact hname
  · rw [append_filterParameters_none] at hname
    rw [hone, h]
    exact hname

/-- A statement that binds its columns for one row and then its filter. -/
theorem Renders.of_filter {r : Request} {inputs : List Column} {row : Option Nat} {s : Statement}
    {filter : Option SearchCondition} (hclean : s.Clean)
    (h : s.parameters = boundNames inputs [row] ++ filterParameters filter)
    (hfilter : ∀ c, filter = some c → s.filter? = some c) : Renders r inputs [row] filter [s] := by
  have hone : statementParameters [s] = s.parameters := List.flatMap_singleton _ _
  refine ⟨by simpa using hclean, fun name hname => .inl ?_, fun name hname => ?_, fun c hc => ?_⟩
  · rw [← h, ← hone]
    exact hname
  · rw [hone, h]
    exact hname
  · exact ⟨s, List.mem_singleton_self s, hfilter c hc⟩

/-- Statements for row after row write what all rows bind. -/
theorem Renders.eachRow {r : Request} {inputs : List Column} {f : Option Nat → List Statement}
    (h : ∀ row, Renders r inputs [row] none (f row)) (batch : Option Nat) :
    Renders r inputs (rowsOf batch) none (eachRow batch f) := by
  rw [eachRow_eq_flatMap]
  refine ⟨fun s hs => ?_, fun name hname => ?_, fun name hname => ?_, fun c hc => by cases hc⟩
  · obtain ⟨row, -, hs⟩ := List.mem_flatMap.mp hs
    exact (h row).clean s hs
  · obtain ⟨s, hs, hname⟩ := List.mem_flatMap.mp hname
    obtain ⟨row, hrow, hs⟩ := List.mem_flatMap.mp hs
    rcases (h row).sound name (List.mem_flatMap.mpr ⟨s, hs, hname⟩) with hbound | hkey
    · rw [append_filterParameters_none, mem_boundNames_one] at hbound
      rw [append_filterParameters_none, mem_boundNames]
      exact .inl ⟨row, hrow, hbound⟩
    · exact .inr (keyNames_mono hrow hkey)
  · rw [append_filterParameters_none, mem_boundNames] at hname
    obtain ⟨row, hrow, hname⟩ := hname
    have hone := (h row).complete name (by rwa [append_filterParameters_none, mem_boundNames_one])
    obtain ⟨s, hs, hname⟩ := List.mem_flatMap.mp hone
    exact List.mem_flatMap.mpr ⟨s, List.mem_flatMap.mpr ⟨row, hrow, hs⟩, hname⟩

/-! ### Values of columns -/

theorem parameters_placeholders (columns : List Column) (row : Option Nat) :
    (placeholders columns row).flatMap Operand.parameters =
      columns.map fun c => c.parameterAt row := by
  induction columns with
  | nil => rfl
  | cons c rest ih =>
    simp only [placeholders, List.map_cons, List.flatMap_cons] at ih ⊢
    rw [ih]
    rfl

theorem clean_placeholders (columns : List Column) (row : Option Nat) :
    ∀ v ∈ placeholders columns row, v.Clean := by
  intro v hv
  obtain ⟨c, -, rfl⟩ := List.mem_map.mp hv
  trivial

theorem parameters_insertValues (columns : List Column) (row : Option Nat) :
    (insertValues columns row).flatMap Operand.parameters =
      columns.map fun c => c.parameterAt row := by
  induction columns with
  | nil => rfl
  | cons c rest ih =>
    simp only [insertValues, List.map_cons, List.flatMap_cons] at ih ⊢
    rw [ih]
    split <;> rfl

theorem clean_insertValues (columns : List Column) (row : Option Nat) :
    ∀ v ∈ insertValues columns row, v.Clean := by
  intro v hv
  obtain ⟨c, -, rfl⟩ := List.mem_map.mp hv
  split <;> trivial

theorem parameters_assignments (columns : List Column) (row : Option Nat) :
    assignedParameters (assignments columns row) = columns.map fun c => c.parameterAt row := by
  induction columns with
  | nil => rfl
  | cons c rest ih =>
    simp only [assignedParameters, assignments, List.map_cons, List.flatMap_cons] at ih ⊢
    rw [ih]
    rfl

theorem clean_assignments (columns : List Column) (row : Option Nat) :
    ∀ x ∈ assignments columns row, x.value.Clean := by
  intro x hx
  obtain ⟨c, -, rfl⟩ := List.mem_map.mp hx
  trivial

theorem parameters_keyCondition (keys : List Column) (row : Option Nat) :
    filterParameters (some (keyCondition keys row)) = keys.map fun k => k.parameterAt row := by
  have hkeys : ∀ keys : List Column, ((SearchCondition.fragmentsOf
      (keys.map fun k => .compare [k.name] .equal true (k.parameterAt row))).map
        Fragments.placeholders).flatten = keys.map fun k => k.parameterAt row := by
    intro keys
    induction keys with
    | nil => rfl
    | cons k rest ih =>
      simp only [List.map_cons, SearchCondition.fragmentsOf, List.flatten_cons, ih,
        SearchCondition.fragments, placeholders_comparison]
      simp
  simp [filterParameters, keyCondition, SearchCondition.ofKeys, SearchCondition.fragments,
    placeholders_bracketed, placeholders_joined, hkeys]

theorem hints_tableRef {r : Request} (h : r.hints = none) (d : Dialect) :
    (tableRef d r).hints = none := by
  unfold tableRef
  rw [h]

/-! ### Filters -/

/-- The filter of a request is written if it has any item. -/
theorem activeCondition_eq (r : Request) (reserved : List String) :
    activeCondition r.predicate reserved =
      r.activePredicate.map fun g => .ofGroup g reserved := by
  unfold activeCondition Request.activePredicate
  cases r.predicate with
  | none => rfl
  | some g => cases hg : g.isEmpty <;> simp [hg]

theorem filterParameters_ofGroup (g : Group) (reserved : List String) :
    filterParameters (some (.ofGroup g reserved)) = (g.parameterNames reserved).flatten := by
  simp [filterParameters, placeholders_ofGroup]

theorem activeCondition_none {r : Request} (h : r.activePredicate = none) (reserved : List String) :
    activeCondition r.predicate reserved = none := by
  rw [activeCondition_eq, h]
  rfl

end EntitySql.Sql
