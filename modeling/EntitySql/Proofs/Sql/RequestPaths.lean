import EntitySql.Proofs.Sql.Restriction
import EntitySql.Proofs.Sql.StatementPaths

/-!
# The names of a request in its statements

The builder takes the columns of a request from two places. Those asked for are known as columns, and
their names are quoted as a whole wherever they are listed, set, matched or given back. The fields of
the filter and of the order and the aggregated field are names as they were typed, and these are quoted
part by part like the name of the table.

`Request.Mentions` says which paths that makes, and `Describes` that statements have no others and all
that the operation calls for. The condition of a filter names the columns that the filter tests
(**`paths_ofGroup`**), and that of a key its columns.
-/

namespace EntitySql

/-! ### The names of a request -/

/-- The columns that a filter tests. A test against an empty list does not name its column. -/
def Group.testedNames (g : Group) : List String :=
  (g.conditions.filter fun c => c.nameCount ≠ some (some 0)).map fun c => c.field.name

namespace Request

/-- The columns that the filter of the request tests. -/
def testedNames (r : Request) : List String := r.activePredicate.elim [] Group.testedNames

theorem testedNames_of_none {r : Request} (h : r.activePredicate = none) : r.testedNames = [] := by
  rw [testedNames, h, Option.elim_none]

theorem testedNames_of_some {r : Request} {g : Group} (h : r.activePredicate = some g) :
    r.testedNames = g.testedNames := by
  rw [testedNames, h, Option.elim_some]

/-- The names that an operation writes in parts, besides the table. -/
def namesInParts (r : Request) : Operation → List String
  | .query _ | .pagedQuery .. | .skipQuery .. => r.testedNames ++ r.orderBy.map OrderField.name
  | .update | .delete | .exists | .count => r.testedNames
  | .aggregate _ field => field :: r.testedNames
  | _ => []

/-- The columns that an operation lists, sets or matches. -/
def listedColumns (r : Request) : Operation → Result (List Column)
  | .query _ | .pagedQuery .. | .skipQuery .. => .ok r.fields
  | .merge | .mergeAll _ => r.mergeColumns.map fun m => m.keys ++ m.writable
  | op => r.boundColumns op

end Request

namespace Sql

/-- The names that the builder gives to columns of results. -/
def ownNames : List String :=
  [resultColumn, orderColumn, sourceOrderColumn, rowNumberColumn, "ExistsValue", "CountValue"] ++
    [Aggregate.min, .max, .sum, .avg].map Aggregate.resultColumn

end Sql

/-- What the names of a request become in the statements of an operation: the table and the names of
the filter and the order in parts, and the columns as a whole. -/
inductive Request.Mentions (r : Request) (op : Operation) : List String → Prop
  | table : r.Mentions op (Sql.nameParts r.table)
  | inParts {name : String} (h : name ∈ r.namesInParts op) : r.Mentions op (Sql.nameParts name)
  | column {c : Column} (h : c ∈ r.fields ++ r.tableColumns) : r.Mentions op [c.name]
  | own {name : String} (h : name ∈ Sql.ownNames) : r.Mentions op [name]

namespace Sql

variable {d : Dialect} {op : Operation} {r : Request} {listed : List Column} {ss : List Statement}

/-! ### The paths of filters and keys -/

theorem paths_ofCondition {c : Condition} {names : List String}
    (h : names.length = c.boundValues.length) :
    (SearchCondition.ofCondition c names).paths =
      if c.nameCount ≠ some (some 0) then [nameParts c.field.name] else [] := by
  unfold SearchCondition.ofCondition Condition.nameCount
  unfold Condition.boundValues at h
  cases hn : c.operator.isNullCheck with
  | true => simp [SearchCondition.paths]
  | false =>
    cases hl : c.operator.isList with
    | false => simp [SearchCondition.paths]
    | true =>
      rw [hn, hl] at h
      simp only [Bool.false_eq_true, if_false, if_true] at h ⊢
      rw [SearchCondition.paths]
      cases names with
      | nil =>
        have hzero : c.listValues.length = 0 := h.symm
        simp [hzero]
      | cons name rest =>
        have hne : c.listValues.length ≠ 0 := by
          rw [← h]
          simp
        simp [hne]

/-- The columns that conditions test, in parts. -/
def testedPaths (cs : List Condition) : List (List String) :=
  cs.flatMap fun c => if c.nameCount ≠ some (some 0) then [nameParts c.field.name] else []

mutual
/-- The condition of a predicate names the columns that the predicate tests. -/
theorem paths_ofPredicate :
    ∀ (p : Predicate) {names : List (List String)} (rest : List (List String)),
      Named p.conditions names →
        (SearchCondition.ofPredicate (names ++ rest) p).1.paths = testedPaths p.conditions
  | .condition c, names, rest, h => by
    obtain ⟨ns, _, hns, hnil, rfl⟩ := List.forall₂_cons_left_iff.mp h
    cases hnil
    have hpaths := paths_ofCondition hns
    simpa [SearchCondition.ofPredicate, testedPaths, Predicate.conditions] using hpaths
  | .group conjunction negated items, names, rest, h => by
    simp only [SearchCondition.ofPredicate, SearchCondition.paths]
    exact paths_ofPredicates items rest h

theorem paths_ofPredicates :
    ∀ (ps : List Predicate) {names : List (List String)} (rest : List (List String)),
      Named (Predicate.conditionsOf ps) names →
        SearchCondition.pathsOf (SearchCondition.ofPredicates (names ++ rest) ps).1 =
          testedPaths (Predicate.conditionsOf ps)
  | [], names, rest, h => by
    cases h
    rfl
  | p :: ps, names, rest, h => by
    obtain ⟨ns, ms, rfl, hns, hms⟩ := forall₂_append_left h
    simp only [SearchCondition.ofPredicates, SearchCondition.pathsOf]
    rw [List.append_assoc, paths_ofPredicate p (ms ++ rest) hns,
      ofPredicate_rest p (ms ++ rest) hns, paths_ofPredicates ps rest hms]
    exact List.flatMap_append.symm
end

theorem testedPaths_conditions (g : Group) :
    testedPaths g.conditions = g.testedNames.map nameParts := by
  unfold Group.testedNames testedPaths
  induction g.conditions with
  | nil => rfl
  | cons c rest ih =>
    rw [List.flatMap_cons, ih]
    by_cases hc : c.nameCount ≠ some (some 0)
    · rw [if_pos hc, List.filter_cons_of_pos (by simpa using hc)]
      rfl
    · rw [if_neg hc, List.filter_cons_of_neg (by simpa using hc)]
      rfl

/-- **The condition of a filter names the columns that the filter tests**, in parts. -/
theorem paths_ofGroup (g : Group) (reserved : List String) :
    (SearchCondition.ofGroup g reserved).paths = g.testedNames.map nameParts := by
  have h := paths_ofPredicate g.toPredicate []
    (forall₂_conditionNames (reserved.map Text.lower) g.conditions)
  rw [List.append_nil] at h
  rw [← testedPaths_conditions]
  exact h

theorem filterPaths_activeCondition (r : Request) (reserved : List String) :
    filterPaths (activeCondition r.predicate reserved) = r.testedNames.map nameParts := by
  rw [activeCondition_eq, Request.testedNames]
  cases r.activePredicate with
  | none => rfl
  | some g => exact paths_ofGroup g reserved

theorem proper_activeCondition (r : Request) (reserved : List String) :
    ∀ c, activeCondition r.predicate reserved = some c → c.Proper := by
  intro c hc
  rw [activeCondition_eq] at hc
  obtain ⟨g, -, rfl⟩ := Option.map_eq_some_iff.mp hc
  exact ofPredicate_proper _ _

theorem paths_keyCondition (keys : List Column) (row : Option Nat) :
    (keyCondition keys row).paths = wholePaths (columnNames keys) := by
  show SearchCondition.pathsOf _ = _
  induction keys with
  | nil => rfl
  | cons k rest ih => exact congrArg (fun paths => [k.name] :: paths) ih

theorem proper_keyCondition (keys : List Column) (row : Option Nat) :
    (keyCondition keys row).Proper := by
  show SearchCondition.AllProper _
  induction keys with
  | nil => trivial
  | cons k rest ih => exact ⟨⟨List.cons_ne_nil _ _, rfl, rfl⟩, ih⟩

/-! ### The paths of values -/

theorem paths_placeholders (cs : List Column) (row : Option Nat) :
    (placeholders cs row).flatMap Operand.paths = [] := by
  rw [placeholders, List.flatMap_map]
  exact List.flatMap_eq_nil_iff.mpr fun _ _ => rfl

theorem paths_insertValues (cs : List Column) (row : Option Nat) :
    (insertValues cs row).flatMap Operand.paths = [] := by
  rw [insertValues, List.flatMap_map]
  refine List.flatMap_eq_nil_iff.mpr fun c _ => ?_
  split <;> rfl

theorem paths_numberedRows (cs : List Column) (n : Nat) :
    (numberedRows cs n).flatMap (fun row => row.flatMap Operand.paths) = [] := by
  rw [numberedRows, List.flatMap_map]
  refine List.flatMap_eq_nil_iff.mpr fun i _ => ?_
  rw [List.flatMap_append, paths_placeholders]
  rfl

theorem paths_assignments (cs : List Column) (row : Option Nat) :
    (assignments cs row).flatMap Assignment.paths = wholePaths (columnNames cs) := by
  rw [assignments, List.flatMap_map, wholePaths, columnNames, List.map_map, List.map_eq_flatMap]
  rfl

theorem regular_placeholders (cs : List Column) (row : Option Nat) :
    ∀ v ∈ placeholders cs row, v.Regular := by
  intro v hv
  obtain ⟨c, -, rfl⟩ := List.mem_map.mp hv
  trivial

theorem regular_insertValues (cs : List Column) (row : Option Nat) :
    ∀ v ∈ insertValues cs row, v.Regular := by
  intro v hv
  obtain ⟨c, -, rfl⟩ := List.mem_map.mp hv
  split <;> trivial

theorem regular_numberedRows (cs : List Column) (n : Nat) :
    ∀ row ∈ numberedRows cs n, ∀ v ∈ row, v.Regular := by
  intro row hrow v hv
  obtain ⟨i, -, rfl⟩ := List.mem_map.mp hrow
  rcases List.mem_append.mp hv with hv | hv
  · exact regular_placeholders cs _ v hv
  · rw [List.mem_singleton.mp hv]
    trivial

theorem regular_assignments (cs : List Column) (row : Option Nat) :
    ∀ a ∈ assignments cs row, a.value.Regular := by
  intro a ha
  obtain ⟨c, -, rfl⟩ := List.mem_map.mp ha
  trivial

/-! ### What is mentioned -/

theorem name_tableRef (d : Dialect) (r : Request) : (tableRef d r).name = r.table := by
  unfold tableRef
  split
  · split <;> rfl
  · rfl

theorem mem_wholePaths {cs : List Column} {c : Column} (h : c ∈ cs) :
    [c.name] ∈ wholePaths (columnNames cs) :=
  List.mem_map_of_mem (List.mem_map_of_mem h)

theorem mentions_wholePaths {cs : List Column} (h : ∀ c ∈ cs, c ∈ r.fields) :
    ∀ path ∈ wholePaths (columnNames cs), r.Mentions op path := by
  intro path hpath
  obtain ⟨n, hn, rfl⟩ := List.mem_map.mp hpath
  obtain ⟨c, hc, rfl⟩ := List.mem_map.mp hn
  exact .column (List.mem_append_left _ (h c hc))

theorem mentions_bothSides {cs : List Column} (h : ∀ c ∈ cs, c ∈ r.fields) :
    ∀ path ∈ bothSides (columnNames cs), r.Mentions op path := by
  intro path hpath
  obtain ⟨n, hn, hpath⟩ := List.mem_flatMap.mp hpath
  obtain ⟨c, hc, rfl⟩ := List.mem_map.mp hn
  have hcolumn : r.Mentions op [c.name] := .column (List.mem_append_left _ (h c hc))
  simp only [List.mem_cons, List.not_mem_nil, or_false, or_self] at hpath
  rw [hpath]
  exact hcolumn

theorem mentions_inParts {names : List String} (h : ∀ n ∈ names, n ∈ r.namesInParts op) :
    ∀ path ∈ names.map nameParts, r.Mentions op path := by
  intro path hpath
  obtain ⟨n, hn, rfl⟩ := List.mem_map.mp hpath
  exact .inParts (h n hn)

theorem mentions_key {key : Column} (h : r.key = some key) : r.Mentions op [key.name] :=
  .column (Request.mem_columns_of_mem_schema (Request.mem_schema_of_key h))

theorem mentions_rowNumber (row : Option Nat) :
    ∀ path ∈ rowNumberPaths row, r.Mentions op path := by
  intro path hpath
  cases row with
  | none => cases hpath
  | some i =>
    rw [List.mem_singleton.mp hpath]
    exact .own (by decide)

theorem mentions_result : r.Mentions op [resultColumn] := .own (by decide)

/-- A key is given back under the name of the result. -/
theorem mentions_keyResult {key : Column} (hkey : r.key = some key) :
    ∀ path ∈ [[key.name], [resultColumn]], r.Mentions op path :=
  List.forall_mem_cons.mpr ⟨mentions_key hkey, List.forall_mem_singleton.mpr mentions_result⟩

theorem mentions_outputPaths (batch : Bool) :
    ∀ path ∈ outputPaths batch (r.key.map Column.name), r.Mentions op path := by
  cases hkey : r.key with
  | none => nofun
  | some key =>
    refine List.forall_mem_append.mpr ⟨mentions_keyResult hkey, ?_⟩
    cases batch with
    | false => nofun
    | true =>
      exact List.forall_mem_cons.mpr ⟨.own (by decide), List.forall_mem_singleton.mpr (.own (by decide))⟩

theorem mentions_returningPaths (row : Option Nat) :
    ∀ path ∈ returningPaths (r.key.map fun k => ⟨k.name, row⟩), r.Mentions op path := by
  cases hkey : r.key with
  | none => nofun
  | some key =>
    exact List.forall_mem_append.mpr ⟨mentions_keyResult hkey, mentions_rowNumber row⟩

/-! ### Describing statements -/

/-- The statements have the paths of the request and no others: every listed column as a whole, and
every name that the operation writes in parts. -/
structure Describes (r : Request) (op : Operation) (listed : List Column) (ss : List Statement) :
    Prop where
  regular : ∀ s ∈ ss, s.Regular
  mentions : ∀ path ∈ ss.flatMap Statement.paths, r.Mentions op path
  lists : ∀ c ∈ listed, [c.name] ∈ ss.flatMap Statement.paths
  inParts : ∀ n ∈ r.namesInParts op, nameParts n ∈ ss.flatMap Statement.paths

theorem Describes.one {s : Statement} (regular : s.Regular)
    (mentions : ∀ path ∈ s.paths, r.Mentions op path) (lists : ∀ c ∈ listed, [c.name] ∈ s.paths)
    (inParts : ∀ n ∈ r.namesInParts op, nameParts n ∈ s.paths) : Describes r op listed [s] := by
  have hone : [s].flatMap Statement.paths = s.paths := List.flatMap_singleton _ _
  refine ⟨by simpa using regular, ?_, ?_, ?_⟩
  · rwa [hone]
  · rwa [hone]
  · rwa [hone]

/-- More statements with paths of the request may follow. -/
theorem Describes.append {more : List Statement} (h : Describes r op listed ss)
    (regular : ∀ s ∈ more, s.Regular)
    (mentions : ∀ path ∈ more.flatMap Statement.paths, r.Mentions op path) :
    Describes r op listed (ss ++ more) := by
  refine ⟨List.forall_mem_append.mpr ⟨h.regular, regular⟩, ?_, fun c hc => ?_, fun n hn => ?_⟩
  · rw [List.flatMap_append]
    exact List.forall_mem_append.mpr ⟨h.mentions, mentions⟩
  · rw [List.flatMap_append]
    exact List.mem_append_left _ (h.lists c hc)
  · rw [List.flatMap_append]
    exact List.mem_append_left _ (h.inParts n hn)

/-- The statements of every row of a batch, of which there is at least one. -/
theorem Describes.eachRow {batch : Option Nat} (hbatch : rowsOf batch ≠ [])
    {f : Option Nat → List Statement} (h : ∀ row, Describes r op listed (f row)) :
    Describes r op listed (Sql.eachRow batch f) := by
  obtain ⟨first, hfirst⟩ := List.exists_mem_of_ne_nil _ hbatch
  have hpaths : ((rowsOf batch).flatMap f).flatMap Statement.paths =
      (rowsOf batch).flatMap fun row => (f row).flatMap Statement.paths := List.flatMap_assoc
  rw [eachRow_eq_flatMap]
  refine ⟨fun s hs => ?_, fun path hpath => ?_, fun c hc => ?_, fun name hname => ?_⟩
  · obtain ⟨row, -, hs⟩ := List.mem_flatMap.mp hs
    exact (h row).regular s hs
  · rw [hpaths] at hpath
    obtain ⟨row, -, hpath⟩ := List.mem_flatMap.mp hpath
    exact (h row).mentions path hpath
  · rw [hpaths]
    exact List.mem_flatMap.mpr ⟨first, hfirst, (h first).lists c hc⟩
  · rw [hpaths]
    exact List.mem_flatMap.mpr ⟨first, hfirst, (h first).inParts name hname⟩

end Sql

end EntitySql
