import EntitySql.Proofs.Command
import EntitySql.Proofs.Sql.Operation

/-!
# Which rows are told by a key

Without a filter, an update, a deletion and a merge find the rows that they write by the columns of
`Request.rowKeys`. `Statement.rowTests` reads off a statement what it asks of a row that is there: the
condition of an update, of a deletion and of an update that inserts, and for each row of its source
what a merge or an insertion that updates on conflict matches. MySQL and SQLite have no such test in a
merge and leave it to the keys of the table.

Where no qualifiers are given, the rows are told by one column, the first primary one
(**`rowTests_first_primary`**). That is the whole primary key if and only if all primary columns have
one name. In a table whose key has several columns every row is written that agrees in the first of
them; SQLite alone refuses to merge into such a table.
-/

namespace EntitySql

namespace Request

/-- Without qualifiers the rows are told by the first primary column, which is asked for. -/
theorem rowKeys_first {r : Request} (hq : r.qualifiers.getD [] = []) {ks : List Column}
    (h : r.rowKeys = .ok ks) :
    ∃ first key, r.primary = some first ∧ r.field? first.name = some key ∧ ks = [key] := by
  have hexplicit : r.explicitQualifiers = .ok [] := by
    unfold explicitQualifiers
    cases hnames : r.qualifiers with
    | none => rfl
    | some names =>
      rw [hnames, Option.getD_some] at hq
      rw [hq]
      rfl
  obtain ⟨explicit, hnone, h⟩ := bind_eq_ok_iff.mp h
  obtain rfl := Except.ok.inj (hexplicit.symm.trans hnone)
  rw [List.isEmpty_nil, if_pos rfl] at h
  split at h
  · next first hfirst =>
    obtain ⟨key, hkey, h⟩ := bind_eq_ok_iff.mp h
    cases h
    unfold qualifier at hkey
    split at hkey
    · next hfield =>
      cases hkey
      exact ⟨first, key, hfirst, hfield, rfl⟩
    · cases hkey
  · cases h

/-- A merge tells its rows by the keys of the request, and binds what is not read only or has the name
of a key. -/
theorem rowKeys_of_mergeColumns {r : Request} {m : MergeColumns} (h : r.mergeColumns = .ok m) :
    r.rowKeys = .ok m.keys ∧
      m.inputs = r.fields.filter fun c => !c.readOnly || contains m.keys c := by
  obtain ⟨keys, hkeys, h⟩ := bind_eq_ok_iff.mp h
  cases h
  exact ⟨hkeys, rfl⟩

/-- The column of a key is the first of its name among those that a merge binds. -/
theorem find?_inputs {r : Request} {m : MergeColumns} (hm : r.mergeColumns = .ok m)
    {name : String} {key : Column} (hkey : r.field? name = some key) (hkeys : m.keys = [key]) :
    m.inputs.find? (fun c => c.name = key.name) = some key := by
  obtain ⟨hnamed, before, after, hfields, hbefore⟩ := List.find?_eq_some_iff_append.mp hkey
  have hself : contains [key] key = true :=
    List.any_eq_true.mpr ⟨key, List.mem_singleton_self key, Text.equalIgnoringCase_refl _⟩
  rw [(rowKeys_of_mergeColumns hm).2, hkeys, hfields, List.find?_filter,
    List.find?_eq_some_iff_append]
  refine ⟨by simp [hself], before, after, rfl, fun c hc => ?_⟩
  have hother : c.name ≠ key.name := by
    intro hname
    have hc := hbefore c hc
    rw [Column.isNamed, hname] at hc
    rw [Column.isNamed] at hnamed
    simp [hnamed] at hc
  simp [hother]

end Request

namespace Sql

/-! ### The tests of a statement -/

/-- The operand that a row of named operands has in a column. -/
def operandOf? (row : List (String × Operand)) (column : String) : Option Operand :=
  (row.find? fun x => x.1 = column).map Prod.snd

/-- The test that a row has the parameters of a row of operands in these columns. -/
def matchTest (columns : List String) (row : List (String × Operand)) : SearchCondition :=
  .group .and false <| columns.filterMap fun column =>
    match operandOf? row column with
    | some (.placeholder p) => some (.compare [column] .equal true p)
    | _ => none

/-- The rows of a source, each operand with its column. -/
def MergeSource.operands : MergeSource → List (List (String × Operand))
  | .row columns => [columns.map fun a => (a.column, a.value)]
  | .rows columns values => values.map columns.zip

/-- What a statement asks of a row that is there, for each of the rows that it brings. An insertion
that replaces or updates a duplicate leaves it to the keys of the table which row that is. -/
def Statement.rowTests : Statement → List SearchCondition
  | .update _ _ filter => [filter]
  | .delete _ filter => filter.toList
  | .updateOrInsert u => [u.filter]
  | .merge m =>
    match m.matchOn with
    | some columns => m.source.operands.map (matchTest columns)
    | none => []
  | .insert i =>
    match i.conflict with
    | .onKey columns _ => i.rows.map fun row => matchTest columns (i.columns.zip row)
    | _ => []
  | _ => []

/-- The key condition of a single column asks whether it has the value of its parameter. -/
theorem truth_keyCondition (C : Comparisons) (columns : List String → Value)
    (value : String → Value) (key : Column) (row : Option Nat) :
    (keyCondition [key] row).formula.truth C columns value =
      C.scalar .equal (columns [key.name]) (value (key.parameterAt row)) := rfl

/-! ### Tests by one key -/

/-- Every statement tests rows, and the tests are those of one key, row after row. -/
structure TestsKey (key : Column) (rows : List (Option Nat)) (ss : List Statement) : Prop where
  tests : ss.flatMap Statement.rowTests = rows.map (keyCondition [key])
  tested : ∀ s ∈ ss, s.rowTests ≠ []

variable {key : Column} {inputs : List Column} {ss : List Statement}

theorem TestsKey.one {s : Statement} {rows : List (Option Nat)}
    (h : s.rowTests = rows.map (keyCondition [key])) (hrows : rows ≠ []) :
    TestsKey key rows [s] := by
  refine ⟨by rw [List.flatMap_singleton, h], fun s' hs' => ?_⟩
  rw [List.mem_singleton.mp hs', h]
  exact fun hnil => hrows (List.map_eq_nil_iff.mp hnil)

/-- A statement for each row tests the key row after row. -/
theorem TestsKey.eachRow {f : Option Nat → List Statement} (h : ∀ row, TestsKey key [row] (f row))
    (batch : Option Nat) : TestsKey key (rowsOf batch) (eachRow batch f) := by
  rw [eachRow_eq_flatMap]
  refine ⟨?_, fun s hs => ?_⟩
  · have htests := fun row => (h row).tests
    simp only [List.flatMap_assoc, htests, List.map_cons, List.map_nil]
    exact List.map_eq_flatMap.symm
  · obtain ⟨row, -, hs⟩ := List.mem_flatMap.mp hs
    exact (h row).tested s hs

/-- The operands of a row that a merge binds hold the parameter of its key. -/
theorem operandOf?_inputs (hfind : inputs.find? (fun c => c.name = key.name) = some key)
    (row : Option Nat) (more : List (String × Operand)) :
    operandOf? (inputs.map (fun c => (c.name, Operand.placeholder (c.parameterAt row))) ++ more)
      key.name = some (.placeholder (key.parameterAt row)) := by
  have hfind' : inputs.find? ((fun x : String × Operand => decide (x.1 = key.name)) ∘
      fun c => (c.name, Operand.placeholder (c.parameterAt row))) = some key := hfind
  rw [operandOf?, List.find?_append, List.find?_map, hfind']
  rfl

theorem matchTest_inputs (hfind : inputs.find? (fun c => c.name = key.name) = some key)
    (row : Option Nat) (more : List (String × Operand)) :
    matchTest (columnNames [key])
        (inputs.map (fun c => (c.name, Operand.placeholder (c.parameterAt row))) ++ more) =
      keyCondition [key] row := by
  simp only [matchTest, columnNames, List.map_cons, List.map_nil, List.filterMap_cons,
    operandOf?_inputs hfind, List.filterMap_nil]
  rfl

theorem zip_placeholders (inputs : List Column) (row : Option Nat) :
    (columnNames inputs).zip (placeholders inputs row) =
      inputs.map fun c => (c.name, Operand.placeholder (c.parameterAt row)) := by
  rw [columnNames, placeholders, List.zip_map']

/-! ### Merges -/

variable {d : Dialect} {r : Request} {m : Request.MergeColumns}

theorem testsKey_mergeStatement (hkeys : m.keys = [key])
    (hfind : m.inputs.find? (fun c => c.name = key.name) = some key) (d : Dialect) (r : Request)
    {batch : Option Nat} (hbatch : rowsOf batch ≠ []) :
    TestsKey key (rowsOf batch) (mergeStatement d r m batch) := by
  refine .one ?_ hbatch
  simp only [Statement.rowTests, hkeys]
  cases batch with
  | none =>
    have htest := matchTest_inputs hfind none []
    rw [List.append_nil] at htest
    simp only [MergeSource.operands, assignments, List.map_map, rowsOf, List.map_cons, List.map_nil]
    exact congrArg (fun c => [c]) htest
  | some n =>
    simp only [MergeSource.operands, numberedRows, rowsOf, List.map_map]
    refine List.map_congr_left fun i _ => ?_
    have hlength : (columnNames m.inputs).length = (placeholders m.inputs (some i)).length := by
      rw [columnNames, placeholders, List.length_map, List.length_map]
    simp only [Function.comp_apply]
    rw [List.zip_append hlength, zip_placeholders]
    exact matchTest_inputs hfind (some i) _

theorem testsKey_conflictRow (hkeys : m.keys = [key])
    (hfind : m.inputs.find? (fun c => c.name = key.name) = some key) (d : Dialect) (r : Request)
    (row : Option Nat) : TestsKey key [row] (conflictRow d r m row) := by
  unfold conflictRow
  split
  · refine .one ?_ (List.cons_ne_nil _ _)
    rw [hkeys]
    rfl
  · refine .one ?_ (List.cons_ne_nil _ _)
    have htest := matchTest_inputs hfind row []
    rw [List.append_nil, ← zip_placeholders] at htest
    simp only [Statement.rowTests, hkeys, List.map_cons, List.map_nil]
    exact congrArg (fun c => [c]) htest

/-- SQL Server and Postgres test the key in every row of a merge. -/
theorem testsKey_mergeRows (hkeys : m.keys = [key])
    (hfind : m.inputs.find? (fun c => c.name = key.name) = some key)
    (hd : d = .sqlServer ∨ d = .postgres) {batch : Option Nat} (hbatch : rowsOf batch ≠ [])
    (h : mergeRows d r m batch = .ok ss) : TestsKey key (rowsOf batch) ss := by
  rcases hd with rfl | rfl
  · cases h
    exact testsKey_mergeStatement hkeys hfind _ r hbatch
  · cases h
    exact .eachRow (testsKey_conflictRow hkeys hfind _ r) batch

/-- SQLite merges only where the key is the only primary column. -/
theorem eq_of_requirePrimaryQualifiers {u : Unit}
    (h : requirePrimaryQualifiers d r [key] = .ok u) {first : Column}
    (hfirst : r.primary = some first) : ∀ c ∈ r.schema, c.primary = true → c = first := by
  unfold requirePrimaryQualifiers at h
  simp only at h
  split at h
  · next hexact =>
    obtain ⟨p, hp⟩ := List.length_eq_one_iff.mp hexact.2.1
    have hmem : ∀ c ∈ r.schema, c.primary = true → c = p := by
      intro c hc hprimary
      have hc : c ∈ r.schema.filter fun c => c.primary := List.mem_filter.mpr ⟨hc, hprimary⟩
      rw [hp] at hc
      exact List.mem_singleton.mp hc
    have hp := hmem first (List.mem_of_find?_eq_some hfirst)
      (by simpa using List.find?_some hfirst)
    intro c hc hprimary
    rw [hp]
    exact hmem c hc hprimary
  · cases h

/-! ### All operations -/

/-- Whether the operation writes the rows of a key where there is no filter. -/
def writesByKey : Operation → Bool
  | .update | .updateAll _ | .delete | .merge | .mergeAll _ => true
  | _ => false

/-- Whether the dialect tests the rows that the operation meets. -/
def testsRows : Dialect → Operation → Bool
  | .mySql, .merge | .mySql, .mergeAll _ | .sqlite, .merge | .sqlite, .mergeAll _ => false
  | _, _ => true

theorem testsKey_update (hnone : r.activePredicate = none) {s : Statement}
    (h : update d r = .ok s) :
    ∃ ks, r.rowKeys = .ok ks ∧ ∀ key, ks = [key] → TestsKey key [none] [s] := by
  obtain ⟨u, -, -, ⟨-, hkeys, rfl⟩ | ⟨g, hsome, -⟩⟩ := of_update h
  · refine ⟨u.keys, hkeys, fun key hkey => .one ?_ (List.cons_ne_nil _ _)⟩
    rw [hkey]
    rfl
  · rw [hnone] at hsome
    cases hsome

theorem testsKey_updateAll (hnone : r.activePredicate = none) {n : Int64}
    (h : updateAll d r n = .ok ss) :
    ∃ ks, r.rowKeys = .ok ks ∧
      ∀ key, ks = [key] → TestsKey key (rowsOf (some n.toInt.toNat)) ss := by
  obtain ⟨u, -, -, hu, -, -, rfl⟩ := of_updateAll h
  refine ⟨u.keys, Request.rowKeys_of_updateColumns hnone hu, fun key hkey => ?_⟩
  refine .eachRow (fun row => .one ?_ (List.cons_ne_nil _ _)) (some _)
  rw [hkey]
  rfl

theorem testsKey_delete (hnone : r.activePredicate = none) {s : Statement}
    (h : delete d r = .ok s) :
    ∃ ks, r.rowKeys = .ok ks ∧ ∀ key, ks = [key] → TestsKey key [none] [s] := by
  obtain ⟨ks, -, ⟨-, hkeys, rfl⟩ | ⟨g, hsome, -⟩⟩ := of_delete h
  · refine ⟨ks, hkeys, fun key hkey => ?_⟩
    subst hkey
    exact .one rfl (List.cons_ne_nil _ _)
  · rw [hnone] at hsome
    cases hsome

/-- How the statements of an operation meet the rows of a key: they test the key where the dialect tests
rows, and SQLite sees to the key before it merges. -/
structure MeetsRows (d : Dialect) (op : Operation) (r : Request) (key : Column)
    (ss : List Statement) : Prop where
  tests : testsRows d op = true → TestsKey key (operationRows op) ss
  checks : d = .sqlite → testsRows d op = false →
    ∃ u, requirePrimaryQualifiers d r [key] = .ok u

theorem MeetsRows.of_testsKey {op : Operation} (h : TestsKey key (operationRows op) ss)
    (hd : testsRows d op = true) : MeetsRows d op r key ss := by
  refine ⟨fun _ => h, fun _ hfalse => ?_⟩
  rw [hd] at hfalse
  cases hfalse

theorem meetsRows_mergeRows {op : Operation}
    (hop : testsRows d op = true → d = .sqlServer ∨ d = .postgres) (hm : r.mergeColumns = .ok m)
    {batch : Option Nat} (hrows : operationRows op = rowsOf batch) (hbatch : rowsOf batch ≠ [])
    (h : mergeRows d r m batch = .ok ss) {name : String} (hfield : r.field? name = some key)
    (hkeys : m.keys = [key]) : MeetsRows d op r key ss := by
  refine ⟨fun htests => ?_, fun hd _ => ?_⟩
  · rw [hrows]
    exact testsKey_mergeRows hkeys (Request.find?_inputs hm hfield hkeys) (hop htests) hbatch h
  · subst hd
    obtain ⟨u, hu, -⟩ := bind_eq_ok_iff.mp h
    rw [hkeys] at hu
    exact ⟨u, hu⟩

/-- Of the dialects that merge, SQL Server and Postgres test rows. -/
theorem of_testsRows_merge (h : testsRows d .merge = true) : d = .sqlServer ∨ d = .postgres := by
  cases d with
  | sqlServer => exact .inl rfl
  | postgres => exact .inr rfl
  | mySql | sqlite => cases h

/-- The keys of an operation that writes rows by their key, and how it meets the rows. -/
theorem meetsRows_statements {op : Operation} (hop : writesByKey op = true)
    (hnone : r.activePredicate = none) (h : statements d op r = .ok ss) :
    ∃ ks, r.rowKeys = .ok ks ∧
      ∀ key name, r.field? name = some key → ks = [key] → MeetsRows d op r key ss := by
  cases op with
  | update =>
    obtain ⟨s, hs, rfl⟩ := map_eq_ok_iff.mp h
    obtain ⟨ks, hks, htests⟩ := testsKey_update hnone hs
    exact ⟨ks, hks, fun key _ _ hkey => .of_testsKey (htests key hkey) (by cases d <;> rfl)⟩
  | updateAll n =>
    obtain ⟨ks, hks, htests⟩ := testsKey_updateAll hnone h
    exact ⟨ks, hks, fun key _ _ hkey => .of_testsKey (htests key hkey) (by cases d <;> rfl)⟩
  | delete =>
    obtain ⟨s, hs, rfl⟩ := map_eq_ok_iff.mp h
    obtain ⟨ks, hks, htests⟩ := testsKey_delete hnone hs
    exact ⟨ks, hks, fun key _ _ hkey => .of_testsKey (htests key hkey) (by cases d <;> rfl)⟩
  | merge =>
    obtain ⟨m, batch, hm, hrows, hbatch, h⟩ := mergeRows_of_statements rfl h
    exact ⟨m.keys, (Request.rowKeys_of_mergeColumns hm).1, fun key name hfield hkeys =>
      meetsRows_mergeRows of_testsRows_merge hm hrows hbatch h hfield hkeys⟩
  | mergeAll n =>
    obtain ⟨m, batch, hm, hrows, hbatch, h⟩ := mergeRows_of_statements rfl h
    have hsame : testsRows d (.mergeAll n) = testsRows d .merge := by cases d <;> rfl
    have hop : testsRows d (.mergeAll n) = true → d = .sqlServer ∨ d = .postgres :=
      fun hd => of_testsRows_merge (hsame.symm.trans hd)
    exact ⟨m.keys, (Request.rowKeys_of_mergeColumns hm).1, fun key name hfield hkeys =>
      meetsRows_mergeRows hop hm hrows hbatch h hfield hkeys⟩
  | _ => cases hop

/-- **Without a filter and without qualifiers the rows are told by the first primary column alone.** An
update, a deletion or a merge that is built has this column among those that are asked for. Where the
dialect tests the rows that it meets, it asks every row for the value of this column and for nothing
else, so it writes all rows that have it. The column is the whole primary key if and only if no primary
column has another name, and only SQLite sees to that in a merge. -/
theorem rowTests_first_primary {op : Operation} (hop : writesByKey op = true)
    (hnone : r.activePredicate = none) (hq : r.qualifiers.getD [] = [])
    (h : statements d op r = .ok ss) :
    ∃ first key, r.primary = some first ∧ r.field? first.name = some key ∧ r.rowKeys = .ok [key] ∧
      (testsRows d op = true → (∀ s ∈ ss, s.rowTests ≠ []) ∧
        ss.flatMap Statement.rowTests = (operationRows op).map (keyCondition [key])) ∧
      (∀ (C : Comparisons) (columns : List String → Value) (value : String → Value),
        ∀ row ∈ operationRows op, (keyCondition [key] row).formula.truth C columns value =
          C.scalar .equal (columns [key.name]) (value (key.parameterAt row))) ∧
      ((∀ c ∈ r.schema, c.primary = true → Request.contains [key] c = true) ↔
        ∀ c ∈ r.schema, c.primary = true → c.isNamed first.name = true) ∧
      (d = .sqlite → testsRows d op = false →
        ∀ c ∈ r.schema, c.primary = true → c.isNamed first.name = true) := by
  obtain ⟨ks, hks, hmeets⟩ := meetsRows_statements hop hnone h
  obtain ⟨first, key, hfirst, hfield, rfl⟩ := Request.rowKeys_first hq hks
  obtain ⟨htests, hchecks⟩ := hmeets key first.name hfield rfl
  have hnamed : key.isNamed first.name = true := by simpa using List.find?_some hfield
  refine ⟨first, key, hfirst, hfield, hks, fun hd => ?_, fun C columns value row _ => ?_, ?_,
    fun hd hfalse => ?_⟩
  · exact ⟨(htests hd).tested, (htests hd).tests⟩
  · exact truth_keyCondition C columns value key row
  · have hsame : ∀ c : Column, Request.contains [key] c = c.isNamed first.name := by
      intro c
      have hcontains : Request.contains [key] c = Text.equalIgnoringCase key.name c.name :=
        Bool.or_false _
      rw [hcontains, equalIgnoringCase_congr hnamed, equalIgnoringCase_comm, Column.isNamed]
    simp only [hsame]
  · obtain ⟨u, hu⟩ := hchecks hd hfalse
    intro c hc hprimary
    rw [eq_of_requirePrimaryQualifiers hu hfirst c hc hprimary]
    exact Text.equalIgnoringCase_refl _

/-! ### A key of two columns -/

namespace Sample

/-- The column of an order, which with the number of the line tells a line. -/
def order : Column :=
  ⟨"OrderId", true, false, false, .int64, none, none, none, none, false, false, none, none⟩

/-- The number of a line in its order. -/
def number : Column :=
  ⟨"Number", true, false, false, .int64, none, none, none, none, false, false, none, none⟩

/-- Lines of orders. -/
def lines : Request :=
  ⟨"Line", [order, number], [order, number], none, none, [], none, .primaryOrElseIdentity⟩

/-- The values of a line. -/
def line (n : Int64) : List String → Value
  | ["OrderId"] => .int 7
  | _ => .int n

end Sample

/-- The deletion of a line deletes all lines of its order. -/
theorem rowTests_first_primary_lines :
    ∃ ss, statements .postgres .delete Sample.lines = .ok ss ∧
      ss.flatMap Statement.rowTests = [keyCondition [Sample.order] none] ∧
      (¬∀ c ∈ Sample.lines.schema, c.primary = true →
        Request.contains [Sample.order] c = true) ∧
      ∀ n, (keyCondition [Sample.order] none).formula.truth .plain (Sample.line n)
        (fun _ => .int 7) = .holds := by
  obtain ⟨ss, hss⟩ : ∃ ss, statements .postgres .delete Sample.lines = .ok ss := ⟨_, rfl⟩
  obtain ⟨first, key, hfirst, hfield, -, htests, htruth, hwhole, -⟩ :=
    rowTests_first_primary rfl rfl rfl hss
  cases hfirst
  cases hfield
  refine ⟨ss, hss, (htests rfl).2, fun hall => ?_, fun n => ?_⟩
  · have hnumber := hwhole.mp hall Sample.number (List.mem_cons_of_mem _ List.mem_cons_self) rfl
    exact absurd hnumber (by decide)
  · exact htruth .plain (Sample.line n) _ none List.mem_cons_self

end Sql

end EntitySql
