import EntitySql.Proofs.Sql.RowKeys
import EntitySql.Proofs.Sql.StatementText
import EntitySql.Proofs.Sql.WriteReading

/-!
# Columns and values stay aligned

The columns of a statement and the values for them are written as lists, often far from each other, and
it is their order alone that tells which value a column gets. A write is looked at row by row
(`Write.byRow`), each column with what stands at its place. A column is aligned in a row if this is its
own value there (`RowWrite.Own`): the placeholder of the column for the row, or the column of that name
in a source which has the placeholder under that name. Where a row is there already, the value may also
be the one that was to be inserted in the same column (`RowWrite.Proposed`).

`AlignedRows` says of statements that they write these rows and that every row is aligned. Statements
that write rows one after the other, or all rows at once, are put together with its lemmas
(`AlignedRows.append`, `AlignedRows.eachRow`), and each shape of statement has one lemma. The main
statement, **`columns_aligned`**, is about every insertion and every merge in every dialect, and about
what is read from its text.
-/

namespace EntitySql

namespace Request

/-- Where names are apart, a column is the first of its name. -/
theorem find?_name_of_apart {r : Request} (hf : r.FieldsApart) {cs : List Column}
    (hcs : ∀ c ∈ cs, c ∈ r.fields) {c : Column} (hc : c ∈ cs) :
    cs.find? (fun x => x.name = c.name) = some c := by
  induction cs with
  | nil => cases hc
  | cons x cs ih =>
    by_cases hname : x.name = c.name
    · have hsame : x.isNamed c.name = true := by
        rw [Column.isNamed, hname]
        exact Text.equalIgnoringCase_refl _
      rw [List.find?_cons_of_pos (by simpa using hname),
        hf c (hcs c hc) x (hcs x List.mem_cons_self) hsame]
    · have hne : c ≠ x := by
        rintro rfl
        exact hname rfl
      rw [List.find?_cons_of_neg (by simpa using hname)]
      exact ih (fun y hy => hcs y (List.mem_cons_of_mem x hy))
        ((List.mem_cons.mp hc).resolve_left hne)

end Request

namespace Sql

/-! ### Rows of a write -/

/-- What a write does with one row, each column with its value. -/
structure RowWrite where
  source : List (String × Operand)
  inserted : List (String × Operand)
  matched : List (String × Operand)
  set : List (String × Operand)

/-- The rows of a write, one after the other. -/
def Write.byRow (w : Write) : List RowWrite :=
  (w.source.elim [[]] MergeSource.operands).flatMap fun source =>
    w.rows.map fun row => ⟨source, w.columns.zip row, w.matched, w.set⟩

/-- There are as many columns as values in each row. -/
def Write.Even (w : Write) : Prop :=
  (∀ row ∈ w.rows, row.length = w.columns.length) ∧
    ∀ columns rows, w.source = some (.rows columns rows) →
      ∀ row ∈ rows, row.length = columns.length

section Aligned

variable (d : Dialect) (r : Request) (row : Option Nat) (w : RowWrite)

/-- The value is the one that the column has in the row: its placeholder, or the column of its name in
a source that has this placeholder there. -/
inductive RowWrite.Own : String × Operand → Prop
  | placeholder {c : Column} (h : c ∈ r.fields) : Own (c.name, .placeholder (c.parameterAt row))
  | source {c : Column} (h : c ∈ r.fields)
      (hs : operandOf? w.source c.name = some (.placeholder (c.parameterAt row))) :
      Own (c.name, .source c.name)

/-- The value is that of an inserted column of the same name. -/
def RowWrite.Proposed (x : String × Operand) : Prop :=
  (x.2 = .excluded x.1 ∨ x.2 = .proposed x.1) ∧ ∃ v, (x.1, v) ∈ w.inserted

/-- MySQL remembers an identity as the last key, and assigns a column to itself where there is nothing
else to assign. -/
def RowWrite.Kept (x : String × Operand) : Prop :=
  d = .mySql ∧
    ((x.2 = .remembered x.1 ∧ ∃ key, r.key = some key ∧ key.identity = true ∧ key.name = x.1) ∨
      (x.2 = .column x.1 ∧ w.set = [x]))

/-- Every column of a row stands with its own value. -/
structure RowWrite.Aligned : Prop where
  source : ∀ x ∈ w.source, (∃ c ∈ r.fields, x = (c.name, .placeholder (c.parameterAt row))) ∨
    ∃ i, row = some i ∧ x = (sourceOrderColumn, .number i)
  inserted : ∀ x ∈ w.inserted, w.Own r row x ∨
    ∃ c ∈ r.fields, x = (c.name, .placeholderOrNull (c.parameterAt row))
  matched : ∀ x ∈ w.matched, w.Own r row x ∨ w.Proposed x
  set : ∀ x ∈ w.set, w.Own r row x ∨ w.Proposed x ∨ w.Kept d r x

end Aligned

/-- Statements write these rows, each column with its own value, and can be told from their text. -/
structure AlignedRows (d : Dialect) (r : Request) (rows : List (Option Nat)) (ss : List Statement) :
    Prop where
  readable : ∀ s ∈ ss, s.Readable
  even : ∀ w ∈ writes ss, w.Even
  aligned : List.Forall₂ (RowWrite.Aligned d r) rows ((writes ss).flatMap Write.byRow)

namespace AlignedRows

variable {d : Dialect} {r : Request} {rows rows' : List (Option Nat)} {ss ss' : List Statement}

theorem append (h : AlignedRows d r rows ss) (h' : AlignedRows d r rows' ss') :
    AlignedRows d r (rows ++ rows') (ss ++ ss') := by
  refine ⟨fun s hs => ?_, fun w hw => ?_, ?_⟩
  · rcases List.mem_append.mp hs with hs | hs
    · exact h.readable s hs
    · exact h'.readable s hs
  · rw [writes, List.filterMap_append] at hw
    rcases List.mem_append.mp hw with hw | hw
    · exact h.even w hw
    · exact h'.even w hw
  · rw [writes, List.filterMap_append, List.flatMap_append]
    exact List.rel_append h.aligned h'.aligned

theorem nil : AlignedRows d r [] [] :=
  ⟨nofun, nofun, .nil⟩

theorem eachRow {f : Option Nat → List Statement} (h : ∀ row, AlignedRows d r [row] (f row))
    (batch : Option Nat) : AlignedRows d r (rowsOf batch) (eachRow batch f) := by
  rw [eachRow_eq_flatMap]
  induction rowsOf batch with
  | nil => exact nil
  | cons row rows ih => exact (h row).append ih

/-- A statement that writes these rows. -/
theorem one {s : Statement} {w : Write} (hw : s.write? = some w) (hr : s.Readable) (he : w.Even)
    (h : List.Forall₂ (RowWrite.Aligned d r) rows w.byRow) : AlignedRows d r rows [s] := by
  have hwrites : writes [s] = [w] := by simp [writes, hw]
  refine ⟨fun s' hs' => ?_, fun w' hw' => ?_, ?_⟩
  · rwa [List.mem_singleton.mp hs']
  · rw [hwrites] at hw'
    rwa [List.mem_singleton.mp hw']
  · rw [hwrites, List.flatMap_singleton]
    exact h

/-- What follows writes nothing. -/
theorem silent (h : ∀ s ∈ ss, s.Readable ∧ s.write? = none) : AlignedRows d r [] ss := by
  have hwrites : writes ss = [] := List.filterMap_eq_nil_iff.mpr fun s hs => (h s hs).2
  refine ⟨fun s hs => (h s hs).1, fun w hw => ?_, ?_⟩
  · rw [hwrites] at hw
    cases hw
  · rw [hwrites]
    exact .nil

end AlignedRows

/-! ### Values of columns -/

variable {d : Dialect} {r : Request} {inputs : List Column} {ss : List Statement}

/-- The operands of columns in a row, and its number at the end if it is in a batch. -/
def sourceRow (inputs : List Column) (row : Option Nat) : List (String × Operand) :=
  inputs.map (fun c => (c.name, Operand.placeholder (c.parameterAt row))) ++
    row.toList.map fun i => (sourceOrderColumn, Operand.number i)

theorem operandOf?_sourceRow (hf : r.FieldsApart) (hinputs : ∀ c ∈ inputs, c ∈ r.fields)
    (row : Option Nat) {c : Column} (hc : c ∈ inputs) :
    operandOf? (sourceRow inputs row) c.name = some (.placeholder (c.parameterAt row)) :=
  operandOf?_inputs (Request.find?_name_of_apart hf hinputs hc) row _

theorem aligned_sourceRow (hinputs : ∀ c ∈ inputs, c ∈ r.fields) (row : Option Nat) :
    ∀ x ∈ sourceRow inputs row, (∃ c ∈ r.fields, x = (c.name, .placeholder (c.parameterAt row))) ∨
      ∃ i, row = some i ∧ x = (sourceOrderColumn, .number i) := by
  intro x hx
  rcases List.mem_append.mp hx with hx | hx
  · obtain ⟨c, hc, rfl⟩ := List.mem_map.mp hx
    exact .inl ⟨c, hinputs c hc, rfl⟩
  · obtain ⟨i, hi, rfl⟩ := List.mem_map.mp hx
    exact .inr ⟨i, Option.mem_toList.mp hi, rfl⟩

theorem length_placeholders (inputs : List Column) (row : Option Nat) :
    (placeholders inputs row).length = (columnNames inputs).length := by
  rw [placeholders, columnNames, List.length_map, List.length_map]

theorem length_insertValues (inputs : List Column) (row : Option Nat) :
    (insertValues inputs row).length = (columnNames inputs).length := by
  rw [insertValues, columnNames, List.length_map, List.length_map]

theorem rowReadable_placeholders (hne : inputs ≠ []) (row : Option Nat) :
    RowReadable (placeholders inputs row) := by
  refine ⟨by simpa [placeholders] using hne, fun v hv => ?_⟩
  obtain ⟨c, -, rfl⟩ := List.mem_map.mp hv
  trivial

theorem rowReadable_insertValues (hne : inputs ≠ []) (row : Option Nat) :
    RowReadable (insertValues inputs row) := by
  refine ⟨by simpa [insertValues] using hne, fun v hv => ?_⟩
  obtain ⟨c, -, rfl⟩ := List.mem_map.mp hv
  split <;> trivial

/-- Columns with their placeholders have their own values. -/
theorem own_placeholders (hinputs : ∀ c ∈ inputs, c ∈ r.fields) (row : Option Nat) (w : RowWrite) :
    ∀ x ∈ (columnNames inputs).zip (placeholders inputs row), w.Own r row x := by
  rw [zip_placeholders]
  intro x hx
  obtain ⟨c, hc, rfl⟩ := List.mem_map.mp hx
  exact .placeholder (hinputs c hc)

/-- Columns of a source have the values of the row. -/
theorem own_fromSource (hf : r.FieldsApart) (hinputs : ∀ c ∈ inputs, c ∈ r.fields)
    {row : Option Nat} {w : RowWrite} (hw : w.source = sourceRow inputs row) {cs : List Column}
    (hcs : ∀ c ∈ cs, c ∈ inputs) : ∀ x ∈ fromSource (columnNames cs), w.Own r row x := by
  intro x hx
  obtain ⟨name, hname, rfl⟩ := List.mem_map.mp hx
  obtain ⟨c, hc, rfl⟩ := List.mem_map.mp hname
  refine .source (hinputs c (hcs c hc)) ?_
  rw [hw]
  exact operandOf?_sourceRow hf hinputs row (hcs c hc)

/-- The column of an input is inserted with some value. -/
theorem exists_mem_zip {names : List String} {values : List Operand}
    (h : values.length = names.length) {name : String} (hname : name ∈ names) :
    ∃ v, (name, v) ∈ names.zip values := by
  rw [← List.map_fst_zip (by omega : names.length ≤ values.length)] at hname
  obtain ⟨⟨_, v⟩, hv, rfl⟩ := List.mem_map.mp hname
  exact ⟨v, hv⟩

/-! ### Inserting -/

theorem readable_trailingKey {call : String} (hcall : keyRetrieval d = .select call)
    (r : Request) (inputs : List Column) (row : Option Nat) :
    ∀ s ∈ trailingKey r inputs call row, s.Readable ∧ s.write? = none := by
  have hunended : ';' ∉ call.toList := by
    cases d <;> cases hcall <;> decide
  exact forall_mem_trailingKey ⟨hunended, rfl⟩ fun _ _ _ => ⟨trivial, rfl⟩

/-- An insertion with one row of values for each row that it writes. -/
theorem alignedRows_rows (hne : inputs ≠ []) {rows : List (Option Nat)} (hrows : rows ≠ [])
    {i : Insert} {values : Option Nat → List Operand} (hcolumns : i.columns = columnNames inputs)
    (hvalues : i.rows = rows.map values)
    (hlength : ∀ row, (values row).length = (columnNames inputs).length)
    (hreadable : ∀ row, RowReadable (values row)) (hconflict : i.conflict.Readable)
    (haligned : ∀ row, RowWrite.Aligned d r row
      ⟨[], (columnNames inputs).zip (values row), i.conflict.matched, i.conflict.set⟩) :
    AlignedRows d r rows [.insert i] := by
  refine .one rfl ⟨?_, ?_, ?_, hconflict⟩ ⟨?_, nofun⟩ ?_
  · simpa [hcolumns, columnNames] using hne
  · simpa [hvalues] using hrows
  · intro vs hvs
    rw [hvalues] at hvs
    obtain ⟨row, -, rfl⟩ := List.mem_map.mp hvs
    exact hreadable row
  · intro vs hvs
    rw [hvalues] at hvs
    obtain ⟨row, -, rfl⟩ := List.mem_map.mp hvs
    rw [hcolumns]
    exact hlength row
  · simp only [Write.byRow, Option.elim, List.flatMap_singleton, hvalues, hcolumns, List.map_map]
    rw [List.forall₂_map_right_iff, List.forall₂_same]
    exact fun row _ => haligned row

theorem alignedRows_insert (hne : inputs ≠ []) (hinputs : ∀ c ∈ inputs, c ∈ r.fields)
    {rows : List (Option Nat)} (hrows : rows ≠ []) {i : Insert}
    (hcolumns : i.columns = columnNames inputs) (hvalues : i.rows = rows.map (placeholders inputs))
    (hconflict : i.conflict = .fail) : AlignedRows d r rows [.insert i] := by
  refine alignedRows_rows hne hrows hcolumns hvalues (length_placeholders inputs)
    (rowReadable_placeholders hne) ?_ fun row => ?_
  · rw [hconflict]
    trivial
  · rw [hconflict]
    exact ⟨nofun, fun x hx => .inl (own_placeholders hinputs row _ x hx), nofun, nofun⟩

theorem alignedRows_insertRow (hne : inputs ≠ []) (hinputs : ∀ c ∈ inputs, c ∈ r.fields)
    (d : Dialect) (row : Option Nat) : AlignedRows d r [row] (insertRow d r inputs row) := by
  unfold insertRow
  cases hkey : keyRetrieval d with
  | output | returning =>
    exact alignedRows_insert hne hinputs (List.cons_ne_nil _ _) rfl rfl rfl
  | select call =>
    have hinsert : AlignedRows d r [row] [.insert
        ⟨tableRef d r, columnNames inputs, [placeholders inputs row], .fail, none, none⟩] :=
      alignedRows_insert hne hinputs (List.cons_ne_nil _ _) rfl rfl rfl
    exact hinsert.append (.silent (readable_trailingKey hkey r inputs row))

/-- A source has the inputs of these rows, and can be told from its text. -/
structure MergeSource.Holds (s : MergeSource) (inputs : List Column) (rows : List (Option Nat)) :
    Prop where
  readable : s.Readable
  operands : s.operands = rows.map (sourceRow inputs)
  even : ∀ columns values, s = .rows columns values → ∀ row ∈ values, row.length = columns.length

theorem holds_row (hne : inputs ≠ []) :
    (MergeSource.row (assignments inputs none)).Holds inputs (rowsOf none) := by
  refine ⟨⟨by simpa [assignments] using hne, fun x hx => ?_⟩, ?_, nofun⟩
  · obtain ⟨c, -, rfl⟩ := List.mem_map.mp hx
    trivial
  · simp [MergeSource.operands, assignments, rowsOf, sourceRow]

theorem holds_rows (inputs : List Column) {n : Nat} (hn : rowsOf (some n) ≠ []) :
    (MergeSource.rows (columnNames inputs ++ [sourceOrderColumn]) (numberedRows inputs n)).Holds
      inputs (rowsOf (some n)) := by
  refine ⟨⟨by simp, by simpa [numberedRows, rowsOf] using hn, fun row hrow => ?_⟩, ?_, ?_⟩
  · obtain ⟨i, -, rfl⟩ := List.mem_map.mp hrow
    refine ⟨by simp, fun v hv => ?_⟩
    rcases List.mem_append.mp hv with hv | hv
    · obtain ⟨c, -, rfl⟩ := List.mem_map.mp hv
      trivial
    · rw [List.mem_singleton.mp hv]
      trivial
  · simp only [MergeSource.operands, numberedRows, rowsOf, List.map_map]
    refine List.map_congr_left fun i _ => ?_
    simp only [Function.comp_apply, sourceRow, Option.toList_some, List.map_cons, List.map_nil]
    rw [List.zip_append (length_placeholders inputs (some i)).symm, zip_placeholders]
    rfl
  · rintro columns values heq row hrow
    cases heq
    obtain ⟨i, -, rfl⟩ := List.mem_map.mp hrow
    simp [length_placeholders]

/-- A merge writes the rows of its source. -/
theorem alignedRows_merge (hf : r.FieldsApart) (hinputs : ∀ c ∈ inputs, c ∈ r.fields)
    {rows : List (Option Nat)} {m : Merge} (hsource : m.source.Holds inputs rows)
    {keys columns set : List Column} (hkeys : ∀ c ∈ keys, c ∈ inputs)
    (hcolumns : ∀ c ∈ columns, c ∈ inputs) (hset : ∀ c ∈ set, c ∈ inputs)
    (hon : m.matchOn ≠ some []) (hmatch : m.matchOn.getD [] = columnNames keys)
    (hnew : m.columns = columnNames columns) (hold : m.set = columnNames set) :
    AlignedRows d r rows [.merge m] := by
  refine .one rfl ⟨hsource.readable, hon⟩ ⟨?_, ?_⟩ ?_
  · intro row hrow
    rw [List.mem_singleton.mp hrow, List.length_map]
  · intro columns values heq
    exact hsource.even columns values (Option.some.inj heq)
  · simp only [Write.byRow, Option.elim, List.map_cons, List.map_nil, hsource.operands, hmatch,
      hnew, hold]
    rw [List.flatMap_map, ← List.map_eq_flatMap, List.forall₂_map_right_iff, List.forall₂_same]
    intro row _
    refine ⟨aligned_sourceRow hinputs row, fun x hx => .inl ?_, fun x hx => .inl ?_,
      fun x hx => .inl ?_⟩
    · rw [← List.map_prod_left_eq_zip] at hx
      exact own_fromSource hf hinputs rfl hcolumns x hx
    · exact own_fromSource hf hinputs rfl hkeys x hx
    · exact own_fromSource hf hinputs rfl hset x hx

theorem alignedRows_insertAll (hf : r.FieldsApart) {n : Int64} (h : insertAll d r n = .ok ss) :
    AlignedRows d r (rowsOf (some n.toInt.toNat)) ss := by
  obtain ⟨-, hne, -, hpositive, -, h⟩ := of_insertAll h
  have hbatch := rowsOf_ne_nil hpositive
  have hfields : ∀ c ∈ r.insertable, c ∈ r.fields := Request.mem_fields_of_insertable
  obtain ⟨-, rfl⟩ | ⟨key, -, -, rfl⟩ | rfl := h
  · refine alignedRows_insert hne hfields hbatch rfl ?_ rfl
    simp [rowsOf]
  · have hno : ∀ c ∈ ([] : List Column), c ∈ r.insertable := by simp
    exact alignedRows_merge hf hfields (holds_rows _ hbatch) hno (fun _ hc => hc) hno (by simp)
      rfl rfl rfl
  · exact .eachRow (alignedRows_insertRow hne hfields _) (some _)

/-! ### Merging -/

variable {m : Request.MergeColumns}

theorem ne_nil_of_mergeColumns (hm : r.mergeColumns = .ok m) : m.keys ≠ [] ∧ m.inputs ≠ [] := by
  have hne := (Request.rowKeys_spec (Request.rowKeys_of_mergeColumns hm).1).2
  obtain ⟨k, hk⟩ := List.exists_mem_of_ne_nil _ hne
  exact ⟨hne, List.ne_nil_of_mem ((Request.mergeColumns_spec hm).1 k hk)⟩

theorem alignedRows_mergeStatement (hf : r.FieldsApart) (hm : r.mergeColumns = .ok m) (d : Dialect)
    {batch : Option Nat} (hbatch : rowsOf batch ≠ []) :
    AlignedRows d r (rowsOf batch) (mergeStatement d r m batch) := by
  obtain ⟨hkeys, hinputs, -, hwritable, hset⟩ := Request.mergeColumns_spec hm
  obtain ⟨hne, hinputsNe⟩ := ne_nil_of_mergeColumns hm
  have hon : some (columnNames m.keys) ≠ some [] := by simpa [columnNames] using hne
  cases batch with
  | none =>
    exact alignedRows_merge hf hinputs (holds_row hinputsNe) hkeys hwritable hset hon rfl rfl rfl
  | some n =>
    exact alignedRows_merge hf hinputs (holds_rows _ hbatch) hkeys hwritable hset hon rfl rfl rfl

/-- The pairs of assignments of columns. -/
theorem pairs_assignments (cs : List Column) (row : Option Nat) :
    (assignments cs row).map Assignment.pair = (columnNames cs).zip (placeholders cs row) := by
  rw [zip_placeholders, assignments, List.map_map]
  rfl

theorem tests_keyCondition (keys : List Column) (row : Option Nat) :
    keyCondition keys row = equalities (keys.map fun k => (k.name, k.parameterAt row)) ∧
      (keyCondition keys row).tests = (columnNames keys).zip (placeholders keys row) := by
  have hequalities : keyCondition keys row =
      equalities (keys.map fun k => (k.name, k.parameterAt row)) := by
    rw [keyCondition, SearchCondition.ofKeys, equalities, List.map_map]
    rfl
  refine ⟨hequalities, ?_⟩
  rw [hequalities, tests_equalities, zip_placeholders, List.map_map]
  rfl

theorem alignedRows_updateOrInsert (hm : r.mergeColumns = .ok m) (row : Option Nat)
    (table : TableRef) (returned : String) (key : Bool) :
    AlignedRows d r [row] [.updateOrInsert ⟨table, keyCondition m.keys row, assignments m.set row,
      columnNames m.writable, placeholders m.writable row, returned, key, row⟩] := by
  obtain ⟨hkeys, hinputs, -, hwritable, hset⟩ := Request.mergeColumns_spec hm
  obtain ⟨hne, -⟩ := ne_nil_of_mergeColumns hm
  obtain ⟨hequalities, htests⟩ := tests_keyCondition m.keys row
  refine .one rfl ⟨⟨_, by simpa using hne, hequalities⟩, ?_, ?_⟩ ⟨?_, nofun⟩ ?_
  · intro x hx
    obtain ⟨c, -, rfl⟩ := List.mem_map.mp hx
    trivial
  · by_cases hnone : m.writable = []
    · exact .inl (by simp [hnone, columnNames, placeholders])
    · exact .inr ⟨by simpa [columnNames] using hnone, rowReadable_placeholders hnone row⟩
  · intro vs hvs
    rw [List.mem_singleton.mp hvs]
    exact length_placeholders m.writable row
  · refine .cons ⟨fun _ hx => absurd hx List.not_mem_nil, fun x hx => .inl ?_, fun x hx => .inl ?_,
      fun x hx => .inl ?_⟩ .nil
    · exact own_placeholders (fun c hc => hinputs c (hwritable c hc)) row _ x hx
    · exact own_placeholders (fun c hc => hinputs c (hkeys c hc)) row _ x (htests ▸ hx)
    · rw [pairs_assignments] at hx
      exact own_placeholders (fun c hc => hinputs c (hset c hc)) row _ x hx

theorem alignedRows_conflictRow (hm : r.mergeColumns = .ok m) (d : Dialect) (row : Option Nat) :
    AlignedRows d r [row] (conflictRow d r m row) := by
  obtain ⟨hkeys, hinputs, -, -, hset⟩ := Request.mergeColumns_spec hm
  obtain ⟨hne, hinputsNe⟩ := ne_nil_of_mergeColumns hm
  unfold conflictRow
  split
  -- a key that the database makes is not inserted, so the row is looked for first
  · exact alignedRows_updateOrInsert hm row _ _ _
  · refine alignedRows_rows hinputsNe (List.cons_ne_nil row []) rfl rfl
      (length_placeholders m.inputs) (rowReadable_placeholders hinputsNe) ⟨?_, ?_⟩ fun row => ?_
    · simpa [columnNames] using hne
    · intro x hx
      obtain ⟨c, -, rfl⟩ := List.mem_map.mp hx
      trivial
    · have hinserted (c : Column) (hc : c ∈ m.inputs) : ∃ v,
          (c.name, v) ∈ (columnNames m.inputs).zip (placeholders m.inputs row) :=
        exists_mem_zip (length_placeholders _ _) (List.mem_map_of_mem hc)
      refine ⟨fun _ hx => absurd hx List.not_mem_nil, fun x hx => .inl ?_, fun x hx => .inr ?_,
        fun x hx => .inr (.inl ?_)⟩
      · exact own_placeholders hinputs row _ x hx
      · simp only [Conflict.matched, columnNames, List.map_map, List.mem_map] at hx
        obtain ⟨k, hk, rfl⟩ := hx
        exact ⟨.inl rfl, hinserted k (hkeys k hk)⟩
      · simp only [Conflict.set, List.map_map, List.mem_map] at hx
        obtain ⟨c, hc, rfl⟩ := hx
        exact ⟨.inl rfl, hinserted c (hset c hc)⟩

/-! ### Inserting or updating a duplicate -/

theorem own_insertValues (hinputs : ∀ c ∈ inputs, c ∈ r.fields) (row : Option Nat) (w : RowWrite) :
    ∀ x ∈ (columnNames inputs).zip (insertValues inputs row), w.Own r row x ∨
      ∃ c ∈ r.fields, x = (c.name, .placeholderOrNull (c.parameterAt row)) := by
  rw [columnNames, insertValues, List.zip_map']
  intro x hx
  obtain ⟨c, hc, rfl⟩ := List.mem_map.mp hx
  split
  · exact .inr ⟨c, hinputs c hc, rfl⟩
  · exact .inl (.placeholder (hinputs c hc))

/-- What a merge does in the row of an insertion that meets a duplicate. -/
def upsertWrite (m : Request.MergeColumns) (conflict : Conflict) (row : Option Nat) : RowWrite :=
  ⟨[], (columnNames m.inputs).zip (insertValues m.inputs row), [], conflict.set⟩

theorem alignedRows_upsertRow (hm : r.mergeColumns = .ok m) (row : Option Nat) {conflict : Conflict}
    (hreadable : conflict.Readable) (hmatched : conflict.matched = [])
    (hset : ∀ row, ∀ x ∈ conflict.set, (upsertWrite m conflict row).Proposed x ∨
      (upsertWrite m conflict row).Kept d r x) :
    AlignedRows d r [row] (upsertRow d r m conflict row) := by
  obtain ⟨-, hinputs, -⟩ := Request.mergeColumns_spec hm
  obtain ⟨-, hne⟩ := ne_nil_of_mergeColumns hm
  have hinsert : AlignedRows d r [row] [.insert
      ⟨tableRef d r, columnNames m.inputs, [insertValues m.inputs row], conflict, none, none⟩] := by
    refine alignedRows_rows hne (List.cons_ne_nil row []) rfl rfl (length_insertValues m.inputs)
      (rowReadable_insertValues hne) hreadable fun row => ?_
    refine ⟨nofun, own_insertValues hinputs row _, ?_, fun x hx => .inr (hset row x hx)⟩
    rw [hmatched]
    exact nofun
  unfold upsertRow
  cases hkey : keyRetrieval d with
  | output | returning => exact hinsert
  | select call => exact hinsert.append (.silent (readable_trailingKey hkey r m.inputs row))

theorem alignedRows_onDuplicate (hm : r.mergeColumns = .ok m) (row : Option Nat) :
    AlignedRows .mySql r [row]
      (upsertRow .mySql r m (.onDuplicate (duplicateAssignments r m)) row) := by
  obtain ⟨-, -, -, -, hset⟩ := Request.mergeColumns_spec hm
  have hne := duplicateAssignments_ne_nil (r := r) (ne_nil_of_mergeColumns hm).1
  refine alignedRows_upsertRow hm row ⟨hne, fun x hx => ?_⟩ rfl fun row x hx => ?_
  · rcases mem_duplicateAssignments hx with ⟨key, -, -, rfl⟩ | ⟨c, -, rfl⟩ | ⟨k, -, rfl, -⟩ <;> trivial
  · obtain ⟨a, ha, rfl⟩ := List.mem_map.mp hx
    rcases mem_duplicateAssignments ha with ⟨key, hkey, hidentity, rfl⟩ | ⟨c, hc, rfl⟩ | ⟨k, -, rfl, hone⟩
    · exact .inr ⟨rfl, .inl ⟨rfl, key, hkey, hidentity, rfl⟩⟩
    · refine .inl ⟨.inr rfl, ?_⟩
      exact exists_mem_zip (length_insertValues m.inputs row) (List.mem_map_of_mem (hset c hc))
    · exact .inr ⟨rfl, .inr ⟨rfl, congrArg (List.map Assignment.pair) hone⟩⟩

theorem alignedRows_mergeRows (hf : r.FieldsApart) (hm : r.mergeColumns = .ok m)
    {batch : Option Nat} (hbatch : rowsOf batch ≠ []) (h : mergeRows d r m batch = .ok ss) :
    AlignedRows d r (rowsOf batch) ss := by
  cases d with
  | sqlServer =>
    cases h
    exact alignedRows_mergeStatement hf hm _ hbatch
  | postgres =>
    cases h
    exact .eachRow (alignedRows_conflictRow hm _) batch
  | mySql =>
    cases h
    exact .eachRow (alignedRows_onDuplicate hm) batch
  | sqlite =>
    obtain ⟨_, -, h⟩ := bind_eq_ok_iff.mp h
    cases h
    have hreadable : Conflict.replace.Readable := trivial
    exact .eachRow (fun row => alignedRows_upsertRow hm row hreadable rfl fun _ => nofun) batch

/-! ### All insertions and merges -/

/-- Whether the operation inserts rows. -/
def inserts : Operation → Bool
  | .insert | .insertAll _ | .merge | .mergeAll _ => true
  | _ => false

theorem alignedRows_statements {op : Operation} (hop : inserts op = true) (hf : r.FieldsApart)
    (h : statements d op r = .ok ss) : AlignedRows d r (operationRows op) ss := by
  cases op with
  | insert =>
    obtain ⟨-, hne, rfl⟩ := of_insert h
    exact alignedRows_insertRow hne Request.mem_fields_of_insertable d none
  | insertAll n => exact alignedRows_insertAll hf h
  | merge | mergeAll n =>
    obtain ⟨m, batch, hm, hrows, hbatch, h⟩ := mergeRows_of_statements rfl h
    exact hrows ▸ alignedRows_mergeRows hf hm hbatch h
  | _ => cases hop

/-- **What an insertion or a merge writes is read from its text.** -/
theorem readWrites_rawText {op : Operation} (hop : inserts op = true) (hh : r.hints = none)
    (hf : r.FieldsApart) (hplain : r.Plain) (h : statements d op r = .ok ss) :
    readWrites (lex d (rawText d ss)) = some (writes ss) ∧
      lex d (tidyChars (rawText d ss)) = lex d (rawText d ss) := by
  obtain ⟨inputs, hi⟩ := boundColumns_of_statements h
  have hrenders := statements_renders hh (fun _ => hf) h hi
  have hspaced := spaced_statementList hrenders.clean
  have hlegible := legible_statementList hplain hi hrenders
  refine ⟨?_, lex_tidyChars hspaced hlegible⟩
  rw [rawText, lex_render hspaced hlegible]
  exact readWrites_statementList hrenders.clean (alignedRows_statements hop hf h).readable

/-- **Columns and values stay aligned**, in every insertion and every merge and in every dialect: there
are as many columns as values, each row that is asked for is written, and every column in it stands with
its own value. Where the names of parameters need no quotes, as in every request that is made
(`Request.plain_make`, `Request.plain_withSchema`), this is what is read from the text, before and after
it is tidied. -/
theorem columns_aligned {op : Operation} (hop : inserts op = true) (hh : r.hints = none)
    (hf : r.FieldsApart) (h : statements d op r = .ok ss) :
    (∀ w ∈ writes ss, w.Even) ∧
      List.Forall₂ (RowWrite.Aligned d r) (operationRows op) ((writes ss).flatMap Write.byRow) ∧
      (r.Plain → readWrites (lex d (rawText d ss)) = some (writes ss) ∧
        lex d (tidyChars (rawText d ss)) = lex d (rawText d ss)) :=
  have haligned := alignedRows_statements hop hf h
  ⟨haligned.even, haligned.aligned, fun hplain => readWrites_rawText hop hh hf hplain h⟩

namespace Sample

/-- Scores under a number that the database makes. -/
def scores : Request :=
  let id : Column :=
    ⟨"Id", true, true, false, .int64, none, none, none, none, false, false, none, none⟩
  let points : Column :=
    ⟨"Points", false, false, false, .int64, none, none, none, none, false, false, none, none⟩
  .make "Score" [id, points]

end Sample

/-- The merge of two scores in SQL Server: both rows of its source are read from the text, each with
its own placeholders. -/
theorem columns_aligned_scores :
    ∃ ss, statements .sqlServer (.mergeAll 2) Sample.scores = .ok ss ∧
      readWrites (lex .sqlServer (rawText .sqlServer ss)) = some (writes ss) ∧
        (∀ w ∈ writes ss, w.Even) ∧
          List.Forall₂ (RowWrite.Aligned .sqlServer Sample.scores) [some 0, some 1]
            ((writes ss).flatMap Write.byRow) := by
  obtain ⟨ss, hss⟩ : ∃ ss, statements .sqlServer (.mergeAll 2) Sample.scores = .ok ss := ⟨_, rfl⟩
  have hf : Sample.scores.FieldsApart := by
    unfold Request.FieldsApart
    decide
  obtain ⟨heven, haligned, hread⟩ := columns_aligned rfl rfl hf hss
  exact ⟨ss, hss, (hread (Request.plain_make _ _)).1, heven, haligned⟩

end Sql

end EntitySql
