import EntitySql.Proofs.Sql.RequestPaths

/-!
# The names in insertions and merges

Insertions and merges write no name in parts but that of the table: their columns come from the columns
asked for, and the key that they give back from the columns of the table. **`describes_insertRow`** and
**`describes_mergeRows`** say so for one row and for a batch in every dialect.
-/

namespace EntitySql.Sql

variable {d : Dialect} {op : Operation} {r : Request} {listed : List Column} {ss : List Statement}

/-! ### Inserting -/

/-- The operation writes no name in parts but that of the table. -/
def writesRows : Operation → Bool
  | .insert | .insertAll _ | .merge | .mergeAll _ | .updateAll _ => true
  | _ => false

theorem namesInParts_of_writesRows (hop : writesRows op = true) : r.namesInParts op = [] := by
  cases op with
  | insert | insertAll | merge | mergeAll | updateAll => rfl
  | _ => cases hop

/-- A statement that has the paths of the request, and lists its columns, for an operation that writes
no name in parts. -/
theorem Describes.row (hop : writesRows op = true) {s : Statement} (regular : s.Regular)
    (mentions : ∀ path ∈ s.paths, r.Mentions op path) (lists : ∀ c ∈ listed, [c.name] ∈ s.paths) :
    Describes r op listed [s] := by
  refine .one regular mentions lists fun n hn => ?_
  rw [namesInParts_of_writesRows hop] at hn
  cases hn

theorem mentions_trailingKey (inputs : List Column) (call : String) (row : Option Nat) :
    ∀ path ∈ (trailingKey r inputs call row).flatMap Statement.paths, r.Mentions op path := by
  have hone {value : Operand} (hvalue : value.paths = []) :
      ∀ path ∈ (Statement.selectKey value row).paths, r.Mentions op path := by
    rw [Statement.paths, hvalue]
    exact List.forall_mem_cons.mpr ⟨mentions_result, mentions_rowNumber row⟩
  intro path hpath
  obtain ⟨s, hs, hpath⟩ := List.mem_flatMap.mp hpath
  have hall : ∀ s ∈ trailingKey r inputs call row, ∀ path ∈ s.paths, r.Mentions op path :=
    forall_mem_trailingKey (hone rfl) fun _ _ _ => hone rfl
  exact hall s hs path hpath

theorem regular_trailingKey {call : String} (hcall : keyRetrieval d = .select call) (r : Request)
    (inputs : List Column) (row : Option Nat) :
    ∀ s ∈ trailingKey r inputs call row, s.Regular := by
  have hfunction : followsName call = true := by
    cases d with
    | sqlServer | postgres => cases hcall
    | mySql | sqlite =>
      cases hcall
      decide
  exact forall_mem_trailingKey hfunction fun _ _ _ => trivial

/-- An insertion of columns asked for, with values that name no columns. What it does with a row that is
there and the key that it gives back are up to the caller. -/
theorem describes_insertOf (hop : writesRows op = true) {inputs : List Column}
    (hinputs : ∀ c ∈ inputs, c ∈ r.fields) {i : Insert} (htable : i.table.name = r.table)
    (hcolumns : i.columns = columnNames inputs) (hrows : ∀ row ∈ i.rows, ∀ v ∈ row, v.Regular)
    (hvalues : ∀ row ∈ i.rows, row.flatMap Operand.paths = []) (hregular : i.conflict.Regular)
    (houtput : ∀ path ∈ outputPaths false i.output, r.Mentions op path)
    (hconflict : ∀ path ∈ i.conflict.paths, r.Mentions op path)
    (hreturning : ∀ path ∈ returningPaths i.returning, r.Mentions op path) :
    Describes r op inputs [.insert i] := by
  have hnone : i.rows.flatMap (fun row => row.flatMap Operand.paths) = [] :=
    List.flatMap_eq_nil_iff.mpr hvalues
  refine .row hop ⟨hrows, hregular⟩ ?_ fun c hc => ?_
  · rw [Statement.paths, Insert.paths, hnone, htable, hcolumns, List.nil_append]
    refine List.forall_mem_cons.mpr ⟨.table, List.forall_mem_append.mpr
      ⟨mentions_wholePaths hinputs, List.forall_mem_append.mpr ⟨houtput, ?_⟩⟩⟩
    exact List.forall_mem_append.mpr ⟨hconflict, hreturning⟩
  · rw [Statement.paths, Insert.paths, hcolumns]
    exact List.mem_cons_of_mem _ (List.mem_append_left _ (mem_wholePaths hc))

theorem describes_insertRow (hop : writesRows op = true) {inputs : List Column}
    (hinputs : ∀ c ∈ inputs, c ∈ r.fields) (d : Dialect) (row : Option Nat) :
    Describes r op inputs (insertRow d r inputs row) := by
  have htable := name_tableRef d r
  have hrows : ∀ values ∈ [placeholders inputs row], ∀ v ∈ values, v.Regular := by
    simpa using regular_placeholders inputs row
  have hvalues : ∀ values ∈ [placeholders inputs row], values.flatMap Operand.paths = [] := by
    simpa using paths_placeholders inputs row
  unfold insertRow
  split
  · exact describes_insertOf hop hinputs htable rfl hrows hvalues trivial
      (mentions_outputPaths false) nofun nofun
  · exact describes_insertOf hop hinputs htable rfl hrows hvalues trivial nofun nofun
      (mentions_returningPaths row)
  · next call hcall =>
    let plain : Insert :=
      ⟨tableRef d r, columnNames inputs, [placeholders inputs row], .fail, none, none⟩
    have hplain : Describes r op inputs [.insert plain] :=
      describes_insertOf hop hinputs htable rfl hrows hvalues trivial nofun nofun nofun
    exact hplain.append (regular_trailingKey hcall r inputs row)
      (mentions_trailingKey inputs call row)

theorem describes_insert (h : insert d r = .ok ss) : Describes r .insert r.insertable ss := by
  obtain ⟨-, -, rfl⟩ := of_insert h
  exact describes_insertRow rfl Request.mem_fields_of_insertable d none

/-- The columns of a merge statement as the source names them, and as the table does. -/
theorem mentions_merge {matchOn : Option (List Column)} {columns set : List Column}
    (hmatch : ∀ cs, matchOn = some cs → ∀ c ∈ cs, c ∈ r.fields)
    (hcolumns : ∀ c ∈ columns, c ∈ r.fields) (hset : ∀ c ∈ set, c ∈ r.fields)
    {source : MergeSource} (hsource : ∀ path ∈ source.paths, r.Mentions op path) (batch : Bool) :
    ∀ path ∈ (Statement.merge ⟨tableRef d r, source, matchOn.map columnNames, columnNames columns,
      columnNames set, r.key.map Column.name, batch⟩).paths, r.Mentions op path := by
  have hmatched : ∀ path ∈ bothSides ((matchOn.map columnNames).getD []), r.Mentions op path := by
    cases matchOn with
    | none => nofun
    | some cs => exact mentions_bothSides (hmatch cs rfl)
  rw [Statement.paths, Merge.paths, name_tableRef]
  refine List.forall_mem_cons.mpr ⟨.table, List.forall_mem_append.mpr ⟨hsource,
    List.forall_mem_append.mpr ⟨hmatched, List.forall_mem_append.mpr ⟨?_, ?_⟩⟩⟩⟩
  · exact List.forall_mem_append.mpr ⟨mentions_wholePaths hcolumns, mentions_wholePaths hcolumns⟩
  · exact List.forall_mem_append.mpr ⟨mentions_bothSides hset, mentions_outputPaths batch⟩

/-- The rows of a source that are numbered. -/
theorem mentions_numberedRows {inputs : List Column} (hinputs : ∀ c ∈ inputs, c ∈ r.fields)
    (n : Nat) : ∀ path ∈ (MergeSource.rows (columnNames inputs ++ [sourceOrderColumn])
      (numberedRows inputs n)).paths, r.Mentions op path := by
  have hnumber : r.Mentions op [sourceOrderColumn] := .own (by decide)
  rw [MergeSource.paths, paths_numberedRows, wholePaths, List.map_append, List.nil_append]
  exact List.forall_mem_append.mpr ⟨mentions_wholePaths hinputs, by simpa using hnumber⟩

theorem describes_insertAll {n : Int64} (h : insertAll d r n = .ok ss) :
    Describes r (.insertAll n) r.insertable ss := by
  obtain ⟨-, -, -, hpositive, -, h⟩ := of_insertAll h
  have hfields := Request.mem_fields_of_insertable (r := r)
  obtain ⟨-, rfl⟩ | ⟨key, hkey, -, rfl⟩ | rfl := h
  · refine describes_insertOf rfl hfields (name_tableRef d r) rfl ?_ ?_ trivial nofun nofun nofun
    · intro row hrow
      obtain ⟨i, -, rfl⟩ := List.mem_map.mp hrow
      exact regular_placeholders _ _
    · intro row hrow
      obtain ⟨i, -, rfl⟩ := List.mem_map.mp hrow
      exact paths_placeholders _ _
  · have hnone : ∀ cs : List Column, none = some cs → ∀ c ∈ cs, c ∈ r.fields := by
      intro cs hcs
      cases hcs
    have hempty : ∀ c ∈ ([] : List Column), c ∈ r.fields := by simp
    have hsource : ∀ path ∈ (MergeSource.rows (columnNames r.insertable ++ [sourceOrderColumn])
        (numberedRows r.insertable n.toInt.toNat)).paths, r.Mentions (.insertAll n) path :=
      mentions_numberedRows hfields _
    have hmentions := mentions_merge (d := d) hnone hfields hempty hsource true
    rw [hkey] at hmentions
    have hregular := regular_numberedRows r.insertable n.toInt.toNat
    refine Describes.row rfl hregular hmentions fun c hc => ?_
    have hlisted := mem_wholePaths hc
    rw [Statement.paths, Merge.paths]
    simp only [List.mem_cons, List.mem_append]
    exact .inr (.inr (.inr (.inl (.inl hlisted))))
  · exact .eachRow (rowsOf_ne_nil hpositive) fun row => describes_insertRow rfl hfields d row

/-! ### Merging -/

variable {m : Request.MergeColumns}

/-- Fewer columns are listed, too. -/
theorem Describes.mono {fewer : List Column} (h : Describes r op listed ss)
    (hfewer : ∀ c ∈ fewer, c ∈ listed) : Describes r op fewer ss :=
  ⟨h.regular, h.mentions, fun c hc => h.lists c (hfewer c hc), h.inParts⟩

theorem describes_mergeStatement (hop : writesRows op = true) (hm : r.mergeColumns = .ok m)
    (d : Dialect) (batch : Option Nat) :
    Describes r op (m.keys ++ m.writable) (mergeStatement d r m batch) := by
  obtain ⟨hkeys, hinputs, -, hwritable, hset⟩ := Request.mergeColumns_spec hm
  have hmatch : ∀ cs, some m.keys = some cs → ∀ c ∈ cs, c ∈ r.fields := by
    intro cs hcs c hc
    obtain rfl := Option.some.inj hcs
    exact hinputs c (hkeys c hc)
  have hcolumns : ∀ c ∈ m.writable, c ∈ r.fields := fun c hc => hinputs c (hwritable c hc)
  have hassigned : ∀ c ∈ m.set, c ∈ r.fields := fun c hc => hinputs c (hset c hc)
  have hsource {source : MergeSource} (hregular : source.Regular)
      (hmentions : ∀ path ∈ source.paths, r.Mentions op path) :
      Describes r op (m.keys ++ m.writable) [.merge ⟨tableRef d r, source,
        some (columnNames m.keys), columnNames m.writable, columnNames m.set,
        r.key.map Column.name, batch.isSome⟩] := by
    refine .row hop hregular
      (mentions_merge hmatch hcolumns hassigned hmentions batch.isSome) fun c hc => ?_
    rw [Statement.paths, Merge.paths]
    simp only [List.mem_cons, List.mem_append]
    rcases List.mem_append.mp hc with hc | hc
    · refine .inr (.inr (.inl (List.mem_flatMap.mpr ⟨c.name, List.mem_map_of_mem hc, ?_⟩)))
      exact List.mem_cons_self
    · exact .inr (.inr (.inr (.inl (.inl (mem_wholePaths hc)))))
  unfold mergeStatement
  cases batch with
  | none =>
    refine hsource (regular_assignments m.inputs none) fun path hpath => ?_
    obtain ⟨a, ha, hpath⟩ := List.mem_flatMap.mp hpath
    obtain ⟨c, hc, rfl⟩ := List.mem_map.mp ha
    rw [List.mem_singleton.mp hpath]
    exact .column (List.mem_append_left _ (hinputs c hc))
  | some n => exact hsource (regular_numberedRows m.inputs n) (mentions_numberedRows hinputs n)

theorem mentions_returned (hm : r.mergeColumns = .ok m) {made : Column} (hmade : made ∈ m.keys) :
    r.Mentions op [(r.key.getD made).name] := by
  obtain ⟨hkeys, hinputs, -⟩ := Request.mergeColumns_spec hm
  cases hkey : r.key with
  | none => exact .column (List.mem_append_left _ (hinputs made (hkeys made hmade)))
  | some key => exact mentions_key hkey

theorem describes_updateOrInsert (hop : writesRows op = true) (hm : r.mergeColumns = .ok m)
    {made : Column} (hmade : made ∈ m.keys) (d : Dialect) (row : Option Nat) :
    Describes r op (m.keys ++ m.writable) [.updateOrInsert ⟨tableRef d r,
      keyCondition m.keys row, assignments m.set row, columnNames m.writable,
      placeholders m.writable row, (r.key.getD made).name, r.key.isSome, row⟩] := by
  obtain ⟨hkeys, hinputs, -, hwritable, hset⟩ := Request.mergeColumns_spec hm
  have hreturned : r.Mentions op [(r.key.getD made).name] := mentions_returned hm hmade
  have hfilter : ∀ path ∈ (keyCondition m.keys row).paths, r.Mentions op path := by
    rw [paths_keyCondition]
    exact mentions_wholePaths fun c hc => hinputs c (hkeys c hc)
  have hassigned : ∀ path ∈ (assignments m.set row).flatMap Assignment.paths,
      r.Mentions op path := by
    rw [paths_assignments]
    exact mentions_wholePaths fun c hc => hinputs c (hset c hc)
  have hcolumns : ∀ path ∈ wholePaths (columnNames m.writable), r.Mentions op path :=
    mentions_wholePaths fun c hc => hinputs c (hwritable c hc)
  generalize hu : UpdateOrInsert.mk (tableRef d r) (keyCondition m.keys row)
    (assignments m.set row) (columnNames m.writable) (placeholders m.writable row)
    (r.key.getD made).name r.key.isSome row = u
  have hresult : ∀ path ∈ u.resultPaths, r.Mentions op path := by
    subst hu
    exact List.forall_mem_cons.mpr ⟨hreturned,
      List.forall_mem_cons.mpr ⟨mentions_result, mentions_rowNumber row⟩⟩
  have hmatched : (∀ path ∈ u.matchedPaths, r.Mentions op path) ∧
      ∀ c ∈ m.keys, [c.name] ∈ u.matchedPaths := by
    subst hu
    unfold UpdateOrInsert.matchedPaths
    rw [name_tableRef]
    have hlisted : ∀ c ∈ m.keys, [c.name] ∈ (keyCondition m.keys row).paths := by
      intro c hc
      rw [paths_keyCondition]
      exact mem_wholePaths hc
    split
    · exact ⟨List.forall_mem_cons.mpr ⟨hreturned, List.forall_mem_cons.mpr ⟨.table, hfilter⟩⟩,
        fun c hc => List.mem_cons_of_mem _ (List.mem_cons_of_mem _ (hlisted c hc))⟩
    · refine ⟨List.forall_mem_cons.mpr ⟨.table, List.forall_mem_append.mpr ⟨hassigned,
        List.forall_mem_append.mpr ⟨hfilter, by simpa using hreturned⟩⟩⟩, fun c hc => ?_⟩
      exact List.mem_cons_of_mem _ (List.mem_append_right _ (List.mem_append_left _ (hlisted c hc)))
  have hinserted : (∀ path ∈ u.insertedPaths, r.Mentions op path) ∧
      ∀ c ∈ m.writable, [c.name] ∈ u.insertedPaths := by
    subst hu
    unfold UpdateOrInsert.insertedPaths
    rw [name_tableRef, paths_placeholders, List.append_nil]
    split
    · next hempty =>
      refine ⟨List.forall_mem_cons.mpr ⟨.table, nofun⟩, fun c hc => ?_⟩
      rw [List.map_eq_nil_iff.mp (List.isEmpty_iff.mp hempty)] at hc
      cases hc
    · exact ⟨List.forall_mem_cons.mpr ⟨.table, hcolumns⟩,
        fun c hc => List.mem_cons_of_mem _ (mem_wholePaths hc)⟩
  have hregular : (Statement.updateOrInsert u).Regular := by
    subst hu
    exact ⟨proper_keyCondition _ _, regular_assignments _ _, regular_placeholders _ _⟩
  have hreturnedPath : r.Mentions op [u.returned] := by
    subst hu
    exact hreturned
  refine .row hop hregular ?_ fun c hc => ?_
  · rw [Statement.paths, UpdateOrInsert.paths]
    refine List.forall_mem_append.mpr ⟨hmatched.1, List.forall_mem_append.mpr ⟨hinserted.1, ?_⟩⟩
    split
    · exact List.forall_mem_cons.mpr ⟨hreturnedPath, List.forall_mem_append.mpr ⟨hresult, hresult⟩⟩
    · nofun
  · rw [Statement.paths, UpdateOrInsert.paths]
    rcases List.mem_append.mp hc with hc | hc
    · exact List.mem_append_left _ (hmatched.2 c hc)
    · exact List.mem_append_right _ (List.mem_append_left _ (hinserted.2 c hc))

/-- Everything listed by a merge is among its inputs. -/
theorem mem_inputs (hm : r.mergeColumns = .ok m) : ∀ c ∈ m.keys ++ m.writable, c ∈ m.inputs := by
  obtain ⟨hkeys, -, -, hwritable, -⟩ := Request.mergeColumns_spec hm
  exact List.forall_mem_append.mpr ⟨hkeys, hwritable⟩

theorem describes_conflictRow (hop : writesRows op = true) (hm : r.mergeColumns = .ok m)
    (d : Dialect) (row : Option Nat) :
    Describes r op (m.keys ++ m.writable) (conflictRow d r m row) := by
  obtain ⟨hkeys, hinputs, -, -, hset⟩ := Request.mergeColumns_spec hm
  unfold conflictRow
  split
  · next made hmade =>
    exact describes_updateOrInsert hop hm (List.mem_of_find?_eq_some hmade) d row
  · refine Describes.mono (describes_insertOf hop hinputs (name_tableRef d r) rfl ?_ ?_ ?_ nofun ?_
      (mentions_returningPaths row)) (mem_inputs hm)
    · simpa using regular_placeholders m.inputs row
    · simpa using paths_placeholders m.inputs row
    · intro a ha
      obtain ⟨c, -, rfl⟩ := List.mem_map.mp ha
      trivial
    · have hexcluded : (m.set.map fun c => Assignment.mk c.name (.excluded c.name)).flatMap
          Assignment.paths = bothSides (columnNames m.set) := by
        rw [List.flatMap_map, bothSides, columnNames, List.flatMap_map]
        rfl
      rw [Conflict.paths, hexcluded]
      exact List.forall_mem_append.mpr ⟨mentions_wholePaths fun c hc => hinputs c (hkeys c hc),
        mentions_bothSides fun c hc => hinputs c (hset c hc)⟩

theorem describes_upsertRow (hop : writesRows op = true) (hm : r.mergeColumns = .ok m)
    {call : String} (hcall : keyRetrieval d = .select call) {conflict : Conflict}
    (hregular : conflict.Regular) (hconflict : ∀ path ∈ conflict.paths, r.Mentions op path)
    (row : Option Nat) : Describes r op (m.keys ++ m.writable) (upsertRow d r m conflict row) := by
  obtain ⟨-, hinputs, -⟩ := Request.mergeColumns_spec hm
  have hvalues : ∀ values ∈ [insertValues m.inputs row], ∀ v ∈ values, v.Regular := by
    simpa using regular_insertValues m.inputs row
  have hpaths : ∀ values ∈ [insertValues m.inputs row], values.flatMap Operand.paths = [] := by
    simpa using paths_insertValues m.inputs row
  unfold upsertRow
  rw [hcall]
  have hinsert : Describes r op m.inputs [.insert ⟨tableRef d r, columnNames m.inputs,
      [insertValues m.inputs row], conflict, none, none⟩] :=
    describes_insertOf hop hinputs (name_tableRef d r) rfl hvalues hpaths hregular nofun hconflict
      nofun
  exact (hinsert.mono (mem_inputs hm)).append (regular_trailingKey hcall r m.inputs row)
    (mentions_trailingKey m.inputs call row)

/-- What is assigned on a duplicate key are columns of the request. -/
theorem mentions_duplicateAssignments (hm : r.mergeColumns = .ok m) :
    (Conflict.onDuplicate (duplicateAssignments r m)).Regular ∧
      ∀ path ∈ (Conflict.onDuplicate (duplicateAssignments r m)).paths, r.Mentions op path := by
  obtain ⟨hkeys, hinputs, -, -, hset⟩ := Request.mergeColumns_spec hm
  have hboth {n : String} (hn : r.Mentions op [n]) : ∀ path ∈ [[n], [n]], r.Mentions op path := by
    simpa using hn
  constructor
  · intro a ha
    rcases mem_duplicateAssignments ha with ⟨key, -, -, rfl⟩ | ⟨c, -, rfl⟩ | ⟨k, -, rfl, -⟩ <;> trivial
  · intro path hpath
    obtain ⟨a, ha, hpath⟩ := List.mem_flatMap.mp hpath
    rcases mem_duplicateAssignments ha with ⟨key, hkey, -, rfl⟩ | ⟨c, hc, rfl⟩ | ⟨k, hk, rfl, -⟩
    · exact hboth (mentions_key hkey) path hpath
    · exact hboth (.column (List.mem_append_left _ (hinputs c (hset c hc)))) path hpath
    · exact hboth (.column (List.mem_append_left _ (hinputs k (hkeys k hk)))) path hpath

theorem describes_mergeRows (hop : writesRows op = true) (hm : r.mergeColumns = .ok m)
    {batch : Option Nat} (hbatch : rowsOf batch ≠ []) (h : mergeRows d r m batch = .ok ss) :
    Describes r op (m.keys ++ m.writable) ss := by
  cases d with
  | sqlServer =>
    cases h
    exact describes_mergeStatement hop hm _ batch
  | postgres =>
    cases h
    exact .eachRow hbatch (describes_conflictRow hop hm _)
  | mySql =>
    cases h
    refine .eachRow hbatch fun row => ?_
    obtain ⟨hregular, hmentions⟩ := mentions_duplicateAssignments hm
    exact describes_upsertRow hop hm rfl hregular hmentions row
  | sqlite =>
    obtain ⟨_, -, h⟩ := bind_eq_ok_iff.mp h
    cases h
    have hregular : Conflict.replace.Regular := trivial
    have hmentions : ∀ path ∈ Conflict.replace.paths, r.Mentions op path := nofun
    exact .eachRow hbatch (describes_upsertRow hop hm rfl hregular hmentions)

end EntitySql.Sql
