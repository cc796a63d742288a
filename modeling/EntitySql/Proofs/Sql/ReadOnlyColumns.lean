import EntitySql.Proofs.Sql.Acceptance
import EntitySql.Proofs.Sql.Alignment

/-!
# Which read-only columns are written

A column is read only if the database makes its values: an identity, or a generated column. An insertion
leaves such columns out. A merge binds them where they are keys, since it looks for a row by them, and
what becomes of a bound key depends on the dialect. SQL Server and Postgres look for the row first and
leave the key out of the new row. MySQL and SQLite have one statement for both, and there the key stands
in the new row (`insertsKeys`).

A column is told by its name, so nothing can be said of a read-only column that shares its name with
another one; such a column is not alone (`Alone`). The main statement, **`readOnly_written`**, tells for
every other one what is written to it: nothing at all, unless the operation inserts its keys and the
column is one of them. Then a zero stands for an identity that is not known, but a generated key gets
the value that is bound for it.
-/

namespace EntitySql.Sql

/-! ### Columns of a write -/

/-- No other column asked for has the name of the column. -/
def Alone (r : Request) (c : Column) : Prop := ∀ x ∈ r.fields, c.isNamed x.name = true → x = c

/-- A column that is not read only has the name. -/
def Writable (r : Request) (name : String) : Prop :=
  ∃ c ∈ r.fields, c.readOnly = false ∧ c.isNamed name = true

/-- The column stands in the list of columns that are inserted. -/
def Write.Inserts (w : Write) (c : Column) : Prop := ∃ n ∈ w.columns, c.isNamed n = true

/-- Something is assigned to the column. -/
def Write.Sets (w : Write) (c : Column) : Prop := ∃ x ∈ w.set, c.isNamed x.1 = true

/-- The write is made of columns that are not read only. -/
structure Write.Spares (r : Request) (w : Write) : Prop where
  columns : ∀ n ∈ w.columns, Writable r n
  set : ∀ x ∈ w.set, Writable r x.1

variable {d : Dialect} {op : Operation} {r : Request} {m : Request.MergeColumns} {w : Write}
  {ss : List Statement}

theorem alone_of_fieldsApart (hf : r.FieldsApart) {c : Column} (hc : c ∈ r.fields) : Alone r c :=
  fun x hx hname => (hf x hx c hc hname).symm

/-- A read-only column that is alone has no name that can be written. -/
theorem Alone.not_isNamed {c : Column} (halone : Alone r c) (hread : c.readOnly = true)
    {n : String} (hn : Writable r n) : c.isNamed n ≠ true := by
  intro hname
  obtain ⟨x, hx, hwrite, hnamed⟩ := hn
  have hsame : c.isNamed x.name = true := by
    rw [Column.isNamed, equalIgnoringCase_congr hname, equalIgnoringCase_comm]
    exact hnamed
  rw [halone x hx hsame, hread] at hwrite
  cases hwrite

theorem Write.Spares.not_inserts (h : w.Spares r) {c : Column} (halone : Alone r c)
    (hread : c.readOnly = true) : ¬w.Inserts c :=
  fun ⟨n, hn, hname⟩ => halone.not_isNamed hread (h.columns n hn) hname

theorem Write.Spares.not_sets (h : w.Spares r) {c : Column} (halone : Alone r c)
    (hread : c.readOnly = true) : ¬w.Sets c :=
  fun ⟨x, hx, hname⟩ => halone.not_isNamed hread (h.set x hx) hname

/-- The name of a column that is not read only can be written. -/
theorem writable_name {c : Column} (hc : c ∈ r.fields ∧ c.readOnly = false) : Writable r c.name :=
  ⟨c, hc.1, hc.2, Text.equalIgnoringCase_refl _⟩

theorem writable_of_mem_columnNames {cs : List Column} (h : ∀ c ∈ cs, Writable r c.name) :
    ∀ n ∈ columnNames cs, Writable r n := by
  intro n hn
  obtain ⟨c, hc, rfl⟩ := List.mem_map.mp hn
  exact h c hc

theorem writes_append (ss ss' : List Statement) : writes (ss ++ ss') = writes ss ++ writes ss' :=
  List.filterMap_append

theorem writes_eachRow (batch : Option Nat) (f : Option Nat → List Statement) :
    writes (eachRow batch f) = (rowsOf batch).flatMap fun row => writes (f row) := by
  rw [eachRow_eq_flatMap, writes, List.filterMap_flatMap]
  rfl

theorem writes_trailingKey {call : String} (hcall : keyRetrieval d = .select call) (r : Request)
    (inputs : List Column) (row : Option Nat) : writes (trailingKey r inputs call row) = [] :=
  List.filterMap_eq_nil_iff.mpr fun s hs => (readable_trailingKey hcall r inputs row s hs).2

/-! ### Inserting -/

theorem writable_of_mem_insertable : ∀ c ∈ r.insertable, Writable r c.name := by
  intro c hc
  obtain ⟨hmem, hwrite⟩ := List.mem_filter.mp hc
  exact writable_name ⟨hmem, by simpa using hwrite⟩

theorem spares_insertRow (d : Dialect) (row : Option Nat) :
    ∀ w ∈ writes (insertRow d r r.insertable row), w.Spares r := by
  intro w hw
  have hone : w.columns = columnNames r.insertable ∧ w.set = [] := by
    unfold insertRow at hw
    cases hkey : keyRetrieval d with
    | output | returning =>
      rw [hkey] at hw
      rw [List.mem_singleton.mp hw]
      exact ⟨rfl, rfl⟩
    | select call =>
      rw [hkey] at hw
      simp only at hw
      rw [← List.singleton_append, writes_append, writes_trailingKey hkey, List.append_nil] at hw
      rw [List.mem_singleton.mp hw]
      exact ⟨rfl, rfl⟩
  refine ⟨?_, fun x hx => ?_⟩
  · rw [hone.1]
    exact writable_of_mem_columnNames writable_of_mem_insertable
  · rw [hone.2] at hx
    cases hx

theorem spares_eachRow {f : Option Nat → List Statement}
    (h : ∀ row, ∀ w ∈ writes (f row), w.Spares r) (batch : Option Nat) :
    ∀ w ∈ writes (eachRow batch f), w.Spares r := by
  intro w hw
  rw [writes_eachRow] at hw
  obtain ⟨row, -, hw⟩ := List.mem_flatMap.mp hw
  exact h row w hw

theorem spares_insertAll {n : Int64} (h : insertAll d r n = .ok ss) :
    ∀ w ∈ writes ss, w.Spares r := by
  have hcolumns := writable_of_mem_columnNames (writable_of_mem_insertable (r := r))
  obtain ⟨-, -, -, -, -, h⟩ := of_insertAll h
  obtain ⟨-, rfl⟩ | ⟨key, -, -, rfl⟩ | rfl := h
  · exact List.forall_mem_singleton.mpr ⟨hcolumns, nofun⟩
  · exact List.forall_mem_singleton.mpr ⟨hcolumns, nofun⟩
  · exact spares_eachRow (spares_insertRow _) (some _)

/-! ### Merging -/

/-- What a merge writes in a row that is there is not read only. -/
theorem writable_of_mem_set (hm : r.mergeColumns = .ok m) : ∀ c ∈ m.set, Writable r c.name := by
  obtain ⟨keys, -, h⟩ := bind_eq_ok_iff.mp hm
  cases h
  intro c hc
  obtain ⟨hmem, hset⟩ := List.mem_filter.mp hc
  obtain ⟨hfield, hbound⟩ := List.mem_filter.mp hmem
  simp only [Bool.and_eq_true, Bool.not_eq_true', Bool.or_eq_true] at hset hbound
  refine writable_name ⟨hfield, hbound.resolve_right ?_⟩
  rw [hset.2]
  exact Bool.false_ne_true

theorem readOnly_of_mem_writable (hm : r.mergeColumns = .ok m) :
    ∀ c ∈ m.writable, c ∈ r.fields ∧ c.readOnly = false := by
  obtain ⟨keys, -, h⟩ := bind_eq_ok_iff.mp hm
  cases h
  intro c hc
  obtain ⟨hmem, hwrite⟩ := List.mem_filter.mp hc
  exact ⟨(List.mem_filter.mp hmem).1, by simpa using hwrite⟩

/-- Without a read-only key a merge binds only names of columns that are not read only. -/
theorem writable_of_mem_inputs (hm : r.mergeColumns = .ok m)
    (hkeys : ∀ k ∈ m.keys, k.readOnly = false) : ∀ c ∈ m.inputs, Writable r c.name := by
  obtain ⟨hinput, hfields, hbound, -, -⟩ := Request.mergeColumns_spec hm
  intro c hc
  rcases hbound c hc with hwrite | hkey
  · exact writable_name (readOnly_of_mem_writable hm c hwrite)
  · obtain ⟨k, hk, hnamed⟩ := List.any_eq_true.mp hkey
    exact ⟨k, hfields k (hinput k hk), hkeys k hk, hnamed⟩

theorem spares_mergeStatement (hm : r.mergeColumns = .ok m) (d : Dialect) (batch : Option Nat) :
    ∀ w ∈ writes (mergeStatement d r m batch), w.Spares r := by
  intro w hw
  rw [List.mem_singleton.mp hw]
  refine ⟨?_, fun x hx => ?_⟩
  · exact writable_of_mem_columnNames fun c hc =>
      writable_name (readOnly_of_mem_writable hm c hc)
  · obtain ⟨n, hn, rfl⟩ := List.mem_map.mp hx
    exact writable_of_mem_columnNames (writable_of_mem_set hm) n hn

theorem spares_conflictRow (hm : r.mergeColumns = .ok m) (d : Dialect) (row : Option Nat) :
    ∀ w ∈ writes (conflictRow d r m row), w.Spares r := by
  intro w hw
  unfold conflictRow at hw
  split at hw
  · rw [List.mem_singleton.mp hw]
    refine ⟨?_, fun x hx => ?_⟩
    · exact writable_of_mem_columnNames fun c hc =>
        writable_name (readOnly_of_mem_writable hm c hc)
    · obtain ⟨a, ha, rfl⟩ := List.mem_map.mp hx
      obtain ⟨c, hc, rfl⟩ := List.mem_map.mp ha
      exact writable_of_mem_set hm c hc
  · next hnone =>
    -- this statement is for keys that are written like other columns
    have hkeys : ∀ k ∈ m.keys, k.readOnly = false := by
      intro k hk
      simpa using List.find?_eq_none.mp hnone k hk
    rw [List.mem_singleton.mp hw]
    refine ⟨writable_of_mem_columnNames (writable_of_mem_inputs hm hkeys), fun x hx => ?_⟩
    obtain ⟨a, ha, rfl⟩ := List.mem_map.mp hx
    obtain ⟨c, hc, rfl⟩ := List.mem_map.mp ha
    exact writable_of_mem_set hm c hc

/-- What the insertion of a row writes that may meet a duplicate. -/
def upsertOf (m : Request.MergeColumns) (conflict : Conflict) (row : Option Nat) : Write :=
  ⟨none, columnNames m.inputs, [insertValues m.inputs row], conflict.matched, conflict.set⟩

theorem writes_upsertRow (d : Dialect) (r : Request) (m : Request.MergeColumns)
    (conflict : Conflict) (row : Option Nat) :
    writes (upsertRow d r m conflict row) = [upsertOf m conflict row] := by
  unfold upsertRow
  rw [← List.singleton_append, writes_append]
  cases hkey : keyRetrieval d with
  | output | returning => rfl
  | select call =>
    simp only [writes_trailingKey hkey, List.append_nil]
    rfl

/-! ### All insertions and merges -/

/-- Whether the operation inserts its keys even where the database makes them. -/
def insertsKeys (d : Dialect) (op : Operation) : Bool := merges op && (d = .mySql || d = .sqlite)

theorem spares_mergeRows (hd : d = .sqlServer ∨ d = .postgres) (hm : r.mergeColumns = .ok m)
    {batch : Option Nat} (h : mergeRows d r m batch = .ok ss) :
    ∀ w ∈ writes ss, w.Spares r := by
  rcases hd with rfl | rfl
  · cases h
    exact spares_mergeStatement hm _ batch
  · cases h
    exact spares_eachRow (spares_conflictRow hm _) batch

theorem writes_mergeRows (hd : d = .mySql ∨ d = .sqlite) {batch : Option Nat}
    (h : mergeRows d r m batch = .ok ss) :
    ∃ conflict, writes ss = (rowsOf batch).map (upsertOf m conflict) ∧
      (conflict = .replace ∨ d = .mySql ∧ conflict = .onDuplicate (duplicateAssignments r m)) := by
  have hall (conflict : Conflict) : writes (eachRow batch (upsertRow d r m conflict)) =
      (rowsOf batch).map (upsertOf m conflict) := by
    simp only [writes_eachRow, writes_upsertRow]
    exact List.map_eq_flatMap.symm
  rcases hd with rfl | rfl
  · cases h
    exact ⟨_, hall _, .inr ⟨rfl, rfl⟩⟩
  · obtain ⟨_, -, h⟩ := bind_eq_ok_iff.mp h
    cases h
    exact ⟨_, hall _, .inl rfl⟩

theorem spares_statements (hop : inserts op = true) (hkeys : insertsKeys d op = false)
    (h : statements d op r = .ok ss) : ∀ w ∈ writes ss, w.Spares r := by
  have hd : merges op = true → d = .sqlServer ∨ d = .postgres := by
    intro hmerges
    rw [insertsKeys, hmerges] at hkeys
    cases d with
    | sqlServer => exact .inl rfl
    | postgres => exact .inr rfl
    | mySql | sqlite => cases hkeys
  cases op with
  | insert =>
    obtain ⟨-, -, rfl⟩ := of_insert h
    exact spares_insertRow d none
  | insertAll n => exact spares_insertAll h
  | merge | mergeAll n =>
    obtain ⟨m, batch, hm, -, -, h⟩ := mergeRows_of_statements rfl h
    exact spares_mergeRows (hd rfl) hm h
  | _ => cases hop

theorem writes_of_insertsKeys (hkeys : insertsKeys d op = true) (h : statements d op r = .ok ss) :
    ∃ m conflict, r.mergeColumns = .ok m ∧ operationRows op ≠ [] ∧
      writes ss = (operationRows op).map (upsertOf m conflict) ∧
        (conflict = .replace ∨
          d = .mySql ∧ conflict = .onDuplicate (duplicateAssignments r m)) := by
  obtain ⟨hop, hd⟩ := Bool.and_eq_true_iff.mp hkeys
  obtain ⟨m, batch, hm, hrows, hbatch, h⟩ := mergeRows_of_statements hop h
  obtain ⟨conflict, hwrites, hconflict⟩ := writes_mergeRows (by simpa using hd) h
  exact ⟨m, conflict, hm, hrows ▸ hbatch, hrows ▸ hwrites, hconflict⟩

/-- A read-only column is inserted if and only if it is a key. -/
theorem inserts_upsertOf_iff (hm : r.mergeColumns = .ok m) (conflict : Conflict)
    (row : Option Nat) {c : Column} (halone : Alone r c) (hread : c.readOnly = true) :
    (upsertOf m conflict row).Inserts c ↔ c ∈ m.keys := by
  obtain ⟨hinput, hfields, hbound, -, -⟩ := Request.mergeColumns_spec hm
  constructor
  · rintro ⟨n, hn, hname⟩
    obtain ⟨x, hx, rfl⟩ := List.mem_map.mp hn
    obtain rfl := halone x (hfields x hx) hname
    rcases hbound x hx with hwrite | hkey
    · rw [(readOnly_of_mem_writable hm x hwrite).2] at hread
      cases hread
    · obtain ⟨k, hk, hnamed⟩ := List.any_eq_true.mp hkey
      rw [Column.isNamed, equalIgnoringCase_comm] at hnamed
      rwa [← halone k (hfields k (hinput k hk)) hnamed]
  · intro hk
    exact ⟨c.name, List.mem_map_of_mem (hinput c hk), Text.equalIgnoringCase_refl _⟩

/-- The value that is inserted in a column of its row. -/
theorem value_of_mem_insertValues {inputs : List Column} (hinputs : ∀ c ∈ inputs, c ∈ r.fields)
    (row : Option Nat) {c : Column} (halone : Alone r c) {x : String × Operand}
    (hx : x ∈ (columnNames inputs).zip (insertValues inputs row)) (hname : c.isNamed x.1 = true) :
    x.2 = if c.identity then .placeholderOrNull (c.parameterAt row)
      else .placeholder (c.parameterAt row) := by
  rw [columnNames, insertValues, List.zip_map'] at hx
  obtain ⟨y, hy, rfl⟩ := List.mem_map.mp hx
  obtain rfl := halone y (hinputs y hy) hname
  rfl

/-- What a merge that inserts its keys does with a read-only column: it inserts the column if that is a
key, with null for an identity of zero, and assigns nothing to it but an identity that is remembered or
the value that the key has. -/
structure Write.KeepsReadOnly (d : Dialect) (r : Request) (keys : List Column)
    (rows : List (Option Nat)) (w : Write) (c : Column) : Prop where
  inserts_iff : w.Inserts c ↔ c ∈ keys
  value : ∀ vs ∈ w.rows, ∀ x ∈ w.columns.zip vs, c.isNamed x.1 = true →
    ∃ row ∈ rows, x.2 = if c.identity then .placeholderOrNull (c.parameterAt row)
      else .placeholder (c.parameterAt row)
  set : ∀ x ∈ w.set, c.isNamed x.1 = true → d = .mySql ∧
    ((∃ key, r.key = some key ∧ key.identity = true ∧ x = (key.name, .remembered key.name)) ∨
      c ∈ keys ∧ x = (c.name, .column c.name) ∧ w.set = [x])

theorem set_upsertOf (hm : r.mergeColumns = .ok m) {conflict : Conflict}
    (hconflict : conflict = .replace ∨
      d = .mySql ∧ conflict = .onDuplicate (duplicateAssignments r m))
    (row : Option Nat) {c : Column} (halone : Alone r c) (hread : c.readOnly = true)
    {x : String × Operand} (hx : x ∈ (upsertOf m conflict row).set) (hname : c.isNamed x.1 = true) :
    d = .mySql ∧
      ((∃ key, r.key = some key ∧ key.identity = true ∧ x = (key.name, .remembered key.name)) ∨
        c ∈ m.keys ∧ x = (c.name, .column c.name) ∧ (upsertOf m conflict row).set = [x]) := by
  obtain ⟨hinput, hfields, -, -, -⟩ := Request.mergeColumns_spec hm
  rcases hconflict with rfl | ⟨hd, rfl⟩
  · cases hx
  · refine ⟨hd, ?_⟩
    obtain ⟨a, ha, rfl⟩ := List.mem_map.mp hx
    rcases mem_duplicateAssignments ha with ⟨key, hkey, hidentity, rfl⟩ | ⟨s, hs, rfl⟩ | ⟨k, hk, rfl, hone⟩
    · exact .inl ⟨key, hkey, hidentity, rfl⟩
    · exact absurd hname (halone.not_isNamed hread (writable_of_mem_set hm s hs))
    · obtain rfl := halone k (hfields k (hinput k hk)) hname
      exact .inr ⟨hk, rfl, congrArg (List.map Assignment.pair) hone⟩

/-- **An insertion writes no read-only column, and a merge only where MySQL or SQLite inserts its
keys.** There a read-only column is inserted if and only if it is a key: an identity with null for a
zero, a generated key like any other column. -/
theorem readOnly_written (hop : inserts op = true) (h : statements d op r = .ok ss) :
    (insertsKeys d op = false → ∀ w ∈ writes ss, w.Spares r ∧
      ∀ c, Alone r c → c.readOnly = true → ¬w.Inserts c ∧ ¬w.Sets c) ∧
    (insertsKeys d op = true → ∃ keys, r.rowKeys = .ok keys ∧ writes ss ≠ [] ∧
      ∀ w ∈ writes ss, ∀ c, Alone r c → c.readOnly = true →
        w.KeepsReadOnly d r keys (operationRows op) c) ∧
    (r.hints = none → r.FieldsApart → r.Plain →
      readWrites (lex d (rawText d ss)) = some (writes ss)) := by
  refine ⟨fun hkeys w hw => ?_, fun hkeys => ?_, fun hh hf hplain =>
    (readWrites_rawText hop hh hf hplain h).1⟩
  · have hspares := spares_statements hop hkeys h w hw
    exact ⟨hspares, fun c halone hread =>
      ⟨hspares.not_inserts halone hread, hspares.not_sets halone hread⟩⟩
  · obtain ⟨m, conflict, hm, hrows, hwrites, hconflict⟩ := writes_of_insertsKeys hkeys h
    obtain ⟨-, hfields, -⟩ := Request.mergeColumns_spec hm
    refine ⟨m.keys, (Request.rowKeys_of_mergeColumns hm).1, ?_, fun w hw c halone hread => ?_⟩
    · rw [hwrites]
      simpa using hrows
    · rw [hwrites] at hw
      obtain ⟨row, hrow, rfl⟩ := List.mem_map.mp hw
      refine ⟨inserts_upsertOf_iff hm conflict row halone hread, fun vs hvs x hx hname => ?_,
        fun x hx hname => set_upsertOf hm hconflict row halone hread hx hname⟩
      rw [List.mem_singleton.mp hvs] at hx
      exact ⟨row, hrow, value_of_mem_insertValues hfields row halone hx hname⟩

namespace Sample

/-- The short title of a page, which the database makes from the title. -/
def slug : Column :=
  ⟨"Slug", true, false, false, .text, none, none, none, none, false, true, none, none⟩

/-- Pages, told by their short title. -/
def pages : Request :=
  let title : Column :=
    ⟨"Title", false, false, false, .text, none, none, none, none, false, false, none, none⟩
  .make "Page" [slug, title]

theorem fieldsApart_pages : pages.FieldsApart := by
  unfold Request.FieldsApart
  decide

theorem alone_slug : Alone pages slug := alone_of_fieldsApart fieldsApart_pages List.mem_cons_self

end Sample

/-- MySQL inserts the short title of a page, although the database makes it; Postgres does not. -/
theorem readOnly_written_pages :
    (∃ ss, statements .mySql .merge Sample.pages = .ok ss ∧
      readWrites (lex .mySql (rawText .mySql ss)) = some (writes ss) ∧
        ∃ w ∈ writes ss, w.Inserts Sample.slug) ∧
    ∃ ss, statements .postgres .merge Sample.pages = .ok ss ∧
      ∀ w ∈ writes ss, ¬w.Inserts Sample.slug := by
  constructor
  · obtain ⟨ss, hss⟩ : ∃ ss, statements .mySql .merge Sample.pages = .ok ss := ⟨_, rfl⟩
    obtain ⟨-, hkeys, htext⟩ := readOnly_written rfl hss
    obtain ⟨keys, hrowKeys, hne, hall⟩ := hkeys rfl
    cases hrowKeys
    obtain ⟨w, hw⟩ := List.exists_mem_of_ne_nil _ hne
    have hslug := (hall w hw Sample.slug Sample.alone_slug rfl).inserts_iff
    exact ⟨ss, hss, htext rfl Sample.fieldsApart_pages (Request.plain_make _ _), w, hw, hslug.mpr List.mem_cons_self⟩
  · obtain ⟨ss, hss⟩ : ∃ ss, statements .postgres .merge Sample.pages = .ok ss := ⟨_, rfl⟩
    obtain ⟨hspares, -⟩ := readOnly_written rfl hss
    exact ⟨ss, hss, fun w hw => ((hspares rfl w hw).2 Sample.slug Sample.alone_slug rfl).1⟩

end EntitySql.Sql
