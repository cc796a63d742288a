import EntitySql.Proofs.Sql.WritePaths

/-!
# A column is written in two ways

**`columns_written`** follows every name of a request through every operation. The statements have no
paths but those of the request, and they have all of them: each listed column as a whole and each name
of the filter and the order in parts; and these paths are what a database reads in the text. So the two
ways of writing a column agree where its name is `Whole`, and for any other name the statement means two
columns.
-/

namespace EntitySql.Sql

variable {d : Dialect} {op : Operation} {r : Request} {listed : List Column} {ss : List Statement}

/-! ### Reading rows -/

/-- The operation reads rows: it lists the columns asked for, and writes its filter and its order. -/
def readsRows : Operation → Bool
  | .query _ | .pagedQuery .. | .skipQuery .. => true
  | _ => false

/-- The paths of an operation that reads rows, in the order of its text: the columns asked for as a
whole, the table, the filter and the order in parts. SQL Server numbers the rows of a page in an inner
query, which starts with the order, and lists the columns again in the outer one. -/
def rowPaths (r : Request) : Dialect → Operation → List (List String)
  | .sqlServer, .pagedQuery .. =>
    orderPaths r.orderBy ++ [rowNumberColumn] :: (wholePaths (columnNames r.fields) ++
      nameParts r.table :: (r.testedNames.map nameParts ++
        (wholePaths (columnNames r.fields) ++ [[rowNumberColumn], [rowNumberColumn]])))
  | _, _ =>
    wholePaths (columnNames r.fields) ++
      nameParts r.table :: (r.testedNames.map nameParts ++ orderPaths r.orderBy)

theorem regular_selectFields (d : Dialect) (r : Request) (top : Option Nat) (limit : RowLimit) :
    (selectFields d r top limit).Regular := by
  refine ⟨fun i hi => ?_, proper_activeCondition r []⟩
  obtain ⟨n, -, rfl⟩ := List.mem_map.mp hi
  trivial

theorem paths_selectFields (d : Dialect) (r : Request) (top : Option Nat) (limit : RowLimit) :
    (selectFields d r top limit).paths = wholePaths (columnNames r.fields) ++
      nameParts r.table :: (r.testedNames.map nameParts ++ orderPaths r.orderBy) := by
  have hitems : ((columnNames r.fields).map SelectItem.column).flatMap SelectItem.paths =
      wholePaths (columnNames r.fields) := by
    rw [List.flatMap_map, wholePaths, List.map_eq_flatMap]
    rfl
  rw [selectFields, Statement.paths, Select.paths, hitems, name_tableRef, filterCondition,
    filterPaths_activeCondition]

theorem query_spec {top : Option Int64} {s : Statement} (h : query d r top = .ok s) :
    s.Regular ∧ s.paths = rowPaths r d (.query top) := by
  obtain ⟨first, limit, rfl⟩ := of_query h
  refine ⟨regular_selectFields d r first limit, ?_⟩
  rw [paths_selectFields]
  cases d <;> rfl

theorem pagedQuery_spec {page rows : Int64} {s : Statement} (h : pagedQuery d r page rows = .ok s) :
    s.Regular ∧ s.paths = rowPaths r d (.pagedQuery page rows) := by
  obtain ⟨rfl, first, last, rfl⟩ | ⟨hd, limit, rfl⟩ := of_pagedQuery h
  · refine ⟨proper_activeCondition r [], ?_⟩
    rw [Statement.paths, NumberedPage.paths, name_tableRef, filterCondition,
      filterPaths_activeCondition]
    rfl
  · refine ⟨regular_selectFields _ _ _ _, ?_⟩
    cases d with
    | sqlServer => exact absurd rfl hd
    | _ => exact paths_selectFields _ _ _ _

theorem skipQuery_spec {skip take : Int64} {s : Statement} (h : skipQuery d r skip take = .ok s) :
    s.Regular ∧ s.paths = rowPaths r d (.skipQuery skip take) := by
  obtain ⟨limit, rfl⟩ := of_skipQuery h
  refine ⟨regular_selectFields d r none limit, ?_⟩
  cases d <;> exact paths_selectFields _ _ _ _

/-- An operation that reads rows is one statement with these paths. -/
theorem statements_readsRows (hop : readsRows op = true) (h : statements d op r = .ok ss) :
    ∃ s, ss = [s] ∧ s.Regular ∧ s.paths = rowPaths r d op := by
  cases op with
  | query top =>
    obtain ⟨s, hs, rfl⟩ := map_eq_ok_iff.mp h
    exact ⟨s, rfl, query_spec hs⟩
  | pagedQuery page rows =>
    obtain ⟨s, hs, rfl⟩ := map_eq_ok_iff.mp h
    exact ⟨s, rfl, pagedQuery_spec hs⟩
  | skipQuery skip take =>
    obtain ⟨s, hs, rfl⟩ := map_eq_ok_iff.mp h
    exact ⟨s, rfl, skipQuery_spec hs⟩
  | _ => cases hop

/-- What the paths of such an operation are, whatever their order. -/
theorem mem_rowPaths {path : List String} :
    path ∈ rowPaths r d op ↔ path ∈ wholePaths (columnNames r.fields) ∨ path = nameParts r.table ∨
      path ∈ r.testedNames.map nameParts ∨ path ∈ orderPaths r.orderBy ∨
        path = [rowNumberColumn] ∧ d = .sqlServer ∧ ∃ page rows, op = .pagedQuery page rows := by
  unfold rowPaths
  split
  · simp only [List.mem_append, List.mem_cons, List.not_mem_nil, or_false]
    constructor
    · rintro (h | h | h | h | h | h | h | h)
      · exact .inr (.inr (.inr (.inl h)))
      · exact .inr (.inr (.inr (.inr ⟨h, trivial, _, _, rfl⟩)))
      · exact .inl h
      · exact .inr (.inl h)
      · exact .inr (.inr (.inl h))
      · exact .inl h
      · exact .inr (.inr (.inr (.inr ⟨h, trivial, _, _, rfl⟩)))
      · exact .inr (.inr (.inr (.inr ⟨h, trivial, _, _, rfl⟩)))
    · rintro (h | h | h | h | ⟨h, -⟩)
      · exact .inr (.inr (.inl h))
      · exact .inr (.inr (.inr (.inl h)))
      · exact .inr (.inr (.inr (.inr (.inl h))))
      · exact .inl h
      · exact .inr (.inl h)
  · next hpage =>
    simp only [List.mem_append, List.mem_cons]
    constructor
    · rintro (h | h | h | h)
      · exact .inl h
      · exact .inr (.inl h)
      · exact .inr (.inr (.inl h))
      · exact .inr (.inr (.inr (.inl h)))
    · rintro (h | h | h | h | ⟨-, rfl, page, rows, rfl⟩)
      · exact .inl h
      · exact .inr (.inl h)
      · exact .inr (.inr (.inl h))
      · exact .inr (.inr (.inr h))
      · exact absurd rfl (hpage page rows rfl)

theorem describes_readsRows (hop : readsRows op = true) (h : statements d op r = .ok ss) :
    Describes r op r.fields ss := by
  obtain ⟨s, rfl, hregular, hpaths⟩ := statements_readsRows hop h
  have hnames : r.namesInParts op = r.testedNames ++ r.orderBy.map OrderField.name := by
    cases op with
    | query | pagedQuery | skipQuery => rfl
    | _ => cases hop
  have horder {path : List String} : path ∈ orderPaths r.orderBy ↔
      path ∈ (r.orderBy.map OrderField.name).map nameParts := by
    rw [orderPaths, List.map_map]
    rfl
  refine .one hregular (fun path hpath => ?_) (fun c hc => ?_) fun n hn => ?_
  · rw [hpaths, mem_rowPaths, horder] at hpath
    rcases hpath with h | rfl | h | h | ⟨rfl, -⟩
    · exact mentions_wholePaths (fun c hc => hc) path h
    · exact .table
    · exact mentions_inParts (fun n hn => hnames ▸ List.mem_append_left _ hn) path h
    · exact mentions_inParts (fun n hn => hnames ▸ List.mem_append_right _ hn) path h
    · exact .own (by decide)
  · rw [hpaths, mem_rowPaths]
    exact .inl (mem_wholePaths hc)
  · rw [hpaths, mem_rowPaths, horder]
    rw [hnames] at hn
    rcases List.mem_append.mp hn with hn | hn
    · exact .inr (.inr (.inl (List.mem_map_of_mem hn)))
    · exact .inr (.inr (.inr (.inl (List.mem_map_of_mem hn))))

/-! ### Reading a value -/

/-- A query for a single value writes the filter, and what its item names. -/
theorem describes_selectValue {item : SelectItem} (hitem : item.Regular)
    (hmentions : ∀ path ∈ item.paths, r.Mentions op path)
    (htested : ∀ n ∈ r.testedNames, n ∈ r.namesInParts op)
    (hinParts : ∀ n ∈ r.namesInParts op, n ∈ r.testedNames ∨ nameParts n ∈ item.paths) (d : Dialect)
    (top : Option Nat) (limit : RowLimit) :
    Describes r op [] [selectValue d r top item limit] := by
  have hpaths : (selectValue d r top item limit).paths =
      item.paths ++ nameParts r.table :: r.testedNames.map nameParts := by
    rw [selectValue, Statement.paths, Select.paths, List.flatMap_singleton, name_tableRef,
      filterCondition, filterPaths_activeCondition]
    exact congrArg (fun paths => item.paths ++ nameParts r.table :: paths) (List.append_nil _)
  refine .one ⟨by simpa using hitem, proper_activeCondition r []⟩ ?_ (by simp) ?_
  · rw [hpaths]
    exact List.forall_mem_append.mpr ⟨hmentions,
      List.forall_mem_cons.mpr ⟨.table, mentions_inParts htested⟩⟩
  · intro n hn
    rw [hpaths]
    rcases hinParts n hn with hn | hn
    · exact List.mem_append_right _ (List.mem_cons_of_mem _ (List.mem_map_of_mem hn))
    · exact List.mem_append_left _ hn

theorem describes_existsQuery {s : Statement} (h : existsQuery d r = .ok s) :
    Describes r .exists [] [s] := by
  obtain ⟨top, limit, rfl⟩ := of_existsQuery h
  have hitem : (SelectItem.one "ExistsValue").Regular := trivial
  have hmentions : ∀ path ∈ (SelectItem.one "ExistsValue").paths, r.Mentions .exists path := by
    intro path hpath
    rw [List.mem_singleton.mp hpath]
    exact .own (by decide)
  exact describes_selectValue hitem hmentions (fun n hn => hn) (fun n hn => .inl hn) d top limit

theorem describes_countQuery {s : Statement} (h : countQuery d r = .ok s) :
    Describes r .count [] [s] := by
  obtain rfl := of_countQuery h
  have htested : r.namesInParts .count = r.testedNames := rfl
  refine describes_selectValue ?_ ?_ (fun n hn => htested ▸ hn) (fun n hn => .inl (htested ▸ hn)) d
    none _
  · show followsName _ = true
    cases d <;> decide
  · intro path hpath
    rw [List.mem_singleton.mp hpath]
    exact .own (by decide)

theorem describes_aggregateQuery {function : Aggregate} {field : String} {s : Statement}
    (h : aggregateQuery d r function field = .ok s) :
    Describes r (.aggregate function field) [] [s] := by
  obtain rfl := of_aggregateQuery h
  have htested : ∀ n ∈ r.testedNames, n ∈ r.namesInParts (.aggregate function field) :=
    fun n hn => List.mem_cons_of_mem field hn
  refine describes_selectValue ?_ ?_ htested ?_ d none _
  · refine ⟨?_, nameParts_ne_nil field⟩
    cases function <;> decide
  · intro path hpath
    simp only [SelectItem.paths, List.mem_cons, List.not_mem_nil, or_false] at hpath
    rcases hpath with rfl | rfl
    · exact .inParts List.mem_cons_self
    · exact .own (by cases function <;> decide)
  · intro n hn
    rcases List.mem_cons.mp hn with rfl | hn
    · exact .inr List.mem_cons_self
    · exact .inl hn

/-! ### Updating and deleting -/

theorem describes_update {u : Request.UpdateColumns} (hu : r.updateColumns = .ok u) {s : Statement}
    (h : update d r = .ok s) : Describes r .update (u.set ++ u.keys) [s] := by
  obtain ⟨v, -, hv, h⟩ := of_update h
  obtain rfl := Except.ok.inj (hv.symm.trans hu)
  have hfields := (Request.updateColumns_spec hu).1
  have hset : ∀ path ∈ wholePaths (columnNames v.set), r.Mentions .update path :=
    mentions_wholePaths fun c hc => hfields c (List.mem_append_left _ hc)
  -- the condition names the keys as a whole, or what the filter tests in parts
  have hone {filter : SearchCondition} (hproper : filter.Proper)
      (hmentions : ∀ path ∈ filter.paths, r.Mentions .update path)
      (hkeys : ∀ c ∈ v.keys, [c.name] ∈ filter.paths)
      (htested : ∀ n ∈ r.testedNames, nameParts n ∈ filter.paths) :
      Describes r .update (v.set ++ v.keys)
        [.update (tableRef d r) (assignments v.set none) filter] := by
    have hpaths : (Statement.update (tableRef d r) (assignments v.set none) filter).paths =
        nameParts r.table :: (wholePaths (columnNames v.set) ++ filter.paths) := by
      rw [Statement.paths, name_tableRef, paths_assignments]
    refine .one ⟨regular_assignments _ _, hproper⟩ ?_ ?_ ?_
    · rw [hpaths]
      exact List.forall_mem_cons.mpr ⟨.table, List.forall_mem_append.mpr ⟨hset, hmentions⟩⟩
    · intro c hc
      rw [hpaths]
      rcases List.mem_append.mp hc with hc | hc
      · exact List.mem_cons_of_mem _ (List.mem_append_left _ (mem_wholePaths hc))
      · exact List.mem_cons_of_mem _ (List.mem_append_right _ (hkeys c hc))
    · intro n hn
      rw [hpaths]
      exact List.mem_cons_of_mem _ (List.mem_append_right _ (htested n hn))
  obtain ⟨hactive, -, rfl⟩ | ⟨g, hactive, hkeys, rfl⟩ := h
  · have hnames := Request.testedNames_of_none hactive
    refine hone (proper_keyCondition _ _) ?_ (fun c hc => ?_) ?_
    · rw [paths_keyCondition]
      exact mentions_wholePaths fun c hc => hfields c (List.mem_append_right _ hc)
    · rw [paths_keyCondition]
      exact mem_wholePaths hc
    · simp [hnames]
  · have hnames := Request.testedNames_of_some hactive
    refine hone (ofPredicate_proper _ _) ?_ ?_ fun n hn => ?_
    · rw [paths_ofGroup, ← hnames]
      exact mentions_inParts fun n hn => hn
    · simp [hkeys]
    · rw [paths_ofGroup, ← hnames]
      exact List.mem_map_of_mem hn

theorem describes_updateAll {u : Request.UpdateColumns} (hu : r.updateColumns = .ok u) {n : Int64}
    (h : updateAll d r n = .ok ss) : Describes r (.updateAll n) (u.set ++ u.keys) ss := by
  obtain ⟨v, -, -, hv, hpositive, -, rfl⟩ := of_updateAll h
  obtain rfl := Except.ok.inj (hv.symm.trans hu)
  have hfields := (Request.updateColumns_spec hu).1
  refine .eachRow (rowsOf_ne_nil hpositive) fun row => ?_
  have hpaths : (Statement.update (tableRef d r) (assignments v.set row)
      (keyCondition v.keys row)).paths = nameParts r.table ::
        (wholePaths (columnNames v.set) ++ wholePaths (columnNames v.keys)) := by
    rw [Statement.paths, name_tableRef, paths_assignments, paths_keyCondition]
  refine .row rfl ⟨regular_assignments _ _, proper_keyCondition _ _⟩ ?_ fun c hc => ?_
  · rw [hpaths]
    exact List.forall_mem_cons.mpr ⟨.table, List.forall_mem_append.mpr
      ⟨mentions_wholePaths fun c hc => hfields c (List.mem_append_left _ hc),
        mentions_wholePaths fun c hc => hfields c (List.mem_append_right _ hc)⟩⟩
  · rw [hpaths]
    rcases List.mem_append.mp hc with hc | hc
    · exact List.mem_cons_of_mem _ (List.mem_append_left _ (mem_wholePaths hc))
    · exact List.mem_cons_of_mem _ (List.mem_append_right _ (mem_wholePaths hc))

theorem describes_delete {keys : List Column} (hkeys : r.deleteKeys = .ok keys) {s : Statement}
    (h : delete d r = .ok s) : Describes r .delete keys [s] := by
  obtain ⟨ks, hks, h⟩ := of_delete h
  obtain rfl := Except.ok.inj (hks.symm.trans hkeys)
  have hpaths (filter : Option SearchCondition) : (Statement.delete (tableRef d r) filter).paths =
      nameParts r.table :: filterPaths filter := by
    rw [Statement.paths, name_tableRef]
  obtain ⟨hactive, -, rfl⟩ | ⟨g, -, rfl, rfl⟩ := h
  · have hbound : r.boundColumns .delete = .ok ks := hkeys
    have hfields := Request.mem_fields_of_boundColumns hbound
    have hnames : r.namesInParts .delete = [] := Request.testedNames_of_none hactive
    refine .one (fun c hc => ?_) ?_ (fun c hc => ?_) ?_
    · rw [← Option.some.inj hc]
      exact proper_keyCondition ks none
    · rw [hpaths, filterPaths, Option.elim_some, paths_keyCondition]
      exact List.forall_mem_cons.mpr ⟨.table, mentions_wholePaths hfields⟩
    · rw [hpaths, filterPaths, Option.elim_some, paths_keyCondition]
      exact List.mem_cons_of_mem _ (mem_wholePaths hc)
    · simp [hnames]
  · refine .one (proper_activeCondition r []) ?_ ?_ fun n hn => ?_
    · rw [hpaths, filterCondition, filterPaths_activeCondition]
      exact List.forall_mem_cons.mpr ⟨.table, mentions_inParts fun n hn => hn⟩
    · simp
    · rw [hpaths, filterCondition, filterPaths_activeCondition]
      exact List.mem_cons_of_mem _ (List.mem_map_of_mem hn)

/-- A statement that names nothing but its table. -/
theorem describes_table (hop : r.namesInParts op = []) {s : Statement} (regular : s.Regular)
    (hpaths : s.paths = [nameParts r.table]) : Describes r op [] [s] := by
  refine .one regular ?_ (by simp) (by simp [hop])
  rw [hpaths]
  exact List.forall_mem_singleton.mpr .table

theorem describes_deleteAll {s : Statement} (h : deleteAll d r = .ok s) :
    Describes r .deleteAll [] [s] := by
  obtain ⟨-, rfl⟩ := of_deleteAll h
  refine describes_table rfl (fun c hc => by cases hc) ?_
  rw [Statement.paths, name_tableRef]
  rfl

theorem describes_truncate {s : Statement} (h : truncate d r = .ok s) :
    Describes r .truncate [] [s] := by
  obtain rfl | ⟨restart, rfl⟩ := of_truncate h
  · exact describes_table rfl (fun c hc => by cases hc) rfl
  · exact describes_table rfl trivial rfl

/-! ### All operations -/

/-- **The statements of an operation have the paths of the request**, and no others. -/
theorem describes_statements (h : statements d op r = .ok ss) :
    ∃ listed, r.listedColumns op = .ok listed ∧ Describes r op listed ss := by
  obtain ⟨inputs, hinputs⟩ := boundColumns_of_statements h
  cases op with
  | query top | pagedQuery page rows | skipQuery skip take =>
    exact ⟨_, rfl, describes_readsRows rfl h⟩
  | insert => exact ⟨_, rfl, describes_insert h⟩
  | insertAll n => exact ⟨_, rfl, describes_insertAll h⟩
  | update =>
    obtain ⟨s, hs, rfl⟩ := map_eq_ok_iff.mp h
    obtain ⟨u, hu, rfl⟩ := map_eq_ok_iff.mp hinputs
    exact ⟨_, hinputs, describes_update hu hs⟩
  | updateAll n =>
    obtain ⟨u, hu, rfl⟩ := map_eq_ok_iff.mp hinputs
    exact ⟨_, hinputs, describes_updateAll hu h⟩
  | merge | mergeAll n =>
    obtain ⟨m, batch, hm, -, hbatch, hrows⟩ := mergeRows_of_statements rfl h
    exact ⟨_, map_eq_ok_iff.mpr ⟨m, hm, rfl⟩, describes_mergeRows rfl hm hbatch hrows⟩
  | delete =>
    obtain ⟨s, hs, rfl⟩ := map_eq_ok_iff.mp h
    exact ⟨inputs, hinputs, describes_delete hinputs hs⟩
  | deleteAll =>
    obtain ⟨s, hs, rfl⟩ := map_eq_ok_iff.mp h
    exact ⟨_, rfl, describes_deleteAll hs⟩
  | «exists» =>
    obtain ⟨s, hs, rfl⟩ := map_eq_ok_iff.mp h
    exact ⟨_, rfl, describes_existsQuery hs⟩
  | count =>
    obtain ⟨s, hs, rfl⟩ := map_eq_ok_iff.mp h
    exact ⟨_, rfl, describes_countQuery hs⟩
  | aggregate function field =>
    obtain ⟨s, hs, rfl⟩ := map_eq_ok_iff.mp h
    exact ⟨_, rfl, describes_aggregateQuery hs⟩
  | truncate =>
    obtain ⟨s, hs, rfl⟩ := map_eq_ok_iff.mp h
    exact ⟨_, rfl, describes_truncate hs⟩

/-- The paths of the statements are read in their text. -/
theorem pathsIn_statementText (hh : r.hints = none) (hf : merges op = true → r.FieldsApart)
    (hplain : r.Plain) {text : String} (h : statementText d op r = .ok text)
    (hss : statements d op r = .ok ss) : pathsIn d text = ss.flatMap Statement.paths := by
  obtain ⟨inputs, hinputs⟩ := boundColumns_of_statements hss
  obtain ⟨listed, -, hdescribes⟩ := describes_statements hss
  have hrenders := statements_renders hh hf hss hinputs
  have hspaced := spaced_statementList hrenders.clean
  have hlegible := legible_statementList hplain hinputs hrenders
  obtain ⟨ss', hss', rfl⟩ := map_eq_ok_iff.mp h
  obtain rfl := Except.ok.inj (hss'.symm.trans hss)
  rw [pathsIn, String.toList_ofList, rawText, lex_tidyChars hspaced hlegible]
  exact (refers_statementList hdescribes.regular).pathsOf_lex hspaced hlegible

/-- **A column is written in one way exactly if its name is whole.** The statements of an operation are
text, placeholders and their paths, and without hints, and where parameter names need no quotes, these
paths are what is read in the text. Every path is the table, a name of the filter or the order or an
aggregated field in parts, a column as a whole or a name that the builder gives; and every listed column
and every such name is among them. For an operation that reads rows this is the whole list, in its
order. The two ways to write a column are one text, and one path, exactly if its name has no points and
no blanks around it. -/
theorem columns_written {text : String} (h : statementText d op r = .ok text) :
    ∃ ss listed, statements d op r = .ok ss ∧ r.listedColumns op = .ok listed ∧
      Refers (statementList ss) (ss.flatMap Statement.paths) ∧
      (r.hints = none → (merges op = true → r.FieldsApart) → r.Plain →
        pathsIn d text = ss.flatMap Statement.paths) ∧
      (∀ path ∈ ss.flatMap Statement.paths, r.Mentions op path) ∧
      (∀ c ∈ listed, [c.name] ∈ ss.flatMap Statement.paths) ∧
      (∀ name ∈ r.namesInParts op, nameParts name ∈ ss.flatMap Statement.paths) ∧
      (readsRows op = true → ss.flatMap Statement.paths = rowPaths r d op) ∧
      ∀ c ∈ listed, (quoteName d c.name = quote d c.name ↔ Whole c.name) ∧
        (nameParts c.name = [c.name] ↔ Whole c.name) := by
  obtain ⟨ss, hss, -⟩ := map_eq_ok_iff.mp h
  obtain ⟨listed, hlisted, hdescribes⟩ := describes_statements hss
  refine ⟨ss, listed, hss, hlisted, refers_statementList hdescribes.regular,
    fun hh hf hplain => pathsIn_statementText hh hf hplain h hss, hdescribes.mentions,
    hdescribes.lists, hdescribes.inParts, fun hop => ?_,
    fun c _ => ⟨quoteName_eq_quote_iff d c.name, nameParts_eq_self_iff c.name⟩⟩
  obtain ⟨s, rfl, -, hpaths⟩ := statements_readsRows hop hss
  rw [List.flatMap_singleton, hpaths]

namespace Sample

/-- Prices of what is in stock, in their order. -/
def prices : Request :=
  let price : Column :=
    ⟨"Unit.Price", false, false, false, .int64, none, none, none, none, false, false, none, none⟩
  { Request.make "Stock" [price] with orderBy := [⟨"Unit.Price", .asc⟩] }

end Sample

/-- A query for a column with a point in its name is ordered by another column than the one it
selects. -/
theorem columns_written_prices :
    ∃ text, statementText .sqlServer (.query none) Sample.prices = .ok text ∧
      pathsIn .sqlServer text = [["Unit.Price"], ["Stock"], ["Unit", "Price"]] ∧
      ∀ c ∈ Sample.prices.fields, quoteName .sqlServer c.name ≠ quote .sqlServer c.name := by
  obtain ⟨text, htext⟩ : ∃ text,
    statementText .sqlServer (.query none) Sample.prices = .ok text := ⟨_, rfl⟩
  obtain ⟨ss, listed, -, hlisted, -, hread, -, -, -, hrows, hquotes⟩ := columns_written htext
  have hplain : Sample.prices.Plain := Request.plain_make "Stock" _
  refine ⟨text, htext, ?_, fun c hc heq => ?_⟩
  · rw [hread rfl nofun hplain, hrows rfl]
    decide +kernel
  · cases hlisted
    have hwhole := (hquotes c hc).1.mp heq
    obtain rfl := List.mem_singleton.mp hc
    exact absurd hwhole (by decide +kernel)

end EntitySql.Sql
