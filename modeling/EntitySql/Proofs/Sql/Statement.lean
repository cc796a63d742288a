import EntitySql.Proofs.Sql.SearchCondition
import EntitySql.Proofs.Sql.Spacing
import EntitySql.Sql.Statement

/-!
# Statements are spaced

Every statement is written in fragments no two of which run together (**`Statement.spaced`**),
whatever its tables, columns and parameters are called. Hints are the one text that a caller may
write, and do no harm if they are plain (`TableRef.PlainHints`); a statement is `Clean` if its table has
none. The calls of functions that stand for a key or a count are text of the builder and have to stand
apart like all other text.
-/

namespace EntitySql.Sql

/-! ### Text between two sides -/

/-- Whether text may stand between two sides. -/
def textFits (a : Side) (s : String) (m : Side) : Bool :=
  s.toList.all isPlain && (a = .loose || startsApart s) && (m = .tight || endsApart s)

variable {a b m : Side} {fs gs : Fragments}

theorem Spaced.fixed {s : String} (h : textFits a s m = true) (rest : Spaced m fs b) :
    Spaced a (.text s :: fs) b := by
  simp only [textFits, Bool.and_eq_true, Bool.or_eq_true, decide_eq_true_eq] at h
  obtain ⟨⟨plain, hstart⟩, hstop⟩ := h
  refine .text plain (fun ha => ?_) (fun hm => ?_) rest
  · subst ha
    exact hstart.resolve_left (by simp)
  · subst hm
    exact hstop.resolve_left (by simp)

/-- A text that lets anything follow. -/
theorem Spaced.lead {s : String} (h : textFits a s .loose = true) (rest : Spaced .loose fs b) :
    Spaced a (.text s :: fs) b :=
  .fixed h rest

/-- A text at the end. -/
theorem Spaced.last {s : String} (h : textFits a s m = true) : Spaced a [.text s] m :=
  .fixed h (.nil id)

theorem isPlain_of_isDigit {c : Char} (h : c.isDigit = true) : isPlain c = true := by
  have hall : ∀ q ∈ "@['\"]\x60".toList, q.isDigit = false :=
    List.all_iff_forall_prop.mp (by decide)
  simp only [isPlain, Bool.not_eq_true', Bool.eq_false_iff]
  intro hc
  rw [hall c (List.contains_iff_mem.mp hc)] at h
  cases h

theorem startsApart_append {s : String} (h : startsApart s = true) (t : String) :
    startsApart (s ++ t) = true := by
  unfold startsApart at h ⊢
  rw [String.toList_append, List.head?_append]
  cases hs : s.toList.head? with
  | none =>
    rw [hs] at h
    cases h
  | some c =>
    rw [hs] at h
    exact h

theorem endsApart_append (s : String) {t : String} (h : endsApart t = true) :
    endsApart (s ++ t) = true := by
  unfold endsApart at h ⊢
  rw [String.toList_append, List.getLast?_append]
  cases ht : t.toList.getLast? with
  | none =>
    rw [ht] at h
    cases h
  | some c =>
    rw [ht] at h
    exact h

/-- A number may stand between texts. -/
theorem textFits_number {s t : String} {x y : Side} (hs : textFits a s x = true) (n : Nat)
    (ht : textFits y t m = true) : textFits a (s ++ toString n ++ t) m = true := by
  simp only [textFits, Bool.and_eq_true, Bool.or_eq_true, decide_eq_true_eq] at hs ht ⊢
  obtain ⟨⟨hplain, hstart⟩, -⟩ := hs
  obtain ⟨⟨htplain, -⟩, hstop⟩ := ht
  have hdigits : (toString n).toList.all isPlain = true := by
    rw [Nat.toString_eq_repr, Nat.toList_repr, List.all_eq_true]
    exact fun c hc => isPlain_of_isDigit (isDigit_of_mem_digits hc)
  refine ⟨⟨?_, hstart.imp_right fun h => ?_⟩, hstop.imp_right fun h => endsApart_append _ h⟩
  · simp only [String.toList_append, List.all_append, hplain, hdigits, htplain, Bool.and_self]
  · exact startsApart_append (startsApart_append h _) _

/-- A number may stand at the end of a text. -/
theorem textFits_lastNumber {s : String} {x : Side} (hs : textFits a s x = true) (n : Nat) :
    textFits a (s ++ toString n) .tight = true := by
  have h := textFits_number hs n (t := "") (y := .loose) (m := .tight) (by decide)
  rwa [String.append_empty] at h

/-! ### Parts -/

/-- Text of the value stands apart. -/
def Operand.Clean : Operand → Prop
  | .function call => textFits .loose call .tight = true
  | _ => True

/-- Text of the column of a result stands apart. -/
def SelectItem.Clean : SelectItem → Prop
  | .count function _ => textFits .loose (function ++ " (1) AS ") .loose = true
  | .aggregate function _ _ => textFits .loose (function ++ " (") .loose = true
  | _ => True

/-- The source has clean values. -/
def MergeSource.Clean : MergeSource → Prop
  | .row columns => ∀ x ∈ columns, x.value.Clean
  | .rows _ values => ∀ row ∈ values, ∀ v ∈ row, v.Clean

/-- What is assigned is clean. -/
def Conflict.Clean : Conflict → Prop
  | .onKey _ set => ∀ x ∈ set, x.value.Clean
  | .onDuplicate set => ∀ x ∈ set, x.value.Clean
  | _ => True

/-- The statement has no hints, and its own text stands apart. -/
def Statement.Clean : Statement → Prop
  | .select s => s.table.hints = none ∧ ∀ i ∈ s.items, i.Clean
  | .page p => p.table.hints = none
  | .insert i => i.table.hints = none ∧ (∀ row ∈ i.rows, ∀ v ∈ row, v.Clean) ∧ i.conflict.Clean
  | .merge m => m.table.hints = none ∧ m.source.Clean
  | .updateOrInsert u =>
    u.table.hints = none ∧ (∀ x ∈ u.set, x.value.Clean) ∧ ∀ v ∈ u.values, v.Clean
  | .update table set _ => table.hints = none ∧ ∀ x ∈ set, x.value.Clean
  | .delete table _ => table.hints = none
  | .truncate table _ => table.hints = none
  | .selectKey value _ => value.Clean

/-- The hints of the table have no quotes and no at signs. -/
def TableRef.PlainHints (t : TableRef) : Prop :=
  ∀ hints, t.hints = some hints → hints.toList.all isPlain = true

theorem TableRef.PlainHints.of_none {t : TableRef} (h : t.hints = none) : t.PlainHints := by
  rw [PlainHints, h]
  nofun

theorem spaced_table {t : TableRef} (h : t.PlainHints) : Spaced .loose t.fragments .tight := by
  unfold TableRef.fragments
  split
  · next hints hhints =>
    have hclause : textFits .tight (hintClause hints) .tight = true := by
      have hstart : startsApart (" WITH (" ++ hints ++ ")") = true :=
        startsApart_append (startsApart_append (by decide) _) _
      have hplain : " WITH (".toList.all isPlain = true ∧ ")".toList.all isPlain = true := by decide
      simp only [textFits, hintClause, hstart, String.toList_append, List.all_append, hplain,
        h hints hhints]
      simp
    exact (spaced_pathFragments _).append (.last hclause)
  · rw [List.append_nil]
    exact spaced_pathFragments _

theorem Operand.spaced {v : Operand} (h : v.Clean) : Spaced .loose v.fragments .tight := by
  cases v with
  | placeholder p => exact .placeholder (.nil id)
  | placeholderOrNull p =>
    exact .lead (by decide) (.placeholder (.last (by decide)))
  | number n =>
    have h := textFits_lastNumber (a := .loose) (s := "") (x := .tight) (by decide) n
    rw [String.empty_append] at h
    exact .last h
  | function call => exact .last h
  | column c => exact .one c
  | source c | excluded c => exact .lead (by decide) (.one c)
  | proposed c | remembered c =>
    exact .lead (by decide) (.name (.last (by decide)))

theorem spaced_columnList (names : List String) : Spaced .loose (columnList names) .tight :=
  spaced_commaList fun c _ => .one c

theorem spaced_operandList {values : List Operand} (h : ∀ v ∈ values, v.Clean) :
    Spaced .loose (operandList values) .tight :=
  spaced_commaList fun v hv => Operand.spaced (h v hv)

theorem spaced_rows {rows : List (List Operand)} (h : ∀ row ∈ rows, ∀ v ∈ row, v.Clean) :
    Spaced .loose (commaList rowFragments rows) .tight :=
  spaced_commaList fun row hrow =>
    Spaced.append (.lead (by decide) (spaced_operandList (h row hrow)))
      (.last (by decide))

theorem spaced_assignmentList {set : List Assignment} (h : ∀ x ∈ set, x.value.Clean) :
    Spaced .loose (assignmentList set) .tight :=
  spaced_commaList fun x hx =>
    .name (.lead (by decide) (Operand.spaced (h x hx)))

theorem SelectItem.spaced {i : SelectItem} (h : i.Clean) : Spaced .loose i.fragments .tight := by
  cases i with
  | column c => exact .one c
  | one resultName => exact .lead (by decide) (.one resultName)
  | count function resultName => exact .fixed h (.one resultName)
  | aggregate function path resultName =>
    exact Spaced.append (.fixed h (spaced_pathFragments path))
      (.lead (by decide) (.one resultName))

theorem spaced_orderList (order : List OrderField) : Spaced .loose (orderList order) .tight :=
  spaced_commaList fun o _ =>
    (spaced_pathFragments _).append (.last (by cases o.order <;> decide))

theorem spaced_orderClause (order : List OrderField) : Spaced .tight (orderClause order) .tight := by
  unfold orderClause
  split
  · exact .nil id
  · exact .lead (by decide) (spaced_orderList order)

theorem spaced_whereClause (c : Option SearchCondition) :
    Spaced .tight (whereClause c) .tight := by
  cases c with
  | none => exact .nil id
  | some c => exact .lead (by decide) (c.spaced true)

theorem RowLimit.spaced (l : RowLimit) : Spaced .tight l.fragments .tight := by
  cases l with
  | all => exact .nil id
  | limit n => exact .last (textFits_lastNumber (x := .loose) (by decide) n)
  | limitOffset n skip =>
    exact .last (textFits_lastNumber (x := .loose)
      (textFits_number (x := .loose) (y := .tight) (by decide) n (by decide)) skip)
  | offsetFetch skip n =>
    exact .last (textFits_number (x := .loose) (y := .tight)
      (textFits_number (x := .loose) (y := .tight) (by decide) skip (by decide)) n (by decide))

theorem spaced_rowNumber (row : Option Nat) : Spaced .tight (rowNumber row) .tight := by
  cases row with
  | none => exact .nil id
  | some i =>
    exact .fixed (m := .loose)
      (textFits_number (x := .loose) (y := .tight) (by decide) i (by decide)) (.one _)

theorem spaced_outputClause (batch : Bool) (key : Option String) :
    Spaced .tight (outputClause batch key) .tight := by
  cases key with
  | none => exact .nil id
  | some key =>
    have hkey : Spaced .tight [.text " OUTPUT INSERTED.", .name key, .text " AS ",
        .name resultColumn] .tight :=
      .lead (by decide) (.name (.lead (by decide) (.one _)))
    cases batch with
    | false => exact hkey.append (.nil id)
    | true =>
      exact hkey.append
        (.lead (by decide) (.name (.lead (by decide) (.one _))))

theorem spaced_returningClause (key : Option ReturnedKey) :
    Spaced .tight (returningClause key) .tight := by
  cases key with
  | none => exact .nil id
  | some key =>
    have hkey : Spaced .tight [.text " RETURNING ", .name key.column, .text " AS ",
        .name resultColumn] .tight :=
      .lead (by decide) (.name (.lead (by decide) (.one _)))
    exact hkey.append (spaced_rowNumber key.row)

theorem Conflict.spaced {c : Conflict} (h : c.Clean) : Spaced .tight c.clause .tight := by
  cases c with
  | fail | replace => exact .nil id
  | onKey keys set =>
    refine Spaced.append (.lead (by decide) (spaced_columnList keys)) ?_
    split
    · exact .last (by decide)
    · exact .lead (by decide) (spaced_assignmentList h)
  | onDuplicate set => exact .lead (by decide) (spaced_assignmentList h)

/-! ### Statements -/

theorem Select.spaced {s : Select} (ht : s.table.PlainHints) (hi : ∀ i ∈ s.items, i.Clean) :
    Spaced .loose s.fragments .tight := by
  have hitems : Spaced .loose (commaList SelectItem.fragments s.items) .tight :=
    spaced_commaList fun i h => SelectItem.spaced (hi i h)
  have hstatement {top : Fragments} (htop : Spaced .loose top .loose) :
      Spaced .loose (.text "SELECT " :: top ++ commaList SelectItem.fragments s.items ++
        .text " FROM " :: s.table.fragments ++ whereClause s.filter ++ orderClause s.order ++
          s.limit.fragments) .tight :=
    ((((Spaced.append (.fixed (by decide) htop) hitems).append
      (.lead (by decide) (spaced_table ht))).append
        (spaced_whereClause s.filter)).append (spaced_orderClause s.order)).append s.limit.spaced
  rw [Select.fragments]
  cases s.top with
  | none => exact hstatement (.nil id)
  | some n =>
    exact hstatement
      (.last (textFits_number (x := .loose) (y := .tight) (by decide) n (by decide)))

theorem NumberedPage.spaced {p : NumberedPage} (ht : p.table.PlainHints) :
    Spaced .loose p.fragments .tight := by
  have hlast : Spaced .tight [.text " FROM CTE WHERE (", .name rowNumberColumn,
      .text (" BETWEEN " ++ toString p.first ++ " AND " ++ toString p.last ++ ") ORDER BY "),
      .name rowNumberColumn, .text " ASC"] .tight := by
    refine .lead (by decide) (.name (.fixed (m := .loose) ?_
      (.name (.last (by decide)))))
    exact textFits_number (x := .loose) (y := .tight)
      (textFits_number (x := .loose) (y := .tight) (by decide) p.first (by decide)) p.last
      (by decide)
  have hnumber : Spaced .tight [.text ") AS ", .name rowNumberColumn, .text ", "] .loose :=
    .lead (by decide) (.name (.last (by decide)))
  exact ((((((Spaced.append (.lead (by decide) (spaced_orderList p.order))
    hnumber).append (spaced_columnList p.columns)).append
      (.lead (by decide) (spaced_table ht))).append
        (spaced_whereClause p.filter)).append
          (.lead (by decide) (spaced_columnList p.columns)))).append hlast

theorem Insert.spaced {i : Insert} (ht : i.table.PlainHints)
    (hrows : ∀ row ∈ i.rows, ∀ v ∈ row, v.Clean) (hc : i.conflict.Clean) :
    Spaced .loose i.fragments .tight := by
  have hverb : textFits .loose i.conflict.verb .loose = true := by
    unfold Conflict.verb
    split <;> decide
  exact (((((Spaced.append (.fixed hverb (spaced_table ht))
    (.lead (by decide) (spaced_columnList i.columns))).append
      (.fixed (m := .tight) (by decide) (spaced_outputClause false i.output))).append
        (.lead (by decide) (spaced_rows hrows))).append
          (Conflict.spaced hc))).append (spaced_returningClause i.returning)

theorem MergeSource.spaced {s : MergeSource} (h : s.Clean) : Spaced .loose s.fragments .tight := by
  cases s with
  | row columns =>
    have hlist : Spaced .loose
        (commaList (fun a => a.value.fragments ++ [Fragment.text " AS ", .name a.column]) columns)
          .tight :=
      spaced_commaList fun x hx =>
        (Operand.spaced (h x hx)).append (.lead (by decide) (.one _))
    exact Spaced.append (.lead (by decide) hlist) (.last (by decide))
  | rows columns values =>
    exact (Spaced.append (.lead (by decide) (spaced_rows h))
      (.lead (by decide) (spaced_columnList columns))).append (.last (by decide))

theorem spaced_matchFragments (columns : Option (List String)) :
    Spaced .loose (matchFragments columns) .tight := by
  cases columns with
  | none => exact .last (by decide)
  | some columns =>
    have hlist : Spaced .loose (separated " AND " (columns.map fun c =>
        [.text "S.", .name c, .text " = T.", .name c])) .tight := by
      refine spaced_separated (fun fs hfs => ?_) (by decide) (by decide) (by decide)
      obtain ⟨c, -, rfl⟩ := List.mem_map.mp hfs
      exact .lead (by decide) (.name (.lead (by decide) (.one c)))
    exact Spaced.append (.lead (by decide) hlist) (.last (by decide))

theorem spaced_mergeInsert (columns : List String) :
    Spaced .loose (mergeInsert columns) .tight := by
  unfold mergeInsert
  split
  · exact .last (by decide)
  · have hvalues : ∀ v ∈ columns.map Operand.source, v.Clean := by
      intro v hv
      obtain ⟨c, -, rfl⟩ := List.mem_map.mp hv
      trivial
    exact (Spaced.append (.lead (by decide) (spaced_columnList columns))
      (.lead (by decide) (spaced_operandList hvalues))).append (.last (by decide))

theorem spaced_mergeUpdate (columns : List String) :
    Spaced .tight (mergeUpdate columns) .tight := by
  unfold mergeUpdate
  split
  · exact .nil id
  · exact .lead (by decide) (spaced_commaList fun c _ =>
      .lead (by decide) (.name (.lead (by decide) (.one c))))

theorem Merge.spaced {x : Merge} (ht : x.table.PlainHints) (hs : x.source.Clean) :
    Spaced .loose x.fragments .tight :=
  (((((Spaced.append (.lead (by decide) (spaced_table ht))
    (.lead (by decide) (MergeSource.spaced hs))).append
      (.lead (by decide) (spaced_matchFragments x.matchOn))).append
        (.lead (by decide) (spaced_mergeInsert x.columns))).append
          (spaced_mergeUpdate x.set))).append (spaced_outputClause x.batch x.output)

theorem UpdateOrInsert.spaced_matched {u : UpdateOrInsert} (ht : u.table.PlainHints)
    (hset : ∀ x ∈ u.set, x.value.Clean) : Spaced .loose u.matched .tight := by
  unfold UpdateOrInsert.matched
  split
  · have hselect : Spaced .loose [.text "SELECT ", .name u.returned, .text " FROM "] .loose :=
      .lead (by decide) (.name (.last (by decide)))
    exact (hselect.append (spaced_table ht)).append (spaced_whereClause _)
  · exact ((Spaced.append (.lead (by decide) (spaced_table ht))
      (.lead (by decide) (spaced_assignmentList hset))).append
        (spaced_whereClause _)).append (.lead (by decide) (.one _))

theorem UpdateOrInsert.spaced_inserted {u : UpdateOrInsert} (ht : u.table.PlainHints)
    (hvalues : ∀ v ∈ u.values, v.Clean) : Spaced .loose u.inserted .tight := by
  unfold UpdateOrInsert.inserted
  refine Spaced.append (m := .tight) ?_ (.last (by decide))
  refine Spaced.append (.lead (by decide) (spaced_table ht)) ?_
  split
  · exact .last (by decide)
  · exact Spaced.append (.lead (by decide) (spaced_columnList u.columns))
      (.lead (by decide) (spaced_operandList hvalues))

theorem UpdateOrInsert.spaced {u : UpdateOrInsert} (ht : u.table.PlainHints)
    (hset : ∀ x ∈ u.set, x.value.Clean) (hvalues : ∀ v ∈ u.values, v.Clean) :
    Spaced .loose u.fragments .tight := by
  have hmatched := spaced_matched ht hset
  have hinserted := spaced_inserted ht hvalues
  unfold UpdateOrInsert.fragments
  split
  · have hresult : Spaced .loose
        ([Fragment.name u.returned, .text " AS ", .name resultColumn] ++ rowNumber u.row) .tight :=
      Spaced.append (.name (.lead (by decide) (.one _))) (spaced_rowNumber u.row)
    have hreturning : Spaced .tight
        [.text " RETURNING ", .name u.returned, .text ") SELECT "] .loose :=
      .lead (by decide) (.name (.last (by decide)))
    exact ((((Spaced.append (.lead (by decide) hmatched)
      (.lead (by decide) hinserted)).append hreturning).append hresult).append
        (.lead (by decide) hresult)).append (.last (by decide))
  · exact Spaced.append (.lead (by decide) hmatched)
      (.lead (by decide) hinserted)

theorem Statement.spaced_body {s : Statement} (h : s.Clean) : Spaced .loose s.body .tight := by
  cases s with
  | select s => exact Select.spaced (.of_none h.1) h.2
  | page p => exact NumberedPage.spaced (.of_none h)
  | insert i => exact Insert.spaced (.of_none h.1) h.2.1 h.2.2
  | merge m => exact Merge.spaced (.of_none h.1) h.2
  | updateOrInsert u => exact UpdateOrInsert.spaced (.of_none h.1) h.2.1 h.2.2
  | update table set filter =>
    exact (Spaced.append (.lead (by decide) (spaced_table (.of_none h.1)))
      (.lead (by decide) (spaced_assignmentList h.2))).append
        (spaced_whereClause _)
  | delete table filter =>
    exact Spaced.append (.lead (by decide) (spaced_table (.of_none h)))
      (spaced_whereClause filter)
  | truncate table restart =>
    refine Spaced.append (.lead (by decide) (spaced_table (.of_none h))) ?_
    split
    · exact .last (by decide)
    · exact .nil id
  | selectKey value row =>
    have hvalue : Spaced .loose (.text "SELECT " :: value.fragments ++
        [Fragment.text " AS ", .name resultColumn]) .tight :=
      Spaced.append (.lead (by decide) (Operand.spaced h))
        (.lead (by decide) (.one _))
    exact hvalue.append (spaced_rowNumber row)

theorem spaced_separatedStatements {ss : List Statement}
    (h : ∀ s ∈ ss, Spaced .loose s.body .tight) : Spaced .loose (statementList ss) .tight := by
  refine spaced_separated (fun fs hfs => ?_) (by decide) (by decide) (by decide)
  obtain ⟨s, hs, rfl⟩ := List.mem_map.mp hfs
  exact (h s hs).append (.last (by decide))

/-- **No two fragments of clean statements run together.** -/
theorem spaced_statementList {ss : List Statement} (h : ∀ s ∈ ss, s.Clean) :
    Spaced .loose (statementList ss) .tight :=
  spaced_separatedStatements fun s hs => Statement.spaced_body (h s hs)

end EntitySql.Sql
