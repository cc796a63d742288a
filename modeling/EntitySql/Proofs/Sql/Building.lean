import EntitySql.Proofs.Sql.Request
import EntitySql.Sql.Build

/-!
# What the builder gives

An operation that is built has passed its guards, and its statements are made from the columns of the
request. One lemma for each function of the builder says all that follows where it succeeds: the columns
that it works with, whether there is a filter, the size of a batch, and the statements (`of_query` to
`of_mergeAll`). What is proved of the statements of an operation starts from these lemmas, and a change
of the builder is a change of them.

The parts that several operations share are taken apart here as well: the selection of a key behind a
row (`forall_mem_trailingKey`) and what is assigned on a duplicate key (`mem_duplicateAssignments`).
-/

namespace EntitySql.Sql

variable {d : Dialect} {r : Request} {n : Int64} {s : Statement} {ss : List Statement}

/-! ### Guards -/

theorem activePredicate_of_reject {op : Operation} {u : Unit} (h : rejectPredicate r op = .ok u) :
    r.activePredicate = none := by
  unfold rejectPredicate at h
  split at h
  · cases h
  · next hnone => simpa using hnone

theorem of_positive {name : String} {k : Nat} (h : positive name n = .ok k) :
    1 ≤ n.toInt ∧ k = n.toInt.toNat := by
  unfold positive at h
  split at h
  · next hn => exact ⟨hn, (Except.ok.inj h).symm⟩
  · cases h

theorem le_of_parameterLimit {rows perRow : Nat} {u : Unit}
    (h : parameterLimit d n rows perRow = .ok u) : rows * perRow ≤ d.maxParameters := by
  unfold parameterLimit at h
  split at h
  · cases h
  · next hle => omega

/-! ### Reading -/

theorem of_query {top : Option Int64} (h : query d r top = .ok s) :
    ∃ first limit, s = selectFields d r first limit := by
  obtain ⟨_, -, h⟩ := bind_eq_ok_iff.mp h
  split at h
  · cases h
    exact ⟨_, _, rfl⟩
  · obtain ⟨k, -, h⟩ := bind_eq_ok_iff.mp h
    split at h <;> cases h <;> exact ⟨_, _, rfl⟩

theorem of_pagedQuery {page rows : Int64} (h : pagedQuery d r page rows = .ok s) :
    (d = .sqlServer ∧ ∃ first last, s = .page
      ⟨columnNames r.fields, tableRef d r, filterCondition r, r.orderBy, first, last⟩) ∨
    d ≠ .sqlServer ∧ ∃ limit, s = selectFields d r none limit := by
  obtain ⟨_, -, h⟩ := bind_eq_ok_iff.mp h
  obtain ⟨_, -, h⟩ := bind_eq_ok_iff.mp h
  obtain ⟨_, -, h⟩ := bind_eq_ok_iff.mp h
  split at h
  · obtain ⟨first, -, h⟩ := bind_eq_ok_iff.mp h
    obtain ⟨last, -, h⟩ := bind_eq_ok_iff.mp h
    cases h
    exact .inl ⟨rfl, first, last, rfl⟩
  · next hd =>
    obtain ⟨_, -, h⟩ := bind_eq_ok_iff.mp h
    cases h
    exact .inr ⟨hd, _, rfl⟩

theorem of_skipQuery {skip take : Int64} (h : skipQuery d r skip take = .ok s) :
    ∃ limit, s = selectFields d r none limit := by
  obtain ⟨_, -, h⟩ := bind_eq_ok_iff.mp h
  obtain ⟨_, -, h⟩ := bind_eq_ok_iff.mp h
  obtain ⟨_, -, h⟩ := bind_eq_ok_iff.mp h
  split at h <;> cases h <;> exact ⟨_, rfl⟩

theorem of_existsQuery (h : existsQuery d r = .ok s) :
    ∃ top limit, s = selectValue d r top (.one "ExistsValue") limit := by
  obtain ⟨_, -, h⟩ := bind_eq_ok_iff.mp h
  simp only at h
  split at h <;> cases h <;> exact ⟨_, _, rfl⟩

theorem of_countQuery : countQuery d r = .ok s → s = selectValue d r none
    (.count (match d with | .sqlServer => "COUNT_BIG" | _ => "COUNT") "CountValue") .all := by
  intro h
  obtain ⟨_, -, h⟩ := bind_eq_ok_iff.mp h
  exact (Except.ok.inj h).symm

theorem of_aggregateQuery {function : Aggregate} {field : String}
    (h : aggregateQuery d r function field = .ok s) :
    s = selectValue d r none
      (.aggregate function.function (nameParts field) function.resultColumn) .all := by
  obtain ⟨_, -, h⟩ := bind_eq_ok_iff.mp h
  split at h
  · cases h
  · split at h
    · cases h
    · exact (Except.ok.inj h).symm

/-! ### Inserting -/

theorem of_insertColumns {inputs : List Column} (h : insertColumns d r = .ok inputs) :
    inputs = r.insertable ∧ r.insertable ≠ [] := by
  obtain ⟨_, -, h⟩ := bind_eq_ok_iff.mp h
  obtain ⟨_, -, h⟩ := bind_eq_ok_iff.mp h
  obtain ⟨_, -, h⟩ := bind_eq_ok_iff.mp h
  obtain ⟨_, -, h⟩ := bind_eq_ok_iff.mp h
  split at h
  · cases h
  · next hne => exact ⟨(Except.ok.inj h).symm, by simpa using hne⟩

/-- What holds of every statement that may be selected behind a row holds of those that are. -/
theorem forall_mem_trailingKey {p : Statement → Prop} {inputs : List Column} {call : String}
    {row : Option Nat} (hcall : p (.selectKey (.function call) row))
    (hkey : ∀ key, r.key = some key → Request.contains inputs key = true →
      p (.selectKey (.placeholder (key.parameterAt row)) row)) :
    ∀ s ∈ trailingKey r inputs call row, p s := by
  unfold trailingKey
  split
  · next key hr =>
    split
    · exact List.forall_mem_singleton.mpr hcall
    · split
      · next hcontains => exact List.forall_mem_singleton.mpr (hkey key hr hcontains)
      · nofun
  · nofun

theorem of_insert (h : insert d r = .ok ss) :
    insertColumns d r = .ok r.insertable ∧ r.insertable ≠ [] ∧
      ss = insertRow d r r.insertable none := by
  obtain ⟨inputs, hinputs, h⟩ := bind_eq_ok_iff.mp h
  obtain ⟨rfl, hne⟩ := of_insertColumns hinputs
  exact ⟨hinputs, hne, (Except.ok.inj h).symm⟩

/-- A batch is inserted by one insertion where no key is read back, by one merge that matches nothing
where keys come in front of the values, and else row by row. -/
theorem of_insertAll (h : insertAll d r n = .ok ss) :
    insertColumns d r = .ok r.insertable ∧ r.insertable ≠ [] ∧ r.activePredicate = none ∧
      1 ≤ n.toInt ∧ n.toInt.toNat * r.insertable.length ≤ d.maxParameters ∧
      ((r.key = none ∧ ss = [.insert ⟨tableRef d r, columnNames r.insertable,
          (List.range n.toInt.toNat).map fun i => placeholders r.insertable (some i), .fail, none,
          none⟩]) ∨
        (∃ key, r.key = some key ∧ keyRetrieval d = .output ∧ ss = [.merge ⟨tableRef d r,
          .rows (columnNames r.insertable ++ [sourceOrderColumn])
            (numberedRows r.insertable n.toInt.toNat),
          none, columnNames r.insertable, [], some key.name, true⟩]) ∨
        ss = eachRow (some n.toInt.toNat) (insertRow d r r.insertable)) := by
  obtain ⟨inputs, hinputs, h⟩ := bind_eq_ok_iff.mp h
  obtain ⟨rfl, hne⟩ := of_insertColumns hinputs
  obtain ⟨_, hreject, h⟩ := bind_eq_ok_iff.mp h
  obtain ⟨rows, hrows, h⟩ := bind_eq_ok_iff.mp h
  obtain ⟨hpositive, rfl⟩ := of_positive hrows
  obtain ⟨_, hlimit, h⟩ := bind_eq_ok_iff.mp h
  refine ⟨hinputs, hne, activePredicate_of_reject hreject, hpositive, le_of_parameterLimit hlimit, ?_⟩
  split at h
  · next hkey => exact .inl ⟨hkey, (Except.ok.inj h).symm⟩
  · next key hkey hretrieval =>
    exact .inr (.inl ⟨key, hkey, hretrieval, (Except.ok.inj h).symm⟩)
  · exact .inr (.inr (Except.ok.inj h).symm)

/-! ### Merging -/

variable {m : Request.MergeColumns}

theorem mergeColumns_of_guards (h : mergeColumns d r = .ok m) : r.mergeColumns = .ok m := by
  obtain ⟨_, -, h⟩ := bind_eq_ok_iff.mp h
  obtain ⟨_, -, h⟩ := bind_eq_ok_iff.mp h
  obtain ⟨_, -, h⟩ := bind_eq_ok_iff.mp h
  obtain ⟨_, -, h⟩ := bind_eq_ok_iff.mp h
  exact h

/-- What a merge assigns on a duplicate key: an identity is remembered, columns take the values that
were to be inserted, and where there is neither the first key keeps its value. -/
theorem mem_duplicateAssignments {x : Assignment} (hx : x ∈ duplicateAssignments r m) :
    (∃ key, r.key = some key ∧ key.identity = true ∧ x = ⟨key.name, .remembered key.name⟩) ∨
      (∃ c ∈ m.set, x = ⟨c.name, .proposed c.name⟩) ∨
        ∃ k ∈ m.keys, x = ⟨k.name, .column k.name⟩ ∧ duplicateAssignments r m = [x] := by
  generalize hall : duplicateAssignments r m = all at hx ⊢
  unfold duplicateAssignments at hall
  simp only at hall
  split at hall
  · subst hall
    cases hkeys : m.keys with
    | nil =>
      rw [hkeys] at hx
      cases hx
    | cons k ks =>
      rw [hkeys] at hx
      obtain rfl := List.mem_singleton.mp hx
      exact .inr (.inr ⟨k, List.mem_cons_self, rfl, rfl⟩)
  · subst hall
    rcases List.mem_append.mp hx with hx | hx
    · obtain ⟨key, hkey, rfl⟩ := List.mem_map.mp hx
      rw [Option.mem_toList, Option.filter_eq_some_iff] at hkey
      exact .inl ⟨key, hkey.1, hkey.2, rfl⟩
    · obtain ⟨c, hc, rfl⟩ := List.mem_map.mp hx
      exact .inr (.inl ⟨c, hc, rfl⟩)

theorem duplicateAssignments_ne_nil (hkeys : m.keys ≠ []) : duplicateAssignments r m ≠ [] := by
  unfold duplicateAssignments
  simp only
  split
  · simpa using hkeys
  · next hne => simpa using hne

theorem of_merge (h : merge d r = .ok ss) :
    ∃ m, mergeColumns d r = .ok m ∧ mergeRows d r m none = .ok ss :=
  bind_eq_ok_iff.mp h

theorem of_mergeAll (h : mergeAll d r n = .ok ss) :
    ∃ m, mergeColumns d r = .ok m ∧ r.activePredicate = none ∧ 1 ≤ n.toInt ∧
      n.toInt.toNat * m.inputs.length ≤ d.maxParameters ∧
        mergeRows d r m (some n.toInt.toNat) = .ok ss := by
  obtain ⟨m, hm, h⟩ := bind_eq_ok_iff.mp h
  obtain ⟨_, hreject, h⟩ := bind_eq_ok_iff.mp h
  obtain ⟨rows, hrows, h⟩ := bind_eq_ok_iff.mp h
  obtain ⟨hpositive, rfl⟩ := of_positive hrows
  obtain ⟨_, hlimit, h⟩ := bind_eq_ok_iff.mp h
  exact ⟨m, hm, activePredicate_of_reject hreject, hpositive, le_of_parameterLimit hlimit, h⟩

/-! ### Updating and deleting -/

/-- An update asks for its keys, which tell a row, or for its filter, and then it has no keys. -/
theorem of_update (h : update d r = .ok s) :
    ∃ u, queryGuards d r = .ok () ∧ r.updateColumns = .ok u ∧
      ((r.activePredicate = none ∧ r.rowKeys = .ok u.keys ∧
          s = .update (tableRef d r) (assignments u.set none) (keyCondition u.keys none)) ∨
        ∃ g, r.activePredicate = some g ∧ u.keys = [] ∧ s = .update (tableRef d r)
          (assignments u.set none) (.ofGroup g (u.set.map Column.parameterName))) := by
  obtain ⟨_, hguards, h⟩ := bind_eq_ok_iff.mp h
  obtain ⟨u, hu, h⟩ := bind_eq_ok_iff.mp h
  refine ⟨u, hguards, hu, ?_⟩
  cases hactive : r.activePredicate with
  | none =>
    rw [hactive] at h
    exact .inl ⟨rfl, Request.rowKeys_of_updateColumns hactive hu, (Except.ok.inj h).symm⟩
  | some g =>
    rw [hactive] at h
    have hkeys : u.keys = [] := (Request.updateColumns_spec hu).2 (by simp [hactive])
    exact .inr ⟨g, rfl, hkeys, (Except.ok.inj h).symm⟩

theorem of_updateAll (h : updateAll d r n = .ok ss) :
    ∃ u, queryGuards d r = .ok () ∧ r.activePredicate = none ∧ r.updateColumns = .ok u ∧
      1 ≤ n.toInt ∧ n.toInt.toNat * (u.set.length + u.keys.length) ≤ d.maxParameters ∧
        ss = eachRow (some n.toInt.toNat) fun row =>
          [.update (tableRef d r) (assignments u.set row) (keyCondition u.keys row)] := by
  obtain ⟨_, hguards, h⟩ := bind_eq_ok_iff.mp h
  obtain ⟨_, hreject, h⟩ := bind_eq_ok_iff.mp h
  obtain ⟨rows, hrows, h⟩ := bind_eq_ok_iff.mp h
  obtain ⟨hpositive, rfl⟩ := of_positive hrows
  obtain ⟨u, hu, h⟩ := bind_eq_ok_iff.mp h
  obtain ⟨_, hlimit, h⟩ := bind_eq_ok_iff.mp h
  exact ⟨u, hguards, activePredicate_of_reject hreject, hu, hpositive, le_of_parameterLimit hlimit,
    (Except.ok.inj h).symm⟩

/-- A deletion asks for its keys, which tell a row, or for its filter, and then it has no keys. -/
theorem of_delete (h : delete d r = .ok s) :
    ∃ keys, r.deleteKeys = .ok keys ∧
      ((r.activePredicate = none ∧ r.rowKeys = .ok keys ∧
          s = .delete (tableRef d r) (some (keyCondition keys none))) ∨
        ∃ g, r.activePredicate = some g ∧ keys = [] ∧
          s = .delete (tableRef d r) (filterCondition r)) := by
  obtain ⟨_, -, h⟩ := bind_eq_ok_iff.mp h
  obtain ⟨keys, hkeys, h⟩ := bind_eq_ok_iff.mp h
  refine ⟨keys, hkeys, ?_⟩
  cases hactive : r.activePredicate with
  | none =>
    have hrow := Request.rowKeys_of_deleteKeys hactive hkeys
    have hne : keys.isEmpty = false := by simpa using (Request.rowKeys_spec hrow).2
    rw [hne] at h
    exact .inl ⟨rfl, hrow, (Except.ok.inj h).symm⟩
  | some g =>
    have hnil : keys = [] := by
      rw [Request.deleteKeys, hactive] at hkeys
      exact (Except.ok.inj hkeys).symm
    rw [hnil] at h
    exact .inr ⟨g, rfl, hnil, (Except.ok.inj h).symm⟩

theorem of_deleteAll (h : deleteAll d r = .ok s) :
    r.activePredicate = none ∧ s = .delete (tableRef d r) none := by
  obtain ⟨_, -, h⟩ := bind_eq_ok_iff.mp h
  obtain ⟨_, hreject, h⟩ := bind_eq_ok_iff.mp h
  exact ⟨activePredicate_of_reject hreject, (Except.ok.inj h).symm⟩

theorem of_truncate (h : truncate d r = .ok s) :
    s = .delete ⟨r.table, none⟩ none ∨ ∃ restart, s = .truncate ⟨r.table, none⟩ restart := by
  obtain ⟨_, -, h⟩ := bind_eq_ok_iff.mp h
  split at h
  · exact .inl (Except.ok.inj h).symm
  · exact .inr ⟨_, (Except.ok.inj h).symm⟩
  · exact .inr ⟨_, (Except.ok.inj h).symm⟩

end EntitySql.Sql
