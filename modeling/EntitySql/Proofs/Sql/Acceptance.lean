import EntitySql.Proofs.Sql.Operation
import EntitySql.Sql.Tidy

/-!
# What is accepted by every dialect

Whether a statement is built is decided by guards, and each dialect has its own sequence of them.
`demands` lists what an operation asks of a request, in the order in which it is asked, without a word
about the dialect. A request without hints is accepted if and only if it meets these demands
(`accepted_statements`), and is refused with the error of the first that it does not meet, where the
dialects agree at all: a batch stays within the parameters of the dialect that allows the fewest, a page
within the rows that can be counted, and SQLite, which replaces rows, is not asked to merge them.

The main statement, **`statementText_accepted_alike`**, is that under these conditions any two dialects
accept the same requests and refuse the others with the same error.
-/

namespace EntitySql.Sql

/-! ### Demands -/

/-- What a query for columns asks. -/
def queryDemands (r : Request) : Result Unit := do
  requireTable r
  requireFields r

/-- What a query for a part of an order asks. -/
def pageDemands (r : Request) : Result Unit := do
  queryDemands r
  requireOrder r

/-- What an insertion asks. -/
def insertDemands (r : Request) : Result Unit := do
  queryDemands r
  requirePrimary r
  if r.insertable.isEmpty then .error (.argument (.nothingInsertable r.table)) else .ok ()

/-- What a merge asks. -/
def mergeDemands (r : Request) : Result Unit := do
  queryDemands r
  requirePrimary r
  let _ ← r.mergeColumns

/-- What a batch asks besides. -/
def batchDemands (r : Request) (op : Operation) (batchSize : Int64) : Result Unit := do
  rejectPredicate r op
  let _ ← positive "batch_size" batchSize

/-- What an operation asks of a request, whatever the dialect. -/
def demands (r : Request) : Operation → Result Unit
  | .query none => queryDemands r
  | .query (some n) => do
    queryDemands r
    let _ ← positive "top" n
  | .pagedQuery page rows => do
    pageDemands r
    let _ ← nonNegative "page" page
    let _ ← positive "rows_per_batch" rows
  | .skipQuery skip take => do
    pageDemands r
    let _ ← nonNegative "skip" skip
    let _ ← positive "take" take
  | .insert => insertDemands r
  | .insertAll n => do
    insertDemands r
    batchDemands r (.insertAll n) n
  | .update => do
    queryDemands r
    let _ ← r.updateColumns
  | .updateAll n => do
    queryDemands r
    batchDemands r (.updateAll n) n
    let _ ← r.updateColumns
  | .merge => mergeDemands r
  | .mergeAll n => do
    mergeDemands r
    batchDemands r (.mergeAll n) n
  | .delete => do
    requireTable r
    let _ ← r.deleteKeys
  | .deleteAll => do
    requireTable r
    rejectPredicate r .deleteAll
  | .aggregate function field => do
    requireTable r
    if isBlankText field then .error (.argument (.aggregateField function.function r.table))
    else if !r.schema.isEmpty ∧ (Column.find? r.schema field).isNone then
      .error (.argument (.unknownField field r.table))
    else .ok ()
  | .exists | .count | .truncate => requireTable r

/-! ### Acceptance -/

/-- Whether there is a result, or the error in its place. -/
def accepted {α : Type} (x : Result α) : Result Unit := x.map fun _ => ()

section Accepted

variable {α β : Type}

@[simp] theorem accepted_ok (a : α) : accepted (.ok a : Result α) = .ok () := rfl

@[simp] theorem accepted_error (e : Error) : accepted (.error e : Result α) = .error e := rfl

theorem accepted_bind (x : Result α) (f : α → Result β) :
    accepted (x >>= f) = x >>= fun a => accepted (f a) := by
  cases x <;> rfl

theorem accepted_map (x : Result α) (f : α → β) : accepted (x.map f) = accepted x := by
  cases x <;> rfl

/-- What follows whether there is a result follows the result. -/
theorem accepted_seq (x : Result α) (y : Unit → Result β) : accepted x >>= y = x >>= fun _ => y () := by
  cases x <;> rfl

theorem ok_bind (a : α) (f : α → Result β) : ((.ok a : Result α) >>= f) = f a := rfl

/-- What follows a result need only agree on that result. -/
theorem bind_congr_ok {x : Result α} {f g : α → Result β} (h : ∀ a, x = .ok a → f a = g a) :
    x >>= f = x >>= g := by
  cases x with
  | error e => rfl
  | ok a => exact h a rfl

theorem accepted_eq_error_iff {x : Result α} {e : Error} : accepted x = .error e ↔ x = .error e := by
  cases x with
  | error e' => simp [Except.error.injEq]
  | ok a => simp

theorem accepted_eq_ok_iff {x : Result α} : accepted x = .ok () ↔ ∃ a, x = .ok a := by
  cases x with
  | error e => simp
  | ok a => simp

end Accepted

/-! ### Guards -/

section Guards

variable {r : Request} (hh : r.hints = none) (d : Dialect)

include hh

theorem checkHints_none : checkHints d r = .ok () := by
  rw [checkHints, hh]

theorem queryGuards_eq : queryGuards d r = queryDemands r := by
  simp only [queryGuards, queryDemands, checkHints_none hh, ok_bind]

theorem pageGuards_eq : pageGuards d r = pageDemands r := by
  rw [pageGuards, pageDemands, queryGuards_eq hh]

theorem tableGuards_eq : tableGuards d r = requireTable r := by
  rw [tableGuards, checkHints_none hh]
  cases requireTable r <;> rfl

theorem accepted_insertColumns : accepted (insertColumns d r) = insertDemands r := by
  simp only [insertColumns, insertDemands, queryDemands, checkHints_none hh, ok_bind, accepted_bind,
    bind_assoc]
  congr! 6
  split <;> rfl

theorem accepted_mergeColumns : accepted (mergeColumns d r) = mergeDemands r := by
  simp only [mergeColumns, mergeDemands, queryDemands, checkHints_none hh, ok_bind, accepted_bind,
    bind_assoc]
  congr! 6

end Guards

theorem of_nonNegative {name : String} {n : Int64} {k : Nat} (h : nonNegative name n = .ok k) :
    0 ≤ n.toInt ∧ k = n.toInt.toNat := by
  unfold nonNegative at h
  split at h
  · next hn => exact ⟨hn, (Except.ok.inj h).symm⟩
  · cases h

/-- A batch within the parameters of every dialect is within those of each. -/
theorem parameterLimit_ok (d : Dialect) {n : Int64} {rows perRow : Nat} (h : rows * perRow ≤ 999) :
    parameterLimit d n rows perRow = .ok () := by
  have hleast : 999 ≤ d.maxParameters := by cases d <;> decide
  rw [parameterLimit, if_neg (by omega)]

/-- What a batch asks is asked in front of its rows, which are as many as it says. -/
theorem accepted_batch {α : Type} {r : Request} {op : Operation} {n : Int64} {f : Nat → Result α}
    (h : accepted (f n.toInt.toNat) = .ok ()) :
    accepted (rejectPredicate r op >>= fun _ => positive "batch_size" n >>= f) =
      batchDemands r op n := by
  rw [batchDemands, accepted_bind]
  refine bind_congr_ok fun _ _ => ?_
  rw [accepted_bind]
  refine bind_congr_ok fun rows hrows => ?_
  obtain ⟨-, rfl⟩ := of_positive hrows
  exact h

theorem rowPosition_ok {name : String} {n : Int64} {position : Nat} (h : position < twoTo 64) :
    rowPosition name n position = .ok position := by
  rw [rowPosition, if_pos h]

/-! ### Reading -/

section Reading

variable {r : Request} (hh : r.hints = none) (d : Dialect)

include hh

theorem accepted_query (top : Option Int64) : accepted (query d r top) = demands r (.query top) := by
  unfold query
  rw [accepted_bind, queryGuards_eq hh]
  cases top with
  | none =>
    cases h : queryDemands r <;> simp only [demands, h] <;> rfl
  | some n =>
    refine bind_congr_ok fun _ _ => ?_
    rw [accepted_bind]
    refine bind_congr_ok fun _ _ => ?_
    split <;> rfl

theorem accepted_pagedQuery {page rows : Int64}
    (hpage : (page.toInt + 1) * rows.toInt < twoTo 64) :
    accepted (pagedQuery d r page rows) = demands r (.pagedQuery page rows) := by
  unfold pagedQuery
  rw [accepted_bind, pageGuards_eq hh]
  refine bind_congr_ok fun _ _ => ?_
  rw [accepted_bind]
  refine bind_congr_ok fun index hindex => ?_
  rw [accepted_bind]
  refine bind_congr_ok fun count hcount => ?_
  obtain ⟨hnonneg, rfl⟩ := of_nonNegative hindex
  obtain ⟨hpositive, rfl⟩ := of_positive hcount
  -- the last row of the page can be counted, so each position in the page can
  have hlast : page.toInt.toNat * rows.toInt.toNat + rows.toInt.toNat < twoTo 64 := by
    rw [← Int.toNat_of_nonneg hnonneg, ← Int.toNat_of_nonneg (by omega : 0 ≤ rows.toInt),
      Int.add_mul, Int.one_mul, ← Int.natCast_mul, ← Int.natCast_add] at hpage
    exact Int.ofNat_lt.mp hpage
  have hone : 1 ≤ rows.toInt.toNat := by omega
  split
  · rw [rowPosition_ok (by omega), ok_bind, rowPosition_ok (by omega), ok_bind]
    rfl
  · rw [rowPosition_ok (by omega), ok_bind]
    rfl

theorem accepted_skipQuery (skip take : Int64) :
    accepted (skipQuery d r skip take) = demands r (.skipQuery skip take) := by
  unfold skipQuery
  rw [accepted_bind, pageGuards_eq hh]
  refine bind_congr_ok fun _ _ => ?_
  rw [accepted_bind]
  refine bind_congr_ok fun _ _ => ?_
  rw [accepted_bind]
  refine bind_congr_ok fun _ _ => ?_
  split <;> rfl

theorem accepted_tableQuery {f : Unit → Result Statement} (hf : ∀ u, accepted (f u) = .ok ()) :
    accepted (tableGuards d r >>= f) = requireTable r := by
  rw [accepted_bind, tableGuards_eq hh]
  cases requireTable r with
  | error e => rfl
  | ok u => exact hf u

theorem accepted_existsQuery : accepted (existsQuery d r) = demands r .exists :=
  accepted_tableQuery hh d fun _ => by dsimp only; split <;> rfl

theorem accepted_countQuery : accepted (countQuery d r) = demands r .count :=
  accepted_tableQuery hh d fun _ => rfl

theorem accepted_aggregateQuery (function : Aggregate) (field : String) :
    accepted (aggregateQuery d r function field) = demands r (.aggregate function field) := by
  unfold aggregateQuery
  rw [accepted_bind, tableGuards_eq hh]
  refine bind_congr_ok fun _ _ => ?_
  split
  · rfl
  · split <;> rfl

end Reading

/-! ### Writing -/

section Writing

variable {r : Request} (hh : r.hints = none) (d : Dialect)

include hh

theorem accepted_insert : accepted (insert d r) = demands r .insert := by
  rw [insert, accepted_bind, demands, ← accepted_insertColumns hh d]
  cases insertColumns d r <;> rfl

theorem accepted_insertAll {n : Int64} (hn : n.toInt.toNat * r.insertable.length ≤ 999) :
    accepted (insertAll d r n) = demands r (.insertAll n) := by
  rw [insertAll, accepted_bind, demands, ← accepted_insertColumns hh d, accepted_seq]
  refine bind_congr_ok fun inputs hinputs => ?_
  obtain ⟨rfl, -⟩ := of_insertColumns hinputs
  refine accepted_batch ?_
  rw [parameterLimit_ok d hn, ok_bind]
  split <;> rfl

theorem accepted_update : accepted (update d r) = demands r .update := by
  rw [update, accepted_bind, queryGuards_eq hh]
  refine bind_congr_ok fun _ _ => ?_
  rw [accepted_bind]
  rfl

theorem accepted_updateAll {n : Int64}
    (hn : ∀ u, r.updateColumns = .ok u → n.toInt.toNat * (u.set ++ u.keys).length ≤ 999) :
    accepted (updateAll d r n) = demands r (.updateAll n) := by
  rw [updateAll, accepted_bind, queryGuards_eq hh, demands]
  refine bind_congr_ok fun _ _ => ?_
  rw [accepted_bind, batchDemands, bind_assoc]
  refine bind_congr_ok fun _ _ => ?_
  rw [accepted_bind, bind_assoc]
  refine bind_congr_ok fun rows hrows => ?_
  obtain ⟨-, rfl⟩ := of_positive hrows
  rw [accepted_bind]
  refine bind_congr_ok fun u hu => ?_
  have hlimit := hn u hu
  rw [List.length_append] at hlimit
  rw [parameterLimit_ok d hlimit, ok_bind]
  rfl

theorem accepted_delete : accepted (delete d r) = demands r .delete := by
  rw [delete, accepted_bind, tableGuards_eq hh]
  refine bind_congr_ok fun _ _ => ?_
  rw [accepted_bind]
  rfl

theorem accepted_deleteAll : accepted (deleteAll d r) = demands r .deleteAll := by
  rw [deleteAll, accepted_bind, tableGuards_eq hh]
  refine bind_congr_ok fun _ _ => ?_
  rw [accepted_bind]
  cases rejectPredicate r .deleteAll <;> rfl

theorem accepted_truncate : accepted (truncate d r) = demands r .truncate := by
  unfold truncate
  rw [accepted_bind, tableGuards_eq hh, demands]
  cases requireTable r with
  | error e => rfl
  | ok u => cases d <;> rfl

end Writing

/-! ### Merging -/

/-- Every dialect but SQLite merges whatever rows are told by their keys. -/
theorem accepted_mergeRows {d : Dialect} (hd : d ≠ .sqlite) (r : Request)
    (m : Request.MergeColumns) (batch : Option Nat) : accepted (mergeRows d r m batch) = .ok () := by
  cases d with
  | sqlite => exact absurd rfl hd
  | sqlServer | postgres | mySql => rfl

theorem accepted_merge {d : Dialect} (hd : d ≠ .sqlite) {r : Request} (hh : r.hints = none) :
    accepted (merge d r) = demands r .merge := by
  rw [merge, accepted_bind, demands, ← accepted_mergeColumns hh d, accepted]
  cases mergeColumns d r with
  | error e => rfl
  | ok m => exact accepted_mergeRows hd r m none

theorem accepted_mergeAll {d : Dialect} (hd : d ≠ .sqlite) {r : Request} (hh : r.hints = none)
    {n : Int64} (hn : ∀ m, r.mergeColumns = .ok m → n.toInt.toNat * m.inputs.length ≤ 999) :
    accepted (mergeAll d r n) = demands r (.mergeAll n) := by
  rw [mergeAll, accepted_bind, demands, ← accepted_mergeColumns hh d, accepted_seq]
  refine bind_congr_ok fun m hm => ?_
  refine accepted_batch ?_
  rw [parameterLimit_ok d (hn m (mergeColumns_of_guards hm)), ok_bind]
  exact accepted_mergeRows hd r m _

/-! ### All operations -/

/-- The request keeps to what every dialect can do: SQLite is not asked to merge, a batch has no more
parameters than the dialect with the fewest allows, and the rows up to the end of a page can be
counted. -/
structure Portable (r : Request) (op : Operation) (d : Dialect) : Prop where
  merge : merges op = true → d ≠ .sqlite
  batch : ∀ n columns, op.batchSize? = some n → r.boundColumns op = .ok columns →
    n.toInt * columns.length ≤ 999
  page : ∀ page rows, op = .pagedQuery page rows → (page.toInt + 1) * rows.toInt < twoTo 64

variable {d d' : Dialect} {op : Operation} {r : Request}

/-- The parameters of the rows of a batch. -/
theorem Portable.parameters (h : Portable r op d) {n : Int64} {columns : List Column}
    (hn : op.batchSize? = some n) (hcolumns : r.boundColumns op = .ok columns) :
    n.toInt.toNat * columns.length ≤ 999 := by
  have hbatch := h.batch n columns hn hcolumns
  rcases Int.le_total 0 n.toInt with hpos | hneg
  · rw [← Int.toNat_of_nonneg hpos, ← Int.natCast_mul] at hbatch
    exact Int.ofNat_le.mp hbatch
  · rw [Int.toNat_of_nonpos hneg, Nat.zero_mul]
    exact Nat.zero_le _

/-- **A request without hints is accepted for an operation if and only if it meets the demands of the
operation**, and is refused with the error of the first that it does not meet. -/
theorem accepted_statements (hh : r.hints = none) (hp : Portable r op d) :
    accepted (statements d op r) = demands r op := by
  cases op with
  | query top => exact (accepted_map _ _).trans (accepted_query hh d top)
  | pagedQuery page rows =>
    exact (accepted_map _ _).trans (accepted_pagedQuery hh d (hp.page page rows rfl))
  | skipQuery skip take => exact (accepted_map _ _).trans (accepted_skipQuery hh d skip take)
  | insert => exact accepted_insert hh d
  | insertAll n => exact accepted_insertAll hh d (hp.parameters rfl rfl)
  | update => exact (accepted_map _ _).trans (accepted_update hh d)
  | updateAll n =>
    refine accepted_updateAll hh d fun u hu => hp.parameters rfl ?_
    exact map_eq_ok_iff.mpr ⟨u, hu, rfl⟩
  | merge => exact accepted_merge (hp.merge rfl) hh
  | mergeAll n =>
    refine accepted_mergeAll (hp.merge rfl) hh fun m hm => hp.parameters rfl ?_
    exact map_eq_ok_iff.mpr ⟨m, hm, rfl⟩
  | delete => exact (accepted_map _ _).trans (accepted_delete hh d)
  | deleteAll => exact (accepted_map _ _).trans (accepted_deleteAll hh d)
  | «exists» => exact (accepted_map _ _).trans (accepted_existsQuery hh d)
  | count => exact (accepted_map _ _).trans (accepted_countQuery hh d)
  | aggregate function field =>
    exact (accepted_map _ _).trans (accepted_aggregateQuery hh d function field)
  | truncate => exact (accepted_map _ _).trans (accepted_truncate hh d)

/-- **Two dialects accept the same requests**, and refuse the others with the same error. -/
theorem statementText_accepted_alike (hh : r.hints = none) (hp : Portable r op d)
    (hp' : Portable r op d') :
    ((∃ text, statementText d op r = .ok text) ↔ ∃ text, statementText d' op r = .ok text) ∧
      ∀ e, statementText d op r = .error e ↔ statementText d' op r = .error e := by
  have hsame : accepted (statementText d op r) = accepted (statementText d' op r) := by
    rw [statementText, statementText, accepted_map, accepted_map, accepted_statements hh hp,
      accepted_statements hh hp']
  refine ⟨?_, fun e => ?_⟩
  · rw [← accepted_eq_ok_iff, hsame, accepted_eq_ok_iff]
  · rw [← accepted_eq_error_iff, hsame, accepted_eq_error_iff]

namespace Sample

/-- A table of words, ordered by their length. -/
def words : Request :=
  let word : Column :=
    ⟨"Word", true, false, false, .text, none, none, none, none, false, false, none, none⟩
  ⟨"Words", [word], [word], none, none, [⟨"Word", .asc⟩], none, .primaryOrElseIdentity⟩

end Sample

/-- The last page of single rows that can be counted is accepted by SQL Server, which numbers the rows,
and by SQLite; a page of no rows is refused by both. -/
theorem statementText_accepted_alike_words :
    (∃ text, statementText .sqlite (.pagedQuery Int64.maxValue 1) Sample.words = .ok text) ∧
      statementText .sqlite (.pagedQuery Int64.maxValue 0) Sample.words =
        .error (.range "rows_per_batch" 0) := by
  have portable : ∀ (rows : Int64), (Int64.maxValue.toInt + 1) * rows.toInt < twoTo 64 →
      ∀ d, Portable Sample.words (.pagedQuery Int64.maxValue rows) d := by
    refine fun rows hrows d => ⟨fun h => (by cases h), fun n columns h => (by cases h), ?_⟩
    intro page rows' h
    cases h
    exact hrows
  constructor
  · refine (statementText_accepted_alike (d := .sqlServer) rfl ?_ ?_).1.mp ⟨_, rfl⟩
    · exact portable 1 (by decide) .sqlServer
    · exact portable 1 (by decide) .sqlite
  · refine ((statementText_accepted_alike (d := .sqlServer) rfl ?_ ?_).2 _).mp rfl
    · exact portable 0 (by decide) .sqlServer
    · exact portable 0 (by decide) .sqlite

end EntitySql.Sql
