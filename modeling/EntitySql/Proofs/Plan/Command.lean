import EntitySql.Proofs.Plan.Making

/-!
# What a command is made of

A command sets the parameters of the rows one after the other and then those of the filter
(**`Plan.command_spec`**). Parameters of one name, whatever the case of its letters, have one value:
the name of a row's parameter tells its column and its row, and the filter keeps clear of the names of
the columns (**`Plan.Commands.agree`**). So every parameter that was set has its value in the command, and
none is overwritten (`Plan.Commands.value?_of_mem`).
-/

namespace EntitySql

open Text

/-! ### The values of a row -/

/-- What an entity keeps in a column: the value of the first property with that column, as the handler
of the property stores it, or in the form of its enumeration. -/
def EntityMap.stored (map : EntityMap) (handlers : Handlers) (repr : EnumRepr) (row : Row)
    (c : Column) : Result Value :=
  match map.propertyForColumn? c.name with
  | some q =>
    match handlers.get? map.entity q.name with
    | some h => h.toColumn (map.get row q) c
    | none => .ok (q.columnValue repr (map.get row q))
  | none => .error (.binding (.unmappedColumn map.entity c.name))

/-- A binder gives the value that an entity keeps in its column. -/
theorem ColumnBinder.make_spec {map : EntityMap} {handlers : Handlers} {repr : EnumRepr} {c : Column}
    {b : ColumnBinder} (h : ColumnBinder.make map handlers repr c = .ok b) :
    b.column = c ∧ ∀ row, b.value map row = map.stored handlers repr row c := by
  unfold make at h
  unfold EntityMap.stored
  split at h
  · next q hq =>
    cases h
    refine ⟨rfl, fun row => ?_⟩
    simp only [value]
    split <;> simp_all [Property.columnValue]
  · cases h

theorem ColumnBinder.parameter_eq_ok {b : ColumnBinder} {map : EntityMap} {row : Row}
    {index : Option Nat} {q : BoundParameter} :
    b.parameter map row index = .ok q ↔
      b.value map row = .ok q.value ∧ q.name = b.column.parameterAt index ∧
        q.type = some b.column.type := by
  unfold parameter
  rw [map_eq_ok_iff]
  constructor
  · rintro ⟨v, hv, rfl⟩
    exact ⟨hv, rfl, rfl⟩
  · rintro ⟨hv, hname, htype⟩
    exact ⟨q.value, hv, by rw [← hname, ← htype]⟩

/-! ### The parameters of rows -/

namespace Plan

/-- The number under which the row at a place is bound. -/
def rowNumber (p : Plan) (i : Nat) : Option Nat := if p.operation.isBatch then some i else none

/-- The parameters of rows are those that the binders give for each of them. -/
theorem rowsParameters_spec {p : Plan} {first : Nat} {rows : List Row} {ps : List BoundParameter}
    (h : p.rowsParameters first rows = .ok ps) :
    (∀ q ∈ ps, ∃ i row, rows[i]? = some row ∧ ∃ b ∈ p.binders,
      b.parameter p.map row (p.rowNumber (first + i)) = .ok q) ∧
    ∀ i row, rows[i]? = some row → ∀ b ∈ p.binders, ∃ q ∈ ps,
      b.parameter p.map row (p.rowNumber (first + i)) = .ok q := by
  induction rows generalizing first ps with
  | nil =>
    cases h
    exact ⟨fun q hq => absurd hq List.not_mem_nil, fun i row hrow => by simp at hrow⟩
  | cons row rest ih =>
    obtain ⟨qs, hqs, h⟩ := bind_eq_ok_iff.mp h
    obtain ⟨rs, hrs, h⟩ := bind_eq_ok_iff.mp h
    cases h
    have hqs : List.Forall₂ (fun b q => b.parameter p.map row (p.rowNumber first) = .ok q)
        p.binders qs := mapM_eq_ok_iff.mp hqs
    obtain ⟨hfrom, hall⟩ := ih hrs
    constructor
    · intro q hq
      rcases List.mem_append.mp hq with hq | hq
      · obtain ⟨b, hb, hparameter⟩ := exists_of_mem_right hqs hq
        exact ⟨0, row, rfl, b, hb, hparameter⟩
      · obtain ⟨i, other, hother, hparameter⟩ := hfrom q hq
        rw [Nat.add_right_comm] at hparameter
        exact ⟨i + 1, other, by simpa using hother, hparameter⟩
    · intro i other hother b hb
      cases i with
      | zero =>
        obtain rfl : row = other := by simpa using hother
        obtain ⟨q, hq, hparameter⟩ := exists_of_mem_left hqs hb
        exact ⟨q, List.mem_append_left _ hq, hparameter⟩
      | succ i =>
        obtain ⟨q, hq, hparameter⟩ := hall i other (by simpa using hother) b hb
        rw [Nat.add_right_comm] at hparameter
        exact ⟨q, List.mem_append_right _ hq, hparameter⟩

/-! ### The parts of a command -/

/-- A filter, if it has any item. -/
def activeFilter (g : Option Group) : Option Group := g.filter fun g => !g.isEmpty

/-- The parameters of a filter. -/
def filterBound (g : Option Group) (reserved : List String) : List BoundParameter :=
  match activeFilter g with
  | some f => f.parameters reserved
  | none => []

/-- The command of a plan for rows and a filter; `ps` are the parameters of the rows. -/
structure Commands (p : Plan) (rows : List Row) (g : Option Group) (ps : List BoundParameter)
    (cmd : Command) : Prop where
  shape : (activeFilter g).map Group.shape = p.predicateShape
  count : p.binders ≠ [] → rows.length = p.operation.rows
  origin : ∀ q ∈ ps, ∃ i row, rows[i]? = some row ∧ ∃ b ∈ p.binders,
    b.parameter p.map row (p.rowNumber i) = .ok q
  bound : ∀ i row, rows[i]? = some row → ∀ b ∈ p.binders, ∃ q ∈ ps,
    b.parameter p.map row (p.rowNumber i) = .ok q
  eq : cmd = (Command.make p.text).extend (ps ++ filterBound g p.reserved)

/-- **A command sets the parameters of the rows and then those of the filter.** -/
theorem command_spec {p : Plan} {rows : List Row} {g : Option Group} {cmd : Command}
    (h : p.command rows g = .ok cmd) : ∃ ps, Commands p rows g ps cmd := by
  unfold command at h
  simp only at h
  split at h
  · cases h
  · next hshape =>
    split at h
    · cases h
    · next hcount =>
      have hcount : p.binders ≠ [] → rows.length = p.operation.rows := by
        intro hne
        by_contra hlength
        exact hcount ⟨by simpa using hne, hlength⟩
      have heq : ∀ ps, ((Command.make p.text).extend ps).extend (filterBound g p.reserved) =
          (Command.make p.text).extend (ps ++ filterBound g p.reserved) :=
        fun ps => (List.foldl_append ..).symm
      split at h
      · next hnone =>
        have hnone := List.isEmpty_iff.mp hnone
        obtain rfl := Except.ok.inj h
        refine ⟨[], of_not_not hshape, hcount, fun q hq => absurd hq List.not_mem_nil,
          fun i row _ b hb => ?_, heq []⟩
        rw [hnone] at hb
        cases hb
      · obtain ⟨ps, hps, h⟩ := bind_eq_ok_iff.mp h
        obtain rfl := Except.ok.inj h
        obtain ⟨horigin, hbound⟩ := rowsParameters_spec hps
        simp only [Nat.zero_add] at horigin hbound
        exact ⟨ps, of_not_not hshape, hcount, horigin, hbound, heq ps⟩

theorem Made.binder_spec {options : Options} {handlers : Handlers} {map : EntityMap}
    {r : PlanRequest} {columns fields : List Column} {p : Plan}
    (h : Made options handlers map r columns fields p) {b : ColumnBinder} (hb : b ∈ p.binders) :
    b.column ∈ p.inputs ∧
      ∀ row, b.value p.map row = map.stored handlers options.repr row b.column := by
  obtain ⟨c, hc, hmake⟩ := exists_of_mem_right h.binders hb
  obtain ⟨rfl, hvalue⟩ := ColumnBinder.make_spec hmake
  rw [h.map_eq]
  exact ⟨hc, hvalue⟩

/-- A request whose plan is that of a batch has no filter. -/
theorem Made.activePredicate_of_batch {options : Options} {handlers : Handlers} {map : EntityMap}
    {r : PlanRequest} {columns fields : List Column} {p : Plan}
    (h : Made options handlers map r columns fields p) (hbatch : p.operation.isBatch = true) :
    r.activePredicate = none := by
  obtain ⟨ss, hss, -⟩ := map_eq_ok_iff.mp h.text
  rw [h.operation_eq] at hbatch
  rw [← r.activePredicate_statement]
  exact Sql.activePredicate_of_batch hss hbatch

namespace Commands

variable {options : Options} {handlers : Handlers} {map : EntityMap} {r : PlanRequest}
variable {cs fields : List Column} {p : Plan}
variable {rows : List Row} {g : Option Group} {ps : List BoundParameter} {cmd : Command}

/-! ### One value under one name -/

/-- A parameter of a row is that of one of the columns, with what the row keeps in it. -/
theorem column_of_mem (h : Commands p rows g ps cmd)
    (hm : Made options handlers map r (Column.assignNames cs) fields p) {q : BoundParameter}
    (hq : q ∈ ps) : ∃ i row c, rows[i]? = some row ∧ c ∈ p.inputs ∧
      q.name = c.parameterAt (p.rowNumber i) ∧
        map.stored handlers options.repr row c = .ok q.value := by
  obtain ⟨i, row, hrow, b, hb, hparameter⟩ := h.origin q hq
  obtain ⟨hvalue, hname, -⟩ := ColumnBinder.parameter_eq_ok.mp hparameter
  obtain ⟨hcolumn, hstored⟩ := hm.binder_spec hb
  exact ⟨i, row, b.column, hrow, hcolumn, hname, (hstored row).symm.trans hvalue⟩

/-- Every column of every row has a parameter with what the row keeps in the column. -/
theorem mem_of_column (h : Commands p rows g ps cmd)
    (hm : Made options handlers map r (Column.assignNames cs) fields p) {c : Column}
    (hc : c ∈ p.inputs) {i : Nat} {row : Row} (hrow : rows[i]? = some row) :
    ∃ q ∈ ps, q.name = c.parameterAt (p.rowNumber i) ∧
      map.stored handlers options.repr row c = .ok q.value := by
  obtain ⟨b, hb, hmake⟩ := exists_of_mem_left hm.binders hc
  obtain ⟨rfl, -⟩ := ColumnBinder.make_spec hmake
  obtain ⟨q, hq, hparameter⟩ := h.bound i row hrow b hb
  obtain ⟨hvalue, hname, -⟩ := ColumnBinder.parameter_eq_ok.mp hparameter
  exact ⟨q, hq, hname, ((hm.binder_spec hb).2 row).symm.trans hvalue⟩

/-- Where anything is bound, there are as many rows as the operation has. -/
theorem length_rows (h : Commands p rows g ps cmd)
    (hm : Made options handlers map r (Column.assignNames cs) fields p) {c : Column}
    (hc : c ∈ p.inputs) : rows.length = p.operation.rows := by
  obtain ⟨b, hb, -⟩ := exists_of_mem_left hm.binders hc
  exact h.count (List.ne_nil_of_mem hb)

theorem rowNumber_inj (h : Commands p rows g ps cmd)
    (hm : Made options handlers map r (Column.assignNames cs) fields p) {c : Column}
    (hc : c ∈ p.inputs) {i j : Nat} {row other : Row} (hi : rows[i]? = some row)
    (hj : rows[j]? = some other) (heq : p.rowNumber i = p.rowNumber j) : i = j := by
  have hlength := h.length_rows hm hc
  have hilt := (List.getElem?_eq_some_iff.mp hi).1
  have hjlt := (List.getElem?_eq_some_iff.mp hj).1
  unfold rowNumber at heq
  split at heq
  · exact Option.some.inj heq
  · next hbatch =>
    have hone : p.operation.rows = 1 := by
      unfold Operation.rows
      cases hsize : p.operation.batchSize? with
      | none => rfl
      | some n => exact absurd (by rw [Operation.isBatch, hsize]; rfl) hbatch
    omega

/-- The name of a row's parameter tells its column and its row. -/
theorem agree_rows (h : Commands p rows g ps cmd)
    (hm : Made options handlers map r (Column.assignNames cs) fields p) {q q' : BoundParameter}
    (hq : q ∈ ps) (hq' : q' ∈ ps) (hname : equalIgnoringCase q.name q'.name = true) :
    q.value = q'.value := by
  obtain ⟨i, row, c, hrow, hc, hqname, hqvalue⟩ := h.column_of_mem hm hq
  obtain ⟨j, other, d, hother, hd, hqname', hqvalue'⟩ := h.column_of_mem hm hq'
  have hnumbered : (p.rowNumber i).isSome = (p.rowNumber j).isSome := by
    unfold rowNumber
    split <;> rfl
  rw [hqname, hqname'] at hname
  obtain ⟨rfl, hnumber⟩ := Column.parameterAt_inj (hm.mem_columns_of_input hc)
    (hm.mem_columns_of_input hd) hnumbered hname
  obtain rfl := h.rowNumber_inj hm hc hrow hother hnumber
  rw [hrow] at hother
  obtain rfl := Option.some.inj hother
  rw [hqvalue] at hqvalue'
  exact Except.ok.inj hqvalue'

theorem mem_filterBound {q : BoundParameter} {reserved : List String}
    (hq : q ∈ filterBound g reserved) :
    ∃ f, activeFilter g = some f ∧ q ∈ f.parameters reserved := by
  unfold filterBound at hq
  split at hq
  · next f hf => exact ⟨f, hf, hq⟩
  · cases hq

/-- A filter is bound only under a plan that was made for one. -/
theorem activePredicate_of_filter (h : Commands p rows g ps cmd)
    (hm : Made options handlers map r (Column.assignNames cs) fields p) {f : Group}
    (hf : activeFilter g = some f) : ∃ f', r.activePredicate = some f' ∧ f.shape = f'.shape := by
  have hshape := h.shape
  rw [hm.shape_eq, hf, PlanRequest.predicateShape] at hshape
  obtain ⟨f', hf', heq⟩ := Option.map_eq_some_iff.mp hshape.symm
  exact ⟨f', hf', heq.symm⟩

/-- The filter keeps clear of the names of the columns. -/
theorem filter_apart (h : Commands p rows g ps cmd)
    (hm : Made options handlers map r (Column.assignNames cs) fields p) {q q' : BoundParameter}
    (hq : q ∈ ps) (hq' : q' ∈ filterBound g p.reserved) :
    equalIgnoringCase q.name q'.name = false := by
  rw [Bool.eq_false_iff]
  intro hname
  obtain ⟨f, hf, hq'⟩ := mem_filterBound hq'
  obtain ⟨f', hf', -⟩ := h.activePredicate_of_filter hm hf
  obtain ⟨i, row, c, -, hc, hqname, -⟩ := h.column_of_mem hm hq
  have hbatch : ¬p.operation.isBatch = true := by
    intro hbatch
    rw [hm.activePredicate_of_batch hbatch] at hf'
    cases hf'
  rw [rowNumber, if_neg hbatch] at hqname
  have hreserved : lower q.name ∈ p.reserved.map lower := by
    rw [hqname, hm.reserved_eq]
    exact List.mem_map_of_mem (List.mem_map_of_mem hc)
  have hmem : q'.name ∈ (f.parameterNames p.reserved).flatten := by
    rw [← f.map_name_parameters]
    exact List.mem_map_of_mem hq'
  refine (conditionNames_distinct (p.reserved.map lower) f.conditions).2 q'.name hmem ?_
  rwa [← lower_eq_of_equalIgnoringCase hname]

/-- **Parameters of one name have one value**, whatever the case of its letters. -/
theorem agree (h : Commands p rows g ps cmd)
    (hm : Made options handlers map r (Column.assignNames cs) fields p) :
    ∀ q ∈ ps ++ filterBound g p.reserved, ∀ q' ∈ ps ++ filterBound g p.reserved,
      equalIgnoringCase q'.name q.name = true → q'.value = q.value := by
  intro q hq q' hq' hname
  rcases List.mem_append.mp hq with hq | hq
  · rcases List.mem_append.mp hq' with hq' | hq'
    · exact h.agree_rows hm hq' hq hname
    · rw [equalIgnoringCase_comm, h.filter_apart hm hq hq'] at hname
      cases hname
  · rcases List.mem_append.mp hq' with hq' | hq'
    · rw [h.filter_apart hm hq' hq] at hname
      cases hname
    · obtain ⟨f, hf, hq⟩ := mem_filterBound hq
      obtain ⟨f', hf', hq'⟩ := mem_filterBound hq'
      rw [hf] at hf'
      obtain rfl := Option.some.inj hf'
      rw [eq_of_equalIgnoringCase (f.apart_parameters p.reserved) hq' hq hname]

/-- No parameter that was set is overwritten by another value. -/
theorem value?_of_mem (h : Commands p rows g ps cmd)
    (hm : Made options handlers map r (Column.assignNames cs) fields p) {q : BoundParameter}
    (hq : q ∈ ps ++ filterBound g p.reserved) : cmd.value? q.name = some q.value := by
  rw [h.eq]
  exact Command.value?_extend ⟨q, hq, equalIgnoringCase_refl q.name⟩ (h.agree hm q hq)

end Commands

end Plan

end EntitySql
