import EntitySql.Plan.Engine
import EntitySql.Proofs.Schema.ColumnNames
import EntitySql.Proofs.Sql.StatementText

/-!
# What a plan is made of

A plan that was made has the columns asked for, found by their names in the table, and everything in it
comes from the statement for them (**`Plan.make_spec`**). A column found by name is the first one of its
name, so the columns asked for are told by their names whatever the table (`Plan.Made.fieldsApart`); the
key of the table is one of them only if the names of the table are apart (`Plan.Made.keyApart`).
-/

namespace EntitySql

open Text

/-! ### The parts of a plan -/

/-- The plan of a request over a table with these columns; `fields` are the columns asked for. -/
structure Plan.Made (options : Options) (handlers : Handlers) (map : EntityMap) (r : PlanRequest)
    (columns fields : List Column) (p : Plan) : Prop where
  found : List.Forall₂ (fun name c => Column.find? columns name = some c) (r.shape map).fields fields
  text : Sql.statementText options.dialect r.operation
    (r.statement (r.shape map) options.keyPolicy fields columns) = .ok p.text
  inputs : (r.statement (r.shape map) options.keyPolicy fields columns).boundColumns r.operation =
    .ok p.inputs
  binders : List.Forall₂ (fun c b => ColumnBinder.make map handlers options.repr c = .ok b)
    p.inputs p.binders
  map_eq : p.map = map
  operation_eq : p.operation = r.operation
  reserved_eq : p.reserved = p.inputs.map Column.parameterName
  shape_eq : p.predicateShape = r.predicateShape

theorem requestedColumn_eq_ok {table : String} {columns : List Column} {name : String} {c : Column}
    (h : requestedColumn table columns name = .ok c) : Column.find? columns name = some c := by
  unfold requestedColumn at h
  split at h
  · next hc =>
    cases h
    exact hc
  · cases h

/-- **Everything in a plan comes from the statement for the columns asked for.** -/
theorem Plan.make_spec {options : Options} {handlers : Handlers} {map : EntityMap} {r : PlanRequest}
    {columns : List Column} {serial : Nat} {p : Plan}
    (h : Plan.make options handlers map r columns serial = .ok p) :
    ∃ fields, Plan.Made options handlers map r columns fields p := by
  obtain ⟨fields, hfields, h⟩ := bind_eq_ok_iff.mp h
  obtain ⟨text, htext, h⟩ := bind_eq_ok_iff.mp h
  obtain ⟨inputs, hinputs, h⟩ := bind_eq_ok_iff.mp h
  obtain ⟨binders, hbinders, h⟩ := bind_eq_ok_iff.mp h
  have hp : ∃ keySetter, p = ⟨serial, map, r.operation, (r.shape map).table, text, inputs,
      inputs.map Column.parameterName, r.predicateShape, binders, keySetter⟩ := by
    split at h
    · split at h
      · obtain ⟨keySetter, -, h⟩ := bind_eq_ok_iff.mp h
        exact ⟨keySetter, (Except.ok.inj h).symm⟩
      · exact ⟨none, (Except.ok.inj h).symm⟩
    · exact ⟨none, (Except.ok.inj h).symm⟩
  obtain ⟨keySetter, rfl⟩ := hp
  have hfound := (mapM_eq_ok_iff.mp hfields).imp fun _ _ hc => requestedColumn_eq_ok hc
  exact ⟨fields, hfound, htext, hinputs, mapM_eq_ok_iff.mp hbinders, rfl, rfl, rfl, rfl⟩

namespace Plan.Made

variable {options : Options} {handlers : Handlers} {map : EntityMap} {r : PlanRequest}
variable {columns fields : List Column} {p : Plan}

theorem find?_field (h : Made options handlers map r columns fields p) {c : Column}
    (hc : c ∈ fields) : Column.find? columns c.name = some c := by
  obtain ⟨name, -, hfound⟩ := exists_of_mem_right h.found hc
  exact Column.find?_name hfound

theorem mem_columns (h : Made options handlers map r columns fields p) {c : Column}
    (hc : c ∈ fields) : c ∈ columns :=
  List.mem_of_find?_eq_some (h.find?_field hc)

/-- The columns asked for are told by their names. -/
theorem fieldsApart (h : Made options handlers map r columns fields p) :
    (r.statement (r.shape map) options.keyPolicy fields columns).FieldsApart := by
  intro c hc k hk hname
  have hfound := h.find?_field hk
  rw [Column.find?_congr hname, h.find?_field hc] at hfound
  exact (Option.some.inj hfound).symm

/-- The key of a table whose columns are apart is the only column of its name. -/
theorem keyApart (h : Made options handlers map r columns fields p) (hd : Column.Distinct columns) :
    (r.statement (r.shape map) options.keyPolicy fields columns).KeyApart := by
  intro key hkey c hc hname
  have hmem : key ∈ fields ++ columns :=
    Request.mem_columns_of_mem_schema (Request.mem_schema_of_key hkey)
  have hkeyMem : key ∈ columns := by
    rcases List.mem_append.mp hmem with hmem | hmem
    · exact h.mem_columns hmem
    · exact hmem
  exact Column.eq_of_isNamed hd (h.mem_columns hc) hkeyMem hname

/-- The columns that a row binds are columns of the table. -/
theorem mem_columns_of_input (h : Made options handlers map r columns fields p) {c : Column}
    (hc : c ∈ p.inputs) : c ∈ columns :=
  h.mem_columns (Request.mem_fields_of_boundColumns h.inputs c hc)

/-- The parameter names of a table that was fetched need no quotes. -/
theorem plain {cs : List Column}
    (h : Made options handlers map r (Column.assignNames cs) fields p) :
    (r.statement (r.shape map) options.keyPolicy fields (Column.assignNames cs)).Plain := by
  intro c hc
  have hmem : c ∈ Column.assignNames cs := by
    rcases List.mem_append.mp hc with hc | hc
    · exact h.mem_columns hc
    · exact hc
  exact (Column.assignNames_spec cs).2.2 c hmem

end Plan.Made

/-! ### The filter -/

/-- The statement of a request has the filter of the request, if it has any item. -/
theorem PlanRequest.activePredicate_statement (r : PlanRequest) (shape : PlanShape)
    (policy : KeyPolicy) (fields columns : List Column) :
    (r.statement shape policy fields columns).activePredicate = r.activePredicate := by
  unfold Request.activePredicate statement PlanRequest.activePredicate
  cases r.predicate with
  | none => rfl
  | some g =>
    cases hg : g.isEmpty with
    | true => simp [hg, Option.filter]
    | false => simp [hg, Option.filter]

end EntitySql
