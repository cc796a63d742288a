import EntitySql.Proofs.Plan.Command
import EntitySql.Proofs.Plan.Engine

/-!
# Placeholders and parameters

The text of a command and its parameters are made apart from each other, the text once for a plan and the
parameters for every command. They meet all the same. **`Engine.placeholders_bound`**: in whatever order
an engine was used, every placeholder in the text of a command is the name of one parameter, with the
value of the column and row or of the condition that it stands for. **`Engine.parameters_written`**: every
parameter is a placeholder in the text, unless the operation is one that does not write its filter
(`Sql.writesFilter`); such an operation takes a filter and leaves its parameters dangling.
-/

namespace EntitySql

open Text Sql

namespace Plan.Commands

variable {options : Options} {handlers : Handlers} {map : EntityMap} {r : PlanRequest}
variable {cs fields : List Column} {p : Plan}
variable {rows : List Row} {g : Option Group} {ps : List BoundParameter} {cmd : Command}

theorem text_eq (h : Commands p rows g ps cmd) : cmd.text = p.text := by
  rw [h.eq, Command.text_extend]
  rfl

/-! ### The rows of an operation -/

/-- The rows that an operation writes are those that are bound. -/
theorem mem_operationRows (h : Commands p rows g ps cmd)
    (hm : Made options handlers map r (Column.assignNames cs) fields p) {c : Column}
    (hc : c ∈ p.inputs) {row : Option Nat} :
    row ∈ operationRows r.operation ↔ ∃ i < rows.length, p.rowNumber i = row := by
  have hlength := h.length_rows hm hc
  rw [hm.operation_eq] at hlength
  unfold rowNumber Operation.isBatch
  unfold Operation.rows at hlength
  rw [hm.operation_eq]
  unfold operationRows rowsOf
  cases hsize : r.operation.batchSize? with
  | none =>
    rw [hsize] at hlength
    simp only [hlength, Option.map_none, List.mem_singleton, Option.isSome_none]
    constructor
    · rintro rfl
      exact ⟨0, Nat.one_pos, rfl⟩
    · rintro ⟨_, -, rfl⟩
      rfl
  | some n =>
    rw [hsize] at hlength
    simp [hlength]

/-- The names that are written for rows are the names that rows bind. -/
theorem mem_boundNames_iff (h : Commands p rows g ps cmd)
    (hm : Made options handlers map r (Column.assignNames cs) fields p) {name : String} :
    name ∈ boundNames p.inputs (operationRows r.operation) ↔
      ∃ c ∈ p.inputs, ∃ i < rows.length, c.parameterAt (p.rowNumber i) = name := by
  rw [mem_boundNames]
  constructor
  · rintro ⟨row, hrow, c, hc, rfl⟩
    obtain ⟨i, hi, rfl⟩ := (h.mem_operationRows hm hc).mp hrow
    exact ⟨c, hc, i, hi, rfl⟩
  · rintro ⟨c, hc, i, hi, rfl⟩
    exact ⟨p.rowNumber i, (h.mem_operationRows hm hc).mpr ⟨i, hi, rfl⟩, c, hc, rfl⟩

/-- The names that are written for a filter are those of the filter of the command. -/
theorem mem_filterNames_iff (h : Commands p rows g ps cmd)
    (hm : Made options handlers map r (Column.assignNames cs) fields p) {name : String} :
    (∃ f, r.activePredicate = some f ∧ name ∈ (f.parameterNames p.reserved).flatten) ↔
      ∃ f, activeFilter g = some f ∧ name ∈ (f.parameterNames p.reserved).flatten := by
  have hshape := h.shape
  rw [hm.shape_eq, PlanRequest.predicateShape] at hshape
  constructor
  · rintro ⟨f', hf', hname⟩
    rw [hf'] at hshape
    obtain ⟨f, hf, heq⟩ := Option.map_eq_some_iff.mp hshape
    exact ⟨f, hf, by rwa [Group.parameterNames_eq_of_shape heq]⟩
  · rintro ⟨f, hf, hname⟩
    obtain ⟨f', hf', heq⟩ := h.activePredicate_of_filter hm hf
    exact ⟨f', hf', by rwa [← Group.parameterNames_eq_of_shape heq]⟩

/-! ### What is written is bound -/

/-- A placeholder stands for a column of a row, or for a condition of a filter that is written. -/
theorem exists_of_mem_placeholders (h : Commands p rows g ps cmd)
    (hm : Made options handlers map r (Column.assignNames cs) fields p) (hh : r.hints = none)
    (hd : Column.Distinct cs) {name : String}
    (hname : name ∈ placeholdersIn options.dialect cmd.text) :
    (∃ c ∈ p.inputs, ∃ i < rows.length, c.parameterAt (p.rowNumber i) = name) ∨
      writesFilter r.operation = true ∧
        ∃ f, activeFilter g = some f ∧ name ∈ (f.parameterNames p.reserved).flatten := by
  rw [h.text_eq] at hname
  have hwritten := (placeholders_statementText hh hm.fieldsApart hm.plain hm.text hm.inputs).1
  rcases hwritten name hname with hname | hname
  · rcases List.mem_append.mp hname with hname | hname
    · exact .inl ((h.mem_boundNames_iff hm).mp hname)
    · obtain ⟨hwrites, f, hf, hname⟩ := filterParameters_writtenFilter.mp hname
      rw [PlanRequest.activePredicate_statement] at hf
      rw [← hm.reserved_eq] at hname
      exact .inr ⟨hwrites, (h.mem_filterNames_iff hm).mp ⟨f, hf, hname⟩⟩
  · have hbound := mem_boundNames_of_mem_keyNames (hm.keyApart (Column.distinct_assignNames hd))
      (Request.mem_fields_of_boundColumns hm.inputs) hname
    exact .inl ((h.mem_boundNames_iff hm).mp hbound)

/-- The names of columns in rows and of the filter are names of parameters that were set. -/
theorem exists_parameter (h : Commands p rows g ps cmd)
    (hm : Made options handlers map r (Column.assignNames cs) fields p) {name : String}
    (hname : (∃ c ∈ p.inputs, ∃ i < rows.length, c.parameterAt (p.rowNumber i) = name) ∨
      ∃ f, activeFilter g = some f ∧ name ∈ (f.parameterNames p.reserved).flatten) :
    ∃ q ∈ ps ++ filterBound g p.reserved, q.name = name := by
  rcases hname with ⟨c, hc, i, hi, rfl⟩ | ⟨f, hf, hname⟩
  · obtain ⟨q, hq, hqname, -⟩ := h.mem_of_column hm hc (List.getElem?_eq_getElem hi)
    exact ⟨q, List.mem_append_left _ hq, hqname⟩
  · rw [← f.map_name_parameters] at hname
    obtain ⟨q, hq, hqname⟩ := List.mem_map.mp hname
    refine ⟨q, List.mem_append_right _ ?_, hqname⟩
    rw [filterBound, hf]
    exact hq

/-- Every parameter that was set is the only one of its name in the command. -/
theorem countP_of_mem (h : Commands p rows g ps cmd)
    (hm : Made options handlers map r (Column.assignNames cs) fields p) {q : BoundParameter}
    (hq : q ∈ ps ++ filterBound g p.reserved) :
    cmd.parameters.countP (Command.isNamed q.name) = 1 := by
  have hapart : Apart cmd.parameters := by
    rw [h.eq]
    exact Command.apart_extend (c := Command.make p.text) List.Pairwise.nil _
  exact countP_isNamed hapart (Command.exists_of_value? (h.value?_of_mem hm hq))

/-- Every name of a condition of the filter has the value of that condition or list element. -/
theorem forall₂_value? (h : Commands p rows g ps cmd)
    (hm : Made options handlers map r (Column.assignNames cs) fields p) {f : Group}
    (hf : activeFilter g = some f) :
    List.Forall₂ (fun c names => names.map cmd.value? = c.boundValues.map some) f.conditions
      (f.parameterNames p.reserved) := by
  refine f.forall₂_parameterNames p.reserved fun q hq => ?_
  have hbound : q ∈ filterBound g p.reserved := by
    rw [filterBound, hf]
    exact hq
  exact h.value?_of_mem hm (List.mem_append_right _ hbound)

/-- A filter that is written is read in the text of the command as it is read on its own. -/
theorem groupText_infix (h : Commands p rows g ps cmd)
    (hm : Made options handlers map r (Column.assignNames cs) fields p) (hh : r.hints = none)
    (hwrites : writesFilter r.operation = true) {f : Group} (hf : activeFilter g = some f) :
    lex options.dialect (groupText options.dialect f p.reserved).toList <:+:
      lex options.dialect cmd.text.toList := by
  obtain ⟨f', hf', heq⟩ := h.activePredicate_of_filter hm hf
  rw [h.text_eq, groupText_eq_of_shape heq, hm.reserved_eq]
  refine groupText_infix_statementText hh hm.fieldsApart hm.plain hm.text hm.inputs hwrites ?_
  rw [PlanRequest.activePredicate_statement, hf']

/-! ### What is bound is written -/

/-- A name that is bound for a row or a filter that is written is a placeholder. -/
theorem mem_placeholders (h : Commands p rows g ps cmd)
    (hm : Made options handlers map r (Column.assignNames cs) fields p) (hh : r.hints = none)
    {name : String}
    (hname : (∃ c ∈ p.inputs, ∃ i < rows.length, c.parameterAt (p.rowNumber i) = name) ∨
      writesFilter r.operation = true ∧
        ∃ f, activeFilter g = some f ∧ name ∈ (f.parameterNames p.reserved).flatten) :
    name ∈ placeholdersIn options.dialect cmd.text := by
  have hwritten := (placeholders_statementText hh hm.fieldsApart hm.plain hm.text hm.inputs).2
  rw [h.text_eq]
  refine hwritten name (List.mem_append.mpr ?_)
  rcases hname with hname | ⟨hwrites, hname⟩
  · exact .inl ((h.mem_boundNames_iff hm).mpr hname)
  · obtain ⟨f, hf, hname⟩ := (h.mem_filterNames_iff hm).mpr hname
    rw [filterParameters_writtenFilter, PlanRequest.activePredicate_statement, ← hm.reserved_eq]
    exact .inr ⟨hwrites, f, hf, hname⟩

/-- A parameter of the command has the name of a column in a row or of a condition of the filter. -/
theorem name_of_mem (h : Commands p rows g ps cmd)
    (hm : Made options handlers map r (Column.assignNames cs) fields p) {q : BoundParameter}
    (hq : q ∈ cmd.parameters) :
    (∃ c ∈ p.inputs, ∃ i < rows.length, c.parameterAt (p.rowNumber i) = q.name) ∨
      ∃ f, activeFilter g = some f ∧ q.name ∈ (f.parameterNames p.reserved).flatten := by
  rw [h.eq] at hq
  obtain ⟨q', hq', hname⟩ := Command.mem_extend hq
  rw [hname]
  rcases List.mem_append.mp hq' with hq' | hq'
  · cases hq'
  · rcases List.mem_append.mp hq' with hq' | hq'
    · obtain ⟨i, row, c, hrow, hc, hcname, -⟩ := h.column_of_mem hm hq'
      exact .inl ⟨c, hc, i, (List.getElem?_eq_some_iff.mp hrow).1, hcname.symm⟩
    · obtain ⟨f, hf, hq'⟩ := mem_filterBound hq'
      refine .inr ⟨f, hf, ?_⟩
      rw [← f.map_name_parameters]
      exact List.mem_map_of_mem hq'

theorem filterBound_eq_nil_iff {reserved : List String} :
    filterBound g reserved = [] ↔
      ∀ f, activeFilter g = some f → ∀ c ∈ f.conditions, c.boundValues = [] := by
  unfold filterBound
  cases activeFilter g with
  | none => simp
  | some f => simp [Group.parameters_eq_nil_iff]

/-- Where a filter is written or has no parameters, every parameter is a placeholder. -/
theorem mem_placeholders_of_mem (h : Commands p rows g ps cmd)
    (hm : Made options handlers map r (Column.assignNames cs) fields p) (hh : r.hints = none)
    (hwritten : writesFilter r.operation = true ∨ filterBound g p.reserved = [])
    {q : BoundParameter} (hq : q ∈ cmd.parameters) :
    q.name ∈ placeholdersIn options.dialect cmd.text := by
  refine h.mem_placeholders hm hh ((h.name_of_mem hm hq).imp_right fun hfilter => ?_)
  rcases hwritten with hwrites | hnone
  · exact ⟨hwrites, hfilter⟩
  · obtain ⟨f, hf, hname⟩ := hfilter
    have hparameters : f.parameters p.reserved = [] := by
      rw [filterBound, hf] at hnone
      exact hnone
    rw [← f.map_name_parameters, hparameters] at hname
    cases hname

/-- A filter that is not written leaves its parameters dangling. -/
theorem notMem_placeholders (h : Commands p rows g ps cmd)
    (hm : Made options handlers map r (Column.assignNames cs) fields p) (hh : r.hints = none)
    (hd : Column.Distinct cs) (hwrites : ¬writesFilter r.operation = true) {q : BoundParameter}
    (hq : q ∈ filterBound g p.reserved) {name : String}
    (hname : equalIgnoringCase name q.name = true) :
    name ∉ placeholdersIn options.dialect cmd.text := by
  intro hmem
  rcases h.exists_of_mem_placeholders hm hh hd hmem with hrow | ⟨hwrites', -⟩
  · obtain ⟨c, hc, i, hi, rfl⟩ := hrow
    obtain ⟨q', hq', hq'name, -⟩ := h.mem_of_column hm hc (List.getElem?_eq_getElem hi)
    rw [← hq'name, h.filter_apart hm hq' hq] at hname
    cases hname
  · exact hwrites hwrites'

end Plan.Commands

/-! ### Tables of accounts and of jobs -/

namespace Sample

/-- A column that rows are written to. -/
def column (name : String) (primary : Bool) (type : ValueType) : Column :=
  ⟨name, primary, false, false, type, none, none, none, none, false, false, none, none⟩

/-- The columns of a table of accounts. -/
def accountColumns : List Column := [column "Id" true .int64, column "Owner" false .text]

/-- The source of this table alone. -/
def accounts : SchemaSource := fun _ => .ok accountColumns

/-- An account and the table it is kept in. -/
def account : EntityMap :=
  ⟨"Account", "Account",
    [⟨"Id", "Id", ⟨.int64, false⟩, none, false⟩, ⟨"Owner", "Owner", ⟨.text, false⟩, none, false⟩]⟩

/-- An operation on what is Ada's. -/
def onAda (op : Operation) : PlanRequest :=
  ⟨op, none, none, none, some (.single (.make ⟨"Owner", some .text⟩ .equal (.text "Ada"))), [], none⟩

/-- An account of Grace. -/
def grace : Row := [.int 1, .text "Grace"]

theorem accounts_distinct : accounts.Gives Column.Distinct := by
  intro table cs hcs
  obtain rfl := Except.ok.inj hcs
  simp only [Column.Distinct, accountColumns]
  decide

/-- Whether something is open or closed. -/
def state : Property :=
  ⟨"State", "state", ⟨.enumeration ⟨"State", [⟨"Open", 1⟩, ⟨"Closed", 2⟩]⟩, false⟩, none, false⟩

/-- The state of what is closed. -/
def closed : Value := .enumeration ⟨"Closed", 2⟩

/-- A handler that keeps texts backwards. -/
def backwards : Handler where
  toColumn v _ :=
    match v with
    | .text s => .ok (.text (String.ofList s.toList.reverse))
    | v => .ok v
  fromColumn v _ := .ok v

/-- A job with an owner and a state, and the table it is kept in. -/
def job : EntityMap := ⟨"Job", "Job", account.properties ++ [state]⟩

/-- The columns of a table of jobs. -/
def jobColumns : List Column := accountColumns ++ [column "State" false .int64]

/-- The source of this table alone. -/
def jobs : SchemaSource := fun _ => .ok jobColumns

/-- An engine that keeps states by their numbers and the owners of jobs backwards. -/
def keeper : Engine :=
  (Engine.make { Options.standard with repr := .number }).withHandlers
    (Handlers.empty.register "Job" "Owner" backwards)

/-- A closed job of Grace. -/
def gracesJob : Row := [.int 1, .text "Grace", closed]

theorem jobs_distinct : jobs.Gives Column.Distinct := by
  intro table cs hcs
  obtain rfl := Except.ok.inj hcs
  simp only [Column.Distinct, jobColumns, accountColumns]
  decide

end Sample

/-! ### Any engine -/

namespace Engine

variable {P : List Column → Prop} {e e' : Engine} {source : SchemaSource} {map : EntityMap}
variable {r : PlanRequest} {p : Plan} {rows : List Row} {g : Option Group} {cmd : Command}

/-- A plan was made for a request like the one it is given for. -/
theorem made_of_plan (he : Reachable P e) (hs : source.Gives P)
    (hp : e.plan source map r = (.ok p, e')) :
    ∃ r' cs fields, r'.hints = r.hints ∧ r'.operation = r.operation ∧
      r'.predicateShape = r.predicateShape ∧ P cs ∧
        Plan.Made e.options e.handlers map r' (Column.assignNames cs) fields p := by
  obtain ⟨map', r', columns, serial, hkey, ⟨cs, hcs, rfl⟩, hmade⟩ :=
    (plan_spec (inv_of_reachable he) hs hp).2 p rfl
  simp only [PlanRequest.key, PlanKey.mk.injEq] at hkey
  obtain ⟨rfl, -, hoperation, -, hhints, hshape⟩ := hkey
  obtain ⟨fields, hmade⟩ := Plan.make_spec hmade
  exact ⟨r', cs, fields, hhints, hoperation, hshape, hcs, hmade⟩

/-- A command comes from a plan that was made for a request like this one. -/
theorem command_spec (he : Reachable P e) (hs : source.Gives P)
    (hp : e.plan source map r = (.ok p, e')) (hc : p.command rows g = .ok cmd) :
    ∃ r' cs fields ps, r'.hints = r.hints ∧ r'.operation = r.operation ∧
      r'.predicateShape = r.predicateShape ∧ P cs ∧
        Plan.Made e.options e.handlers map r' (Column.assignNames cs) fields p ∧
          Plan.Commands p rows g ps cmd := by
  obtain ⟨r', cs, fields, hhints, hoperation, hshape, hcs, hmade⟩ := made_of_plan he hs hp
  obtain ⟨ps, hcommands⟩ := Plan.command_spec hc
  exact ⟨r', cs, fields, ps, hhints, hoperation, hshape, hcs, hmade, hcommands⟩

/-- **No placeholder is unbound and none is bound to the value of another.** Whatever an engine was used
for before, every placeholder in the text of a command is the name of exactly one parameter, the
parameter of a column of a row has what the row keeps in the column, and the parameters of a filter have
the values of its conditions, under the names that the text writes them with. -/
theorem placeholders_bound (he : Reachable Column.Distinct e) (hs : source.Gives Column.Distinct)
    (hh : r.hints = none) (hp : e.plan source map r = (.ok p, e'))
    (hc : p.command rows g = .ok cmd) :
    (∀ name ∈ placeholdersIn e.options.dialect cmd.text,
      cmd.parameters.countP (Command.isNamed name) = 1 ∧
        ((∃ c ∈ p.inputs, ∃ i < rows.length, c.parameterAt (p.rowNumber i) = name) ∨
          writesFilter r.operation = true ∧
            ∃ f, Plan.activeFilter g = some f ∧ name ∈ (f.parameterNames p.reserved).flatten)) ∧
    (∀ c ∈ p.inputs, ∀ i row, rows[i]? = some row →
      ∃ v, map.stored e.handlers e.options.repr row c = .ok v ∧
        cmd.value? (c.parameterAt (p.rowNumber i)) = some v) ∧
    ∀ f, Plan.activeFilter g = some f →
      List.Forall₂ (fun c names => names.map cmd.value? = c.boundValues.map some) f.conditions
        (f.parameterNames p.reserved) ∧
      (writesFilter r.operation = true →
        lex e.options.dialect (groupText e.options.dialect f p.reserved).toList <:+:
          lex e.options.dialect cmd.text.toList) := by
  obtain ⟨r', cs, fields, ps, hhints, hoperation, -, hd, hm, h⟩ := command_spec he hs hp hc
  rw [← hhints] at hh
  rw [← hoperation]
  refine ⟨fun name hname => ?_, fun c hc i row hrow => ?_, fun f hf => ?_⟩
  · have hstands := h.exists_of_mem_placeholders hm hh hd hname
    obtain ⟨q, hq, rfl⟩ := h.exists_parameter hm (hstands.imp_right And.right)
    exact ⟨h.countP_of_mem hm hq, hstands⟩
  · obtain ⟨q, hq, hname, hvalue⟩ := h.mem_of_column hm hc hrow
    rw [← hname]
    exact ⟨q.value, hvalue, h.value?_of_mem hm (List.mem_append_left _ hq)⟩
  · exact ⟨h.forall₂_value? hm hf, fun hwrites => h.groupText_infix hm hh hwrites hf⟩

/-- The update of Ada's jobs to a closed one of Grace: the handler stores the owner, the state is stored
by its number, and the name of the filter gives way to that of the column. -/
theorem placeholders_bound_update :
    ∃ p e' cmd, Sample.keeper.plan Sample.jobs Sample.job (Sample.onAda .update) = (.ok p, e') ∧
      p.command [Sample.gracesJob] (Sample.onAda .update).predicate = .ok cmd ∧
      placeholdersIn .sqlServer cmd.text = ["Owner", "State", "Owner_1"] ∧
      cmd.parameters.countP (Command.isNamed "Owner_1") = 1 ∧
      cmd.value? "Owner" = some (.text "ecarG") ∧ cmd.value? "State" = some (.int 2) ∧
      cmd.value? "Owner_1" = some (.text "Ada") := by
  obtain ⟨p, e', cmd, hp, hc, hnames, hvalues⟩ : ∃ p e' cmd,
      Sample.keeper.plan Sample.jobs Sample.job (Sample.onAda .update) = (.ok p, e') ∧
      p.command [Sample.gracesJob] (Sample.onAda .update).predicate = .ok cmd ∧
      placeholdersIn .sqlServer cmd.text = ["Owner", "State", "Owner_1"] ∧
      cmd.value? "Owner" = some (.text "ecarG") ∧ cmd.value? "State" = some (.int 2) ∧
      cmd.value? "Owner_1" = some (.text "Ada") :=
    ⟨_, _, _, rfl, rfl, rfl, rfl, rfl, rfl⟩
  have hbound := placeholders_bound (.withHandlers _ (.make _)) Sample.jobs_distinct rfl hp hc
  exact ⟨p, e', cmd, hp, hc, hnames, (hbound.1 "Owner_1" (hnames ▸ by simp)).1, hvalues⟩

/-- **A parameter dangles if and only if the operation does not write its filter.** Where the operation
writes the filter, or the filter compares nothing with a value, every parameter of a command is a
placeholder in its text, and the filter is part of the text. Otherwise, in tables whose columns are apart,
some parameter is none. -/
theorem parameters_written (he : Reachable P e) (hs : source.Gives P) (hh : r.hints = none)
    (hp : e.plan source map r = (.ok p, e')) (hc : p.command rows r.predicate = .ok cmd) :
    ((writesFilter r.operation = true ∨
        ∀ f, r.activePredicate = some f → ∀ c ∈ f.conditions, c.boundValues = []) →
      ∀ q ∈ cmd.parameters, q.name ∈ placeholdersIn e.options.dialect cmd.text) ∧
    (writesFilter r.operation = true → ∀ f, r.activePredicate = some f →
      lex e.options.dialect (groupText e.options.dialect f p.reserved).toList <:+:
        lex e.options.dialect cmd.text.toList) ∧
    ((∀ cs, P cs → Column.Distinct cs) →
      (∀ q ∈ cmd.parameters, q.name ∈ placeholdersIn e.options.dialect cmd.text) →
        writesFilter r.operation = true ∨
          ∀ f, r.activePredicate = some f → ∀ c ∈ f.conditions, c.boundValues = []) := by
  obtain ⟨r', cs, fields, ps, hhints, hoperation, -, hcs, hm, h⟩ := command_spec he hs hp hc
  have hnone : Plan.filterBound r.predicate p.reserved = [] ↔
      ∀ f, r.activePredicate = some f → ∀ c ∈ f.conditions, c.boundValues = [] :=
    Plan.Commands.filterBound_eq_nil_iff
  rw [← hhints] at hh
  rw [← hoperation, ← hnone]
  refine ⟨fun hwritten q hq => ?_, fun hwrites f hf => ?_, fun hdistinct hall => ?_⟩
  · exact h.mem_placeholders_of_mem hm hh hwritten hq
  · exact h.groupText_infix hm hh hwrites hf
  · refine Classical.or_iff_not_imp_left.mpr fun hwrites => ?_
    by_contra hbound
    obtain ⟨q, hq⟩ := List.exists_mem_of_ne_nil _ hbound
    obtain ⟨s, hs, hname⟩ :=
      Command.exists_of_value? (h.value?_of_mem hm (List.mem_append_right _ hq))
    exact h.notMem_placeholders hm hh (hdistinct cs hcs) hwrites hq hname (hall s hs)

/-- All parameters of the update of Ada's accounts are written, and some of emptying the table with
the same filter are not. -/
theorem parameters_written_update_truncate :
    (∃ p e' cmd, (make .standard).plan Sample.accounts Sample.account (Sample.onAda .update) =
        (.ok p, e') ∧
      p.command [Sample.grace] (Sample.onAda .update).predicate = .ok cmd ∧
      ∀ q ∈ cmd.parameters, q.name ∈ placeholdersIn .sqlServer cmd.text) ∧
    ∃ p e' cmd, (make .standard).plan Sample.accounts Sample.account (Sample.onAda .truncate) =
        (.ok p, e') ∧
      p.command [] (Sample.onAda .truncate).predicate = .ok cmd ∧
      ¬∀ q ∈ cmd.parameters, q.name ∈ placeholdersIn .sqlServer cmd.text := by
  constructor
  · obtain ⟨p, e', cmd, hp, hc⟩ : ∃ p e' cmd,
        (make .standard).plan Sample.accounts Sample.account (Sample.onAda .update) = (.ok p, e') ∧
        p.command [Sample.grace] (Sample.onAda .update).predicate = .ok cmd :=
      ⟨_, _, _, rfl, rfl⟩
    have h := parameters_written (.make .standard) Sample.accounts_distinct rfl hp hc
    exact ⟨p, e', cmd, hp, hc, h.1 (.inl rfl)⟩
  · obtain ⟨p, e', cmd, hp, hc⟩ : ∃ p e' cmd,
        (make .standard).plan Sample.accounts Sample.account (Sample.onAda .truncate) =
          (.ok p, e') ∧
        p.command [] (Sample.onAda .truncate).predicate = .ok cmd :=
      ⟨_, _, _, rfl, rfl⟩
    have h := parameters_written (.make .standard) Sample.accounts_distinct rfl hp hc
    refine ⟨p, e', cmd, hp, hc, fun hall => ?_⟩
    rcases h.2.2 (fun _ hcs => hcs) hall with hwrites | hunbound
    · cases hwrites
    · have hvalues := hunbound _ rfl _ List.mem_cons_self
      cases hvalues

end Engine

end EntitySql
