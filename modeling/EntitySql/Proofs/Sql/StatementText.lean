import EntitySql.Proofs.Schema.ColumnNames
import EntitySql.Proofs.Sql.Operation
import EntitySql.Proofs.Sql.Tidy

/-!
# The placeholders of the text of an operation

Where the parameter names of the columns need no quotes, the placeholders that can be read in the text
of an operation are the names that are bound for it, but for a filter that the operation does not write
and a key that is asked for under a name of its own (**`placeholders_statementText`**). A filter that is
written is read there as it is read on its own (**`groupText_infix_statementText`**).
-/

namespace EntitySql

/-- The parameter names of the columns of a request are made of letters, numerals and underscores. -/
def Request.Plain (r : Request) : Prop :=
  ∀ c ∈ r.fields ++ r.tableColumns, ∀ ch ∈ c.parameterName.toList, isNameChar ch = true

/-- A request for columns of a table that is not known otherwise is plain. -/
theorem Request.plain_make (table : String) (columns : List Column) :
    (Request.make table columns).Plain := by
  intro c hc
  exact (Column.assignNames_spec columns).2.2 c (by simpa [Request.make] using hc)

/-- A plain request that is given the columns of its table is plain. -/
theorem Request.plain_withSchema {r : Request} (h : r.Plain) (columns : List Column) :
    (r.withSchema columns).Plain := by
  have hschema := (Column.assignNames_spec columns).2.2
  intro c hc
  rcases List.mem_append.mp hc with hc | hc
  · obtain ⟨f, hf, rfl⟩ := List.mem_map.mp hc
    split
    · next s hs =>
      have hplain := hschema s (List.mem_of_find?_eq_some hs)
      cases hparameter : s.parameter with
      | none => exact fun _ => isNameChar_of_mem_parameterName
      | some p => simpa [Column.parameterName, hparameter] using hplain
    · exact h f (List.mem_append_left _ hf)
  · exact hschema c hc

theorem KeyPolicy.mem_of_resolve {policy : KeyPolicy} {cs : List Column} {key : Column}
    (h : policy.resolve cs = some key) : key ∈ cs := by
  have horElse : ∀ {p q : Column → Bool},
      ((cs.find? p).orElse fun _ => cs.find? q) = some key → key ∈ cs := by
    intro p q h
    cases hp : cs.find? p with
    | some c =>
      rw [hp] at h
      cases h
      exact List.mem_of_find?_eq_some hp
    | none =>
      rw [hp] at h
      exact List.mem_of_find?_eq_some h
  cases policy with
  | primary => exact List.mem_of_find?_eq_some h
  | identity => exact List.mem_of_find?_eq_some h
  | primaryOrElseIdentity => exact horElse h
  | identityOrElsePrimary => exact horElse h

namespace Request

theorem mem_schema_of_key {r : Request} {key : Column} (h : r.key = some key) : key ∈ r.schema :=
  KeyPolicy.mem_of_resolve h

theorem mem_columns_of_mem_schema {r : Request} {c : Column} (h : c ∈ r.schema) :
    c ∈ r.fields ++ r.tableColumns := by
  unfold schema at h
  split at h
  · exact List.mem_append_left _ h
  · exact List.mem_append_right _ h

end Request

namespace Sql

/-- The names that are bound and written for an operation: those of the rows and of the filter. -/
def writtenNames (op : Operation) (r : Request) (inputs : List Column) : List String :=
  boundNames inputs (operationRows op) ++ filterParameters (writtenFilter op r inputs)

theorem writtenFilter_eq_some {op : Operation} {r : Request} {inputs : List Column}
    {c : SearchCondition} (h : writtenFilter op r inputs = some c) :
    writesFilter op = true ∧
      ∃ g, r.activePredicate = some g ∧ c = .ofGroup g (inputs.map Column.parameterName) := by
  unfold writtenFilter at h
  split at h
  · next hwrites =>
    rw [activeCondition_eq] at h
    obtain ⟨g, hg, rfl⟩ := Option.map_eq_some_iff.mp h
    exact ⟨hwrites, g, hg, rfl⟩
  · cases h

/-- The names of a filter that is written are those of its conditions. -/
theorem filterParameters_writtenFilter {op : Operation} {r : Request} {inputs : List Column}
    {name : String} : name ∈ filterParameters (writtenFilter op r inputs) ↔
      writesFilter op = true ∧ ∃ g, r.activePredicate = some g ∧
        name ∈ (g.parameterNames (inputs.map Column.parameterName)).flatten := by
  constructor
  · intro h
    cases hc : writtenFilter op r inputs with
    | none =>
      rw [hc] at h
      cases h
    | some c =>
      obtain ⟨hwrites, g, hg, rfl⟩ := writtenFilter_eq_some hc
      rw [hc, filterParameters_ofGroup] at h
      exact ⟨hwrites, g, hg, h⟩
  · rintro ⟨hwrites, g, hg, h⟩
    rw [writtenFilter, if_pos hwrites, activeCondition_eq, hg, Option.map_some,
      filterParameters_ofGroup]
    exact h

theorem isNameChar_of_mem_writtenNames {op : Operation} {r : Request} {inputs : List Column}
    (hplain : r.Plain) (hinputs : ∀ c ∈ inputs, c ∈ r.fields) {name : String}
    (h : name ∈ writtenNames op r inputs) : ∀ ch ∈ name.toList, isNameChar ch = true := by
  rcases List.mem_append.mp h with h | h
  · obtain ⟨row, -, c, hc, rfl⟩ := mem_boundNames.mp h
    exact Column.isNameChar_of_mem_parameterAt
      (hplain c (List.mem_append_left _ (hinputs c hc))) row
  · obtain ⟨-, g, -, h⟩ := filterParameters_writtenFilter.mp h
    exact isNameChar_of_mem_conditionNames h

theorem isNameChar_of_mem_keyNames {r : Request} {inputs : List Column} {rows : List (Option Nat)}
    (hplain : r.Plain) {name : String} (h : name ∈ keyNames r inputs rows) :
    ∀ ch ∈ name.toList, isNameChar ch = true := by
  unfold keyNames at h
  split at h
  · next key hkey =>
    split at h
    · obtain ⟨row, -, rfl⟩ := List.mem_map.mp h
      exact Column.isNameChar_of_mem_parameterAt
        (hplain key (Request.mem_columns_of_mem_schema (Request.mem_schema_of_key hkey))) row
    · cases h
  · cases h

theorem Renders.legible {op : Operation} {r : Request} (hplain : r.Plain) {inputs : List Column}
    (hinputs : ∀ c ∈ inputs, c ∈ r.fields) {ss : List Statement}
    (h : Renders r inputs (operationRows op) (writtenFilter op r inputs) ss) :
    Fragments.Legible (statementList ss) := by
  intro name hname
  rw [placeholders_statementList] at hname
  rcases h.sound name hname with hname | hname
  · exact isNameChar_of_mem_writtenNames hplain hinputs hname
  · exact isNameChar_of_mem_keyNames hplain hname

/-- The parameters that the statements of an operation name need no quotes. -/
theorem legible_statementList {op : Operation} {r : Request} (hplain : r.Plain)
    {inputs : List Column} (hi : r.boundColumns op = .ok inputs) {ss : List Statement}
    (h : Renders r inputs (operationRows op) (writtenFilter op r inputs) ss) :
    Fragments.Legible (statementList ss) :=
  h.legible hplain (Request.mem_fields_of_boundColumns hi)

/-- The statements of every operation are spaced and their parameters need no quotes. -/
theorem spaced_statements {d : Dialect} {op : Operation} {r : Request} (hh : r.hints = none)
    (hplain : r.Plain) {ss : List Statement} (h : statements d op r = .ok ss) :
    Spaced .loose (statementList ss) .tight ∧ Fragments.Legible (statementList ss) := by
  obtain ⟨inputs, hinputs, hrenders⟩ := exists_renders hh h
  exact ⟨spaced_statementList hrenders.clean, hrenders.legible hplain hinputs⟩

/-- The text of an operation is read as the tokens of the fragments of statements that write what is
bound. -/
theorem lex_statementText {d : Dialect} {op : Operation} {r : Request} (hh : r.hints = none)
    (hf : r.FieldsApart) (hplain : r.Plain) {text : String} (h : statementText d op r = .ok text)
    {inputs : List Column} (hi : r.boundColumns op = .ok inputs) :
    ∃ ss, Renders r inputs (operationRows op) (writtenFilter op r inputs) ss ∧
      lex d text.toList = (statementList ss).flatMap (Fragment.tokens d) ∧
        placeholdersIn d text = statementParameters ss := by
  obtain ⟨ss, hss, rfl⟩ := map_eq_ok_iff.mp h
  have hrenders := statements_renders hh (fun _ => hf) hss hi
  have hspaced := spaced_statementList hrenders.clean
  have hlegible := legible_statementList hplain hi hrenders
  refine ⟨ss, hrenders, ?_, ?_⟩
  · rw [String.toList_ofList, rawText, lex_tidyChars hspaced hlegible, lex_render hspaced hlegible]
  · rw [rawText, placeholders_tidyChars hspaced hlegible, placeholders_statementList]

/-- **The placeholders in the text of an operation are the names that are bound for it**, but for a
filter that is not written and a key that is asked for under a name of its own. -/
theorem placeholders_statementText {d : Dialect} {op : Operation} {r : Request}
    (hh : r.hints = none) (hf : r.FieldsApart) (hplain : r.Plain) {text : String}
    (h : statementText d op r = .ok text) {inputs : List Column}
    (hi : r.boundColumns op = .ok inputs) :
    (∀ name ∈ placeholdersIn d text,
      name ∈ writtenNames op r inputs ∨ name ∈ keyNames r inputs (operationRows op)) ∧
    ∀ name ∈ writtenNames op r inputs, name ∈ placeholdersIn d text := by
  obtain ⟨ss, hrenders, -, hnames⟩ := lex_statementText hh hf hplain h hi
  rw [hnames]
  exact ⟨hrenders.sound, hrenders.complete⟩

/-- **A filter that is written is read in the text of the operation as it is read on its own.** -/
theorem groupText_infix_statementText {d : Dialect} {op : Operation} {r : Request}
    (hh : r.hints = none) (hf : r.FieldsApart) (hplain : r.Plain) {text : String}
    (h : statementText d op r = .ok text) {inputs : List Column}
    (hi : r.boundColumns op = .ok inputs) (hw : writesFilter op = true) {g : Group}
    (hg : r.activePredicate = some g) :
    lex d (groupText d g (inputs.map Column.parameterName)).toList <:+: lex d text.toList := by
  obtain ⟨ss, hrenders, hlex, -⟩ := lex_statementText hh hf hplain h hi
  have hfilter : writtenFilter op r inputs =
      some (.ofGroup g (inputs.map Column.parameterName)) := by
    rw [writtenFilter, if_pos hw, activeCondition_eq, hg, Option.map_some]
  obtain ⟨s, hs, hcondition⟩ := hrenders.filtered _ hfilter
  obtain ⟨before, after, heq⟩ := infix_statementList hs hcondition
  rw [hlex, ← heq, groupText, String.toList_ofList,
    lex_render (SearchCondition.spaced true _) (legible_ofGroup g _ true)]
  exact ⟨before.flatMap (Fragment.tokens d), after.flatMap (Fragment.tokens d), by simp⟩

end Sql

end EntitySql
