import EntitySql.Proofs.Sql.WhereClause
import EntitySql.Sql.Statement

/-!
# The placeholders of a statement

`Statement.parameters` lists the parameters that a statement names, part by part: the values it writes
and its condition. **`placeholders_statementList`** says that these are the placeholders among the
fragments of the statements, in their order, and `Statement.filter?_infix` that the condition of a
statement stands in it as a whole.
-/

namespace EntitySql.Sql

/-! ### Parameters -/

/-- The parameters of a value. -/
def Operand.parameters : Operand → List String
  | .placeholder p => [p]
  | .placeholderOrNull p => [p]
  | _ => []

/-- The parameters of what is assigned. -/
def assignedParameters (set : List Assignment) : List String :=
  set.flatMap fun x => x.value.parameters

/-- The parameters of rows of values. -/
def rowParameters (rows : List (List Operand)) : List String :=
  rows.flatMap fun row => row.flatMap Operand.parameters

/-- The parameters of a condition. -/
def filterParameters (c : Option SearchCondition) : List String :=
  c.toList.flatMap fun c => Fragments.placeholders (c.fragments true)

/-- The parameters of an insertion besides its rows. -/
def Conflict.parameters : Conflict → List String
  | .onKey _ set => assignedParameters set
  | .onDuplicate set => assignedParameters set
  | _ => []

/-- The parameters of the source of a merge. -/
def MergeSource.parameters : MergeSource → List String
  | .row columns => assignedParameters columns
  | .rows _ values => rowParameters values

/-- The parameters of a statement, in the order of its placeholders. -/
def Statement.parameters : Statement → List String
  | .select s => filterParameters s.filter
  | .page p => filterParameters p.filter
  | .insert i => rowParameters i.rows ++ i.conflict.parameters
  | .merge m => m.source.parameters
  | .updateOrInsert u =>
    assignedParameters u.set ++ filterParameters (some u.filter) ++
      if u.columns.isEmpty then [] else u.values.flatMap Operand.parameters
  | .update _ set filter => assignedParameters set ++ filterParameters (some filter)
  | .delete _ filter => filterParameters filter
  | .truncate _ _ => []
  | .selectKey value _ => value.parameters

/-! ### Placeholders -/

@[simp] theorem placeholders_operand (v : Operand) : v.fragments.placeholders = v.parameters := by
  cases v <;> simp [Operand.fragments, Operand.parameters]

@[simp] theorem placeholders_table (t : TableRef) : t.fragments.placeholders = [] := by
  unfold TableRef.fragments dottedName
  cases t.hints <;> simp

@[simp] theorem placeholders_columnList (names : List String) :
    (columnList names).placeholders = [] := by
  simp [columnList, placeholders_commaList]

@[simp] theorem placeholders_operandList (values : List Operand) :
    (operandList values).placeholders = values.flatMap Operand.parameters := by
  simp [operandList, placeholders_commaList]

@[simp] theorem placeholders_rows (rows : List (List Operand)) :
    (commaList rowFragments rows).placeholders = rowParameters rows := by
  simp [placeholders_commaList, rowFragments, rowParameters]

@[simp] theorem placeholders_assignmentList (set : List Assignment) :
    (assignmentList set).placeholders = assignedParameters set := by
  simp [assignmentList, placeholders_commaList, assignedParameters]

@[simp] theorem placeholders_items (items : List SelectItem) :
    (commaList SelectItem.fragments items).placeholders = [] := by
  rw [placeholders_commaList, List.flatMap_eq_nil_iff]
  intro i _
  cases i <;> simp [SelectItem.fragments]

@[simp] theorem placeholders_orderList (order : List OrderField) :
    (orderList order).placeholders = [] := by
  rw [orderList, placeholders_commaList, List.flatMap_eq_nil_iff]
  intro o _
  simp [orderFragments, dottedName]

@[simp] theorem placeholders_orderClause (order : List OrderField) :
    (orderClause order).placeholders = [] := by
  unfold orderClause
  split <;> simp

@[simp] theorem placeholders_whereClause (c : Option SearchCondition) :
    (whereClause c).placeholders = filterParameters c := by
  cases c <;> simp [whereClause, filterParameters]

@[simp] theorem placeholders_limit (l : RowLimit) : l.fragments.placeholders = [] := by
  cases l <;> rfl

@[simp] theorem placeholders_rowNumber (row : Option Nat) : (rowNumber row).placeholders = [] := by
  cases row <;> rfl

@[simp] theorem placeholders_outputClause (batch : Bool) (key : Option String) :
    (outputClause batch key).placeholders = [] := by
  cases key <;> cases batch <;> rfl

@[simp] theorem placeholders_returningClause (key : Option ReturnedKey) :
    (returningClause key).placeholders = [] := by
  cases key <;> simp [returningClause]

@[simp] theorem placeholders_conflict (c : Conflict) : c.clause.placeholders = c.parameters := by
  cases c with
  | fail | replace => rfl
  | onDuplicate set => simp [Conflict.clause, Conflict.parameters]
  | onKey keys set =>
    cases set with
    | nil => simp [Conflict.clause, Conflict.parameters, assignedParameters]
    | cons x set => simp [Conflict.clause, Conflict.parameters]

@[simp] theorem placeholders_source (s : MergeSource) : s.fragments.placeholders = s.parameters := by
  cases s with
  | row columns =>
    simp [MergeSource.fragments, MergeSource.parameters, placeholders_commaList,
      assignedParameters]
  | rows columns values => simp [MergeSource.fragments, MergeSource.parameters]

@[simp] theorem placeholders_matchFragments (columns : Option (List String)) :
    (matchFragments columns).placeholders = [] := by
  cases columns with
  | none => rfl
  | some columns => simp [matchFragments, placeholders_separated]

@[simp] theorem placeholders_mergeInsert (columns : List String) :
    (mergeInsert columns).placeholders = [] := by
  unfold mergeInsert
  split <;> simp [Operand.parameters]

@[simp] theorem placeholders_mergeUpdate (columns : List String) :
    (mergeUpdate columns).placeholders = [] := by
  unfold mergeUpdate
  split <;> simp [placeholders_commaList]

@[simp] theorem placeholders_matched (u : UpdateOrInsert) :
    u.matched.placeholders = assignedParameters u.set ++ filterParameters (some u.filter) := by
  unfold UpdateOrInsert.matched
  cases u.set <;> simp [assignedParameters]

@[simp] theorem placeholders_inserted (u : UpdateOrInsert) :
    u.inserted.placeholders =
      if u.columns.isEmpty then [] else u.values.flatMap Operand.parameters := by
  unfold UpdateOrInsert.inserted
  split <;> simp

theorem Statement.placeholders_body (s : Statement) : s.body.placeholders = s.parameters := by
  cases s with
  | select s =>
    simp only [Statement.body, Select.fragments, Statement.parameters]
    cases s.top <;> simp
  | page p => simp [Statement.body, NumberedPage.fragments, Statement.parameters]
  | insert i => simp [Statement.body, Insert.fragments, Statement.parameters]
  | merge m => simp [Statement.body, Merge.fragments, Statement.parameters]
  | updateOrInsert u =>
    simp only [Statement.body, UpdateOrInsert.fragments, Statement.parameters]
    split <;> simp
  | update table set filter => simp [Statement.body, Statement.parameters]
  | delete table filter => simp [Statement.body, Statement.parameters]
  | truncate table restart => cases restart <;> simp [Statement.body, Statement.parameters]
  | selectKey value row => simp [Statement.body, Statement.parameters]

/-- The parameters of statements. -/
def statementParameters (ss : List Statement) : List String := ss.flatMap Statement.parameters

theorem placeholders_statementList (ss : List Statement) :
    (statementList ss).placeholders = statementParameters ss := by
  rw [statementList, placeholders_separated, List.map_map, statementParameters, List.flatMap]
  congr 1
  refine List.map_congr_left fun s _ => ?_
  simp [Statement.fragments, Statement.placeholders_body]

/-! ### The condition of a statement -/

/-- The condition after `WHERE`, for a statement that filters rows. -/
def Statement.filter? : Statement → Option SearchCondition
  | .select s => s.filter
  | .page p => p.filter
  | .update _ _ filter => some filter
  | .delete _ filter => filter
  | _ => none

theorem infix_whereClause (c : SearchCondition) : c.fragments true <:+: whereClause (some c) :=
  (List.suffix_cons _ _).isInfix

/-- The condition of a statement stands in it as a whole. -/
theorem Statement.filter?_infix {s : Statement} {c : SearchCondition} (h : s.filter? = some c) :
    c.fragments true <:+: s.body := by
  cases s with
  | select s =>
    change s.filter = some c at h
    simp only [body, Select.fragments, h]
    exact List.infix_append_of_infix_left (List.infix_append_of_infix_left
      (List.infix_append_of_infix_right (infix_whereClause c)))
  | page p =>
    change p.filter = some c at h
    simp only [body, NumberedPage.fragments, h]
    exact List.infix_append_of_infix_left (List.infix_append_of_infix_left
      (List.infix_append_of_infix_right (infix_whereClause c)))
  | update table set filter =>
    cases h
    exact List.infix_append_of_infix_right (infix_whereClause c)
  | delete table filter =>
    cases h
    exact List.infix_append_of_infix_right (infix_whereClause c)
  | _ => cases h

theorem infix_separated (separator : String) {fs : Fragments} {fss : List Fragments}
    (h : fs ∈ fss) : fs <:+: separated separator fss := by
  induction fss with
  | nil => cases h
  | cons gs rest ih =>
    cases rest with
    | nil =>
      rw [List.mem_singleton.mp h]
      exact List.infix_rfl
    | cons hs rest =>
      rcases List.mem_cons.mp h with rfl | h
      · exact List.infix_append_left
      · exact List.infix_append_of_infix_right ((ih h).trans (List.suffix_cons _ _).isInfix)

theorem infix_statementList {ss : List Statement} {s : Statement} (hs : s ∈ ss)
    {c : SearchCondition} (h : s.filter? = some c) : c.fragments true <:+: statementList ss :=
  ((Statement.filter?_infix h).trans List.infix_append_left).trans
    (infix_separated " " (List.mem_map_of_mem hs))

end EntitySql.Sql
