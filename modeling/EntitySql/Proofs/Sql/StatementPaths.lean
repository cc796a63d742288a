import EntitySql.Proofs.Sql.NamePaths
import EntitySql.Sql.Build

/-!
# Where a statement names its columns

`Statement.paths` lists the paths of a statement in the order in which they are written. Its columns
are paths of one part wherever they are listed, set, matched or given back; the table, the columns of
an order and those of a filter are in parts. **`Statement.refers`** says that the statement is made of
these paths, text and placeholders, for every statement that can be put together, and whatever hints
its table has.
-/

namespace EntitySql.Sql

/-! ### The paths of the parts -/

/-- Columns that are quoted as a whole. -/
def wholePaths (names : List String) : List (List String) := names.map fun n => [n]

mutual
/-- The columns that a condition tests. Nothing is in an empty list, so no column is tested then. -/
def SearchCondition.paths : SearchCondition → List (List String)
  | .nullTest column _ => [column]
  | .compare column _ _ _ => [column]
  | .membership column _ parameters => if parameters.isEmpty then [] else [column]
  | .group _ _ items => SearchCondition.pathsOf items

/-- The columns that the conditions of a list test. -/
def SearchCondition.pathsOf : List SearchCondition → List (List String)
  | [] => []
  | c :: rest => SearchCondition.paths c ++ SearchCondition.pathsOf rest
end

/-- The columns that an optional condition tests. -/
def filterPaths (filter : Option SearchCondition) : List (List String) :=
  filter.elim [] SearchCondition.paths

/-- The columns of an order. -/
def orderPaths (order : List OrderField) : List (List String) := order.map fun o => nameParts o.name

/-- The column in a value. -/
def Operand.paths : Operand → List (List String)
  | .placeholder _ | .placeholderOrNull _ | .number _ | .function _ => []
  | .column c | .source c | .excluded c | .proposed c | .remembered c => [[c]]

/-- The column that is given a value, and the column in the value. -/
def Assignment.paths (a : Assignment) : List (List String) := [a.column] :: a.value.paths

/-- The column of a result, and the name that the result has. -/
def SelectItem.paths : SelectItem → List (List String)
  | .column c => [[c]]
  | .one resultName => [[resultName]]
  | .count _ resultName => [[resultName]]
  | .aggregate _ path resultName => [path, [resultName]]

/-- The name of the number of a row. -/
def rowNumberPaths : Option Nat → List (List String)
  | some _ => [[orderColumn]]
  | none => []

/-- The key given back by the clause in front of the values, and the names of the results. -/
def outputPaths (batch : Bool) : Option String → List (List String)
  | some key =>
    [[key], [resultColumn]] ++ if batch then [[sourceOrderColumn], [orderColumn]] else []
  | none => []

/-- The key given back by the clause at the end, and the names of the results. -/
def returningPaths : Option ReturnedKey → List (List String)
  | some key => [[key.column], [resultColumn]] ++ rowNumberPaths key.row
  | none => []

/-- The columns in the clause for a row that is there already. -/
def Conflict.paths : Conflict → List (List String)
  | .fail | .replace => []
  | .onKey keys set => wholePaths keys ++ set.flatMap Assignment.paths
  | .onDuplicate set => set.flatMap Assignment.paths

/-- The columns in the source of a merge. -/
def MergeSource.paths : MergeSource → List (List String)
  | .row columns => columns.flatMap fun a => a.value.paths ++ [[a.column]]
  | .rows columns values =>
    values.flatMap (fun row => row.flatMap Operand.paths) ++ wholePaths columns

/-- Columns that are named on the side of the source and on that of the table. -/
def bothSides (columns : List String) : List (List String) := columns.flatMap fun c => [[c], [c]]

/-! ### The paths of the statements -/

/-- The paths of a query. -/
def Select.paths (s : Select) : List (List String) :=
  s.items.flatMap SelectItem.paths ++ nameParts s.table.name ::
    (filterPaths s.filter ++ orderPaths s.order)

/-- The paths of a query for numbered rows. -/
def NumberedPage.paths (p : NumberedPage) : List (List String) :=
  orderPaths p.order ++ [rowNumberColumn] :: (wholePaths p.columns ++ nameParts p.table.name ::
    (filterPaths p.filter ++ (wholePaths p.columns ++ [[rowNumberColumn], [rowNumberColumn]])))

/-- The paths of an insertion. -/
def Insert.paths (i : Insert) : List (List String) :=
  nameParts i.table.name :: (wholePaths i.columns ++ (outputPaths false i.output ++
    (i.rows.flatMap (fun row => row.flatMap Operand.paths) ++
      (i.conflict.paths ++ returningPaths i.returning))))

/-- The paths of a merge. -/
def Merge.paths (m : Merge) : List (List String) :=
  nameParts m.table.name :: (m.source.paths ++ (bothSides (m.matchOn.getD []) ++
    (wholePaths m.columns ++ wholePaths m.columns ++
      (bothSides m.set ++ outputPaths m.batch m.output))))

/-- The paths of the first step of an update or insertion. -/
def UpdateOrInsert.matchedPaths (u : UpdateOrInsert) : List (List String) :=
  if u.set.isEmpty then [u.returned] :: nameParts u.table.name :: u.filter.paths
  else nameParts u.table.name ::
    (u.set.flatMap Assignment.paths ++ (u.filter.paths ++ [[u.returned]]))

/-- The paths of the second step of an update or insertion. -/
def UpdateOrInsert.insertedPaths (u : UpdateOrInsert) : List (List String) :=
  nameParts u.table.name ::
    if u.columns.isEmpty then [] else wholePaths u.columns ++ u.values.flatMap Operand.paths

/-- The paths of the result of an update or insertion. -/
def UpdateOrInsert.resultPaths (u : UpdateOrInsert) : List (List String) :=
  [u.returned] :: [resultColumn] :: rowNumberPaths u.row

/-- The paths of an update or insertion. -/
def UpdateOrInsert.paths (u : UpdateOrInsert) : List (List String) :=
  u.matchedPaths ++ (u.insertedPaths ++
    if u.key then [u.returned] :: (u.resultPaths ++ u.resultPaths) else [])

/-- The paths of a statement in the order in which they are written. -/
def Statement.paths : Statement → List (List String)
  | .select s => s.paths
  | .page p => p.paths
  | .insert i => i.paths
  | .merge m => m.paths
  | .updateOrInsert u => u.paths
  | .update table set filter =>
    nameParts table.name :: (set.flatMap Assignment.paths ++ filter.paths)
  | .delete table filter => nameParts table.name :: filterPaths filter
  | .truncate table _ => [nameParts table.name]
  | .selectKey value row => value.paths ++ [resultColumn] :: rowNumberPaths row

/-! ### Text of the builder -/

/-- Text that has a character which is no blank goes on as it likes. -/
theorem followsName_append {s : String} (hs : followsName s = true)
    (hne : s.toList.any (fun c => !Text.isBlank c) = true) (t : String) :
    followsName (s ++ t) = true := by
  unfold followsName at hs ⊢
  rw [String.toList_append]
  generalize s.toList = cs at hs hne
  induction cs with
  | nil => cases hne
  | cons c cs ih =>
    by_cases hc : Text.isBlank c = true
    · rw [List.dropWhile_cons_of_pos hc] at hs
      rw [List.cons_append, List.dropWhile_cons_of_pos hc]
      simp only [List.any_cons, hc, Bool.not_true, Bool.false_or] at hne
      exact ih hs hne
    · rw [List.dropWhile_cons_of_neg hc] at hs
      rw [List.cons_append, List.dropWhile_cons_of_neg hc]
      exact hs

theorem followsName_number (n : Nat) : followsName (toString n) = true := by
  have hpoint : '.' ∉ (toString n).toList := by
    intro h
    rw [Nat.toString_eq_repr, Nat.toList_repr] at h
    exact absurd (isDigit_of_mem_digits h) (by decide)
  unfold followsName
  rw [decide_eq_true_eq]
  intro h
  exact hpoint ((List.dropWhile_suffix _).subset (List.mem_of_mem_head? h))

variable {fs gs : Fragments} {paths others : List (List String)}

/-- A name that is quoted as a whole, at the end. -/
theorem Refers.one (n : String) : Refers [.name n] [[n]] := .name .nil

/-- Text around fragments. -/
theorem Refers.enclosed {opening closing : String} (hopening : followsName opening = true)
    (hclosing : followsName closing = true) (h : Refers fs paths) :
    Refers (.text opening :: fs ++ [.text closing]) paths := by
  have h := Refers.append (.text hopening h) (.last hclosing)
  rwa [List.append_nil] at h

/-- A list of names that are quoted as a whole. -/
theorem refers_columnList (names : List String) : Refers (columnList names) (wholePaths names) := by
  have h : Refers (columnList names) (names.flatMap fun n => [[n]]) :=
    .commaList fun n _ => .one n
  rwa [← List.map_eq_flatMap] at h

/-! ### Conditions -/

theorem refers_lowered (h : Refers fs paths) : Refers (lowered fs) paths :=
  h.enclosed (by decide) (by decide)

theorem refers_comparison (operator : Operator) (caseSensitive : Bool) (h : Refers fs paths)
    (h' : Refers gs others) : Refers (comparison operator caseSensitive fs gs) (paths ++ others) := by
  have hsign : followsName (" " ++ operator.symbol ++ " ") = true := by cases operator <;> decide
  unfold comparison
  split
  · exact h.append (.text hsign h')
  · exact (refers_lowered h).append (.text hsign (refers_lowered h'))

theorem refers_membershipTest {column : List String} (hcolumn : column ≠ []) (operator : Operator)
    (parameters : List String) :
    Refers (membershipTest column operator parameters)
      (if parameters.isEmpty then [] else [column]) := by
  unfold membershipTest
  split
  · exact .last (by split <;> decide)
  · have hopen : followsName (" " ++ operator.symbol ++ " (") = true := by
      cases operator <;> decide
    have hlist : Refers (commaList (fun p => [.placeholder p]) parameters) [] := by
      have h : Refers (commaList (fun p => [.placeholder p]) parameters)
          (parameters.flatMap fun _ => []) := .commaList fun p _ => .placeholder .nil
      rwa [List.flatMap_eq_nil_iff.mpr fun _ _ => rfl] at h
    have hclose : followsName ")" = true := by decide
    have htest := (Refers.only hcolumn).append (hlist.enclosed hopen hclose)
    simpa using htest

theorem refers_joined (conjunction : Conjunction) {items : List Fragments}
    {paths : List (List (List String))} (h : List.Forall₂ Refers items paths) :
    Refers (joined conjunction items) paths.flatten := by
  have hword : followsName (" " ++ conjunction.keyword ++ " ") = true := by
    cases conjunction <;> decide
  unfold joined
  split
  · next hempty =>
    obtain rfl := List.isEmpty_iff.mp hempty
    cases h
    exact .last (by cases conjunction <;> decide)
  · clear * - h hword
    induction h with
    | nil => exact .nil
    | @cons fs ps items paths hfs hrest ih =>
      cases hrest with
      | nil => simpa [separated] using hfs
      | cons => exact hfs.append (.text hword ih)

theorem refers_bracketed (outermost negated : Bool) {body : Fragments}
    {paths : List (List String)} (h : Refers body paths) :
    Refers (bracketed outermost negated body) paths := by
  unfold bracketed
  split
  · exact h.enclosed (by decide) (by decide)
  · split
    · exact h
    · exact h.enclosed (by decide) (by decide)

theorem flatten_map_paths (cs : List SearchCondition) :
    (cs.map SearchCondition.paths).flatten = SearchCondition.pathsOf cs := by
  induction cs with
  | nil => rfl
  | cons c rest ih => rw [List.map_cons, List.flatten_cons, ih, SearchCondition.pathsOf]

mutual
/-- A condition names the columns that it tests. -/
theorem SearchCondition.refers (outermost : Bool) :
    ∀ c : SearchCondition, c.Proper → Refers (c.fragments outermost) c.paths
  | .nullTest column operator, ⟨hcolumn, _⟩ => by
    have hsymbol : followsName (" " ++ operator.symbol) = true := by cases operator <;> decide
    exact (Refers.only hcolumn).append (.last hsymbol)
  | .compare column operator caseSensitive p, ⟨hcolumn, _⟩ =>
    refers_comparison operator caseSensitive (.only hcolumn) (.placeholder (p := p) .nil)
  | .membership column operator parameters, ⟨hcolumn, _⟩ =>
    refers_membershipTest hcolumn operator parameters
  | .group conjunction negated items, h => by
    have hitems := refers_joined conjunction (SearchCondition.refers_fragmentsOf items h)
    rw [flatten_map_paths] at hitems
    exact refers_bracketed outermost negated hitems

theorem SearchCondition.refers_fragmentsOf :
    ∀ cs : List SearchCondition, AllProper cs →
      List.Forall₂ Refers (fragmentsOf cs) (cs.map SearchCondition.paths)
  | [], _ => .nil
  | c :: rest, h =>
    .cons (SearchCondition.refers false c h.1) (SearchCondition.refers_fragmentsOf rest h.2)
end

theorem refers_whereClause {filter : Option SearchCondition}
    (h : ∀ c, filter = some c → c.Proper) : Refers (whereClause filter) (filterPaths filter) := by
  cases filter with
  | none => exact .nil
  | some c => exact .text (by decide) (c.refers true (h c rfl))

/-! ### Parts -/

/-- The call of a function may follow a name. -/
def Operand.Regular : Operand → Prop
  | .function call => followsName call = true
  | _ => True

/-- The call of a function may follow a name, and a column that it is applied to has a part. -/
def SelectItem.Regular : SelectItem → Prop
  | .count function _ => followsName (function ++ " (1) AS ") = true
  | .aggregate function path _ => followsName (function ++ " (") = true ∧ path ≠ []
  | _ => True

/-- The values of the source are regular. -/
def MergeSource.Regular : MergeSource → Prop
  | .row columns => ∀ a ∈ columns, a.value.Regular
  | .rows _ values => ∀ row ∈ values, ∀ v ∈ row, v.Regular

/-- What is assigned is regular. -/
def Conflict.Regular : Conflict → Prop
  | .onKey _ set => ∀ a ∈ set, a.value.Regular
  | .onDuplicate set => ∀ a ∈ set, a.value.Regular
  | _ => True

/-- The tests of the statement have columns, and its values and results are regular. -/
def Statement.Regular : Statement → Prop
  | .select s => (∀ i ∈ s.items, i.Regular) ∧ ∀ c, s.filter = some c → c.Proper
  | .page p => ∀ c, p.filter = some c → c.Proper
  | .insert i => (∀ row ∈ i.rows, ∀ v ∈ row, v.Regular) ∧ i.conflict.Regular
  | .merge m => m.source.Regular
  | .updateOrInsert u =>
    u.filter.Proper ∧ (∀ a ∈ u.set, a.value.Regular) ∧ ∀ v ∈ u.values, v.Regular
  | .update _ set filter => (∀ a ∈ set, a.value.Regular) ∧ filter.Proper
  | .delete _ filter => ∀ c, filter = some c → c.Proper
  | .truncate _ _ => True
  | .selectKey value _ => value.Regular

theorem TableRef.refers (t : TableRef) : Refers t.fragments [nameParts t.name] := by
  unfold TableRef.fragments
  cases t.hints with
  | none => exact (refers_dottedName t.name).append .nil
  | some hints =>
    have hclause : followsName (hintClause hints) = true := by
      rw [hintClause, String.append_assoc]
      exact followsName_append (by decide) (by decide) _
    exact (refers_dottedName t.name).append (.last hclause)

theorem Operand.refers {v : Operand} (h : v.Regular) : Refers v.fragments v.paths := by
  cases v with
  | placeholder p => exact .placeholder .nil
  | placeholderOrNull p => exact .text (by decide) (.placeholder (.last (by decide)))
  | number n => exact .last (followsName_number n)
  | function call => exact .last h
  | column c => exact .one c
  | source c | excluded c => exact .text (by decide) (.one c)
  | proposed c | remembered c => exact .text (by decide) (.name (.last (by decide)))

theorem refers_operandList {values : List Operand} (h : ∀ v ∈ values, v.Regular) :
    Refers (operandList values) (values.flatMap Operand.paths) :=
  .commaList fun v hv => Operand.refers (h v hv)

theorem refers_rows {rows : List (List Operand)} (h : ∀ row ∈ rows, ∀ v ∈ row, v.Regular) :
    Refers (commaList rowFragments rows) (rows.flatMap fun row => row.flatMap Operand.paths) := by
  refine .commaList fun row hrow => ?_
  exact (refers_operandList (h row hrow)).enclosed (by decide) (by decide)

theorem refers_assignmentList {set : List Assignment} (h : ∀ a ∈ set, a.value.Regular) :
    Refers (assignmentList set) (set.flatMap Assignment.paths) :=
  .commaList fun a ha => .name (.text (by decide) (Operand.refers (h a ha)))

theorem SelectItem.refers {i : SelectItem} (h : i.Regular) : Refers i.fragments i.paths := by
  cases i with
  | column c => exact .one c
  | one resultName => exact .text (by decide) (.one resultName)
  | count function resultName => exact .text h (.one resultName)
  | aggregate function path resultName =>
    exact Refers.append (.text h.1 (.only h.2)) (.text (by decide) (.one resultName))

theorem refers_orderList (order : List OrderField) : Refers (orderList order) (orderPaths order) := by
  have h : Refers (orderList order) (order.flatMap fun o => [nameParts o.name]) := by
    refine .commaList fun o _ => (refers_dottedName o.name).append (.last ?_)
    cases o.order <;> decide
  rwa [← List.map_eq_flatMap] at h

theorem refers_orderClause (order : List OrderField) :
    Refers (orderClause order) (orderPaths order) := by
  unfold orderClause
  split
  · next h =>
    rw [List.isEmpty_iff.mp h]
    exact .nil
  · exact .text (by decide) (refers_orderList order)

/-- A text with a number in it. -/
theorem followsName_numbered {s : String} (hs : followsName s = true)
    (hne : s.toList.any (fun c => !Text.isBlank c) = true) (n : Nat) (t : String) :
    followsName (s ++ toString n ++ t) = true := by
  rw [String.append_assoc]
  exact followsName_append hs hne _

theorem RowLimit.refers (l : RowLimit) : Refers l.fragments [] := by
  cases l with
  | all => exact .nil
  | limit n => exact .last (followsName_append (by decide) (by decide) _)
  | limitOffset n skip =>
    refine .last ?_
    rw [String.append_assoc]
    exact followsName_numbered (by decide) (by decide) _ _
  | offsetFetch skip n =>
    refine .last ?_
    rw [String.append_assoc, String.append_assoc]
    exact followsName_numbered (by decide) (by decide) _ _

theorem refers_rowNumber (row : Option Nat) : Refers (rowNumber row) (rowNumberPaths row) := by
  cases row with
  | none => exact .nil
  | some i => exact .text (followsName_numbered (by decide) (by decide) i _) (.one _)

theorem refers_outputClause (batch : Bool) (key : Option String) :
    Refers (outputClause batch key) (outputPaths batch key) := by
  cases key with
  | none => exact .nil
  | some key =>
    have hkey : Refers [.text " OUTPUT INSERTED.", .name key, .text " AS ", .name resultColumn]
        [[key], [resultColumn]] := .text (by decide) (.name (.text (by decide) (.one _)))
    refine hkey.append ?_
    cases batch with
    | true => exact .text (by decide) (.name (.text (by decide) (.one _)))
    | false => exact .nil

theorem refers_returningClause (key : Option ReturnedKey) :
    Refers (returningClause key) (returningPaths key) := by
  cases key with
  | none => exact .nil
  | some key =>
    have hkey : Refers [.text " RETURNING ", .name key.column, .text " AS ", .name resultColumn]
        [[key.column], [resultColumn]] := .text (by decide) (.name (.text (by decide) (.one _)))
    exact hkey.append (refers_rowNumber key.row)

theorem Conflict.refers {c : Conflict} (h : c.Regular) : Refers c.clause c.paths := by
  cases c with
  | fail | replace => exact .nil
  | onKey keys set =>
    refine Refers.append (.text (by decide) (refers_columnList keys)) ?_
    split
    · next hempty =>
      rw [List.isEmpty_iff.mp hempty]
      exact .last (by decide)
    · exact .text (by decide) (refers_assignmentList h)
  | onDuplicate set => exact .text (by decide) (refers_assignmentList h)

/-! ### Statements -/

theorem Select.refers {s : Select} (h : (Statement.select s).Regular) :
    Refers s.fragments s.paths := by
  have hitems : Refers (commaList SelectItem.fragments s.items)
      (s.items.flatMap SelectItem.paths) := .commaList fun i hi => SelectItem.refers (h.1 i hi)
  have hfrom : Refers (.text " FROM " :: s.table.fragments) [nameParts s.table.name] :=
    .text (by decide) s.table.refers
  have hstatement {top : Fragments} (htop : Refers top []) :
      Refers (.text "SELECT " :: top ++ commaList SelectItem.fragments s.items ++
        .text " FROM " :: s.table.fragments ++ whereClause s.filter ++ orderClause s.order ++
          s.limit.fragments) s.paths := by
    have h := (((((Refers.text (s := "SELECT ") (by decide) htop).append hitems).append
      hfrom).append (refers_whereClause h.2)).append (refers_orderClause s.order)).append
        s.limit.refers
    unfold Select.paths
    simpa using h
  rw [Select.fragments]
  cases s.top with
  | none => exact hstatement .nil
  | some n => exact hstatement (.last (followsName_numbered (by decide) (by decide) n _))

theorem NumberedPage.refers {p : NumberedPage} (h : (Statement.page p).Regular) :
    Refers p.fragments p.paths := by
  have hbetween : followsName
      (" BETWEEN " ++ toString p.first ++ " AND " ++ toString p.last ++ ") ORDER BY ") = true := by
    rw [String.append_assoc, String.append_assoc]
    exact followsName_numbered (by decide) (by decide) _ _
  have horder : Refers (.text "WITH CTE AS (SELECT ROW_NUMBER() OVER (ORDER BY " ::
      orderList p.order) (orderPaths p.order) := .text (by decide) (refers_orderList p.order)
  have hnumber : Refers [.text ") AS ", .name rowNumberColumn, .text ", "] [[rowNumberColumn]] :=
    .text (by decide) (.name (.last (by decide)))
  have hfrom : Refers (.text " FROM " :: p.table.fragments) [nameParts p.table.name] :=
    .text (by decide) p.table.refers
  have houter : Refers (.text ") SELECT " :: columnList p.columns) (wholePaths p.columns) :=
    .text (by decide) (refers_columnList p.columns)
  have hlast : Refers [.text " FROM CTE WHERE (", .name rowNumberColumn,
      .text (" BETWEEN " ++ toString p.first ++ " AND " ++ toString p.last ++ ") ORDER BY "),
      .name rowNumberColumn, .text " ASC"] [[rowNumberColumn], [rowNumberColumn]] :=
    .text (by decide) (.name (.text hbetween (.name (.last (by decide)))))
  have hstatement := (((((horder.append hnumber).append (refers_columnList p.columns)).append
    hfrom).append (refers_whereClause h)).append houter).append hlast
  unfold NumberedPage.fragments NumberedPage.paths
  simpa using hstatement

theorem Insert.refers {i : Insert} (h : (Statement.insert i).Regular) :
    Refers i.fragments i.paths := by
  have hverb : followsName i.conflict.verb = true := by
    unfold Conflict.verb
    split <;> decide
  have hinto : Refers (.text i.conflict.verb :: i.table.fragments) [nameParts i.table.name] :=
    .text hverb i.table.refers
  have hcolumns : Refers (.text " (" :: columnList i.columns) (wholePaths i.columns) :=
    .text (by decide) (refers_columnList i.columns)
  have houtput : Refers (.text ")" :: outputClause false i.output) (outputPaths false i.output) :=
    .text (by decide) (refers_outputClause false i.output)
  have hvalues : Refers (.text " VALUES " :: commaList rowFragments i.rows)
      (i.rows.flatMap fun row => row.flatMap Operand.paths) :=
    .text (by decide) (refers_rows h.1)
  have hstatement := ((((hinto.append hcolumns).append houtput).append hvalues).append
    (Conflict.refers h.2)).append (refers_returningClause i.returning)
  unfold Insert.fragments Insert.paths
  simpa using hstatement

theorem MergeSource.refers {s : MergeSource} (h : s.Regular) : Refers s.fragments s.paths := by
  cases s with
  | row columns =>
    have hlist : Refers
        (commaList (fun a => a.value.fragments ++ [Fragment.text " AS ", .name a.column]) columns)
        (columns.flatMap fun a => a.value.paths ++ [[a.column]]) :=
      .commaList fun a ha => (Operand.refers (h a ha)).append (.text (by decide) (.one a.column))
    exact hlist.enclosed (by decide) (by decide)
  | rows columns values =>
    have hcolumns : Refers (.text ") AS S (" :: columnList columns) (wholePaths columns) :=
      .text (by decide) (refers_columnList columns)
    have hsource := (Refers.append (.text (s := "(VALUES ") (by decide) (refers_rows h))
      hcolumns).append (.last (s := ")") (by decide))
    unfold MergeSource.fragments MergeSource.paths
    simpa using hsource

theorem refers_matchFragments (columns : Option (List String)) :
    Refers (matchFragments columns) (bothSides (columns.getD [])) := by
  cases columns with
  | none => exact .last (by decide)
  | some columns =>
    have hlist : Refers (separated " AND "
        (columns.map fun c => [.text "S.", .name c, .text " = T.", .name c])) (bothSides columns) :=
      .separated (by decide) fun c _ => .text (by decide) (.name (.text (by decide) (.one c)))
    exact hlist.enclosed (by decide) (by decide)

theorem refers_mergeInsert (columns : List String) :
    Refers (mergeInsert columns) (wholePaths columns ++ wholePaths columns) := by
  unfold mergeInsert
  split
  · next h =>
    rw [List.isEmpty_iff.mp h]
    exact .last (by decide)
  · have hsource : Refers (operandList (columns.map .source)) (wholePaths columns) := by
      have h : Refers (operandList (columns.map .source))
          ((columns.map Operand.source).flatMap Operand.paths) :=
        refers_operandList fun v hv => by
          obtain ⟨c, -, rfl⟩ := List.mem_map.mp hv
          trivial
      have hpaths : (columns.map Operand.source).flatMap Operand.paths = wholePaths columns := by
        rw [List.flatMap_map, wholePaths, List.map_eq_flatMap]
        rfl
      rwa [hpaths] at h
    have hvalues : Refers (.text ") VALUES (" :: operandList (columns.map .source))
        (wholePaths columns) := .text (by decide) hsource
    have h := (Refers.append (.text (s := "INSERT (") (by decide) (refers_columnList columns))
      hvalues).append (.last (s := ")") (by decide))
    simpa using h

theorem refers_mergeUpdate (columns : List String) :
    Refers (mergeUpdate columns) (bothSides columns) := by
  unfold mergeUpdate
  split
  · next h =>
    rw [List.isEmpty_iff.mp h]
    exact .nil
  · exact .text (by decide) (.commaList fun c _ =>
      .text (by decide) (.name (.text (by decide) (.one c))))

theorem Merge.refers {m : Merge} (h : m.source.Regular) : Refers m.fragments m.paths := by
  have hinto : Refers (.text "MERGE " :: m.table.fragments) [nameParts m.table.name] :=
    .text (by decide) m.table.refers
  have hsource : Refers (.text " AS T USING " :: m.source.fragments) m.source.paths :=
    .text (by decide) (MergeSource.refers h)
  have hon : Refers (.text " ON " :: matchFragments m.matchOn) (bothSides (m.matchOn.getD [])) :=
    .text (by decide) (refers_matchFragments m.matchOn)
  have hinsert : Refers (.text " WHEN NOT MATCHED THEN " :: mergeInsert m.columns)
      (wholePaths m.columns ++ wholePaths m.columns) :=
    .text (by decide) (refers_mergeInsert m.columns)
  have hstatement := ((((hinto.append hsource).append hon).append hinsert).append
    (refers_mergeUpdate m.set)).append (refers_outputClause m.batch m.output)
  unfold Merge.fragments Merge.paths
  simpa using hstatement

theorem UpdateOrInsert.refers_matched {u : UpdateOrInsert}
    (h : (Statement.updateOrInsert u).Regular) : Refers u.matched u.matchedPaths := by
  have hwhere : Refers (whereClause (some u.filter)) u.filter.paths :=
    refers_whereClause fun c hc => by
      cases hc
      exact h.1
  unfold UpdateOrInsert.matched UpdateOrInsert.matchedPaths
  split
  · have hfrom : Refers [.text "SELECT ", .name u.returned, .text " FROM "] [[u.returned]] :=
      .text (by decide) (.name (.last (by decide)))
    have hstep := (hfrom.append u.table.refers).append hwhere
    simpa using hstep
  · have hupdate : Refers (.text "UPDATE " :: u.table.fragments) [nameParts u.table.name] :=
      .text (by decide) u.table.refers
    have hset : Refers (.text " SET " :: assignmentList u.set) (u.set.flatMap Assignment.paths) :=
      .text (by decide) (refers_assignmentList h.2.1)
    have hreturning : Refers [.text " RETURNING ", .name u.returned] [[u.returned]] :=
      .text (by decide) (.one _)
    have hstep := ((hupdate.append hset).append hwhere).append hreturning
    simpa using hstep

theorem UpdateOrInsert.refers_inserted {u : UpdateOrInsert}
    (h : (Statement.updateOrInsert u).Regular) : Refers u.inserted u.insertedPaths := by
  have hinto : Refers (.text "INSERT INTO " :: u.table.fragments) [nameParts u.table.name] :=
    .text (by decide) u.table.refers
  have hlast : Refers [.text " WHERE NOT EXISTS (SELECT 1 FROM matched)"] [] := .last (by decide)
  unfold UpdateOrInsert.inserted UpdateOrInsert.insertedPaths
  split
  · have hstep := (hinto.append (.last (s := " SELECT") (by decide))).append hlast
    simpa using hstep
  · have hcolumns : Refers (.text " (" :: columnList u.columns) (wholePaths u.columns) :=
      .text (by decide) (refers_columnList u.columns)
    have hvalues : Refers (.text ") SELECT " :: operandList u.values)
        (u.values.flatMap Operand.paths) := .text (by decide) (refers_operandList h.2.2)
    have hstep := (hinto.append (hcolumns.append hvalues)).append hlast
    simpa using hstep

theorem UpdateOrInsert.refers {u : UpdateOrInsert} (h : (Statement.updateOrInsert u).Regular) :
    Refers u.fragments u.paths := by
  have hmatched : Refers (.text "WITH matched AS (" :: u.matched) u.matchedPaths :=
    .text (by decide) (refers_matched h)
  unfold UpdateOrInsert.fragments UpdateOrInsert.paths
  split
  · have hinserted : Refers (.text "), inserted AS (" :: u.inserted) u.insertedPaths :=
      .text (by decide) (refers_inserted h)
    have hreturning : Refers [.text " RETURNING ", .name u.returned, .text ") SELECT "]
        [[u.returned]] := .text (by decide) (.name (.last (by decide)))
    have hnamed : Refers [.name u.returned, .text " AS ", .name resultColumn]
        [[u.returned], [resultColumn]] := .name (.text (by decide) (.one _))
    have hresult : Refers
        ([Fragment.name u.returned, .text " AS ", .name resultColumn] ++ rowNumber u.row)
          u.resultPaths := hnamed.append (refers_rowNumber u.row)
    have hunion : Refers (.text " FROM matched UNION ALL SELECT " ::
        ([Fragment.name u.returned, .text " AS ", .name resultColumn] ++ rowNumber u.row))
          u.resultPaths :=
      .text (by decide) hresult
    have hstatement := ((((hmatched.append hinserted).append hreturning).append hresult).append
      hunion).append (.last (s := " FROM inserted") (by decide))
    simpa using hstatement
  · have hinserted : Refers (.text ") " :: u.inserted) u.insertedPaths :=
      .text (by decide) (refers_inserted h)
    have hstatement := hmatched.append hinserted
    simpa using hstatement

/-- **A statement is made of its paths**, text and placeholders. -/
theorem Statement.refers {s : Statement} (h : s.Regular) : Refers s.fragments s.paths := by
  have hend : Refers [.text ";"] [] := .last (by decide)
  have hbody : Refers s.body s.paths := by
    cases s with
    | select s => exact Select.refers h
    | page p => exact NumberedPage.refers h
    | insert i => exact Insert.refers h
    | merge m => exact Merge.refers h
    | updateOrInsert u => exact UpdateOrInsert.refers h
    | update table set filter =>
      have hwhere : Refers (whereClause (some filter)) (filterPaths (some filter)) :=
        refers_whereClause fun c hc => by
          cases hc
          exact h.2
      have hset : Refers (.text " SET " :: assignmentList set) (set.flatMap Assignment.paths) :=
        .text (by decide) (refers_assignmentList h.1)
      have hstatement := ((Refers.text (s := "UPDATE ") (by decide) table.refers).append
        hset).append hwhere
      unfold Statement.body Statement.paths
      simpa [filterPaths] using hstatement
    | delete table filter =>
      exact Refers.append (.text (by decide) table.refers) (refers_whereClause h)
    | truncate table restart =>
      have htable : Refers (.text "TRUNCATE TABLE " :: table.fragments) [nameParts table.name] :=
        .text (by decide) table.refers
      have hrestart : Refers (if restart then [.text " RESTART IDENTITY"] else []) [] := by
        split
        · exact .last (by decide)
        · exact .nil
      have hstatement := htable.append hrestart
      unfold Statement.body Statement.paths
      simpa using hstatement
    | selectKey value row =>
      have hvalue : Refers (.text "SELECT " :: value.fragments) value.paths :=
        .text (by decide) (Operand.refers h)
      have has : Refers [.text " AS ", .name resultColumn] [[resultColumn]] :=
        .text (by decide) (.one _)
      have hstatement := (hvalue.append has).append (refers_rowNumber row)
      unfold Statement.body Statement.paths
      simpa using hstatement
  have h := hbody.append hend
  rwa [List.append_nil] at h

/-- Statements one after the other. -/
theorem refers_statementList {ss : List Statement} (h : ∀ s ∈ ss, s.Regular) :
    Refers (statementList ss) (ss.flatMap Statement.paths) :=
  .separated (by decide) fun s hs => s.refers (h s hs)

end EntitySql.Sql
