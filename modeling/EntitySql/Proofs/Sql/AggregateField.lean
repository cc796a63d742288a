import EntitySql.Proofs.Sql.Acceptance
import EntitySql.Proofs.Sql.NamePaths
import EntitySql.Proofs.Sql.Tidy

/-!
# The field of an aggregate

An aggregate names its column by a text of the request, and nothing else of it depends on this text. The
column is looked up in the table and then written as it was given, in parts. So the text of the statement
tells the parts of the name, whatever else stands in it, hints included (`aggregate_text_inj`), and
**`statementText_aggregate_eq_iff`** says when two names have one outcome: they are the same, or the
request is refused before the name is looked at, or both are blank, or both are known and have the same
parts.
-/

namespace EntitySql.Sql

variable {d : Dialect} {r : Request} {f : Aggregate} {a b : String}

/-! ### Text around a name -/

theorem ne_closeQuote (d : Dialect) : '.' ≠ d.closeQuote ∧ ')' ≠ d.closeQuote := by
  cases d <;> decide

/-- Tidying leaves a name in parts alone. -/
theorem tidied_path (parts : List String) {rest : List Char}
    (hrest : rest.head? ≠ some d.closeQuote) (hparts : parts ≠ []) :
    tidied none [] ((pathFragments parts).render d ++ rest) =
      (pathFragments parts).render d ++ tidied none [] rest := by
  induction parts with
  | nil => exact absurd rfl hparts
  | cons n parts ih =>
    cases parts with
    | nil =>
      have hone : (pathFragments [n]).render d = quoteChars d n.toList := List.append_nil _
      rw [hone]
      exact tidied_name [] n.toList hrest
    | cons m parts =>
      have hcons : (pathFragments (n :: m :: parts)).render d =
          quoteChars d n.toList ++ '.' :: (pathFragments (m :: parts)).render d := rfl
      have hpoint : ∀ s, tidied none [] ('.' :: s) = '.' :: tidied none [] s := fun s =>
        (tidyFrom_done s).1 none [] ['.']
      rw [hcons, List.append_assoc, List.cons_append,
        tidied_name [] n.toList (by simp [(ne_closeQuote d).1]), hpoint,
        ih (List.cons_ne_nil _ _), List.append_assoc, List.cons_append]

/-- Tidying closes the gap between the function and its bracket. -/
theorem tidied_function (f : Aggregate) (rest : List Char) :
    tidied none [] ("SELECT ".toList ++ ((f.function ++ " (").toList ++ rest)) =
      ("SELECT " ++ f.function ++ "(").toList ++ tidied none [] rest := by
  have hdone := fun done => (tidyFrom_done rest).1 none [] done
  cases f with
  | min => exact hdone "(NIM TCELES".toList
  | max => exact hdone "(XAM TCELES".toList
  | sum => exact hdone "(MUS TCELES".toList
  | avg => exact hdone "(GVA TCELES".toList

/-- The statement of an aggregate. -/
def aggregateStatement (d : Dialect) (r : Request) (f : Aggregate) (field : String) : Statement :=
  selectValue d r none (.aggregate f.function (nameParts field) f.resultColumn) .all

/-- The text of an aggregate. -/
def aggregateText (d : Dialect) (r : Request) (f : Aggregate) (field : String) : String :=
  String.ofList (tidyChars (rawText d [aggregateStatement d r f field]))

/-- What stands around the name of the field does not depend on it. -/
theorem aggregateText_eq (d : Dialect) (r : Request) (f : Aggregate) : ∃ before after : List Char,
    ∀ field, (aggregateText d r f field).toList = before ++ (quoteName d field).toList ++ after := by
  let rest : Fragments := .text ") AS " :: .name f.resultColumn :: .text " FROM " ::
    ((tableRef d r).fragments ++ whereClause (filterCondition r) ++ [.text ";"])
  refine ⟨("SELECT " ++ f.function ++ "(").toList, tidied none [] (rest.render d), fun field => ?_⟩
  have hraw : rawText d [aggregateStatement d r f field] =
      "SELECT ".toList ++ ((f.function ++ " (").toList ++
        ((dottedName field).render d ++ rest.render d)) := by
    have hfragments : statementList [aggregateStatement d r f field] =
        .text "SELECT " :: .text (f.function ++ " (") :: (dottedName field ++ rest) := by
      simp [statementList, separated, Statement.fragments, Statement.body, aggregateStatement,
        selectValue, Select.fragments, commaList, SelectItem.fragments, orderClause,
        RowLimit.fragments, dottedName, rest]
    rw [rawText, hfragments, Fragments.render_cons, Fragments.render_cons, Fragments.render,
      List.flatMap_append]
    rfl
  have hhead : (rest.render d).head? ≠ some d.closeQuote := fun h =>
    (ne_closeQuote d).2 (Option.some.inj h)
  rw [aggregateText, String.toList_ofList, hraw, tidyChars, ← tidied, tidied_function, dottedName,
    tidied_path _ hhead (nameParts_ne_nil field), quoteName, String.toList_ofList, dottedName,
    List.append_assoc]

/-! ### Two names -/

theorem pathTokens_inj {path other : List String} (hpath : path ≠ []) (hother : other ≠ [])
    (h : pathTokens path = pathTokens other) : path = other := by
  have hread : ∀ {path : List String}, path ≠ [] → readPath (pathTokens path) = some (path, []) := by
    intro path hpath
    have hend : ([] : List Token).head? ≠ some (.sign ".") := nofun
    have h := readPath_pathTokens hpath hend
    rwa [List.append_nil] at h
  have hsome := hread hpath
  rw [h, hread hother] at hsome
  exact (Prod.mk.inj (Option.some.inj hsome)).1.symm

/-- **The text of an aggregate tells the parts of the name of its field.** -/
theorem aggregateText_inj :
    aggregateText d r f a = aggregateText d r f b ↔ nameParts a = nameParts b := by
  constructor
  · intro h
    obtain ⟨before, after, htext⟩ := aggregateText_eq d r f
    have hlist := congrArg String.toList h
    rw [htext, htext] at hlist
    have hname : quoteName d a = quoteName d b :=
      String.toList_inj.mp (List.append_cancel_left (List.append_cancel_right hlist))
    refine pathTokens_inj (nameParts_ne_nil a) (nameParts_ne_nil b) ?_
    rw [← lex_quoteName d a, hname, lex_quoteName]
  · intro h
    rw [aggregateText, aggregateStatement, h]
    rfl

/-- There is a column of this name; where no columns are known every name may be that of one. -/
def Known (columns : List Column) (field : String) : Prop :=
  columns = [] ∨ (Column.find? columns field).isSome = true

instance (columns : List Column) (field : String) : Decidable (Known columns field) :=
  inferInstanceAs (Decidable (_ ∨ _))

/-- How an aggregate is built: the guards of the table, then those of the name. -/
theorem statementText_aggregate (d : Dialect) (r : Request) (f : Aggregate) (field : String) :
    statementText d (.aggregate f field) r = tableGuards d r >>= fun _ =>
      if isBlankText field then .error (.argument (.aggregateField f.function r.table))
      else if Known r.schema field then .ok (aggregateText d r f field)
      else .error (.argument (.unknownField field r.table)) := by
  have hknown : (!r.schema.isEmpty ∧ (Column.find? r.schema field).isNone) ↔
      ¬Known r.schema field := by
    simp [Known]
  show ((aggregateQuery d r f field).map fun s => [s]).map _ = _
  unfold aggregateQuery
  cases tableGuards d r with
  | error e => rfl
  | ok u =>
    rw [ok_bind, ok_bind]
    by_cases hblank : isBlankText field = true
    · rw [if_pos hblank, if_pos hblank]
      rfl
    · rw [if_neg hblank, if_neg hblank]
      by_cases h : Known r.schema field
      · rw [if_neg (fun hno => hknown.mp hno h), if_pos h]
        rfl
      · rw [if_pos (hknown.mpr h), if_neg h]
        rfl

/-- **When two names of a field have one outcome**: nothing but the parts of a name is written, and an
unknown name stands in the error. -/
theorem statementText_aggregate_eq_iff :
    statementText d (.aggregate f a) r = statementText d (.aggregate f b) r ↔
      a = b ∨ (∃ err, tableGuards d r = .error err) ∨
        (isBlankText a = true ∧ isBlankText b = true) ∨
          (isBlankText a = false ∧ isBlankText b = false ∧ Known r.schema a ∧ Known r.schema b ∧
            nameParts a = nameParts b) := by
  rw [statementText_aggregate, statementText_aggregate]
  cases tableGuards d r with
  | error err => exact ⟨fun _ => .inr (.inl ⟨err, rfl⟩), fun _ => rfl⟩
  | ok u =>
    rw [ok_bind, ok_bind]
    have hguards : ¬∃ err, (.ok u : Result Unit) = .error err := fun ⟨_, h⟩ => by cases h
    rw [or_iff_right hguards]
    cases ha : isBlankText a with
    | true =>
      cases hb : isBlankText b with
      | true => simp
      | false =>
        have hne : a ≠ b := fun h => Bool.noConfusion (ha.symm.trans (h ▸ hb))
        by_cases hkb : Known r.schema b <;> simp [hkb, hne]
    | false =>
      cases hb : isBlankText b with
      | true =>
        have hne : a ≠ b := fun h => Bool.noConfusion (ha.symm.trans (h ▸ hb))
        by_cases hka : Known r.schema a <;> simp [hka, hne]
      | false =>
        by_cases hka : Known r.schema a <;> by_cases hkb : Known r.schema b
        · simp only [hka, hkb, aggregateText_inj, Bool.false_eq_true, if_false, if_true,
            Except.ok.injEq, false_and, true_and, false_or]
          exact ⟨.inr, fun h => h.elim (fun h => h ▸ rfl) id⟩
        · have hne : a ≠ b := fun h => hkb (h ▸ hka)
          simp [hka, hkb, hne]
        · have hne : a ≠ b := fun h => hka (h ▸ hkb)
          simp [hka, hkb, hne]
        · simp [hka, hkb]

end EntitySql.Sql
