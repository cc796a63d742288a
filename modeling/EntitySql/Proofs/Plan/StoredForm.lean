import EntitySql.Proofs.Filter.Pattern
import EntitySql.Proofs.Plan.Binding

/-!
# The form in which values are stored

A value of a property reaches the database on two ways: a filter compares the column of the property with
it, and a row that is written binds it. A filter puts the value in the form of its enumeration
(`Property.columnValue`) and knows nothing of handlers. A row is bound by column, for the first property
that is kept in it, by the handler of that property if there is one (`EntityMap.stored`).

**`Engine.stored_form`**: for a property that is the first with its column, both forms are the same if
the property has no handler, and with a handler they are the same if and only if the handler keeps the
value in the form of its enumeration.
-/

namespace EntitySql

open Text

/-! ### The value in a filter -/

theorem Value.storedItems_eq_map (repr : EnumRepr) (items : List Value) :
    storedItems repr items = items.map (stored repr) := by
  induction items with
  | nil => rfl
  | cons v rest ih => rw [storedItems, List.map_cons, ih]

section Filters

variable {rules : FilterRules} {map : EntityMap} {name : String} {p : Property}

/-- A property that is compared with a value is compared with its form in the column; at most a test for
null is added. -/
theorem ofExpr_compare_member (hname : map.property? name = some p) {t : Value}
    (ht : t.isNull = false) (op : CompareOp) :
    ∃ g, Group.ofExpr rules map (.compare op (.member name) (.constant t)) = .ok g ∧
      (g.conditions =
          [.make (Predicate.fieldOf p) op.toOperator (p.columnValue rules.repr t)] ∨
        ∃ check : Condition, check.operator.isNullCheck = true ∧ g.conditions =
          [.make (Predicate.fieldOf p) op.toOperator (p.columnValue rules.repr t), check]) := by
  have hresolve : map.resolve name = .ok p := EntityMap.resolve_eq_ok_iff.mpr hname
  obtain ⟨nulls, repr⟩ := rules
  simp only [Group.ofExpr, Predicate.ofExpr, Predicate.compare, Expr.value?,
    Predicate.compareSubject, Predicate.compareMember, hresolve, ht]
  cases nulls with
  | twoValued => exact ⟨_, rfl, .inl rfl⟩
  | threeValued =>
    cases op with
    | eq | ne => exact ⟨_, rfl, .inr ⟨_, rfl, rfl⟩⟩
    | _ => exact ⟨_, rfl, .inl rfl⟩

/-- A list that is asked for the value of a property has the forms of its items in the column. -/
theorem ofExpr_contains_member (hname : map.property? name = some p) (ts : List Value) :
    Group.ofExpr rules map (.call .contains (.constant (.list ts)) [.member name]) =
      .ok (.single (.make (Predicate.fieldOf p) .inList
        (.list (ts.map (p.columnValue rules.repr))))) := by
  have hresolve : map.resolve name = .ok p := EntityMap.resolve_eq_ok_iff.mpr hname
  have hitems : p.columnValue rules.repr (.list ts) =
      .list (ts.map (p.columnValue rules.repr)) :=
    congrArg Value.list (Value.storedItems_eq_map _ ts)
  rw [Group.ofExpr, ofExpr_call rfl (by rintro _ _ ⟨⟩), ← hitems]
  simp only [Predicate.call, Expr.value?, Predicate.callValue, hresolve]
  rfl

end Filters

/-! ### The value in a row -/

/-- What an entity keeps in the column of a property that is the first with this column. -/
theorem EntityMap.stored_of_first {map : EntityMap} {p : Property}
    (hfirst : map.propertyForColumn? p.column = some p) {c : Column}
    (hc : c.isNamed p.column = true) (handlers : Handlers) (repr : EnumRepr) (row : Row) :
    map.stored handlers repr row c =
      match handlers.get? map.entity p.name with
      | some h => h.toColumn (map.get row p) c
      | none => .ok (p.columnValue repr (map.get row p)) := by
  have hsame : (fun q : Property => equalIgnoringCase q.column c.name) =
      fun q => equalIgnoringCase q.column p.column := by
    funext q
    rw [equalIgnoringCase_comm, equalIgnoringCase_congr hc, equalIgnoringCase_comm]
  have hfound : map.propertyForColumn? c.name = some p := by
    rw [propertyForColumn?, hsame]
    exact hfirst
  cases hhandler : handlers.get? map.entity p.name <;> simp only [stored, hfound, hhandler]

/-! ### Both ways -/

namespace Sample

/-- Tickets and the table they are kept in. -/
def ticket : EntityMap := ⟨"Ticket", "Ticket", [⟨"Id", "Id", ⟨.int64, false⟩, none, false⟩, state]⟩

/-- The table of tickets. -/
def tickets : SchemaSource := fun _ => .ok [column "Id" true .int64, column "State" false .int64]

/-- An account whose owner is its holder too. -/
def held : EntityMap :=
  ⟨"Account", "Account", account.properties ++ [⟨"Holder", "Owner", ⟨.text, false⟩, none, false⟩]⟩

/-- An insertion. -/
def insertion : PlanRequest := ⟨.insert, none, none, none, none, [], none⟩

end Sample

namespace Engine

variable {P : List Column → Prop} {e e' : Engine} {source : SchemaSource} {map : EntityMap}
variable {r : PlanRequest} {plan : Plan}

/-- **A filter and a row agree on the form of a value unless a handler stores it in another.** In any
engine and under any default for enumerations, a filter compares a property with the form that its
enumeration has in the column, alone and in a list. A plan binds that form of a row's value, by itself and
in a command, if the property has no handler; otherwise it binds what the handler makes of the value. -/
theorem stored_form (he : Reachable P e) (hs : source.Gives P)
    (hp : e.plan source map r = (.ok plan, e')) {name : String} {p : Property}
    (hname : map.property? name = some p) (hfirst : map.propertyForColumn? p.column = some p)
    {t : Value} (ht : t.isNull = false) :
    (∀ op : CompareOp, ∃ g,
      e.compile map (.compare op (.member name) (.constant t)) = .ok g ∧
        (g.conditions =
            [.make (Predicate.fieldOf p) op.toOperator (p.columnValue e.options.repr t)] ∨
          ∃ check : Condition, check.operator.isNullCheck = true ∧ g.conditions =
            [.make (Predicate.fieldOf p) op.toOperator (p.columnValue e.options.repr t), check])) ∧
    (∀ ts : List Value, ∃ items,
      e.compile map (.call .contains (.constant (.list ts)) [.member name]) =
        .ok (.single (.make (Predicate.fieldOf p) .inList (.list items))) ∧
        items.length = ts.length ∧
        ∀ i : Nat, ts[i]? = some t → items[i]? = some (p.columnValue e.options.repr t)) ∧
    ∀ b ∈ plan.binders, b.column.isNamed p.column = true →
      ∀ row, map.get row p = t →
        (e.handlers.get? map.entity p.name = none →
          b.value plan.map row = .ok (p.columnValue e.options.repr t)) ∧
        (∀ h, e.handlers.get? map.entity p.name = some h →
          b.value plan.map row = h.toColumn t b.column) ∧
        ∀ rows g cmd, plan.command rows g = .ok cmd → ∀ i : Nat, rows[i]? = some row →
          ∃ v, b.value plan.map row = .ok v ∧
            cmd.value? (b.column.parameterAt (plan.rowNumber i)) = some v := by
  obtain ⟨r', cs, fields, -, -, -, -, hmade⟩ := made_of_plan he hs hp
  refine ⟨fun op => ofExpr_compare_member hname ht op, fun ts => ?_, fun b hb hc row hrow => ?_⟩
  · refine ⟨_, ofExpr_contains_member hname ts, List.length_map .., fun i hi => ?_⟩
    rw [List.getElem?_map, hi]
    rfl
  · obtain ⟨hinput, hvalue⟩ := hmade.binder_spec hb
    have hstored := EntityMap.stored_of_first hfirst hc e.handlers e.options.repr row
    rw [← hvalue row, hrow] at hstored
    refine ⟨fun hnone => ?_, fun h hh => ?_, fun rows g cmd hcmd i hi => ?_⟩
    · rw [hstored, hnone]
    · rw [hstored, hh]
    · obtain ⟨ps, hcommands⟩ := Plan.command_spec hcmd
      obtain ⟨q, hq, hqname, hqvalue⟩ := hcommands.mem_of_column hmade hinput hi
      refine ⟨q.value, by rw [hvalue row, hqvalue], ?_⟩
      rw [← hqname]
      exact hcommands.value?_of_mem hmade (List.mem_append_left _ hq)

/-- A closed ticket is looked for and written by its number. -/
theorem stored_form_ticket :
    ∃ plan e', (make { Options.standard with repr := .number }).plan Sample.tickets Sample.ticket
        Sample.insertion = (.ok plan, e') ∧
      (∃ b ∈ plan.binders, b.column.isNamed "state" = true ∧
        b.value plan.map [.int 1, Sample.closed] = .ok (.int 2)) ∧
      (make { Options.standard with repr := .number }).compile Sample.ticket
          (.compare .eq (.member "State") (.constant Sample.closed)) =
        .ok (.single (.make ⟨"state", some .enumeration⟩ .equal (.int 2))) ∧
      (make { Options.standard with repr := .number }).compile Sample.ticket
          (.call .contains (.constant (.list [Sample.closed])) [.member "State"]) =
        .ok (.single (.make ⟨"state", some .enumeration⟩ .inList (.list [.int 2]))) := by
  obtain ⟨plan, e', hp, b, hb, hc⟩ : ∃ plan e',
      (make { Options.standard with repr := .number }).plan Sample.tickets Sample.ticket
        Sample.insertion = (.ok plan, e') ∧
      ∃ b ∈ plan.binders, b.column.isNamed "state" = true :=
    ⟨_, _, rfl, _, List.mem_cons_of_mem _ List.mem_cons_self, rfl⟩
  have hall : Sample.tickets.Gives fun _ => True := fun _ _ _ => trivial
  have hname : Sample.ticket.property? "State" = some Sample.state := rfl
  have ht : Sample.closed.isNull = false := rfl
  have hbind := (stored_form (.make _) hall hp hname rfl ht).2.2 b hb hc
  exact ⟨plan, e', hp, ⟨b, hb, hc, (hbind [.int 1, Sample.closed] rfl).1 rfl⟩, rfl, rfl⟩

/-- A filter looks for Grace under her name where a handler keeps it backwards, and for Ada, the holder,
where the column keeps Grace, the owner. -/
theorem stored_form_differs :
    (∃ plan e', ((make .standard).withHandlers
          (Handlers.empty.register "Account" "Owner" Sample.backwards)).plan Sample.accounts
            Sample.account Sample.insertion = (.ok plan, e') ∧
      (∃ b ∈ plan.binders, b.column.isNamed "Owner" = true ∧
        b.value plan.map Sample.grace = .ok (.text "ecarG")) ∧
      ((make .standard).withHandlers
          (Handlers.empty.register "Account" "Owner" Sample.backwards)).compile Sample.account
            (.compare .eq (.member "Owner") (.constant (.text "Grace"))) =
        .ok (.single (.make ⟨"Owner", some .text⟩ .equal (.text "Grace")))) ∧
    ∃ plan e', (make .standard).plan Sample.accounts Sample.held Sample.insertion = (.ok plan, e') ∧
      (∃ b ∈ plan.binders, b.column.isNamed "Owner" = true ∧
        b.value plan.map [.int 1, .text "Grace", .text "Ada"] = .ok (.text "Grace")) ∧
      (make .standard).compile Sample.held
          (.compare .eq (.member "Holder") (.constant (.text "Ada"))) =
        .ok (.single (.make ⟨"Owner", some .text⟩ .equal (.text "Ada"))) :=
  ⟨⟨_, _, rfl, ⟨_, List.mem_cons_of_mem _ List.mem_cons_self, rfl, rfl⟩, rfl⟩,
    _, _, rfl, ⟨_, List.mem_cons_of_mem _ List.mem_cons_self, rfl, rfl⟩, rfl⟩

end Engine

end EntitySql
