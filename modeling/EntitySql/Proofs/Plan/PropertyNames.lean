import EntitySql.Proofs.Plan.Transparency
import EntitySql.Proofs.Sql.AggregateField

/-!
# Names of properties and names of columns

A request for a plan may name a column by the property that is kept in it. The names of the columns asked
for, of the qualifiers and of the order are replaced by those of columns before anything is looked up
(`PlanRequest.shape`), and a name of a column stands for itself if no name means two columns
(`EntityMap.Unambiguous`). So it makes no difference to any engine which of the two names a request has in
these places. The field of an aggregate is not replaced: it is looked up in the table and written as the
request has it.

**`Engine.plan_renamed`** says both: what may be renamed without a difference to the plan, the engine or
the error, and for which two fields of an aggregate the outcome is the same.
-/

namespace EntitySql

open Text Sql

/-! ### Names -/

namespace EntityMap

/-- No name means two properties: columns differ from each other, and from the names of the properties
that are kept in others, whatever the case. -/
structure Unambiguous (map : EntityMap) : Prop where
  columns : map.properties.Pairwise fun p q => equalIgnoringCase p.column q.column = false
  names : ∀ p ∈ map.properties, ∀ q ∈ map.properties,
    equalIgnoringCase p.column q.name = true → q = p

/-- A name is replaced by another: by itself, or the name of a property by that of its column. -/
inductive Renames (map : EntityMap) : String → String → Prop where
  | same (name : String) : Renames map name name
  | column {name : String} {p : Property} (h : map.property? name = some p) :
      Renames map name p.column

variable {map : EntityMap} {p : Property} {name other : String}

theorem columnName_of_property (h : map.property? name = some p) : map.columnName name = p.column := by
  rw [columnName, h]
  rfl

/-- A column stands for itself. -/
theorem Unambiguous.columnName_column (h : map.Unambiguous) (hp : p ∈ map.properties) :
    map.columnName p.column = p.column := by
  unfold columnName
  cases hname : map.property? p.column with
  | some q =>
    have hq : q.name = p.column := by simpa using List.find?_some hname
    have heq : equalIgnoringCase p.column q.name = true := hq ▸ equalIgnoringCase_refl q.name
    rw [h.names p hp q (List.mem_of_find?_eq_some hname) heq]
    rfl
  | none =>
    cases hcolumn : map.propertyForColumn? p.column with
    | some q =>
      have heq : equalIgnoringCase q.column p.column = true := by simpa using List.find?_some hcolumn
      rw [eq_of_equalIgnoringCase h.columns (List.mem_of_find?_eq_some hcolumn) hp heq]
      rfl
    | none => rfl

/-- **Both names mean one column.** -/
theorem Unambiguous.columnName_eq (h : map.Unambiguous) (hr : map.Renames name other) :
    map.columnName other = map.columnName name := by
  cases hr with
  | same => rfl
  | column hp =>
    rw [h.columnName_column (List.mem_of_find?_eq_some hp), columnName_of_property hp]

theorem Unambiguous.map_columnName_eq (h : map.Unambiguous) {names others : List String}
    (hr : List.Forall₂ map.Renames names others) :
    others.map map.columnName = names.map map.columnName := by
  induction hr with
  | nil => rfl
  | cons hname _ ih => rw [List.map_cons, List.map_cons, h.columnName_eq hname, ih]

theorem Unambiguous.mapNames_eq (h : map.Unambiguous) {names others : Option (List String)}
    (hr : Option.Rel (List.Forall₂ map.Renames) names others) :
    (others.map fun names => names.map map.columnName) =
      names.map fun names => names.map map.columnName := by
  cases hr with
  | none => rfl
  | some hnames => exact congrArg some (h.map_columnName_eq hnames)

theorem Unambiguous.mapOrder_eq (h : map.Unambiguous) {order others : List OrderField}
    (hr : List.Forall₂ (fun o o' => map.Renames o.name o'.name ∧ o'.order = o.order) order others) :
    (others.map fun o => { o with name := map.columnName o.name }) =
      order.map fun o => { o with name := map.columnName o.name } := by
  induction hr with
  | nil => rfl
  | cons ho _ ih => rw [List.map_cons, List.map_cons, h.columnName_eq ho.1, ho.2, ih]

end EntityMap

/-! ### Requests -/

/-- One request is the other but for names of properties that are replaced by those of their columns. -/
structure PlanRequest.Renamed (map : EntityMap) (r r' : PlanRequest) : Prop where
  table_eq : r'.table = r.table
  predicate_eq : r'.predicate = r.predicate
  hints_eq : r'.hints = r.hints
  fields : Option.Rel (List.Forall₂ map.Renames) r.fields r'.fields
  qualifiers : Option.Rel (List.Forall₂ map.Renames) r.qualifiers r'.qualifiers
  orderBy : List.Forall₂ (fun o o' => map.Renames o.name o'.name ∧ o'.order = o.order)
    r.orderBy r'.orderBy

variable {map : EntityMap} {r r' : PlanRequest}

theorem PlanRequest.fields_shape (r : PlanRequest) (map : EntityMap) : (r.shape map).fields =
    (r.fields.map fun names => names.map map.columnName).getD map.columns := by
  unfold shape
  cases r.fields <;> rfl

/-- **Renaming does not change what a request is about.** -/
theorem PlanRequest.Renamed.shape_eq (h : r.Renamed map r') (hmap : map.Unambiguous) :
    r'.shape map = r.shape map := by
  have hfields : (r'.shape map).fields = (r.shape map).fields := by
    rw [fields_shape, fields_shape, hmap.mapNames_eq h.fields]
  rw [PlanShape.mk.injEq]
  exact ⟨congrArg (·.getD map.table) h.table_eq, hfields, hmap.mapNames_eq h.qualifiers,
    hmap.mapOrder_eq h.orderBy⟩

/-- A plan is made from the shape of a request, its operation, filter and hints. -/
theorem Plan.make_eq_of_shape (hshape : r'.shape map = r.shape map)
    (hoperation : r'.operation = r.operation) (hpredicate : r'.predicate = r.predicate)
    (hhints : r'.hints = r.hints) (options : Options) (handlers : Handlers) (columns : List Column)
    (serial : Nat) :
    Plan.make options handlers map r' columns serial = Plan.make options handlers map r columns serial := by
  unfold Plan.make PlanRequest.statement PlanRequest.predicateShape PlanRequest.activePredicate
  rw [hshape, hoperation, hpredicate, hhints]

namespace Engine

/-- Requests of one shape are answered alike by any engine, which is left alike. -/
theorem plan_eq_of_shape (hshape : r'.shape map = r.shape map)
    (hoperation : r'.operation = r.operation) (hpredicate : r'.predicate = r.predicate)
    (hhints : r'.hints = r.hints) (e : Engine) (source : SchemaSource) :
    e.plan source map r' = e.plan source map r := by
  have hkey : r'.key map = r.key map := by
    funext d
    rw [PlanRequest.key, PlanRequest.key, hshape, hoperation, hhints, PlanRequest.predicateShape,
      PlanRequest.activePredicate, hpredicate]
    rfl
  have hbuild : ∀ (e : Engine) columns, e.build map r' columns = e.build map r columns := by
    intro e columns
    rw [build, build, Plan.make_eq_of_shape hshape hoperation hpredicate hhints, hkey]
  unfold plan cached
  rw [hkey, hshape]
  simp only [hbuild]

/-- The text of the plan that an engine gives for a request, and the columns that it binds. -/
def answer (e : Engine) (source : SchemaSource) (map : EntityMap) (r : PlanRequest) :
    Result (String × List Column) :=
  (e.plan source map r).1.map fun p => (p.text, p.inputs)

end Engine

/-- The request with an aggregate over this field in place of its operation. -/
def PlanRequest.aggregating (r : PlanRequest) (f : Aggregate) (field : String) : PlanRequest :=
  { r with operation := .aggregate f field }

/-- The columns of the table are those that the columns asked for were found in. -/
theorem Request.schema_of_found {r : Request} {names : List String}
    (h : names.mapM (requestedColumn r.table r.tableColumns) = .ok r.fields) :
    r.schema = r.tableColumns := by
  obtain ⟨table, fields, columns, qualifiers, predicate, orderBy, hints, policy⟩ := r
  cases columns with
  | cons c rest => rfl
  | nil =>
    cases mapM_eq_ok_iff.mp h with
    | nil => rfl
    | cons hname _ => cases requestedColumn_eq_ok hname

namespace Sample

/-- The name that a person is known under. -/
def nick : Property := ⟨"Nick", "nick_name", ⟨.text, false⟩, none, false⟩

/-- Persons and the table they are kept in. -/
def person : EntityMap := ⟨"Person", "Person", [⟨"Id", "Id", ⟨.int64, false⟩, none, false⟩, nick]⟩

/-- A catalog of the table of persons. -/
def persons : Catalog :=
  Catalog.empty.add .table "Person" [column "Id" true .int64, column "nick_name" false .text]

/-- A query for one column of all persons. -/
def nicknames (field : String) : PlanRequest :=
  ⟨.query none, none, some [field], none, none, [], none⟩

end Sample

namespace Engine

variable {options : Options} {handlers : Handlers} {source : SchemaSource} {e : Engine}
variable {f : Aggregate} {a b : String}

/-- What is answered to an aggregate: the columns are found, and the statement is built. -/
theorem answer_aggregating (hs : source.IgnoresCase) (he : Keeps options handlers source e)
    (field : String) :
    e.answer source map (r.aggregating f field) =
      source.fetch (r.shape map).table >>= fun columns =>
        (r.shape map).fields.mapM (requestedColumn (r.shape map).table columns) >>= fun fields =>
          (statementText options.dialect (.aggregate f field)
            (r.statement (r.shape map) options.keyPolicy fields columns)).map fun text => (text, []) := by
  have hanswer : e.answer source map (r.aggregating f field) =
      (outcome options handlers source map (r.aggregating f field)).map
        fun p => (p.text, p.inputs) := by
    rw [← (keeps_plan hs he (Prod.eta _).symm).2, answer]
    cases (e.plan source map (r.aggregating f field)).1 <;> rfl
  have hshape : (r.aggregating f field).shape map = r.shape map := rfl
  rw [hanswer, outcome, hshape]
  cases source.fetch (r.shape map).table with
  | error err => rfl
  | ok columns =>
    rw [ok_bind, ok_bind, Plan.unnumbered_make, hshape]
    cases (r.shape map).fields.mapM (requestedColumn (r.shape map).table columns) with
    | error err => rfl
    | ok fields =>
      rw [ok_bind, ok_bind]
      show Except.map _ (statementText options.dialect (.aggregate f field)
        (r.statement (r.shape map) options.keyPolicy fields columns) >>= _) = _
      cases statementText options.dialect (.aggregate f field)
          (r.statement (r.shape map) options.keyPolicy fields columns) with
      | error err => rfl
      | ok text =>
        -- an aggregate binds nothing and gives no key back
        have hsetter : ∀ key, KeySetter.makeFor map handlers (.aggregate f field) key = .ok none := by
          intro key
          cases key <;> rfl
        rw [ok_bind]
        show Except.map _ (KeySetter.makeFor map handlers (.aggregate f field) _ >>= _) = _
        rw [hsetter]
        rfl

theorem map_text_inj {x y : Result String}
    (h : (x.map fun text => (text, ([] : List Column))) = y.map fun text => (text, [])) : x = y := by
  cases x with
  | error e => exact (map_eq_error_iff.mp h.symm).symm
  | ok s =>
    obtain ⟨t, rfl, ht⟩ := map_eq_ok_iff.mp h.symm
    rw [(Prod.mk.inj ht).1]

/-- **When two fields of an aggregate have one answer.** -/
theorem answer_aggregating_eq_iff (hs : source.IgnoresCase) (he : Keeps options handlers source e) :
    e.answer source map (r.aggregating f a) = e.answer source map (r.aggregating f b) ↔
      a = b ∨
      (∃ err, ∀ field, e.answer source map (r.aggregating f field) = .error err) ∨
      (isBlankText a = true ∧ isBlankText b = true) ∨
      isBlankText a = false ∧ isBlankText b = false ∧ nameParts a = nameParts b ∧
        ∃ columns, source.fetch (r.shape map).table = .ok columns ∧ Known columns a ∧
          Known columns b := by
  simp only [answer_aggregating hs he]
  cases source.fetch (r.shape map).table with
  | error err => exact ⟨fun _ => .inr (.inl ⟨err, fun _ => rfl⟩), fun _ => rfl⟩
  | ok columns =>
    simp only [ok_bind]
    cases hfields : (r.shape map).fields.mapM (requestedColumn (r.shape map).table columns) with
    | error err => exact ⟨fun _ => .inr (.inl ⟨err, fun _ => rfl⟩), fun _ => rfl⟩
    | ok fields =>
      simp only [ok_bind]
      set statement := r.statement (r.shape map) options.keyPolicy fields columns with hstatement
      have hschema : statement.schema = columns := Request.schema_of_found (r := statement) hfields
      have htexts := statementText_aggregate_eq_iff (d := options.dialect) (r := statement) (f := f)
        (a := a) (b := b)
      rw [hschema] at htexts
      constructor
      · intro h
        rcases htexts.mp (map_text_inj h) with rfl | ⟨err, herr⟩ | hblank | ⟨ha, hb, hka, hkb, hparts⟩
        · exact .inl rfl
        · refine .inr (.inl ⟨err, fun field => ?_⟩)
          rw [statementText_aggregate, herr]
          rfl
        · exact .inr (.inr (.inl hblank))
        · exact .inr (.inr (.inr ⟨ha, hb, hparts, columns, rfl, hka, hkb⟩))
      · rintro (rfl | ⟨err, herr⟩ | hblank | ⟨ha, hb, hparts, _, hcolumns, hka, hkb⟩)
        · rfl
        · rw [herr, herr]
        · rw [htexts.mpr (.inr (.inr (.inl hblank)))]
        · obtain rfl := Except.ok.inj hcolumns
          rw [htexts.mpr (.inr (.inr (.inr ⟨ha, hb, hka, hkb, hparts⟩)))]

/-- **Names of properties and of columns are interchangeable but for the field of an aggregate.** If no
name means two columns, a request whose fields, qualifiers and order are renamed has the same plan or error
from any engine, and leaves it in the same state. Where an engine keeps only what it would make again, an
aggregate over another field has the same answer if and only if the fields are the same, or the request
fails whatever its field is, or both fields are blank, or the table has columns of both names and the names
have the same parts. -/
theorem plan_renamed (hmap : map.Unambiguous) (hr : r.Renamed map r') :
    (r'.operation = r.operation →
      ∀ (e : Engine) (source : SchemaSource), e.plan source map r' = e.plan source map r) ∧
    ∀ (e : Engine) (source : SchemaSource), source.IgnoresCase →
      Keeps e.options e.handlers source e → ∀ (f : Aggregate) (a b : String),
        r.operation = .aggregate f a → r'.operation = .aggregate f b →
          (e.answer source map r' = e.answer source map r ↔
            a = b ∨
            (∃ err, ∀ field, e.answer source map (r.aggregating f field) = .error err) ∨
            (isBlankText a = true ∧ isBlankText b = true) ∨
            isBlankText a = false ∧ isBlankText b = false ∧ nameParts a = nameParts b ∧
              ∃ columns, source.fetch (r.shape map).table = .ok columns ∧ Known columns a ∧
                Known columns b) := by
  have hshape := hr.shape_eq hmap
  refine ⟨fun hoperation e source =>
    plan_eq_of_shape hshape hoperation hr.predicate_eq hr.hints_eq e source, ?_⟩
  intro e source hs he f a b ha hb
  have hsame : r = r.aggregating f a := by
    rw [PlanRequest.aggregating, ← ha]
  have hrenamed : e.answer source map r' = e.answer source map (r.aggregating f b) := by
    rw [answer, plan_eq_of_shape (r := r.aggregating f b) hshape hb hr.predicate_eq hr.hints_eq,
      ← answer]
  rw [hrenamed, eq_comm]
  nth_rewrite 1 [hsame]
  exact answer_aggregating_eq_iff hs he

/-- A query for nicknames may ask for them under either name; the greatest of them is found under the name
of the column only. -/
theorem plan_renamed_nicknames :
    (∀ (e : Engine) (source : SchemaSource),
      e.plan source Sample.person (Sample.nicknames "nick_name") =
        e.plan source Sample.person (Sample.nicknames "Nick")) ∧
    (fresh .standard .empty).answer Sample.persons.source Sample.person
        ((Sample.nicknames "nick_name").aggregating .max "nick_name") ≠
      (fresh .standard .empty).answer Sample.persons.source Sample.person
        ((Sample.nicknames "Nick").aggregating .max "Nick") := by
  have hmap : Sample.person.Unambiguous := ⟨by decide, by decide⟩
  have hnick : Sample.person.Renames "Nick" "nick_name" := .column (p := Sample.nick) rfl
  have hr : (Sample.nicknames "Nick").Renamed Sample.person (Sample.nicknames "nick_name") :=
    ⟨rfl, rfl, rfl, .some (.cons hnick .nil), .none, .nil⟩
  have hr' : ((Sample.nicknames "Nick").aggregating .max "Nick").Renamed Sample.person
      ((Sample.nicknames "nick_name").aggregating .max "nick_name") :=
    ⟨rfl, rfl, rfl, .some (.cons hnick .nil), .none, .nil⟩
  have hkeeps := keeps_fresh .standard .empty Sample.persons.source
  refine ⟨(plan_renamed hmap hr).1 rfl, fun h => ?_⟩
  have hiff := (plan_renamed hmap hr').2 (fresh .standard .empty) _
    Sample.persons.source_ignoresCase hkeeps .max "Nick" "nick_name" rfl rfl
  rcases hiff.mp h with hsame | ⟨err, herr⟩ | hblank | ⟨-, -, hparts, -⟩
  · exact absurd hsame (by decide)
  · cases herr "nick_name"
  · exact absurd hblank (by decide)
  · exact absurd hparts (by decide)

end Engine

end EntitySql
