import EntitySql.Proofs.Entity.ColumnForm
import EntitySql.Proofs.Filter.Meaning

/-!
# Equality under three-valued nulls

A database answers an equation with a null column by neither yes nor no. Filters that are built of
equations alone have a plain meaning all the same, in which null is a value like others that equals
nothing but itself: `Expr.reading` gives it. Under three-valued nulls every equation comes with the
test for null that settles it on null rows, and the connectives, the negations and the calls over lists
keep what is settled (`Settled`).

The main statement, **`verdict_ofExpr_ofEqualities`**, is that the verdict of such a filter is never
unknown and is what the reading says, if the database is undecided in equations with null columns only.
-/

namespace EntitySql

/-- Equations with a column that is not null hold or fail as `same` says, inequations the other way
round, and both are unknown where the column is null. -/
structure Interpretation.Equates (I : Interpretation) (same : StoredRow → Field → Value → Bool) :
    Prop where
  equal : ∀ row field v, (row field.name).isNull = false → v.isNull = false →
    I row (.make field .equal v) = .ofBool (same row field v)
  notEqual : ∀ row field v, (row field.name).isNull = false → v.isNull = false →
    I row (.make field .notEqual v) = .ofBool !same row field v
  null : ∀ row field v op, (row field.name).isNull = true → op = .equal ∨ op = .notEqual →
    I row (.make field op v) = .unknown

namespace Expr

/-- The filter is made of equations and inequations, the connectives and calls over all or any elements
of a list. -/
def ofEqualities : Expr → Bool
  | compare op _ _ => op = .eq || op = .ne
  | and l r | or l r => ofEqualities l && ofEqualities r
  | not e => ofEqualities e
  | call m _ [lambda _ body] => (m = .all || m = .any) && ofEqualities body
  | _ => false

variable (map : EntityMap) (repr : EnumRepr) (row : StoredRow) (same : Field → Value → Bool)

/-! ### The reading -/

/-- Whether a column equals a value, where null equals null and nothing else. -/
def columnEquals (p : Property) (v : Value) : Bool :=
  if v.isNull then (row p.column).isNull
  else !(row p.column).isNull && same (Predicate.fieldOf p) (p.columnValue repr v)

/-- Whether a property equals a value. In the place of null a property may have a fallback. -/
def equalsValue (v : Value) : Expr → Option Bool
  | member name => (map.property? name).map fun p => columnEquals repr row same p v
  | coalesce (member name) (constant fallback) =>
    (map.property? name).map fun p =>
      if (row p.column).isNull then fallback.equal v else columnEquals repr row same p v
  | _ => none

/-- What an equation or inequation says. -/
def signedReading : CompareOp → Bool → Option Bool
  | .eq, b => some b
  | .ne, b => some !b
  | _, _ => none

/-- What an equation or inequation says, with the value on either side. -/
def compareReading (op : CompareOp) : Expr → Expr → Option Bool
  | subject, constant v => (equalsValue map repr row same v subject).bind (signedReading op)
  | constant v, subject => (equalsValue map repr row same v subject).bind (signedReading op)
  | _, _ => none

/-- What a filter of equations says of a row in which null is a value like others. -/
def reading (e : Expr) : Option Bool :=
  match e with
  | compare op l r => compareReading map repr row same op l r
  | and l r => (reading l).bind fun s => (reading r).map s.and
  | or l r => (reading l).bind fun s => (reading r).map s.or
  | not e => (reading e).map Bool.not
  | call .all (constant (.list items)) [lambda p body] =>
    (items.mapM fun v => reading (body.substitute p v)).map fun bs => bs.all id
  | call .any (constant (.list items)) [lambda p body] =>
    (items.mapM fun v => reading (body.substitute p v)).map fun bs => bs.any id
  | _ => none
termination_by e.size
decreasing_by all_goals simp only [size, sizeAll, size_substitute]; omega

end Expr

/-! ### Plain truth -/

theorem Truth.ofBool_and (s t : Bool) : (Truth.ofBool s).and (.ofBool t) = .ofBool (s && t) := by
  cases s <;> cases t <;> rfl

theorem Truth.ofBool_or (s t : Bool) : (Truth.ofBool s).or (.ofBool t) = .ofBool (s || t) := by
  cases s <;> cases t <;> rfl

/-- What a conjunction says of plain truth values. -/
def Conjunction.plain : Conjunction → List Bool → Bool
  | and, bs => bs.all id
  | or, bs => bs.any id

theorem Conjunction.truth_ofBool (conjunction : Conjunction) (bs : List Bool) :
    conjunction.truth (bs.map Truth.ofBool) = .ofBool (conjunction.plain bs) := by
  induction bs with
  | nil => cases conjunction <;> rfl
  | cons b bs ih =>
    cases conjunction with
    | and =>
      show (Truth.ofBool b).and (Conjunction.and.truth (bs.map Truth.ofBool)) = _
      rw [ih, Truth.ofBool_and]
      rfl
    | or =>
      show (Truth.ofBool b).or (Conjunction.or.truth (bs.map Truth.ofBool)) = _
      rw [ih, Truth.ofBool_or]
      rfl

namespace Predicate

variable {map : EntityMap} {repr : EnumRepr} {I : Interpretation} {row : StoredRow}
  {same : StoredRow → Field → Value → Bool} {b : Bindings} {whole : Expr} {name : String}
  {p : Predicate} {v : Value}

/-! ### What is settled -/

variable (I row) in
/-- The predicate has a plain verdict and its complement the opposite one. -/
structure Settled (p : Predicate) (t : Bool) : Prop where
  verdict : p.verdict I row = .ofBool t
  negate : p.negate.verdict I row = .ofBool !t

/-- A group is settled by its verdict, since its complement is negated as a whole. -/
theorem Settled.of_group {conjunction : Conjunction} {negated : Bool} {items : List Predicate}
    {t : Bool} (h : (group conjunction negated items).verdict I row = .ofBool t) :
    Settled I row (.group conjunction negated items) t := by
  refine ⟨h, ?_⟩
  have hnot : (Predicate.negate (.group conjunction negated items)).verdict I row =
      ((group conjunction negated items).verdict I row).not := Truth.signed_not negated _
  rw [hnot, h, Truth.not_ofBool]

theorem Settled.not {t : Bool} (h : Settled I row p t) : Settled I row p.negate !t := by
  refine ⟨h.negate, ?_⟩
  have hnegate : p.negate.negate = p := by
    cases p with
    | condition c => simp only [Predicate.negate, Condition.negate, Operator.negate_negate]
    | group conjunction negated items => simp only [Predicate.negate, Bool.not_not]
  rw [hnegate, h.verdict, Bool.not_not]

/-- A test for null is settled. -/
theorem settled_isNull (field : Field) :
    Settled I row (.condition (.make field .isNull .null)) (row field.name).isNull :=
  ⟨rfl, rfl⟩

theorem settled_isNotNull (field : Field) :
    Settled I row (.condition (.make field .isNotNull .null)) (!(row field.name).isNull) := by
  refine ⟨rfl, ?_⟩
  rw [Bool.not_not]
  rfl

/-! ### Equations -/

/-- An equation with the test that the column is not null: where the equation is unknown, the test
fails. -/
theorem settled_equal (hI : I.Equates same) (field : Field) (hv : v.isNull = false) :
    Settled I row
      (.group .and false
        [.condition (.make field .equal v), .condition (.make field .isNotNull .null)])
      (!(row field.name).isNull && same row field v) := by
  apply Settled.of_group
  show (I row (.make field .equal v)).and ((Truth.ofBool !(row field.name).isNull).and .holds) = _
  cases hn : (row field.name).isNull with
  | true => rw [hI.null row field v .equal hn (.inl rfl)]; rfl
  | false => rw [hI.equal row field v hn hv]; exact Truth.and_holds _

/-- A predicate with the test that the column is null: where the predicate is unknown, the test holds. -/
theorem settled_orNull {field : Field} {t : Bool}
    (hnull : (row field.name).isNull = true → p.verdict I row = .unknown)
    (hplain : (row field.name).isNull = false → p.verdict I row = .ofBool t) :
    Settled I row (.group .or false [p, .condition (.make field .isNull .null)])
      ((row field.name).isNull || t) := by
  apply Settled.of_group
  show (p.verdict I row).or ((Truth.ofBool (row field.name).isNull).or .fails) = _
  cases hn : (row field.name).isNull with
  | true => rw [hnull hn]; rfl
  | false => rw [hplain hn]; exact Truth.or_fails _

theorem settled_notEqual (hI : I.Equates same) (field : Field) (hv : v.isNull = false) :
    Settled I row
      (.group .or false
        [.condition (.make field .notEqual v), .condition (.make field .isNull .null)])
      (!(!(row field.name).isNull && same row field v)) := by
  rw [Bool.not_and, Bool.not_not]
  exact settled_orNull (fun hn => hI.null row field v _ hn (.inr rfl))
    fun hn => hI.notEqual row field v hn hv

/-- An equation that also holds of null. -/
theorem settled_coalesce (hI : I.Equates same) (field : Field) (hv : v.isNull = false) :
    Settled I row
      (.group .or false
        [.condition (.make field .equal v), .condition (.make field .isNull .null)])
      ((row field.name).isNull || same row field v) :=
  settled_orNull (fun hn => hI.null row field v _ hn (.inl rfl))
    fun hn => hI.equal row field v hn hv

theorem settled_compareMember (hI : I.Equates same) {op : CompareOp} (hop : op = .eq ∨ op = .ne)
    (h : compareMember ⟨.threeValued, repr⟩ map b whole name op.toOperator v = .ok p) :
    ∃ t, (Expr.equalsValue map repr row (same row) v (.member name)).bind (Expr.signedReading op) =
      some t ∧ Settled I row p t := by
  obtain ⟨q, hq, hcompared⟩ := of_compareMember h
  have hstored (hv : v.isNull = false) : (q.columnValue repr v).isNull = false :=
    (Value.isNull_stored _ v).trans hv
  simp only [Expr.equalsValue, hq, Option.map_some, Option.bind_some, Expr.columnEquals]
  rcases hop with rfl | rfl
  · cases hcompared with
    | isNull hv =>
      rw [if_pos hv]
      exact ⟨_, rfl, settled_isNull (fieldOf q)⟩
    | equal hv =>
      rw [hv, if_neg Bool.false_ne_true]
      exact ⟨_, rfl, settled_equal hI (fieldOf q) (hstored hv)⟩
    | plain _ hdecided => exact absurd rfl (hdecided rfl).1
  · cases hcompared with
    | isNotNull hv =>
      rw [if_pos hv]
      exact ⟨_, rfl, settled_isNotNull (fieldOf q)⟩
    | notEqual hv =>
      rw [hv, if_neg Bool.false_ne_true]
      exact ⟨_, rfl, settled_notEqual hI (fieldOf q) (hstored hv)⟩
    | plain _ hdecided => exact absurd rfl (hdecided rfl).2

theorem settled_compareCoalesce (hI : I.Equates same) {op : CompareOp} {fallback : Value}
    (h : compareCoalesce ⟨.threeValued, repr⟩ map b whole name fallback op.toOperator v = .ok p) :
    ∃ t, (Expr.equalsValue map repr row (same row) v
      (.coalesce (.member name) (.constant fallback))).bind (Expr.signedReading op) = some t ∧
        Settled I row p t := by
  obtain ⟨hop, hv, hsame, q, hq, rfl⟩ := of_compareCoalesce h
  obtain rfl : op = .eq := by
    cases op with
    | eq => rfl
    | _ => cases hop
  have hstored : (q.columnValue repr v).isNull = false := (Value.isNull_stored _ v).trans hv
  simp only [Expr.equalsValue, hq, Option.map_some, Option.bind_some, Expr.columnEquals, hv,
    Bool.false_eq_true, if_false, hsame]
  refine ⟨_, rfl, ?_⟩
  have hsettled : Settled I row _ ((row q.column).isNull || same row _ _) :=
    settled_coalesce hI (fieldOf q) hstored
  cases hn : (row q.column).isNull with
  | true => simpa [fieldOf, hn] using hsettled
  | false => simpa [fieldOf, hn] using hsettled

theorem settled_compareSubject (hI : I.Equates same) {op : CompareOp} (hop : op = .eq ∨ op = .ne)
    {subject : Expr}
    (h : compareSubject ⟨.threeValued, repr⟩ map b whole op.toOperator v subject = .ok p) :
    ∃ t, (Expr.equalsValue map repr row (same row) v (subject.bind b)).bind
      (Expr.signedReading op) = some t ∧ Settled I row p t := by
  obtain ⟨name, rfl, h⟩ | ⟨name, fallback, w, rfl, hw, h⟩ := of_compareSubject h
  · rw [Expr.bind_member]
    exact settled_compareMember hI hop h
  · rw [Expr.value?_eq_some_iff] at hw
    rw [Expr.bind_coalesce, Expr.bind_member, hw]
    exact settled_compareCoalesce hI h

theorem settled_compare (hI : I.Equates same) {op : CompareOp} (hop : op = .eq ∨ op = .ne)
    {l r : Expr} (h : compare ⟨.threeValued, repr⟩ map b op l r = .ok p) :
    ∃ t, Expr.compareReading map repr row (same row) op (l.bind b) (r.bind b) = some t ∧
      Settled I row p t := by
  obtain ⟨v, hv, h⟩ | ⟨hnone, v, hv, h⟩ := of_compare h
  · rw [Expr.value?_eq_some_iff] at hv
    rw [hv, Expr.compareReading]
    exact settled_compareSubject hI hop h
  · rw [Expr.value?_eq_some_iff] at hv
    -- equations and inequations keep their sides
    have hmirror : op.toOperator.mirror = op.toOperator := by
      rcases hop with rfl | rfl <;> rfl
    rw [hmirror] at h
    rw [hv, Expr.compareReading]
    · exact settled_compareSubject hI hop h
    · exact Expr.bind_ne_constant hnone

/-! ### Connectives and lists -/

theorem Settled.and {q r : Predicate} {s t : Bool} (hq : Settled I row q s)
    (hr : Settled I row r t) :
    Settled I row (.group .and false (itemsFor .and q ++ itemsFor .and r)) (s && t) := by
  apply Settled.of_group
  rw [Predicate.verdict, verdicts_append, Conjunction.truth_append]
  simp only [verdict_itemsFor, hq.verdict, hr.verdict, Truth.ofBool_and]
  rfl

theorem Settled.or {q r : Predicate} {s t : Bool} (hq : Settled I row q s)
    (hr : Settled I row r t) :
    Settled I row (.group .or false (itemsFor .or q ++ itemsFor .or r)) (s || t) := by
  apply Settled.of_group
  rw [Predicate.verdict, verdicts_append, Conjunction.truth_append]
  simp only [verdict_itemsFor, hq.verdict, hr.verdict, Truth.ofBool_or]
  rfl

/-- What stands for a call over nothing is settled. -/
theorem settled_overNothing {body : Expr} {conjunction : Conjunction}
    (h : overNothing map b whole body conjunction = .ok p) :
    Settled I row p (conjunction.plain []) := by
  obtain ⟨-, -, -, -, ⟨rfl, rfl⟩ | ⟨rfl, rfl⟩⟩ := of_overNothing h
  · exact ⟨rfl, rfl⟩
  · exact ⟨rfl, rfl⟩

/-- The verdicts of predicates that are made for the elements of a list and settled. -/
theorem settled_mapM {f : Value → Result Predicate} {g : Value → Option Bool} {items : List Value}
    {ps : List Predicate} (h : items.mapM f = .ok ps)
    (hfg : ∀ v q, f v = .ok q → ∃ t, g v = some t ∧ Settled I row q t) :
    ∃ ts, items.mapM g = some ts ∧ verdicts I row ps = ts.map Truth.ofBool := by
  rw [mapM_eq_ok_iff] at h
  induction h with
  | nil => exact ⟨[], rfl, rfl⟩
  | cons hv _ ih =>
    obtain ⟨t, hg, ht⟩ := hfg _ _ hv
    obtain ⟨ts, hgs, hts⟩ := ih
    refine ⟨t :: ts, ?_, ?_⟩
    · simp only [List.mapM_cons, hg, hgs, Option.bind_eq_bind, Option.bind_some, Option.pure_def]
    · rw [verdicts, ht.verdict, hts, List.map_cons]

/-- A call over a list is read as its body of all or of any of the elements. -/
theorem reading_quantified {same : Field → Value → Bool} {method : Method}
    {conjunction : Conjunction} {items : List Value} {param : String} {body : Expr}
    (hm : quantifier? method = some conjunction) :
    (Expr.call method (.constant (.list items)) [.lambda param body]).reading map repr row same =
      (items.mapM fun v => (body.substitute param v).reading map repr row same).map
        conjunction.plain := by
  cases method with
  | all => cases hm; rw [Expr.reading]; rfl
  | any => cases hm; rw [Expr.reading]; rfl
  | _ => cases hm

/-! ### The whole predicate -/

/-- The predicate made under bindings is settled as the filter with the bindings in place is read. -/
theorem settled_ofExpr_bind (hI : I.Equates same) (e : Expr) (b : Bindings) (p : Predicate)
    (he : e.ofEqualities = true) (h : ofExpr ⟨.threeValued, repr⟩ map b e = .ok p) :
    ∃ t, (e.bind b).reading map repr row (same row) = some t ∧ Settled I row p t := by
  replace h := becomes_of_ofExpr h
  induction h with
  | member | notMember => cases he
  | compare h =>
    rw [Expr.bind_compare, Expr.reading]
    exact settled_compare hI (by simpa [Expr.ofEqualities] using he) h
  | and _ _ ihl ihr =>
    rw [Expr.ofEqualities, Bool.and_eq_true] at he
    obtain ⟨t, ht, hl⟩ := ihl he.1
    obtain ⟨u, hu, hr⟩ := ihr he.2
    rw [Expr.bind_and, Expr.reading, ht, hu]
    exact ⟨t && u, rfl, hl.and hr⟩
  | or _ _ ihl ihr =>
    rw [Expr.ofEqualities, Bool.and_eq_true] at he
    obtain ⟨t, ht, hl⟩ := ihl he.1
    obtain ⟨u, hu, hr⟩ := ihr he.2
    rw [Expr.bind_or, Expr.reading, ht, hu]
    exact ⟨t || u, rfl, hl.or hr⟩
  | not _ ih =>
    rw [Expr.ofEqualities] at he
    obtain ⟨t, ht, hsettled⟩ := ih he
    rw [Expr.bind_not, Expr.reading, ht]
    exact ⟨!t, rfl, hsettled.not⟩
  | @overNothing b _ conjunction target body param p hm ht h =>
    rw [Expr.value?_eq_some_iff] at ht
    rw [Expr.bind_call, ht, Expr.bind_lambda, reading_quantified hm]
    exact ⟨conjunction.plain [], rfl, settled_overNothing h⟩
  | @overItems b _ conjunction target body param items ps hm ht _ hps _ ih =>
    rw [Expr.ofEqualities, Bool.and_eq_true] at he
    rw [Expr.value?_eq_some_iff] at ht
    obtain ⟨ts, hts, hverdicts⟩ : ∃ ts, (items.mapM fun v =>
        ((body.bind (Expr.without b param)).substitute param v).reading map repr row (same row)) =
          some ts ∧ verdicts I row ps = ts.map Truth.ofBool :=
      settled_mapM hps fun v q hq => by
        rw [Expr.substitute_bind_without]
        exact ih v q hq he.2
    rw [Expr.bind_call, ht, Expr.bind_lambda, reading_quantified hm, hts]
    refine ⟨conjunction.plain ts, rfl, .of_group ?_⟩
    rw [Predicate.verdict, hverdicts, Conjunction.truth_ofBool]
    rfl
  | @call _ _ _ arg _ ha _ _ =>
    cases arg with
    | lambda param body => exact (ha param body rfl).elim
    | _ => cases he

end Predicate

/-- **Filters of equations are never undecided.** Under three-valued nulls, where the predicate of a
filter of equations can be made, the filter has a reading in which null is a value that equals nothing
but itself, on every row; and the verdict of the predicate is this reading, so it is never unknown. -/
theorem verdict_ofExpr_ofEqualities (map : EntityMap) (repr : EnumRepr) (I : Interpretation)
    (same : StoredRow → Field → Value → Bool) (hI : I.Equates same) (e : Expr)
    (he : e.ofEqualities = true) (g : Group)
    (h : Group.ofExpr ⟨.threeValued, repr⟩ map e = .ok g) (row : StoredRow) :
    ∃ t, e.reading map repr row (same row) = some t ∧ g.verdict I row = .ofBool t := by
  unfold Group.ofExpr at h
  split at h
  case h_1 conjunction negated items hp =>
    cases h
    obtain ⟨t, ht, hsettled⟩ : ∃ t, e.reading map repr row (same row) = some t ∧
        Predicate.Settled I row (.group conjunction negated items) t :=
      Predicate.settled_ofExpr_bind hI e [] _ he hp
    exact ⟨t, ht, hsettled.verdict⟩
  case h_2 c hp =>
    cases h
    obtain ⟨t, ht, hsettled⟩ : ∃ t, e.reading map repr row (same row) = some t ∧
        Predicate.Settled I row (.condition c) t :=
      Predicate.settled_ofExpr_bind hI e [] _ he hp
    refine ⟨t, ht, ?_⟩
    rw [← hsettled.verdict]
    exact Conjunction.truth_singleton .and _
  case h_3 => cases h

/-! ### A filter with nulls on both sides -/

/-- In plain comparisons an equation with a null column is unknown, and with another one plain. -/
theorem Comparisons.equates_plain :
    Comparisons.plain.interpretation.Equates fun row field v => (row field.name).equal v where
  equal := by
    intro row field v hrow hv
    show scalarPlain .equal (row field.name) v = _
    simp [scalarPlain, compares, hrow, hv]
  notEqual := by
    intro row field v hrow hv
    show scalarPlain .notEqual (row field.name) v = _
    simp [scalarPlain, compares, hrow, hv]
  null := by
    intro row field v op hrow hop
    rcases hop with rfl | rfl
    · show scalarPlain .equal (row field.name) v = _
      simp [scalarPlain, hrow]
    · show scalarPlain .notEqual (row field.name) v = _
      simp [scalarPlain, hrow]

namespace Sample

/-- The age is none of `[3, null]`, which is said by an inequation for every element under two
negations. -/
def aged : Expr :=
  .not (.not (.call .all (.constant (.list [.int 3, .null]))
    [.lambda "v" (.compare .ne (.parameter "v") (.member "Age"))]))

/-- A person without an age. -/
def unaged : StoredRow := fun column => if column = "active" then .bool true else .null

/-- The group that the filter becomes. -/
def agedGroup : Group :=
  .of .and [.group .or false [ageIs .notEqual (.int 3), ageIs .isNull .null],
    ageIs .isNotNull .null]

end Sample

/-- The filter is read as false of a row without an age and fails there, although its inequation with
the number is unknown; of a row with another age it is true and holds. -/
theorem verdict_ofExpr_ofEqualities_aged :
    Group.ofExpr ⟨.threeValued, .name⟩ Sample.people Sample.aged = .ok Sample.agedGroup ∧
      Comparisons.plain.interpretation Sample.unaged
        (.make ⟨"age", some .int32⟩ .notEqual (.int 3)) = .unknown ∧
      (Sample.agedGroup.verdict Comparisons.plain.interpretation Sample.unaged = .fails ∧
        Sample.aged.reading Sample.people .name Sample.unaged
          (fun field v => (Sample.unaged field.name).equal v) = some false) ∧
      Sample.agedGroup.verdict Comparisons.plain.interpretation Sample.five = .holds ∧
        Sample.aged.reading Sample.people .name Sample.five
          (fun field v => (Sample.five field.name).equal v) = some true := by
  have hgroup : Group.ofExpr ⟨.threeValued, .name⟩ Sample.people Sample.aged =
      .ok Sample.agedGroup := rfl
  have hunaged : Sample.agedGroup.verdict Comparisons.plain.interpretation Sample.unaged = .fails := by
    decide
  have hfive : Sample.agedGroup.verdict Comparisons.plain.interpretation Sample.five = .holds := by
    decide
  have hreading := verdict_ofExpr_ofEqualities Sample.people .name _ _ Comparisons.equates_plain
    Sample.aged rfl Sample.agedGroup hgroup
  refine ⟨hgroup, by decide, ⟨hunaged, ?_⟩, hfive, ?_⟩
  · obtain ⟨t, ht, hverdict⟩ := hreading Sample.unaged
    rw [hunaged] at hverdict
    cases t with
    | false => exact ht
    | true => cases hverdict
  · obtain ⟨t, ht, hverdict⟩ := hreading Sample.five
    rw [hfive] at hverdict
    cases t with
    | false => cases hverdict
    | true => exact ht

end EntitySql
