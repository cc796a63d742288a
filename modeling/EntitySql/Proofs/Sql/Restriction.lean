import EntitySql.Proofs.Sql.Alignment

/-!
# Updates and deletions are restricted

An update and a deletion change rows that are there, and a condition says which ones. The builder has
two sources for it, the filter and the keys, and decides between them by the filter, while the columns
of an update and the keys of a deletion come from rules of their own. Both agree: there are no keys if
and only if there is a filter (`of_update`, `of_delete`).

`readChanges` takes from the tokens of a text what its updates and deletions set and under which
condition, and would find a statement without one. The main statement, **`changes_restricted`**, is that
none is found. Each statement has the condition of the filter, or asks for every key of its row; and an
update sets something, but neither a primary nor a read-only column, nor one by which rows are told.
-/

namespace EntitySql

/-! ### The columns of a change -/

namespace Request

variable {r : Request}

/-- The column may be set in a row that is there: it is asked for, is neither primary nor read only, and
has no name by which rows are told. -/
structure Settable (r : Request) (c : Column) : Prop where
  asked : c ∈ r.fields
  primary : c.primary = false
  readOnly : c.readOnly = false
  qualifiers : ∀ name ∈ r.qualifiers.getD [], c.isNamed name = false
  keys : r.activePredicate = none → ∀ ks, r.rowKeys = .ok ks → ∀ k ∈ ks, c.isNamed k.name = false

theorem isNamed_comm (c k : Column) : c.isNamed k.name = k.isNamed c.name :=
  equalIgnoringCase_comm _ _

/-- Where a set has a column of a name, no column outside of the set has it. -/
theorem isNamed_of_contains_eq_false {set : List Column} {c : Column}
    (h : contains set c = false) : ∀ k ∈ set, c.isNamed k.name = false := by
  intro k hk
  rw [isNamed_comm]
  simpa using List.any_eq_false.mp h k hk

theorem isNamed_of_qualifier {name : String} {k : Column} (h : r.qualifier name = .ok k) :
    k.isNamed name = true := by
  unfold qualifier at h
  split at h
  · next hfield =>
    cases h
    simpa using List.find?_some hfield
  · cases h

/-- A column that has the name of none of the qualifying columns has the name of no qualifier. -/
theorem isNamed_of_explicitQualifiers {ks : List Column} (h : r.explicitQualifiers = .ok ks)
    {c : Column} (hc : ∀ k ∈ ks, c.isNamed k.name = false) :
    ∀ name ∈ r.qualifiers.getD [], c.isNamed name = false := by
  intro name hname
  cases hq : r.qualifiers with
  | none =>
    rw [hq] at hname
    cases hname
  | some names =>
    rw [hq] at hname
    rw [explicitQualifiers, hq] at h
    obtain ⟨k, hk, hqualifier⟩ := exists_of_mem_left (mapM_eq_ok_iff.mp h) hname
    have hnamed := isNamed_of_qualifier hqualifier
    have hother := hc k hk
    rw [isNamed_comm] at hother
    rw [Column.isNamed, equalIgnoringCase_comm, ← equalIgnoringCase_congr hnamed]
    exact hother

/-- The keys of a row are the qualifying columns where there are any. -/
theorem rowKeys_of_explicitQualifiers {explicit ks : List Column}
    (hexplicit : r.explicitQualifiers = .ok explicit) (h : r.rowKeys = .ok ks) :
    explicit = [] ∨ ks = explicit := by
  obtain ⟨given, hgiven, h⟩ := bind_eq_ok_iff.mp h
  obtain rfl := Except.ok.inj (hgiven.symm.trans hexplicit)
  split at h
  · next hempty => exact .inl (by simpa using hempty)
  · cases h
    exact .inr rfl

/-- An update sets what is left of the columns asked for, which is something. -/
theorem exists_excluded {u : UpdateColumns} (h : r.updateColumns = .ok u) :
    ∃ excluded, (if r.activePredicate.isSome then r.explicitQualifiers else r.rowKeys) = .ok excluded ∧
      u.set = r.fields.filter (fun c => !c.readOnly && !c.primary && !contains excluded c) ∧
      u.set ≠ [] := by
  unfold updateColumns at h
  cases hactive : r.activePredicate.isSome with
  | true | false =>
    rw [hactive] at h
    obtain ⟨excluded, hexcluded, h⟩ := bind_eq_ok_iff.mp h
    simp only at h
    split at h
    · cases h
    · next hne =>
      cases h
      exact ⟨excluded, hexcluded, rfl, by simpa using hne⟩

/-- **An update sets something**, and only what may be set. -/
theorem updateColumns_settable {u : UpdateColumns} (h : r.updateColumns = .ok u) :
    u.set ≠ [] ∧ ∀ c ∈ u.set, r.Settable c := by
  obtain ⟨excluded, hexcluded, hset, hne⟩ := exists_excluded h
  refine ⟨hne, fun c hc => ?_⟩
  rw [hset] at hc
  obtain ⟨hasked, hc⟩ := List.mem_filter.mp hc
  simp only [Bool.and_eq_true, Bool.not_eq_true'] at hc
  obtain ⟨⟨hreadOnly, hprimary⟩, hcontains⟩ := hc
  have hother := isNamed_of_contains_eq_false hcontains
  cases hactive : r.activePredicate with
  | some g =>
    rw [hactive] at hexcluded
    refine ⟨hasked, hprimary, hreadOnly, isNamed_of_explicitQualifiers hexcluded hother, ?_⟩
    rw [hactive]
    nofun
  | none =>
    rw [hactive] at hexcluded
    refine ⟨hasked, hprimary, hreadOnly, ?_, fun _ ks hks => ?_⟩
    · -- the qualifying columns are the keys, or there are none
      obtain ⟨explicit, hexplicit, -⟩ := bind_eq_ok_iff.mp hexcluded
      refine isNamed_of_explicitQualifiers hexplicit fun k hk => ?_
      rcases rowKeys_of_explicitQualifiers hexplicit hexcluded with rfl | rfl
      · cases hk
      · exact hother k hk
    · obtain rfl := Except.ok.inj (hks.symm.trans hexcluded)
      exact hother

/-- A column that may be set shares its name with no primary or read-only column, if columns of one name
do not differ in this. -/
theorem Settable.isNamed_eq_false {c p : Column} (h : r.Settable c)
    (hp : ∀ f ∈ r.fields, p.isNamed f.name = true → f.primary = p.primary ∧ f.readOnly = p.readOnly)
    (hkept : p.primary = true ∨ p.readOnly = true) : p.isNamed c.name = false := by
  by_contra hnamed
  obtain ⟨hprimary, hreadOnly⟩ := hp c h.asked (by simpa using hnamed)
  rw [h.primary] at hprimary
  rw [h.readOnly] at hreadOnly
  rcases hkept with hkept | hkept
  · rw [hkept] at hprimary
    cases hprimary
  · rw [hkept] at hreadOnly
    cases hreadOnly

end Request

namespace Sql

/-! ### Changes -/

/-- A change of rows that are there: what is set, or nothing for a deletion, and the tokens of the
condition if there is one. -/
structure Change where
  set : Option (List (String × Operand))
  condition : Option (List Token)

/-- The tokens of a condition. -/
def SearchCondition.tokens (d : Dialect) (c : SearchCondition) : List Token :=
  (c.fragments true).tokens d

/-- The change that a statement makes. The other statements make none of this kind. -/
def Statement.change? (d : Dialect) : Statement → Option Change
  | .update _ set filter => some ⟨some (set.map Assignment.pair), some (filter.tokens d)⟩
  | .delete _ filter => some ⟨none, filter.map (SearchCondition.tokens d)⟩
  | _ => none

/-! ### Reading -/

/-- Reads everything in front of this token. -/
def readUpTo (t : Token) : Reading (List Token) := fun ts =>
  some (ts.takeWhile (· ≠ t), ts.dropWhile (· ≠ t))

/-- Reads the condition of a statement, which goes up to the semicolon, if there is one. -/
def readClause : Reading (Option (List Token)) := do
  if ← optionally (token (.word "WHERE")) then some <$> readUpTo (.sign ";") else return none

/-- Reads an update or a deletion. -/
def readChange : Reading Change := do
  if ← optionally (token (.word "UPDATE")) then
    let _ ← readTable
    token (.word "SET")
    let set ← readCommas readPair
    let condition ← readClause
    token (.sign ";")
    return ⟨some set, condition⟩
  else
    tokens [.word "DELETE", .word "FROM"]
    let _ ← readTable
    let condition ← readClause
    token (.sign ";")
    return ⟨none, condition⟩

/-- Reads at most `n` updates and deletions. -/
def readChangesUpTo : Nat → List Token → Option (List Change)
  | _, [] => some []
  | 0, _ :: _ => none
  | n + 1, ts => do
    let (c, rest) ← readChange ts
    let cs ← readChangesUpTo n rest
    return c :: cs

/-- The changes of a text that is made of updates and deletions. -/
def readChanges (ts : List Token) : Option (List Change) := readChangesUpTo ts.length ts

example : (readChanges [.word "DELETE", .word "FROM", .name "T", .sign ";"]).map
    (List.map Change.condition) = some [none] := by decide

/-! ### No statement ends in a condition -/

namespace Fragments.Unended

theorem placeholder {p : String} {fs : Fragments} (h : fs.Unended) :
    Fragments.Unended (.placeholder p :: fs) := by
  intro s hs
  rcases List.mem_cons.mp hs with hs | hs
  · cases hs
  · exact h s hs

theorem separated {separator : String} (hs : ';' ∉ separator.toList) {items : List Fragments}
    (h : ∀ fs ∈ items, fs.Unended) : (separated separator items).Unended := by
  induction items with
  | nil => exact .nil
  | cons fs rest ih =>
    obtain ⟨hfs, hrest⟩ := List.forall_mem_cons.mp h
    cases rest with
    | nil => exact hfs
    | cons gs rest => exact hfs.append (.text hs (ih hrest))

theorem pathFragments (parts : List String) : (pathFragments parts).Unended := by
  refine separated (by decide) fun fs hfs => ?_
  obtain ⟨n, -, rfl⟩ := List.mem_map.mp hfs
  exact .name .nil

theorem lowered {fs : Fragments} (h : fs.Unended) : (lowered fs).Unended :=
  .text (by decide) (h.append (.text (by decide) .nil))

end Fragments.Unended

theorem unended_comparison (operator : Operator) (caseSensitive : Bool) {left right : Fragments}
    (hleft : left.Unended) (hright : right.Unended) :
    (comparison operator caseSensitive left right).Unended := by
  have hsign : ';' ∉ (" " ++ operator.symbol ++ " ").toList := by cases operator <;> decide
  unfold comparison
  split
  · exact hleft.append (.text hsign hright)
  · exact hleft.lowered.append (.text hsign hright.lowered)

theorem unended_membershipTest (column : List String) (operator : Operator) (ps : List String) :
    (membershipTest column operator ps).Unended := by
  unfold membershipTest
  split
  · refine .text ?_ .nil
    split <;> decide
  · have hopen : ';' ∉ (" " ++ operator.symbol ++ " (").toList := by cases operator <;> decide
    have hlist : (commaList (fun p => [.placeholder p]) ps).Unended := by
      refine .separated (by decide) fun fs hfs => ?_
      obtain ⟨p, -, rfl⟩ := List.mem_map.mp hfs
      exact .placeholder .nil
    exact ((Fragments.Unended.pathFragments column).append (.text hopen hlist)).append
      (.text (by decide) .nil)

theorem unended_joined (conjunction : Conjunction) {items : List Fragments}
    (h : ∀ fs ∈ items, fs.Unended) : (joined conjunction items).Unended := by
  unfold joined
  split
  · exact .text (by cases conjunction <;> decide) .nil
  · exact .separated (by cases conjunction <;> decide) h

theorem unended_bracketed (outermost negated : Bool) {body : Fragments} (h : body.Unended) :
    (bracketed outermost negated body).Unended := by
  have hclosing : Fragments.Unended [.text ")"] := .text (by decide) .nil
  unfold bracketed
  split
  · exact .text (by decide) (h.append hclosing)
  · split
    · exact h
    · exact .text (by decide) (h.append hclosing)

mutual
/-- No statement ends in a condition. -/
theorem SearchCondition.unended (outermost : Bool) :
    ∀ c : SearchCondition, (c.fragments outermost).Unended
  | .nullTest column operator => by
    have hsymbol : ';' ∉ (" " ++ operator.symbol).toList := by cases operator <;> decide
    exact (Fragments.Unended.pathFragments column).append (.text hsymbol .nil)
  | .compare column operator caseSensitive p =>
    unended_comparison operator caseSensitive (.pathFragments column) (.placeholder .nil)
  | .membership column operator ps => unended_membershipTest column operator ps
  | .group conjunction negated items =>
    unended_bracketed outermost negated
      (unended_joined conjunction (SearchCondition.unended_fragmentsOf items))

theorem SearchCondition.unended_fragmentsOf :
    ∀ cs : List SearchCondition, ∀ fs ∈ fragmentsOf cs, fs.Unended
  | [], _, h => by cases h
  | c :: rest, fs, h => by
    rcases List.mem_cons.mp h with rfl | h
    · exact SearchCondition.unended false c
    · exact SearchCondition.unended_fragmentsOf rest fs h
end

/-! ### Reading back -/

variable {d : Dialect}

theorem readUpTo_append {t : Token} {ts : List Token} (h : t ∉ ts) (rest : List Token) :
    readUpTo t (ts ++ t :: rest) = some (ts, t :: rest) := by
  have hall : ∀ u ∈ ts, decide (u ≠ t) = true := by
    intro u hu
    rw [decide_eq_true_eq]
    rintro rfl
    exact h hu
  rw [readUpTo, List.takeWhile_append_of_pos hall, List.dropWhile_append_of_pos hall,
    List.takeWhile_cons_of_neg (by simp), List.dropWhile_cons_of_neg (by simp), List.append_nil]

theorem readClause_append (filter : Option SearchCondition) (rest : List Token) :
    readClause ((whereClause filter).tokens d ++ .sign ";" :: rest) =
      some (filter.map (SearchCondition.tokens d), .sign ";" :: rest) := by
  cases filter with
  | none =>
    have hno : optionally (token (.word "WHERE")) (.sign ";" :: rest) =
      some (false, .sign ";" :: rest) := optionally_none (token_ne (by simp) rest)
    simp [whereClause, Fragments.tokens_nil, readClause, hno]
  | some c =>
    have hcondition := readUpTo_append (t := .sign ";")
      (semicolon_notMem_tokens (d := d) (c.unended true)) rest
    simp [whereClause, lexes_where.tokens_text, readClause, optionally_token_cons, hcondition,
      SearchCondition.tokens]

theorem head?_whereClause_ne {t : Token} (ht : t ≠ .word "WHERE") (ht' : t ≠ .sign ";")
    (filter : Option SearchCondition) (rest : List Token) :
    ((whereClause filter).tokens d ++ .sign ";" :: rest).head? ≠ some t := by
  cases filter with
  | none => simpa [whereClause, Fragments.tokens_nil] using ht'.symm
  | some c => simpa [whereClause, lexes_where.tokens_text] using ht.symm

/-- The update sets something that can be told from its text. -/
def Statement.Changes : Statement → Prop
  | .update _ set _ => set ≠ [] ∧ ∀ x ∈ set, x.value.Readable
  | .delete _ _ => True
  | _ => False

theorem readChange_append {s : Statement} (hc : s.Clean) (h : s.Changes) (rest : List Token) :
    ∃ c, s.change? d = some c ∧ readChange (s.body.tokens d ++ .sign ";" :: rest) = some (c, rest) := by
  cases s with
  | update table set filter =>
    have hupdate : Lexes "UPDATE " [.word "UPDATE"] := by decide
    have hset : Lexes " SET " [.word "SET"] := by decide
    have htable (us : List Token) := readTable_append (d := d) hc.1 (.word "SET" :: us) (by simp)
    have hpairs := readCommas_assignmentList (d := d) h.1 h.2 _
      (head?_whereClause_ne (d := d) (by simp) (by simp) (some filter) rest)
    refine ⟨_, rfl, ?_⟩
    simp [Statement.body, Fragments.tokens_append, hupdate.tokens_text, hset.tokens_text, readChange,
      optionally_token_cons, htable, hpairs, readClause_append]
  | delete table filter =>
    have hdelete : Lexes "DELETE FROM " [.word "DELETE", .word "FROM"] := by decide
    have hno (us : List Token) : optionally (token (.word "UPDATE")) (.word "DELETE" :: us) =
      some (false, .word "DELETE" :: us) := optionally_none (token_ne (by simp) us)
    have htable := readTable_append (d := d) hc _
      (head?_whereClause_ne (d := d) (by simp) (by simp) filter rest)
    refine ⟨_, rfl, ?_⟩
    simp [Statement.body, Fragments.tokens_append, hdelete.tokens_text, readChange, hno, tokens,
      htable, readClause_append]
  | _ => cases h

/-- The changes of updates and deletions are read from their tokens. -/
theorem readChanges_statementList {ss : List Statement} (hc : ∀ s ∈ ss, s.Clean)
    (h : ∀ s ∈ ss, s.Changes) :
    readChanges ((statementList ss).tokens d) = some (ss.filterMap (Statement.change? d)) := by
  have hall : ∀ ss : List Statement, (∀ s ∈ ss, s.Clean) → (∀ s ∈ ss, s.Changes) →
      ∀ n, ((statementList ss).tokens d).length ≤ n → readChangesUpTo n
        ((statementList ss).tokens d) = some (ss.filterMap (Statement.change? d)) := by
    intro ss
    induction ss with
    | nil => exact fun _ _ n _ => by cases n <;> rfl
    | cons s ss ih =>
      intro hc h n hn
      obtain ⟨hs, hss⟩ := List.forall_mem_cons.mp h
      obtain ⟨hcs, hcss⟩ := List.forall_mem_cons.mp hc
      have hcons : (statementList (s :: ss)).tokens d =
          s.body.tokens d ++ .sign ";" :: (statementList ss).tokens d := by
        rw [tokens_statementList, List.flatMap_cons, ← tokens_statementList, List.append_assoc]
        rfl
      rw [hcons, List.length_append, List.length_cons] at hn
      obtain ⟨k, rfl⟩ : ∃ k, n = k + 1 := ⟨n - 1, by omega⟩
      obtain ⟨c, hchange, hread⟩ := readChange_append (d := d) hcs hs ((statementList ss).tokens d)
      rw [hcons, readChangesUpTo, hread]
      · change (readChangesUpTo k _).bind _ = _
        rw [ih hcss hss k (by omega), List.filterMap_cons_some hchange]
        rfl
      · simp
  exact hall ss hc h _ (Nat.le_refl _)

/-! ### What a change may do -/

/-- The tests that keys have the values of their parameters in a row. -/
def keyTokens (ks : List Column) (row : Option Nat) : List Token :=
  withBetween (.word "AND") <| ks.map fun k =>
    [.name k.name, .sign "=", .placeholder (k.parameterAt row)]

/-- The condition is that of the filter of the request, or asks for every key of the row. -/
inductive Restricts (d : Dialect) (op : Operation) (r : Request) (row : Option Nat) :
    List Token → Prop where
  | filter {g : Group} (given : r.activePredicate = some g) {reserved : List String}
      (clear : r.reservedNames op = .ok reserved) :
      Restricts d op r row (lex d (groupText d g reserved).toList)
  | keys (none : r.activePredicate = none) {ks : List Column} (found : r.rowKeys = .ok ks)
      (nonempty : ks ≠ []) : Restricts d op r row (keyTokens ks row)

/-- Something is set, and only columns that may be set, each to its parameter in the row. No primary or
read-only column loses its value, as long as the columns of its name agree in what it is. -/
structure SetsOwn (r : Request) (row : Option Nat) (xs : List (String × Operand)) : Prop where
  nonempty : xs ≠ []
  settable : ∀ x ∈ xs, ∃ c, r.Settable c ∧ x = (c.name, .placeholder (c.parameterAt row))
  keeps : ∀ p : Column,
    (∀ f ∈ r.fields, p.isNamed f.name = true → f.primary = p.primary ∧ f.readOnly = p.readOnly) →
      p.primary = true ∨ p.readOnly = true → ∀ x ∈ xs, p.isNamed x.1 = false

/-- The change has a condition, and sets what it may set unless it deletes. -/
structure Change.Restricted (d : Dialect) (op : Operation) (r : Request) (row : Option Nat)
    (c : Change) : Prop where
  condition : ∃ ts, c.condition = some ts ∧ Restricts d op r row ts
  deletes : op = .delete → c.set = none
  sets : op ≠ .delete → ∃ xs, c.set = some xs ∧ SetsOwn r row xs

/-- Whether the operation changes rows that are there and inserts none. -/
def changesRows : Operation → Bool
  | .update | .updateAll _ | .delete => true
  | _ => false

variable {op : Operation} {r : Request} {u : Request.UpdateColumns} {ss : List Statement}

theorem setsOwn_assignments (hu : r.updateColumns = .ok u) (row : Option Nat) :
    SetsOwn r row ((assignments u.set row).map Assignment.pair) := by
  obtain ⟨hne, hsettable⟩ := Request.updateColumns_settable hu
  have hpairs : (assignments u.set row).map Assignment.pair =
      u.set.map fun c => (c.name, Operand.placeholder (c.parameterAt row)) := by
    rw [assignments, List.map_map]
    rfl
  rw [hpairs]
  refine ⟨by simpa using hne, fun x hx => ?_, fun p hp hkept x hx => ?_⟩
  · obtain ⟨c, hc, rfl⟩ := List.mem_map.mp hx
    exact ⟨c, hsettable c hc, rfl⟩
  · obtain ⟨c, hc, rfl⟩ := List.mem_map.mp hx
    exact (hsettable c hc).isNamed_eq_false hp hkept

theorem restricts_ofGroup {g : Group} (hg : r.activePredicate = some g) {reserved : List String}
    (h : r.reservedNames op = .ok reserved) (row : Option Nat) :
    Restricts d op r row ((SearchCondition.ofGroup g reserved).tokens d) := by
  have htokens : (SearchCondition.ofGroup g reserved).tokens d =
      lex d (groupText d g reserved).toList := by
    rw [groupText, String.toList_ofList,
      lex_render (SearchCondition.spaced true _) (legible_ofGroup g _ true)]
    rfl
  rw [htokens]
  exact .filter hg h

theorem restricts_keyCondition (hnone : r.activePredicate = none) {ks : List Column}
    (h : r.rowKeys = .ok ks) (row : Option Nat) :
    Restricts d op r row ((keyCondition ks row).tokens d) := by
  have hne := (Request.rowKeys_spec h).2
  have htokens : (keyCondition ks row).tokens d = keyTokens ks row := by
    rw [(tests_keyCondition ks row).1, SearchCondition.tokens,
      tokens_equalities _ (by simpa using hne), tests_equalities, keyTokens, List.map_map,
      List.map_map]
    rfl
  rw [htokens]
  exact .keys hnone h hne

/-- Statements that can be told from their text and make restricted changes, one for each row. -/
structure Restricted (d : Dialect) (op : Operation) (r : Request) (rows : List (Option Nat))
    (ss : List Statement) : Prop where
  changes : ∀ s ∈ ss, s.Changes
  restricted : List.Forall₂ (Change.Restricted d op r) rows (ss.filterMap (Statement.change? d))

theorem Restricted.one {s : Statement} {c : Change} (hs : s.Changes) (hc : s.change? d = some c)
    {row : Option Nat} (h : c.Restricted d op r row) : Restricted d op r [row] [s] := by
  refine ⟨by simpa using hs, ?_⟩
  rw [List.filterMap_cons_some hc]
  exact .cons h .nil

theorem Restricted.eachRow {f : Option Nat → Statement}
    (h : ∀ row, Restricted d op r [row] [f row]) (batch : Option Nat) :
    Restricted d op r (rowsOf batch) (eachRow batch fun row => [f row]) := by
  rw [eachRow_eq_flatMap]
  induction rowsOf batch with
  | nil => exact ⟨nofun, .nil⟩
  | cons row rows ih =>
    rw [List.flatMap_cons]
    refine ⟨List.forall_mem_append.mpr ⟨(h row).changes, ih.changes⟩, ?_⟩
    rw [List.filterMap_append]
    exact List.rel_append (h row).restricted ih.restricted

theorem readable_assignments (cs : List Column) (row : Option Nat) :
    ∀ x ∈ assignments cs row, x.value.Readable := by
  intro x hx
  obtain ⟨c, -, rfl⟩ := List.mem_map.mp hx
  trivial

theorem changes_update (hu : r.updateColumns = .ok u) (table : TableRef) (row : Option Nat)
    (filter : SearchCondition) : (Statement.update table (assignments u.set row) filter).Changes :=
  ⟨by simpa [assignments] using (Request.updateColumns_settable hu).1, readable_assignments _ _⟩

theorem restricted_update (hu : r.updateColumns = .ok u) {s : Statement}
    (h : update d r = .ok s) : Restricted d .update r [none] [s] := by
  obtain ⟨v, -, hv, h⟩ := of_update h
  obtain rfl := Except.ok.inj (hv.symm.trans hu)
  have hone (c : SearchCondition) (hc : Restricts d .update r none (c.tokens d)) :
      Restricted d .update r [none] [.update (tableRef d r) (assignments v.set none) c] :=
    .one (changes_update hu _ _ _) rfl
      ⟨⟨_, rfl, hc⟩, nofun, fun _ => ⟨_, rfl, setsOwn_assignments hu none⟩⟩
  obtain ⟨hactive, hrow, rfl⟩ | ⟨g, hactive, hkeys, rfl⟩ := h
  · exact hone _ (restricts_keyCondition hactive hrow none)
  · have hbound : r.boundColumns .update = .ok v.set := by
      rw [← List.append_nil v.set, ← hkeys]
      exact map_eq_ok_iff.mpr ⟨v, hu, rfl⟩
    have hreserved : r.reservedNames .update = .ok (v.set.map Column.parameterName) :=
      map_eq_ok_iff.mpr ⟨_, hbound, rfl⟩
    exact hone _ (restricts_ofGroup hactive hreserved none)

theorem restricted_updateAll (hu : r.updateColumns = .ok u) {n : Int64}
    (h : updateAll d r n = .ok ss) :
    Restricted d (.updateAll n) r (operationRows (.updateAll n)) ss := by
  obtain ⟨v, -, hnone, hv, -, -, rfl⟩ := of_updateAll h
  obtain rfl := Except.ok.inj (hv.symm.trans hu)
  have hkeys := Request.rowKeys_of_updateColumns hnone hu
  exact .eachRow (fun row => .one (changes_update hu _ _ _) rfl
    ⟨⟨_, rfl, restricts_keyCondition hnone hkeys row⟩, (by simp),
      fun _ => ⟨_, rfl, setsOwn_assignments hu row⟩⟩) (some _)

theorem restricted_delete {ks : List Column} (hks : r.deleteKeys = .ok ks) {s : Statement}
    (h : delete d r = .ok s) : Restricted d .delete r [none] [s] := by
  obtain ⟨keys, hkeys, h⟩ := of_delete h
  obtain rfl := Except.ok.inj (hkeys.symm.trans hks)
  have hone (c : SearchCondition) (hc : Restricts d .delete r none (c.tokens d)) :
      Restricted d .delete r [none] [.delete (tableRef d r) (some c)] := by
    have hchanges : (Statement.delete (tableRef d r) (some c)).Changes := trivial
    exact .one hchanges rfl ⟨⟨_, rfl, hc⟩, fun _ => rfl, (by simp)⟩
  obtain ⟨hactive, hrow, rfl⟩ | ⟨g, hactive, rfl, rfl⟩ := h
  · exact hone _ (restricts_keyCondition hactive hrow none)
  · have hreserved : r.reservedNames .delete = .ok [] := map_eq_ok_iff.mpr ⟨[], hks, rfl⟩
    rw [filterCondition, activeCondition_eq, hactive, Option.map_some]
    exact hone _ (restricts_ofGroup hactive hreserved none)

/-- The columns that a change binds, and what its statements are. -/
theorem restricted_statements (hop : changesRows op = true) (hh : r.hints = none)
    (h : statements d op r = .ok ss) :
    ∃ inputs, r.boundColumns op = .ok inputs ∧
      Renders r inputs (operationRows op) (writtenFilter op r inputs) ss ∧
        Restricted d op r (operationRows op) ss := by
  obtain ⟨inputs, hinputs⟩ := boundColumns_of_statements h
  have hf : merges op = true → r.FieldsApart := by
    intro hm
    cases op with
    | merge | mergeAll => cases hop
    | _ => cases hm
  refine ⟨inputs, hinputs, statements_renders hh hf h hinputs, ?_⟩
  cases op with
  | update =>
    obtain ⟨s, hs, rfl⟩ := map_eq_ok_iff.mp h
    obtain ⟨u, hu, rfl⟩ := map_eq_ok_iff.mp hinputs
    exact restricted_update hu hs
  | updateAll n =>
    obtain ⟨u, hu, rfl⟩ := map_eq_ok_iff.mp hinputs
    exact restricted_updateAll hu h
  | delete =>
    obtain ⟨s, hs, rfl⟩ := map_eq_ok_iff.mp h
    exact restricted_delete hinputs hs
  | _ => cases hop

/-- **No update and no deletion is unrestricted, and no update touches its keys.** The text of an
update, of a batch of updates and of a deletion, before it is tidied and after, has one statement for
each row. Its condition is that of the filter, or without a filter it asks that every key of the row has
the value of its parameter, of which there is at least one. An update sets at least one column, and only
columns that are neither primary nor read only nor qualifiers. -/
theorem changes_restricted (hop : changesRows op = true) (hh : r.hints = none) (hplain : r.Plain)
    (h : statements d op r = .ok ss) :
    ∃ cs, readChanges (lex d (rawText d ss)) = some cs ∧
      (∀ text, statementText d op r = .ok text → readChanges (lex d text.toList) = some cs) ∧
      List.Forall₂ (Change.Restricted d op r) (operationRows op) cs := by
  obtain ⟨inputs, hinputs, hrenders, hrestricted⟩ := restricted_statements hop hh h
  have hspaced := spaced_statementList hrenders.clean
  have hlegible := legible_statementList hplain hinputs hrenders
  have hread := readChanges_statementList (d := d) hrenders.clean hrestricted.changes
  rw [Fragments.tokens, ← lex_render hspaced hlegible, ← rawText] at hread
  refine ⟨_, hread, fun text htext => ?_, hrestricted.restricted⟩
  obtain ⟨ss', hss', rfl⟩ := map_eq_ok_iff.mp htext
  obtain rfl := Except.ok.inj (hss'.symm.trans h)
  rw [String.toList_ofList, rawText, lex_tidyChars hspaced hlegible]
  exact hread

namespace Sample

/-- How many pieces of an article there are. -/
def stock : Request :=
  let pieces : Column :=
    ⟨"Pieces", false, false, false, .int64, none, none, none, none, false, false, none, none⟩
  .make "Stock" [⟨"Article", true, false, false, .text, none, none, none, none, false, false, none, none⟩,
    pieces]

end Sample

/-- A batch of two updates is two statements with a condition. -/
theorem changes_restricted_stock :
    ∃ ss, statements .postgres (.updateAll 2) Sample.stock = .ok ss ∧
      ∃ c c', readChanges (lex .postgres (rawText .postgres ss)) = some [c, c'] ∧
        c.Restricted .postgres (.updateAll 2) Sample.stock (some 0) ∧
        c'.Restricted .postgres (.updateAll 2) Sample.stock (some 1) := by
  obtain ⟨ss, hss⟩ : ∃ ss, statements .postgres (.updateAll 2) Sample.stock = .ok ss := ⟨_, rfl⟩
  obtain ⟨cs, hread, -, hrestricted⟩ :=
    changes_restricted rfl rfl (Request.plain_make _ _) hss
  have hrows : operationRows (.updateAll 2) = [some 0, some 1] := by decide
  rw [hrows] at hrestricted
  obtain ⟨c, rest, hc, hrest, rfl⟩ := List.forall₂_cons_left_iff.mp hrestricted
  obtain ⟨c', none, hc', hnone, rfl⟩ := List.forall₂_cons_left_iff.mp hrest
  cases hnone
  exact ⟨ss, hss, c, c', hread, hc, hc'⟩

end Sql

end EntitySql
