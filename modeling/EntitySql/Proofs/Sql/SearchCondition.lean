import EntitySql.Proofs.Sql.Reading
import EntitySql.Proofs.Sql.Spacing
import EntitySql.Sql.SearchCondition

/-!
# Search conditions are read as they were meant

The text of a `SearchCondition` is spaced (`SearchCondition.spaced`), so a database sees its tokens one
after the other, and reads them as the formula of the condition (**`SearchCondition.readCondition`**):
every test as itself, every group as the conjunction or disjunction of its items or the complement of
that. A group is an operand because it stands in brackets; only the outermost one does not, and there
nothing follows it.
-/

namespace EntitySql.Sql

variable {d : Dialect}

/-! ### Spacing -/

theorem Spaced.oneText {a m : Side} {s : String} (plain : s.toList.all isPlain)
    (start : a = .tight → startsApart s) (stop : m = .loose → endsApart s) :
    Spaced a [.text s] m :=
  .text plain start stop (.nil id)

/-- Fragments that are apart stay apart with a separator between them. -/
theorem spaced_separated {separator : String} {items : List Fragments}
    (h : ∀ fs ∈ items, Spaced .loose fs .tight) (plain : separator.toList.all isPlain)
    (start : startsApart separator) (stop : endsApart separator) :
    Spaced .loose (separated separator items) .tight := by
  induction items with
  | nil => exact .nil fun _ => rfl
  | cons fs rest ih =>
    obtain ⟨hfs, hrest⟩ := List.forall_mem_cons.mp h
    cases rest with
    | nil => exact hfs
    | cons gs rest =>
      exact hfs.append (.text plain (fun _ => start) (fun _ => stop) (ih hrest))

theorem spaced_commaList {α : Type} {f : α → Fragments} {items : List α}
    (h : ∀ x ∈ items, Spaced .loose (f x) .tight) : Spaced .loose (commaList f items) .tight := by
  refine spaced_separated (fun fs hfs => ?_) (by decide) (by decide) (by decide)
  obtain ⟨x, hx, rfl⟩ := List.mem_map.mp hfs
  exact h x hx

theorem spaced_pathFragments (parts : List String) :
    Spaced .loose (pathFragments parts) .tight := by
  refine spaced_separated (fun fs hfs => ?_) (by decide) (by decide) (by decide)
  obtain ⟨n, -, rfl⟩ := List.mem_map.mp hfs
  exact .one n

theorem spaced_lowered {fs : Fragments} (h : Spaced .loose fs .tight) :
    Spaced .loose (lowered fs) .tight :=
  Spaced.append (.text (by decide) nofun (fun _ => by decide) h)
    (.oneText (by decide) (fun _ => by decide) nofun)

theorem spaced_comparison (op : Operator) (caseSensitive : Bool) {left right : Fragments}
    (hleft : Spaced .loose left .tight) (hright : Spaced .loose right .tight) :
    Spaced .loose (comparison op caseSensitive left right) .tight := by
  have plain : (" " ++ op.symbol ++ " ").toList.all isPlain := by cases op <;> decide
  have start : startsApart (" " ++ op.symbol ++ " ") := by cases op <;> decide
  have stop : endsApart (" " ++ op.symbol ++ " ") := by cases op <;> decide
  unfold comparison
  split
  · exact hleft.append (.text plain (fun _ => start) (fun _ => stop) hright)
  · exact (spaced_lowered hleft).append
      (.text plain (fun _ => start) (fun _ => stop) (spaced_lowered hright))

theorem spaced_membershipTest (column : List String) (op : Operator) (ps : List String) :
    Spaced .loose (membershipTest column op ps) .tight := by
  unfold membershipTest
  split
  · exact .oneText (by split <;> decide) nofun nofun
  · have plain : (" " ++ op.symbol ++ " (").toList.all isPlain := by cases op <;> decide
    have start : startsApart (" " ++ op.symbol ++ " (") := by cases op <;> decide
    have stop : endsApart (" " ++ op.symbol ++ " (") := by cases op <;> decide
    have hlist : Spaced .loose (commaList (fun p => [.placeholder p]) ps) .tight :=
      spaced_commaList fun p _ => .placeholder (.nil id)
    have hopen := (spaced_pathFragments column).append
      (.text plain (fun _ => start) (fun _ => stop) hlist)
    exact hopen.append (.oneText (by decide) (fun _ => by decide) nofun)

theorem spaced_joined (conjunction : Conjunction) {items : List Fragments}
    (h : ∀ fs ∈ items, Spaced .loose fs .tight) :
    Spaced .loose (joined conjunction items) .tight := by
  unfold joined
  split
  · exact .oneText (by cases conjunction <;> decide) nofun nofun
  · cases conjunction with
    | and => exact spaced_separated h (by decide) (by decide) (by decide)
    | or => exact spaced_separated h (by decide) (by decide) (by decide)

theorem spaced_bracketed (outermost negated : Bool) {body : Fragments}
    (h : Spaced .loose body .tight) :
    Spaced .loose (bracketed outermost negated body) .tight := by
  have hclosing : Spaced .tight [.text ")"] .tight :=
    .oneText (by decide) (fun _ => by decide) nofun
  unfold bracketed
  split
  · exact Spaced.append (.text (by decide) nofun (fun _ => by decide) h) hclosing
  · split
    · exact h
    · exact Spaced.append (.text (by decide) nofun (fun _ => by decide) h) hclosing

mutual
/-- No two fragments of a condition run together. -/
theorem SearchCondition.spaced (outermost : Bool) :
    ∀ c : SearchCondition, Spaced .loose (c.fragments outermost) .tight
  | .nullTest column op => by
    have plain : (" " ++ op.symbol).toList.all isPlain := by cases op <;> decide
    have start : startsApart (" " ++ op.symbol) := by cases op <;> decide
    exact (spaced_pathFragments column).append (.oneText plain (fun _ => start) nofun)
  | .compare column op caseSensitive p =>
    spaced_comparison op caseSensitive (spaced_pathFragments column) (.placeholder (.nil id))
  | .membership column op ps => spaced_membershipTest column op ps
  | .group conjunction negated items =>
    spaced_bracketed outermost negated
      (spaced_joined conjunction (SearchCondition.spaced_fragmentsOf items))

theorem SearchCondition.spaced_fragmentsOf :
    ∀ cs : List SearchCondition, ∀ fs ∈ fragmentsOf cs, Spaced .loose fs .tight
  | [], _, h => by cases h
  | c :: rest, fs, h => by
    rcases List.mem_cons.mp h with rfl | h
    · exact SearchCondition.spaced false c
    · exact SearchCondition.spaced_fragmentsOf rest fs h
end

/-! ### Tokens -/

/-- The tokens of fragments, each on its own. -/
def Fragments.tokens (d : Dialect) (fs : Fragments) : List Token := fs.flatMap (Fragment.tokens d)

theorem Fragments.tokens_append (fs gs : Fragments) :
    Fragments.tokens d (fs ++ gs) = fs.tokens d ++ Fragments.tokens d gs :=
  List.flatMap_append

theorem Fragments.tokens_text (s : String) (fs : Fragments) :
    Fragments.tokens d (.text s :: fs) = lex d s.toList ++ fs.tokens d := rfl

theorem Fragments.tokens_nil : Fragments.tokens d [] = [] := rfl

theorem tokens_separated {separator : String} {t : Token} (h : lex d separator.toList = [t])
    (items : List Fragments) :
    (separated separator items).tokens d = withBetween t (items.map (Fragments.tokens d)) := by
  induction items with
  | nil => rfl
  | cons fs rest ih =>
    cases rest with
    | nil => rfl
    | cons gs rest =>
      rw [separated, Fragments.tokens_append, Fragments.tokens_text, h, ih]
      · rfl
      · simp

/-- The tokens of a name in parts. -/
def pathTokens (parts : List String) : List Token :=
  withBetween (.sign ".") (parts.map fun n => [.name n])

theorem tokens_pathFragments (parts : List String) :
    (pathFragments parts).tokens d = pathTokens parts := by
  have h : lex d ".".toList = [.sign "."] := by cases d <;> decide
  rw [pathFragments, tokens_separated h, List.map_map]
  rfl

theorem inert_of_mem_pathTokens {parts : List String} : ∀ t ∈ pathTokens parts, t.Inert := by
  induction parts with
  | nil => exact fun t ht => by cases ht
  | cons n rest ih =>
    cases rest with
    | nil => simp [pathTokens, withBetween, Token.Inert]
    | cons m rest =>
      have hcons : pathTokens (n :: m :: rest) =
          .name n :: .sign "." :: pathTokens (m :: rest) := rfl
      rw [hcons]
      intro t ht
      simp only [List.mem_cons] at ht
      rcases ht with rfl | rfl | ht
      · simp [Token.Inert]
      · simp [Token.Inert]
      · exact ih t ht

/-- The tokens of an operator. -/
def operatorTokens : Operator → List Token
  | .equal => [.sign "="]
  | .notEqual => [.sign "<>"]
  | .greaterThan => [.sign ">"]
  | .lessThan => [.sign "<"]
  | .greaterOrEqual => [.sign ">="]
  | .lessOrEqual => [.sign "<="]
  | .like => [.word "LIKE"]
  | .notLike => [.word "NOT", .word "LIKE"]
  | .inList => [.word "IN"]
  | .notInList => [.word "NOT", .word "IN"]
  | .isNull => [.word "IS", .word "NULL"]
  | .isNotNull => [.word "IS", .word "NOT", .word "NULL"]

theorem lex_operator (op : Operator) : lex d (" " ++ op.symbol).toList = operatorTokens op := by
  cases d <;> cases op <;> decide

theorem lex_sign (op : Operator) : lex d (" " ++ op.symbol ++ " ").toList = operatorTokens op := by
  cases d <;> cases op <;> decide

theorem lex_operatorOpening (op : Operator) :
    lex d (" " ++ op.symbol ++ " (").toList = operatorTokens op ++ [Token.sign "("] := by
  cases d <;> cases op <;> decide

theorem carriesOn_operatorTokens (op : Operator) : CarriesOn 0 (operatorTokens op) 0 := by
  cases op with
  | notLike | notInList => exact (CarriesOn.not 0).append (.inert (by decide))
  | isNotNull =>
    have his : CarriesOn 0 [.word "IS"] 0 := .inert (by decide)
    have hnull : CarriesOn 0 [.word "NULL"] 0 := .inert (by decide)
    exact his.append ((CarriesOn.not 0).append hnull)
  | _ => exact .inert (by decide)

theorem readOperator_operatorTokens {op : Operator} (hn : op.isNullCheck = false)
    (hl : op.isList = false) (rest : List Token) :
    readOperator (operatorTokens op ++ rest) = some (op, rest) := by
  cases op with
  | isNull | isNotNull => cases hn
  | inList | notInList => cases hl
  | _ => rfl

/-! ### Reading tests -/

theorem readPath_pathTokens {path : List String} (hpath : path ≠ []) {rest : List Token}
    (hrest : rest.head? ≠ some (.sign ".")) :
    readPath (pathTokens path ++ rest) = some (path, rest) := by
  induction path with
  | nil => exact absurd rfl hpath
  | cons n path ih =>
    cases path with
    | nil =>
      show readPath (.name n :: rest) = _
      rw [readPath]
      rintro rest rfl
      exact hrest rfl
    | cons m path =>
      show readPath (.name n :: .sign "." :: (pathTokens (m :: path) ++ rest)) = _
      rw [readPath, ih (by simp)]
      rfl

theorem pathTokens_starts {path : List String} (hpath : path ≠ []) :
    ∃ n ts, pathTokens path = .name n :: ts := by
  match path with
  | [] => exact absurd rfl hpath
  | [n] => exact ⟨n, [], rfl⟩
  | n :: m :: rest => exact ⟨n, .sign "." :: pathTokens (m :: rest), rfl⟩

theorem readScalar_pathTokens {path : List String} (hpath : path ≠ []) {rest : List Token}
    (hrest : rest.head? ≠ some (.sign ".")) :
    readScalar (pathTokens path ++ rest) = some (.column path, rest) := by
  have hread := readPath_pathTokens hpath hrest
  obtain ⟨n, ts, heq⟩ := pathTokens_starts hpath
  rw [heq, List.cons_append] at hread ⊢
  show (readPath (.name n :: (ts ++ rest))).map _ = _
  rw [hread]
  rfl

theorem readScalar_lowered {path : List String} (hpath : path ≠ []) (rest : List Token) :
    readScalar (.word "LOWER" :: .sign "(" :: (pathTokens path ++ .sign ")" :: rest)) =
      some (.lower (.column path), rest) := by
  have hread : readScalar (pathTokens path ++ .sign ")" :: rest) =
      some (.column path, .sign ")" :: rest) := readScalar_pathTokens hpath (by simp)
  rw [readScalar, hread]
  rfl

/-- A comparison is read behind its first value. -/
theorem readTestOf_operatorTokens {op : Operator} (hn : op.isNullCheck = false)
    (hl : op.isList = false) (x : Scalar) {y : Scalar} {ts : List Token}
    (h : readScalar ts = some (y, [])) :
    readTestOf x (operatorTokens op ++ ts) = some (.compare x op y) := by
  have hread := readOperator_operatorTokens hn hl ts
  cases op with
  | isNull | isNotNull => cases hn
  | inList | notInList => cases hl
  | _ =>
    simp only [operatorTokens, List.cons_append, List.nil_append] at hread ⊢
    simp [readTestOf, hread, h]

/-- A test that starts with a column. -/
theorem readsAs_path {path : List String} (hpath : path ≠ []) {ts : List Token} {f : Formula}
    (hts : CarriesOn 0 ts 0) (hdot : ts.head? ≠ some (.sign "."))
    (h : readTestOf (.column path) ts = some f) : ReadsAs (pathTokens path ++ ts) f := by
  have hread := readScalar_pathTokens hpath hdot
  have hinert : ∀ t ∈ pathTokens path, t.Inert := inert_of_mem_pathTokens
  obtain ⟨n, us, heq⟩ := pathTokens_starts hpath
  rw [heq] at hinert hread ⊢
  obtain ⟨hn, hus⟩ := List.forall_mem_cons.mp hinert
  refine ReadsAs.test hn ((CarriesOn.inert hus).append hts) ?_
  show readTest (.name n :: (us ++ ts)) = some f
  rw [List.cons_append] at hread
  rw [readTest, hread]
  exact h

theorem readList_placeholders {ps : List String} (hps : ps ≠ []) :
    readList (withBetween (.sign ",") (ps.map fun p => [Token.placeholder p]) ++ [Token.sign ")"]) =
      some ps := by
  induction ps with
  | nil => exact absurd rfl hps
  | cons p rest ih =>
    cases rest with
    | nil => rfl
    | cons q rest =>
      show (readList (withBetween (.sign ",") ((q :: rest).map fun p => [Token.placeholder p]) ++
        [Token.sign ")"])).map _ = _
      rw [ih (by simp)]
      rfl

theorem inert_of_mem_placeholders {ps : List String} :
    ∀ t ∈ withBetween (.sign ",") (ps.map fun p => [.placeholder p]), t.Inert := by
  induction ps with
  | nil => exact fun t ht => by cases ht
  | cons p rest ih =>
    cases rest with
    | nil => simp [withBetween, Token.Inert]
    | cons q rest =>
      intro t ht
      have ht : t ∈ Token.placeholder p :: .sign "," ::
          withBetween (.sign ",") ((q :: rest).map fun p => [.placeholder p]) := ht
      simp only [List.mem_cons] at ht
      rcases ht with rfl | rfl | ht
      · simp [Token.Inert]
      · simp [Token.Inert]
      · exact ih t ht

/-! ### Reading conditions -/

mutual
/-- What a condition is read as. -/
def SearchCondition.formula : SearchCondition → Formula
  | .nullTest column op =>
    if op = .isNull then .isNull (.column column) else .not (.isNull (.column column))
  | .compare column op caseSensitive p =>
    if caseSensitive then .compare (.column column) op (.parameter p)
    else .compare (.lower (.column column)) op (.lower (.parameter p))
  | .membership column op ps =>
    if ps = [] then .joinAll (if op = .inList then .or else .and) []
    else if op = .inList then .within (.column column) ps
    else .not (.within (.column column) ps)
  | .group conjunction negated items =>
    let body := Formula.joinAll conjunction (SearchCondition.formulas items)
    if negated then .not body else body

/-- What the conditions of a list are read as. -/
def SearchCondition.formulas : List SearchCondition → List Formula
  | [] => []
  | c :: rest => SearchCondition.formula c :: SearchCondition.formulas rest
end

mutual
/-- Every test has a column and an operator of its kind. -/
def SearchCondition.Proper : SearchCondition → Prop
  | .nullTest column op => column ≠ [] ∧ op.isNullCheck = true
  | .compare column op _ _ => column ≠ [] ∧ op.isNullCheck = false ∧ op.isList = false
  | .membership column op _ => column ≠ [] ∧ op.isList = true
  | .group _ _ items => SearchCondition.AllProper items

/-- Every condition of a list is proper. -/
def SearchCondition.AllProper : List SearchCondition → Prop
  | [] => True
  | c :: rest => SearchCondition.Proper c ∧ SearchCondition.AllProper rest
end

theorem readsAs_nullTest {column : List String} (hcolumn : column ≠ []) {op : Operator}
    (hn : op.isNullCheck = true) :
    ReadsAs (pathTokens column ++ operatorTokens op)
      (SearchCondition.formula (.nullTest column op)) := by
  refine readsAs_path hcolumn (carriesOn_operatorTokens op) ?_ ?_
  · cases op <;> decide
  · cases op with
    | isNull | isNotNull => rfl
    | _ => cases hn

theorem readsAs_compare {column : List String} (hcolumn : column ≠ []) {op : Operator}
    (hn : op.isNullCheck = false) (hl : op.isList = false) (p : String) :
    ReadsAs (pathTokens column ++ (operatorTokens op ++ [.placeholder p]))
      (.compare (.column column) op (.parameter p)) := by
  have hparameter : CarriesOn 0 [.placeholder p] 0 := .inert (by simp [Token.Inert])
  refine readsAs_path hcolumn ((carriesOn_operatorTokens op).append hparameter) ?_ ?_
  · cases op <;> simp [operatorTokens]
  · exact readTestOf_operatorTokens hn hl _ rfl

theorem readsAs_compareLower {column : List String} (hcolumn : column ≠ []) {op : Operator}
    (hn : op.isNullCheck = false) (hl : op.isList = false) (p : String) :
    ReadsAs (.word "LOWER" :: ([.sign "("] ++ (pathTokens column ++ ([.sign ")"] ++
        (operatorTokens op ++ [.word "LOWER", .sign "(", .placeholder p, .sign ")"])))))
      (.compare (.lower (.column column)) op (.lower (.parameter p))) := by
  have hparameter : CarriesOn 1 [.placeholder p] 1 := .inert (by simp [Token.Inert])
  have hword : CarriesOn 0 [.word "LOWER"] 0 := .inert (by decide)
  have hlower : CarriesOn 0 [.word "LOWER", .sign "(", .placeholder p, .sign ")"] 0 :=
    hword.append ((CarriesOn.opening 0).append (hparameter.append (CarriesOn.closing 0)))
  have hpath : CarriesOn 1 (pathTokens column) 1 := .inert inert_of_mem_pathTokens
  have hcarries := (CarriesOn.opening 0).append (hpath.append
      ((CarriesOn.closing 0).append ((carriesOn_operatorTokens op).append hlower)))
  refine ReadsAs.test (by decide) hcarries ?_
  have hread := readScalar_lowered hcolumn
    (operatorTokens op ++ [.word "LOWER", .sign "(", .placeholder p, .sign ")"])
  simp only [List.singleton_append] at hread ⊢
  rw [readTest, hread]
  exact readTestOf_operatorTokens hn hl _ rfl

theorem readsAs_membership {column : List String} (hcolumn : column ≠ []) {op : Operator}
    (hl : op.isList = true) {ps : List String} (hps : ps ≠ []) :
    ReadsAs (pathTokens column ++ (operatorTokens op ++ ([Token.sign "("] ++
        (withBetween (.sign ",") (ps.map fun p => [.placeholder p]) ++ [Token.sign ")"]))))
      (SearchCondition.formula (.membership column op ps)) := by
  have hinner : CarriesOn 1 (withBetween (.sign ",") (ps.map fun p => [.placeholder p])) 1 :=
    .inert inert_of_mem_placeholders
  have hcarries := (carriesOn_operatorTokens op).append
    ((CarriesOn.opening 0).append (hinner.append (CarriesOn.closing 0)))
  refine readsAs_path hcolumn hcarries ?_ ?_
  · cases op <;> simp [operatorTokens]
  · have hlist := readList_placeholders hps
    rw [SearchCondition.formula, if_neg hps]
    cases op with
    | inList => exact congrArg (Option.map fun ps => Formula.within (.column column) ps) hlist
    | notInList =>
      exact congrArg (Option.map fun ps => Formula.not (.within (.column column) ps)) hlist
    | _ => cases hl

/-- The body of a group without items. -/
theorem readsAs_nothing (conjunction : Conjunction) :
    ReadsAs
      (lex d (match conjunction with | .and => "1 = 1" | .or => "1 = 0" : String).toList)
      (.joinAll conjunction []) := by
  have hlex : lex d (match conjunction with | .and => "1 = 1" | .or => "1 = 0" : String).toList =
      [.word "1", .sign "=", .word (match conjunction with | .and => "1" | .or => "0")] := by
    cases d <;> cases conjunction <;> decide
  rw [hlex]
  cases conjunction with
  | and => exact ReadsAs.test (by decide) (.inert (by decide)) (by decide)
  | or => exact ReadsAs.test (by decide) (.inert (by decide)) (by decide)

/-- Operands that are joined are the body of a group. -/
theorem readsAsBody_joined (conjunction : Conjunction) {items : List Fragments}
    {fs : List Formula}
    (h : List.Forall₂ ReadsAs (items.map (Fragments.tokens d)) fs) :
    ReadsAsBody ((joined conjunction items).tokens d) (.joinAll conjunction fs) := by
  cases items with
  | nil =>
    cases h
    refine ReadsAs.body ?_
    have htokens := readsAs_nothing (d := d) conjunction
    cases conjunction with
    | and => simpa [joined, Fragments.tokens, Fragment.tokens] using htokens
    | or => simpa [joined, Fragments.tokens, Fragment.tokens] using htokens
  | cons ts rest =>
    obtain ⟨f, fs, hf, hfs, rfl⟩ := List.forall₂_cons_left_iff.mp h
    have hword : lex d (" " ++ conjunction.keyword ++ " ").toList =
        [.word conjunction.keyword] := by
      cases d <;> cases conjunction <;> decide
    unfold joined
    rw [if_neg (by simp), tokens_separated hword]
    exact readsAsBody_withBetween conjunction hf hfs

theorem lex_closing : lex d ")".toList = [.sign ")"] := by cases d <;> decide

theorem readsAs_bracketed {body : Fragments} {f : Formula}
    (h : ReadsAsBody (body.tokens d) f) (negated : Bool) :
    ReadsAs ((bracketed false negated body).tokens d) (if negated then .not f else f) := by
  cases negated with
  | true =>
    have hnot : lex d "NOT (".toList = [.word "NOT", .sign "("] := by cases d <;> decide
    simp only [bracketed, if_true, Fragments.tokens_append, Fragments.tokens_text, hnot,
      lex_closing, Fragments.tokens_nil, List.append_nil]
    exact h.brackets.not
  | false =>
    have hopening : lex d "(".toList = [.sign "("] := by cases d <;> decide
    simp only [bracketed, if_false, Bool.false_eq_true, Fragments.tokens_append,
      Fragments.tokens_text, hopening, lex_closing, Fragments.tokens_nil, List.append_nil]
    exact h.brackets

theorem readsAs_comparison {column : List String} (hcolumn : column ≠ []) {op : Operator}
    (hn : op.isNullCheck = false) (hl : op.isList = false) (caseSensitive : Bool) (p : String) :
    ReadsAs
      ((comparison op caseSensitive (pathFragments column) [.placeholder p]).tokens d)
      (SearchCondition.formula (.compare column op caseSensitive p)) := by
  cases caseSensitive with
  | true =>
    have h := readsAs_compare hcolumn hn hl p
    simp only [comparison, if_true, Fragments.tokens_append, tokens_pathFragments,
      Fragments.tokens_text, lex_sign]
    exact h
  | false =>
    have h := readsAs_compareLower hcolumn hn hl p
    have hlower : lex d "LOWER(".toList = [.word "LOWER", .sign "("] := by cases d <;> decide
    simp only [comparison, if_false, Bool.false_eq_true, lowered, Fragments.tokens_append,
      tokens_pathFragments, Fragments.tokens_text, lex_sign, hlower, lex_closing,
      Fragments.tokens_nil, List.append_assoc, List.append_nil]
    exact h

/-- The tokens of placeholders with commas between them. -/
theorem tokens_placeholderList (ps : List String) :
    (commaList (fun p => [.placeholder p]) ps).tokens d =
      withBetween (.sign ",") (ps.map fun p => [.placeholder p]) := by
  have hcomma : lex d ", ".toList = [.sign ","] := by cases d <;> decide
  rw [commaList, tokens_separated hcomma, List.map_map]
  rfl

/-- A test against an empty list is read as the empty group that it stands for. -/
theorem readsAs_membershipTest {column : List String} (hcolumn : column ≠ []) {op : Operator}
    (hl : op.isList = true) (ps : List String) :
    ReadsAs ((membershipTest column op ps).tokens d)
      (SearchCondition.formula (.membership column op ps)) := by
  simp only [membershipTest, List.isEmpty_iff]
  split
  · next hps =>
    have htext : Fragments.tokens d [.text (if op = .inList then "(1 = 0)" else "(1 = 1)")] =
        .sign "(" :: lex d (match (if op = .inList then .or else .and : Conjunction) with
          | .and => "1 = 1" | .or => "1 = 0" : String).toList ++ [.sign ")"] := by
      cases d <;> cases op <;> decide
    rw [htext, SearchCondition.formula, if_pos hps]
    exact (readsAs_nothing _).body.brackets
  · next hps =>
    have h := readsAs_membership hcolumn hl hps
    simp only [Fragments.tokens_append, tokens_pathFragments, Fragments.tokens_text,
      lex_operatorOpening, tokens_placeholderList, lex_closing, Fragments.tokens_nil,
      List.append_assoc, List.append_nil]
    exact h

mutual
/-- **A condition inside a group is read as its formula.** -/
theorem SearchCondition.readsAs :
    ∀ c : SearchCondition, c.Proper → ReadsAs ((c.fragments false).tokens d) c.formula
  | .nullTest column op, ⟨hcolumn, hn⟩ => by
    have h := readsAs_nullTest hcolumn hn
    rw [SearchCondition.fragments, Fragments.tokens_append, tokens_pathFragments,
      Fragments.tokens_text, lex_operator, Fragments.tokens_nil, List.append_nil]
    exact h
  | .compare _ op caseSensitive p, ⟨hcolumn, hn, hl⟩ =>
    readsAs_comparison hcolumn hn hl caseSensitive p
  | .membership _ op ps, ⟨hcolumn, hl⟩ => readsAs_membershipTest hcolumn hl ps
  | .group conjunction negated items, h =>
    readsAs_bracketed (readsAsBody_joined conjunction (SearchCondition.readAllAs items h)) negated

theorem SearchCondition.readAllAs :
    ∀ cs : List SearchCondition, AllProper cs →
      List.Forall₂ ReadsAs ((fragmentsOf cs).map (Fragments.tokens d)) (formulas cs)
  | [], _ => .nil
  | c :: rest, ⟨hc, hrest⟩ =>
    .cons (SearchCondition.readsAs c hc) (SearchCondition.readAllAs rest hrest)
end

/-- **The text of a condition is read as its formula.** -/
theorem SearchCondition.readCondition_fragments {c : SearchCondition} (h : c.Proper)
    (hl : Fragments.Legible (c.fragments true)) :
    readCondition d (String.ofList ((c.fragments true).render d)) = some c.formula := by
  refine ReadsAsBody.readCondition ?_
  rw [String.toList_ofList, lex_render (c.spaced true) hl]
  cases c with
  | group conjunction negated items =>
    have hbody := readsAsBody_joined (d := d) conjunction (SearchCondition.readAllAs items h)
    cases negated with
    | true => exact (readsAs_bracketed hbody true).body
    | false => exact hbody
  | nullTest column op => exact (SearchCondition.readsAs (.nullTest column op) h).body
  | compare column op caseSensitive p =>
    exact (SearchCondition.readsAs (.compare column op caseSensitive p) h).body
  | membership column op ps => exact (SearchCondition.readsAs (.membership column op ps) h).body

end EntitySql.Sql
