import EntitySql.Proofs.Sql.Acceptance
import EntitySql.Proofs.Sql.StatementText
import EntitySql.Proofs.Sql.TokenReading
import Mathlib.Algebra.Group.Int.Defs

/-!
# Pages

A page of rows is written in two ways. SQL Server numbers the rows of the order, from one, and takes
those between the first and the last number of the page; the other dialects count off the rows of the
pages before it and take as many as a page has. `Window` is what a statement says of the rows it takes,
and `Window.tokens` is the whole statement around it: the columns, the table with its filter and the order
are the same in every dialect (`Paging`), so a window takes rows of the same order.

Numbers are exact: a page is refused where the numbers that are written for it reach `2 ^ 64`. That is
the number of the last row for SQL Server and the count of the rows before the page for the others
(`PageFits`), so SQL Server refuses pages that the others accept, but not the other way round.

**`pages_tile`**: the pages that are accepted lie side by side, each takes the rows that its number means
in every dialect, and the pages up to one of them share out the rows up to its last one.
-/

namespace EntitySql.Sql

/-! ### Positions -/

/-- Which rows of an order a statement takes. -/
inductive Window where
  /-- So many rows after those that are skipped. -/
  | counted (count skip : Nat)
  /-- The rows from one number to another; the first row of the order has the number one. -/
  | numbered (first last : Nat)
deriving DecidableEq, Repr

/-- The row at this position of the order is taken. Positions count from one. -/
def Window.Takes : Window → (position : Nat) → Prop
  | counted count skip, i => skip < i ∧ i ≤ skip + count
  | numbered first last, i => first ≤ i ∧ i ≤ last

/-- The rows of a page in the way of a dialect. -/
def pageWindow (d : Dialect) (index count : Nat) : Window :=
  match d with
  | .sqlServer => .numbered (index * count + 1) (index * count + count)
  | _ => .counted count (index * count)

/-- A page has the same rows in every dialect. -/
theorem takes_pageWindow {d : Dialect} {index count i : Nat} :
    (pageWindow d index count).Takes i ↔ index * count + 1 ≤ i ∧ i ≤ index * count + count := by
  cases d <;> exact Iff.rfl

/-! ### The tokens of a page -/

/-- What all pages of a request have in common. -/
structure Paging where
  columns : List Token
  /-- The table and the filter. -/
  source : List Token
  order : List Token

/-- The paging of a request. -/
def paging (r : Request) : Paging where
  columns := (columnList (columnNames r.fields)).tokens .postgres
  source := (dottedName r.table ++ whereClause (filterCondition r)).tokens .postgres
  order := (orderList r.orderBy).tokens .postgres

/-- The query that takes the rows of a window. -/
def Window.tokens (p : Paging) : Window → List Token
  | counted count skip =>
    .word "SELECT" :: p.columns ++ .word "FROM" :: p.source ++
      .word "ORDER" :: .word "BY" :: p.order ++
      [.word "LIMIT", .word (toString count), .word "OFFSET", .word (toString skip), .sign ";"]
  | numbered first last =>
    .word "WITH" :: .word "CTE" :: .word "AS" :: .sign "(" ::
        .word "SELECT" :: .word "ROW_NUMBER" :: .sign "(" :: .sign ")" :: .word "OVER" :: .sign "(" ::
          .word "ORDER" :: .word "BY" :: p.order ++ .sign ")" ::
        .word "AS" :: .name rowNumberColumn :: .sign "," :: p.columns ++
        .word "FROM" :: p.source ++ .sign ")" ::
      .word "SELECT" :: p.columns ++ .word "FROM" :: .word "CTE" ::
      .word "WHERE" :: .sign "(" :: .name rowNumberColumn :: .word "BETWEEN" ::
        .word (toString first) :: .word "AND" :: .word (toString last) :: .sign ")" ::
      [.word "ORDER", .word "BY", .name rowNumberColumn, .word "ASC", .sign ";"]

/-- A statement tells the window that it takes. -/
theorem Window.tokens_inj {p : Paging} {v w : Window} : v.tokens p = w.tokens p ↔ v = w := by
  refine ⟨fun h => ?_, fun h => h ▸ rfl⟩
  cases v with
  | counted count skip =>
    cases w with
    | counted count' skip' =>
      have hend := List.append_cancel_left h
      simp only [List.cons.injEq, Token.word.injEq, and_true, true_and] at hend
      rw [eq_of_toString_eq hend.1, eq_of_toString_eq hend.2]
    | numbered first last =>
      have hfirst := congrArg List.head? h
      simp [tokens] at hfirst
  | numbered first last =>
    cases w with
    | counted count skip =>
      have hfirst := congrArg List.head? h
      simp [tokens] at hfirst
    | numbered first' last' =>
      simp only [tokens, List.cons_append, List.append_assoc, List.cons.injEq, true_and,
        List.append_cancel_left_eq, Token.word.injEq, and_true] at h
      rw [eq_of_toString_eq h.1, eq_of_toString_eq h.2]

variable {d : Dialect} {r : Request}

/-- Outside of quotes nothing depends on the dialect. -/
theorem Spaced.tokens_eq {a b : Side} {fs : Fragments} (h : Spaced a fs b) (d : Dialect) :
    fs.tokens d = fs.tokens .postgres := by
  induction h with
  | nil => rfl
  | text plain _ _ _ ih =>
    rw [Fragments.tokens_text, Fragments.tokens_text, ih, lex, lexFrom_eq_of_isPlain idle_isPlain plain]
    rfl
  | name _ ih | placeholder _ ih => exact congrArg (_ :: ·) ih

/-- Texts that stand apart are read one after the other. -/
theorem lex_append {s t : String} {a m b : Side} (hs : textFits a s m = true)
    (ht : textFits m t b = true) :
    lex d (s ++ t).toList = lex d s.toList ++ lex d t.toList := by
  have hspaced : Spaced a [.text s, .text t] b := .fixed hs (.last ht)
  have hlex := lex_render (d := d) hspaced fun name hname => by cases hname
  simpa [Fragments.render, Fragment.render, Fragment.tokens] using hlex

theorem textFits_digits (n : Nat) : textFits .loose (toString n) .tight = true := by
  have h := textFits_lastNumber (a := .loose) (s := "") (x := .tight) (by decide) n
  rwa [String.empty_append] at h

/-- A number between two texts is a word. -/
theorem lex_number_between {s t : String} {a m : Side} (hs : textFits a s .loose = true)
    (ht : textFits .tight t m = true) (n : Nat) :
    lex d (s ++ toString n ++ t).toList =
      lex d s.toList ++ .word (toString n) :: lex d t.toList := by
  rw [lex_append (textFits_lastNumber hs n) ht, lex_append hs (textFits_digits n), lex_number,
    List.append_assoc, List.singleton_append]

theorem lex_limitOffset (count skip : Nat) :
    lex d (" LIMIT " ++ toString count ++ " OFFSET " ++ toString skip).toList =
      [.word "LIMIT", .word (toString count), .word "OFFSET", .word (toString skip)] := by
  have hlimit : textFits .tight " LIMIT " .loose = true := by decide
  have hoffset : textFits .tight " OFFSET " .loose = true := by decide
  have hwords : lex d " LIMIT ".toList = [.word "LIMIT"] ∧
      lex d " OFFSET ".toList = [.word "OFFSET"] := by
    cases d <;> decide
  rw [lex_append (textFits_number hlimit count hoffset) (textFits_digits skip),
    lex_number_between hlimit hoffset, hwords.1, hwords.2, lex_number]
  rfl

theorem lex_between (first last : Nat) :
    lex d (" BETWEEN " ++ toString first ++ " AND " ++ toString last ++ ") ORDER BY ").toList =
      [.word "BETWEEN", .word (toString first), .word "AND", .word (toString last), .sign ")",
        .word "ORDER", .word "BY"] := by
  have hbetween : textFits .tight " BETWEEN " .loose = true := by decide
  have hand : textFits .tight " AND " .loose = true := by decide
  have horder : textFits .tight ") ORDER BY " .loose = true := by decide
  have hwords : lex d " BETWEEN ".toList = [.word "BETWEEN"] ∧ lex d " AND ".toList = [.word "AND"] ∧
      lex d ") ORDER BY ".toList = [.sign ")", .word "ORDER", .word "BY"] := by
    cases d <;> decide
  rw [lex_number_between (textFits_number hbetween first hand) horder,
    lex_number_between hbetween hand, hwords.1, hwords.2.1, hwords.2.2]
  rfl

/-! ### The text of a page -/

/-- The statement of a page in the way of a dialect. -/
def pageStatement (d : Dialect) (r : Request) (index count : Nat) : Statement :=
  match d with
  | .sqlServer =>
    .page ⟨columnNames r.fields, tableRef d r, filterCondition r, r.orderBy, index * count + 1,
      index * count + count⟩
  | _ => selectFields d r none (.limitOffset count (index * count))

/-- A request that no dialect refuses has no hints to be written. -/
theorem tableRef_eq (hguards : ∀ d, pageGuards d r = .ok ()) (d : Dialect) :
    tableRef d r = ⟨r.table, none⟩ := by
  obtain ⟨_, hquery, -⟩ := bind_eq_ok_iff.mp (hguards .postgres)
  obtain ⟨_, -, hquery⟩ := bind_eq_ok_iff.mp hquery
  obtain ⟨_, hhints, -⟩ := bind_eq_ok_iff.mp hquery
  unfold checkHints at hhints
  unfold tableRef
  cases hr : r.hints with
  | none => rfl
  | some hints =>
    rw [hr] at hhints
    dsimp only at hhints ⊢
    split at hhints
    · cases hhints
    · next hblank => rw [if_neg fun h => hblank ⟨h.1, rfl⟩]

theorem orderBy_ne_nil (hguards : pageGuards d r = .ok ()) : r.orderBy.isEmpty = false := by
  obtain ⟨_, -, horder⟩ := bind_eq_ok_iff.mp hguards
  unfold requireOrder at horder
  split at horder
  · cases horder
  · next h => exact Bool.eq_false_iff.mpr h

section Parts

variable (r) (d : Dialect)

theorem tokens_columns : (columnList (columnNames r.fields)).tokens d = (paging r).columns :=
  Spaced.tokens_eq (spaced_columnList _) d

theorem tokens_source :
    Fragments.tokens d (dottedName r.table) ++ (whereClause (filterCondition r)).tokens d =
      (paging r).source := by
  rw [← Fragments.tokens_append]
  exact Spaced.tokens_eq ((spaced_pathFragments _).append (spaced_whereClause _)) d

theorem tokens_order : (orderList r.orderBy).tokens d = (paging r).order :=
  Spaced.tokens_eq (spaced_orderList _) d

end Parts

section Statements

variable (hguards : ∀ d, pageGuards d r = .ok ())

include hguards

theorem fragments_tableRef (d : Dialect) : (tableRef d r).fragments = dottedName r.table := by
  rw [tableRef_eq hguards d, TableRef.fragments, List.append_nil]

theorem tokens_counted (d : Dialect) (count skip : Nat) :
    (selectFields d r none (.limitOffset count skip)).fragments.tokens d =
      (Window.counted count skip).tokens (paging r) := by
  have hselect : Lexes "SELECT " [.word "SELECT"] := by decide
  have hfrom : Lexes " FROM " [.word "FROM"] := by decide
  have hby : Lexes " ORDER BY " [.word "ORDER", .word "BY"] := by decide
  have hend : Lexes ";" [.sign ";"] := by decide
  have hitems : commaList SelectItem.fragments ((columnNames r.fields).map .column) =
      columnList (columnNames r.fields) := by
    rw [commaList, List.map_map]
    rfl
  have hclause : (orderClause r.orderBy).tokens d =
      .word "ORDER" :: .word "BY" :: (paging r).order := by
    rw [orderClause, orderBy_ne_nil (hguards d), if_neg Bool.false_ne_true, hby.tokens_text,
      tokens_order]
    rfl
  simp only [Statement.fragments, Statement.body, selectFields, Select.fragments, hitems,
    fragments_tableRef hguards, RowLimit.fragments, Fragments.tokens_append, hselect.tokens_text,
    hfrom.tokens_text, hend.tokens_text, Fragments.tokens_text, Fragments.tokens_nil, hclause,
    lex_limitOffset, tokens_columns, Window.tokens, ← tokens_source r d]
  simp

theorem tokens_numbered (d : Dialect) (first last : Nat) :
    (Statement.page ⟨columnNames r.fields, tableRef d r, filterCondition r, r.orderBy, first,
        last⟩).fragments.tokens d =
      (Window.numbered first last).tokens (paging r) := by
  have hwith : Lexes "WITH CTE AS (SELECT ROW_NUMBER() OVER (ORDER BY " [.word "WITH", .word "CTE",
      .word "AS", .sign "(", .word "SELECT", .word "ROW_NUMBER", .sign "(", .sign ")", .word "OVER",
      .sign "(", .word "ORDER", .word "BY"] := by decide
  have has : Lexes ") AS " [.sign ")", .word "AS"] := by decide
  have hcomma : Lexes ", " [.sign ","] := by decide
  have hfrom : Lexes " FROM " [.word "FROM"] := by decide
  have hselect : Lexes ") SELECT " [.sign ")", .word "SELECT"] := by decide
  have hwhere : Lexes " FROM CTE WHERE (" [.word "FROM", .word "CTE", .word "WHERE", .sign "("] := by
    decide
  have hasc : Lexes " ASC" [.word "ASC"] := by decide
  have hend : Lexes ";" [.sign ";"] := by decide
  simp only [Statement.fragments, Statement.body, NumberedPage.fragments, fragments_tableRef hguards,
    Fragments.tokens_append, hwith.tokens_text, has.tokens_text, hcomma.tokens_text,
    hfrom.tokens_text, hselect.tokens_text, hwhere.tokens_text, hasc.tokens_text, hend.tokens_text,
    tokens_name, Fragments.tokens_text, Fragments.tokens_nil, lex_between, tokens_order,
    tokens_columns, Window.tokens, ← tokens_source r d]
  simp

theorem tokens_pageStatement (d : Dialect) (index count : Nat) :
    (pageStatement d r index count).fragments.tokens d =
      (pageWindow d index count).tokens (paging r) := by
  cases d with
  | sqlServer => exact tokens_numbered hguards .sqlServer _ _
  | postgres => exact tokens_counted hguards .postgres _ _
  | mySql => exact tokens_counted hguards .mySql _ _
  | sqlite => exact tokens_counted hguards .sqlite _ _

theorem clean_pageStatement (d : Dialect) (index count : Nat) :
    (pageStatement d r index count).Clean := by
  have hhints (d : Dialect) : (tableRef d r).hints = none := by rw [tableRef_eq hguards d]
  have hselect (d : Dialect) (limit : RowLimit) : (selectFields d r none limit).Clean := by
    refine ⟨hhints d, fun i hi => ?_⟩
    obtain ⟨c, -, rfl⟩ := List.mem_map.mp hi
    trivial
  cases d with
  | sqlServer => exact hhints .sqlServer
  | postgres | mySql | sqlite => exact hselect _ _

end Statements

theorem legible_pageStatement (d : Dialect) (r : Request) (index count : Nat) :
    Fragments.Legible (statementList [pageStatement d r index count]) := by
  have hparameters : statementParameters [pageStatement d r index count] =
      filterParameters (filterCondition r) := by
    cases d <;> exact List.flatMap_singleton _ _
  intro name hname
  rw [placeholders_statementList, hparameters, filterCondition, activeCondition_eq] at hname
  cases hr : r.activePredicate with
  | none =>
    rw [hr] at hname
    cases hname
  | some g =>
    rw [hr, Option.map_some, filterParameters_ofGroup] at hname
    exact isNameChar_of_mem_conditionNames hname

/-- The text of a page in the way of a dialect. -/
def pageText (d : Dialect) (r : Request) (index count : Nat) : String :=
  String.ofList (tidyChars (rawText d [pageStatement d r index count]))

/-- **The text of a page takes the rows of the page**, and is the same query in every dialect else. -/
theorem lex_pageText (hguards : ∀ d, pageGuards d r = .ok ()) (d : Dialect) (index count : Nat) :
    lex d (pageText d r index count).toList = (pageWindow d index count).tokens (paging r) := by
  have hclean : ∀ s ∈ [pageStatement d r index count], s.Clean := by
    intro s hs
    rw [List.mem_singleton.mp hs]
    exact clean_pageStatement hguards d index count
  have hspaced := spaced_statementList hclean
  have hlegible := legible_pageStatement d r index count
  rw [pageText, String.toList_ofList, rawText, lex_tidyChars hspaced hlegible,
    lex_render hspaced hlegible]
  exact tokens_pageStatement hguards d index count

/-! ### Acceptance -/

/-- The page can be written: the number of its last row, or the count of the rows before it, stays
below `2 ^ 64`. -/
def PageFits (d : Dialect) (page rows : Int64) : Prop :=
  0 ≤ page.toInt ∧ 1 ≤ rows.toInt ∧
    page.toInt * rows.toInt + (if d = .sqlServer then rows.toInt else 0) < 2 ^ 64

instance (d : Dialect) (page rows : Int64) : Decidable (PageFits d page rows) :=
  inferInstanceAs (Decidable (_ ∧ _ ∧ _))

/-- What is wrong with a page that cannot be written. -/
def pageError (page rows : Int64) : Error :=
  if 0 ≤ page.toInt ∧ rows.toInt < 1 then .range "rows_per_batch" rows.toInt
  else .range "page" page.toInt

theorem rowPosition_eq (name : String) (n : Int64) (position : Nat) :
    rowPosition name n position =
      if position < 2 ^ 64 then .ok position else .error (.range name n.toInt) := rfl

/-- Where both numbers may be asked for, the page fits if its greatest number does. -/
theorem pageFits_iff {page rows : Int64} {index count : Nat} (hindex : page.toInt = index)
    (hcount : rows.toInt = count) (hpositive : 1 ≤ count) :
    PageFits d page rows ↔ index * count + (if d = .sqlServer then count else 0) < 2 ^ 64 := by
  unfold PageFits
  rw [hindex, hcount]
  constructor
  · rintro ⟨-, -, h⟩
    split at h <;> split <;> first | exact_mod_cast h | contradiction
  · intro h
    refine ⟨Int.natCast_nonneg index, by exact_mod_cast hpositive, ?_⟩
    split at h <;> split <;> first | exact_mod_cast h | contradiction

/-- The statement of a page is that of its dialect if the page fits, and is refused otherwise. -/
theorem pagedQuery_eq (hguards : pageGuards d r = .ok ()) (page rows : Int64) :
    pagedQuery d r page rows =
      if PageFits d page rows then .ok (pageStatement d r page.toInt.toNat rows.toInt.toNat)
      else .error (pageError page rows) := by
  unfold pagedQuery
  rw [hguards, ok_bind]
  by_cases hpage : 0 ≤ page.toInt
  swap
  · have hno : ¬PageFits d page rows := fun h => hpage h.1
    rw [if_neg hno, nonNegative, if_neg hpage, pageError, if_neg fun h => hpage h.1]
    rfl
  rw [nonNegative, if_pos hpage, ok_bind]
  by_cases hrows : 1 ≤ rows.toInt
  swap
  · have hno : ¬PageFits d page rows := fun h => hrows h.2.1
    rw [if_neg hno, positive, if_neg hrows, pageError, if_pos ⟨hpage, by omega⟩]
    rfl
  have herror : pageError page rows = .range "page" page.toInt := if_neg fun h => by omega
  rw [positive, if_pos hrows, ok_bind, herror]
  obtain ⟨index, hindex⟩ := Int.eq_ofNat_of_zero_le hpage
  obtain ⟨count, hcount⟩ := Int.eq_ofNat_of_zero_le (show 0 ≤ rows.toInt by omega)
  have hpositive : 1 ≤ count := by omega
  rw [hindex, hcount, Int.toNat_natCast, Int.toNat_natCast]
  have hfits := pageFits_iff (d := d) hindex hcount hpositive
  have hlast : index * count + 1 + (count - 1) = index * count + count := by omega
  cases d with
  | sqlServer =>
    rw [if_pos rfl] at hfits
    dsimp only
    simp only [rowPosition_eq, hindex]
    by_cases hfit : index * count + count < 2 ^ 64
    · rw [if_pos (hfits.mpr hfit), if_pos (by omega), ok_bind, hlast, if_pos hfit]
      rfl
    · rw [if_neg (mt hfits.mp hfit)]
      by_cases hfirst : index * count + 1 < 2 ^ 64
      · rw [if_pos hfirst, ok_bind, hlast, if_neg hfit]
        rfl
      · rw [if_neg hfirst]
        rfl
  | postgres | mySql | sqlite =>
    rw [if_neg (by decide), Nat.add_zero] at hfits
    dsimp only
    simp only [rowPosition_eq, hindex]
    by_cases hfit : index * count < 2 ^ 64
    · rw [if_pos (hfits.mpr hfit), if_pos hfit]
      rfl
    · rw [if_neg (mt hfits.mp hfit), if_neg hfit]
      rfl

/-- **A page is written if it fits, and is out of range otherwise.** -/
theorem statementText_pagedQuery (hguards : pageGuards d r = .ok ()) (page rows : Int64) :
    statementText d (.pagedQuery page rows) r =
      if PageFits d page rows then .ok (pageText d r page.toInt.toNat rows.toInt.toNat)
      else .error (pageError page rows) := by
  show ((pagedQuery d r page rows).map fun s => [s]).map _ = _
  rw [pagedQuery_eq hguards]
  split <;> rfl

theorem accepted_pagedQuery_iff (hguards : pageGuards d r = .ok ()) {page rows : Int64} :
    (∃ text, statementText d (.pagedQuery page rows) r = .ok text) ↔ PageFits d page rows := by
  rw [statementText_pagedQuery hguards]
  by_cases hfits : PageFits d page rows
  · rw [if_pos hfits]
    exact ⟨fun _ => hfits, fun _ => ⟨_, rfl⟩⟩
  · rw [if_neg hfits]
    exact ⟨fun ⟨_, h⟩ => (by cases h), fun h => absurd h hfits⟩

/-! ### Positions on pages -/

/-- The row at this position of the order is on the page that a dialect writes. -/
def OnPage (d : Dialect) (r : Request) (page rows : Int64) (position : Nat) : Prop :=
  ∃ text w, statementText d (.pagedQuery page rows) r = .ok text ∧
    lex d text.toList = Window.tokens (paging r) w ∧ w.Takes position

/-- A page that fits takes the rows that its number means, and a page that does not fit takes none. -/
theorem onPage_iff (hguards : ∀ d, pageGuards d r = .ok ()) {page rows : Int64} {i : Nat} :
    OnPage d r page rows i ↔ PageFits d page rows ∧
      page.toInt * rows.toInt + 1 ≤ i ∧ i ≤ page.toInt * rows.toInt + rows.toInt := by
  by_cases hfits : PageFits d page rows
  swap
  · refine ⟨fun ⟨text, w, htext, _⟩ => ?_, fun h => absurd h.1 hfits⟩
    rw [statementText_pagedQuery (hguards d), if_neg hfits] at htext
    cases htext
  obtain ⟨index, hindex⟩ := Int.eq_ofNat_of_zero_le hfits.1
  obtain ⟨count, hcount⟩ := Int.eq_ofNat_of_zero_le (show 0 ≤ rows.toInt by have := hfits.2.1; omega)
  have htext := statementText_pagedQuery (hguards d) page rows
  have hlex := lex_pageText hguards d page.toInt.toNat rows.toInt.toNat
  rw [if_pos hfits] at htext
  -- the text tells one window, that of the page
  have hwindow : OnPage d r page rows i ↔
      (pageWindow d page.toInt.toNat rows.toInt.toNat).Takes i := by
    refine ⟨fun ⟨text, w, htext', hlex', htakes⟩ => ?_, fun h => ⟨_, _, htext, hlex, h⟩⟩
    obtain rfl := Except.ok.inj (htext.symm.trans htext')
    rw [hlex] at hlex'
    rw [Window.tokens_inj.mp hlex']
    exact htakes
  rw [hwindow, takes_pageWindow, hindex, hcount, Int.toNat_natCast, Int.toNat_natCast]
  constructor
  · rintro ⟨hfirst, hlast⟩
    exact ⟨hfits, by exact_mod_cast hfirst, by exact_mod_cast hlast⟩
  · rintro ⟨-, hfirst, hlast⟩
    exact ⟨by exact_mod_cast hfirst, by exact_mod_cast hlast⟩

/-- The pages before one that fits do too. -/
theorem PageFits.mono {k page rows : Int64} (h : PageFits d page rows) (hk : 0 ≤ k.toInt)
    (hle : k.toInt ≤ page.toInt) : PageFits d k rows := by
  obtain ⟨-, hrows, hlast⟩ := h
  have hmul := Int.mul_le_mul_of_nonneg_right hle (show 0 ≤ rows.toInt by omega)
  exact ⟨hk, hrows, by omega⟩

/-- What SQL Server accepts all dialects accept. -/
theorem PageFits.of_sqlServer {page rows : Int64} (h : PageFits .sqlServer page rows)
    (d : Dialect) : PageFits d page rows := by
  obtain ⟨hpage, hrows, hlast⟩ := h
  rw [if_pos rfl] at hlast
  refine ⟨hpage, hrows, ?_⟩
  split <;> omega

/-- Each row is on the page of one number. -/
theorem page_eq_iff {n k i : Int} (hn : 1 ≤ n) :
    k * n + 1 ≤ i ∧ i ≤ k * n + n ↔ (i - 1) / n = k := by
  rw [Int.ediv_eq_iff_of_pos (by omega)]
  omega

/-- A page ends where the next one begins. -/
theorem OnPage.next (hguards : ∀ d, pageGuards d r = .ok ()) {page next rows : Int64} {i : Nat}
    (hnext : next.toInt = page.toInt + 1) (hfits : PageFits d next rows)
    (hi : OnPage d r page rows i) :
    ¬OnPage d r next rows i ∧ (OnPage d r page rows (i + 1) ∨ OnPage d r next rows (i + 1)) := by
  have hbegin : next.toInt * rows.toInt = page.toInt * rows.toInt + rows.toInt := by
    rw [hnext, Int.add_mul, Int.one_mul]
  have hrows := hfits.2.1
  obtain ⟨hpage, hfirst, hlast⟩ := (onPage_iff hguards).mp hi
  simp only [onPage_iff hguards, hpage, hfits, true_and, hbegin]
  push_cast
  omega

/-- A row up to the last one of a page that fits is on one page up to that page: the number of whole
pages before the row. -/
theorem existsUnique_onPage (hguards : ∀ d, pageGuards d r = .ok ()) {page rows : Int64} {i : Nat}
    (hfits : PageFits d page rows) (hi : 1 ≤ i ∧ i ≤ (page.toInt + 1) * rows.toInt) :
    ∃! k : Int64, k.toInt ≤ page.toInt ∧ OnPage d r k rows i := by
  have hrows := hfits.2.1
  have hle : ((i : Int) - 1) / rows.toInt < page.toInt + 1 :=
    (Int.ediv_lt_iff_lt_mul (by omega)).mpr (by omega)
  have hnonneg : 0 ≤ ((i : Int) - 1) / rows.toInt := Int.ediv_nonneg (by omega) (by omega)
  have hbound := page.toInt_lt
  obtain ⟨k, hk⟩ : ∃ k : Int64, k.toInt = ((i : Int) - 1) / rows.toInt :=
    ⟨.ofInt _, Int64.toInt_ofInt_of_le (by omega) (by omega)⟩
  refine ⟨k, ⟨by omega, (onPage_iff hguards).mpr ⟨hfits.mono (by omega) (by omega), ?_⟩⟩, ?_⟩
  · exact (page_eq_iff hrows).mpr hk.symm
  · rintro k' ⟨-, hi'⟩
    have hk' := (page_eq_iff hrows).mp ((onPage_iff hguards).mp hi').2
    exact Int64.toInt_inj.mp (hk'.symm.trans hk.symm)

/-- The pages up to one of them have no other rows than those up to its last one. -/
theorem OnPage.le_last (hguards : ∀ d, pageGuards d r = .ok ()) {k page rows : Int64} {i : Nat}
    (hi : OnPage d r k rows i) (hk : k.toInt ≤ page.toInt) :
    1 ≤ i ∧ i ≤ (page.toInt + 1) * rows.toInt := by
  obtain ⟨hfits, hfirst, hlast⟩ := (onPage_iff hguards).mp hi
  have hrows := hfits.2.1
  have hmul := Int.mul_le_mul_of_nonneg_right hk (show 0 ≤ rows.toInt by omega)
  have hzero : 0 ≤ k.toInt * rows.toInt := Int.mul_nonneg hfits.1 (by omega)
  rw [Int.add_mul, Int.one_mul]
  omega

/-- **Pages lie side by side and dialects agree on them.** A request that no dialect refuses is paged as
follows. A page is accepted if it fits, and is out of range otherwise. What SQL Server accepts all
dialects accept, with the same rows. An accepted page takes exactly the rows that its number means, it is
followed by the next page without a gap or a common row, and the pages up to it share out the rows up to
its last one: each of them is on exactly one page. -/
theorem pages_tile (hguards : ∀ d, pageGuards d r = .ok ()) (rows : Int64) :
    (∀ d page, ((∃ text, statementText d (.pagedQuery page rows) r = .ok text) ↔
        PageFits d page rows) ∧
      (¬PageFits d page rows →
        statementText d (.pagedQuery page rows) r = .error (pageError page rows))) ∧
    (∀ page, (∃ text, statementText .sqlServer (.pagedQuery page rows) r = .ok text) →
      ∀ d, (∃ text, statementText d (.pagedQuery page rows) r = .ok text) ∧
        ∀ i, OnPage d r page rows i ↔ OnPage .sqlServer r page rows i) ∧
    ∀ d page, (∃ text, statementText d (.pagedQuery page rows) r = .ok text) →
      (∀ i : Nat, OnPage d r page rows i ↔
        page.toInt * rows.toInt + 1 ≤ i ∧ i ≤ page.toInt * rows.toInt + rows.toInt) ∧
      (∀ next : Int64, next.toInt = page.toInt + 1 →
        (∃ text, statementText d (.pagedQuery next rows) r = .ok text) →
          ∀ i, OnPage d r page rows i → ¬OnPage d r next rows i ∧
            (OnPage d r page rows (i + 1) ∨ OnPage d r next rows (i + 1))) ∧
      ∀ i : Nat, (1 ≤ i ∧ i ≤ (page.toInt + 1) * rows.toInt →
          ∃! k : Int64, k.toInt ≤ page.toInt ∧ OnPage d r k rows i) ∧
        ∀ k : Int64, k.toInt ≤ page.toInt → OnPage d r k rows i →
          1 ≤ i ∧ i ≤ (page.toInt + 1) * rows.toInt := by
  refine ⟨fun d page => ⟨accepted_pagedQuery_iff (hguards d), fun hfits => ?_⟩, ?_, ?_⟩
  · rw [statementText_pagedQuery (hguards d), if_neg hfits]
  · intro page hserver d
    rw [accepted_pagedQuery_iff (hguards .sqlServer)] at hserver
    have hfits := hserver.of_sqlServer d
    refine ⟨(accepted_pagedQuery_iff (hguards d)).mpr hfits, fun i => ?_⟩
    rw [onPage_iff hguards, onPage_iff hguards, and_iff_right hfits, and_iff_right hserver]
  · intro d page hfits
    rw [accepted_pagedQuery_iff (hguards d)] at hfits
    refine ⟨fun i => ?_, fun next hnext hnextFits i hi => ?_, fun i => ⟨fun hi => ?_, ?_⟩⟩
    · rw [onPage_iff hguards, and_iff_right hfits]
    · exact hi.next hguards hnext ((accepted_pagedQuery_iff (hguards d)).mp hnextFits)
    · exact existsUnique_onPage hguards hfits hi
    · intro k hk hi
      exact hi.le_last hguards hk

/-- The third page of ten words has the words from the twenty-first on in every dialect. The last word of
the greatest page of two words has the number `2 ^ 64`, so only the dialects that count accept it. -/
theorem pages_tile_words :
    (∀ d, OnPage d Sample.words 2 10 21 ∧ ¬OnPage d Sample.words 2 10 20) ∧
      statementText .sqlServer (.pagedQuery Int64.maxValue 2) Sample.words =
        .error (.range "page" Int64.maxValue.toInt) ∧
      ∃ text, statementText .mySql (.pagedQuery Int64.maxValue 2) Sample.words = .ok text := by
  have hguards : ∀ d, pageGuards d Sample.words = .ok () := fun d => by cases d <;> rfl
  obtain ⟨htens, -, hrows⟩ := pages_tile hguards 10
  obtain ⟨htwos, -⟩ := pages_tile hguards 2
  refine ⟨fun d => ?_, (htwos .sqlServer _).2 (by decide), (htwos .mySql _).1.mpr (by decide)⟩
  have hfits : PageFits d 2 10 := by cases d <;> decide
  obtain ⟨htakes, -⟩ := hrows d 2 ((htens d 2).1.mpr hfits)
  exact ⟨(htakes 21).mpr (by decide), fun h => absurd ((htakes 20).mp h) (by decide)⟩

end EntitySql.Sql
