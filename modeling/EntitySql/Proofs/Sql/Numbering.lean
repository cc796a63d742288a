import EntitySql.Proofs.Sql.TokenReading
import EntitySql.Sql.Build

/-!
# Numbering the text of a row

A batch may be written as one text for each row, and these texts differ in the number of the row only.
`numbered` makes such a text from that of a single row. It goes through the characters as a database
does that looks for tokens, and copies all of them. Behind a placeholder it adds the number of the row
to the name of the parameter, and behind a key that is given back it adds the number under a name of its
own. A placeholder is a token, so no at sign between quotes is taken for one.

The builder numbers its fragments instead (`Fragments.inRow`). **`numbered_render`** says that this
comes to the same, and `Rowwise` says of fragments which are built for a row that they are those of a
single row with the number. Each part of a statement has one lemma.
-/

namespace EntitySql.Sql

/-! ### Texts -/

/-- The last of these tokens, or the one before them. -/
def lastOf (before : Option Token) (ts : List Token) : Option Token := ts.getLast?.or before

/-- Whether a key is given back under this name, which stands behind the word `AS`. -/
def namesKey (before : Option Token) (n : String) : Bool :=
  before = some (.word "AS") && n = "Result"

/-- What is written behind a key that is given back in the row of this number. -/
def keyMark (d : Dialect) (i : Nat) : List Char :=
  (", " ++ toString i ++ " AS ").toList ++ d.openQuote :: "OrderColumn".toList ++ [d.closeQuote]

/-- What is written behind a token in the row of this number. -/
def rowMark (d : Dialect) (i : Nat) (before : Option Token) : Token → List Char
  | .placeholder _ => '_' :: (toString i).toList
  | .name n => if namesKey before n then keyMark d i else []
  | _ => []

/-- What is written behind the tokens that end here, of which there is at most one. -/
def rowMarks (d : Dialect) (i : Nat) (before : Option Token) (ts : List Token) : List Char :=
  ts.flatMap (rowMark d i before)

/-- The text of a row from the text of a single row, the first token of which is pending. -/
def numberedFrom (d : Dialect) (i : Nat) (before : Option Token) (p : Pending) :
    List Char → List Char
  | [] => rowMarks d i before p.token
  | c :: rest =>
    match p.extend d c with
    | some q => c :: numberedFrom d i before q rest
    | none =>
      rowMarks d i before p.token ++
        c :: numberedFrom d i (lastOf before p.token) (.start d c) rest

/-- The text of a row from the text of a single row. -/
def numbered (d : Dialect) (i : Nat) (s : List Char) : List Char := numberedFrom d i none .idle s

example : numbered .postgres 3 "(@a, \"@b\") RETURNING \"Id\" AS \"Result\";".toList =
    "(@a_3, \"@b\") RETURNING \"Id\" AS \"Result\", 3 AS \"OrderColumn\";".toList := by decide

/-! ### Fragments -/

/-- A fragment of a single row in the row of this number. -/
def Fragment.inRow (i : Nat) (before : Option Token) : Fragment → Fragments
  | .text s => [.text s]
  | .name n => .name n :: if namesKey before n then rowNumber (some i) else []
  | .placeholder p => [.placeholder (p ++ "_" ++ toString i)]

/-- Fragments of a single row in the row of this number. -/
def Fragments.inRow (d : Dialect) (i : Nat) : Option Token → Fragments → Fragments
  | _, [] => []
  | before, f :: fs => f.inRow i before ++ Fragments.inRow d i (lastOf before (f.tokens d)) fs

variable {d : Dialect} {i : Nat} {before : Option Token} {p : Pending}

/-- The builder gives the number of the row in the same words. -/
theorem render_rowNumber (d : Dialect) (i : Nat) :
    Fragments.render d (rowNumber (some i)) = keyMark d i := by
  have hquoted : quoteChars d orderColumn.toList =
      d.openQuote :: "OrderColumn".toList ++ [d.closeQuote] := by cases d <;> decide
  simp [rowNumber, keyMark, Fragments.render, Fragment.render, hquoted]

theorem lastOf_append (before : Option Token) (ts us : List Token) :
    lastOf before (ts ++ us) = lastOf (lastOf before ts) us := by
  rw [lastOf, lastOf, lastOf, List.getLast?_append, Option.or_assoc]

theorem numberedFrom_of_extend_none {c : Char} (h : p.extend d c = none) (rest : List Char) :
    numberedFrom d i before p (c :: rest) =
      rowMarks d i before p.token ++ numberedFrom d i (lastOf before p.token) .idle (c :: rest) := by
  rw [numberedFrom, h]
  rfl

theorem rowMarks_of_isPlain (hp : p.IsPlain) : rowMarks d i before p.token = [] := by
  cases p with
  | idle | word s | sign s => rfl
  | placeholder s | name s | closing s => cases hp

/-- Plain text is copied as it is. -/
theorem numberedFrom_plain (hp : p.IsPlain) {s : List Char} (hs : s.all isPlain = true) :
    ∃ ts, lexFrom d p s = ts ++ (p.after d s).token ∧ ∀ before t,
      numberedFrom d i before p (s ++ t) =
        s ++ numberedFrom d i (lastOf before ts) (p.after d s) t := by
  induction s generalizing p with
  | nil => exact ⟨[], rfl, fun _ _ => rfl⟩
  | cons c s ih =>
    simp only [List.all_cons, Bool.and_eq_true] at hs
    obtain ⟨ts, hlex, hcopy⟩ := ih (isPlain_next (d := d) hp hs.1) hs.2
    cases h : p.extend d c with
    | some q =>
      have hnext : p.next d c = q := by rw [Pending.next, h, Option.getD_some]
      rw [hnext] at hlex hcopy
      refine ⟨ts, ?_, fun before t => ?_⟩
      · rw [lexFrom, h, Pending.after, List.foldl_cons, hnext]
        exact hlex
      · rw [List.cons_append, numberedFrom, h, Pending.after, List.foldl_cons, hnext]
        simp only
        rw [hcopy]
        rfl
    | none =>
      have hnext : p.next d c = .start d c := by rw [Pending.next, h, Option.getD_none]
      rw [hnext] at hlex hcopy
      refine ⟨p.token ++ ts, ?_, fun before t => ?_⟩
      · rw [lexFrom, h, Pending.after, List.foldl_cons, hnext, List.append_assoc]
        simp only
        rw [hlex]
        rfl
      · rw [List.cons_append, numberedFrom, h, Pending.after, List.foldl_cons, hnext]
        simp only
        rw [hcopy, rowMarks_of_isPlain hp, lastOf_append]
        rfl

theorem numberedFrom_name (before : Option Token) (s n rest : List Char) :
    numberedFrom d i before (.name s) (n.flatMap (quoteChar d.closeQuote) ++ rest) =
      n.flatMap (quoteChar d.closeQuote) ++ numberedFrom d i before (.name (s ++ n)) rest := by
  induction n generalizing s with
  | nil => simp
  | cons c n ih =>
    have hstep : numberedFrom d i before (.name s)
        (quoteChar d.closeQuote c ++ (n.flatMap (quoteChar d.closeQuote) ++ rest)) =
        quoteChar d.closeQuote c ++ numberedFrom d i before (.name (s ++ [c]))
          (n.flatMap (quoteChar d.closeQuote) ++ rest) := by
      by_cases hc : c = d.closeQuote
      · simp [quoteChar, hc, numberedFrom, Pending.extend]
      · simp [quoteChar, hc, numberedFrom, Pending.extend]
    rw [List.flatMap_cons, List.append_assoc, hstep, ih]
    simp

/-- A quoted name is copied with its quotes. -/
theorem numberedFrom_quoteChars (h : p.extend d d.openQuote = none) (n t : List Char) :
    numberedFrom d i before p (quoteChars d n ++ t) =
      rowMarks d i before p.token ++
        (quoteChars d n ++ numberedFrom d i (lastOf before p.token) (.closing n) t) := by
  have hname := numberedFrom_name (d := d) (i := i) (lastOf before p.token) [] n
    (d.closeQuote :: t)
  rw [List.nil_append, numberedFrom] at hname
  simp only [Pending.extend, if_true] at hname
  rw [quoteChars, List.cons_append, List.cons_append, List.append_assoc, List.singleton_append,
    numberedFrom, h]
  simp only [Pending.start, if_true]
  rw [hname]
  simp

theorem numberedFrom_letters (s : List Char) {n : List Char} (hn : ∀ c ∈ n, isNameChar c = true)
    (rest : List Char) :
    numberedFrom d i before (.placeholder s) (n ++ rest) =
      n ++ numberedFrom d i before (.placeholder (s ++ n)) rest := by
  induction n generalizing s with
  | nil => simp
  | cons c n ih =>
    have hc : isNameChar c = true := hn c (by simp)
    have hrest := ih (s ++ [c]) fun x hx => hn x (List.mem_cons_of_mem c hx)
    rw [List.cons_append, numberedFrom]
    simp only [Pending.extend, hc, if_true]
    rw [hrest, List.append_assoc, List.singleton_append, List.cons_append]

/-- An at sign is copied with the letters behind it. -/
theorem numberedFrom_at (h : p.extend d '@' = none) {n : List Char}
    (hn : ∀ c ∈ n, isNameChar c = true) (t : List Char) :
    numberedFrom d i before p ('@' :: n ++ t) =
      rowMarks d i before p.token ++
        ('@' :: n ++ numberedFrom d i (lastOf before p.token) (.placeholder n) t) := by
  have hstart : Pending.start d '@' = .placeholder [] := by cases d <;> decide
  rw [List.cons_append, numberedFrom, h]
  simp only [hstart]
  rw [numberedFrom_letters [] hn, List.nil_append, List.cons_append]

/-- Text is copied, if what stands behind it is numbered whichever token is pending there. -/
theorem numberedFrom_text {a m : Side} {s : String} {fs : Fragments} (plain : s.toList.all isPlain)
    (start : a = .tight → startsApart s) (stop : m = .loose → endsApart s)
    (hrest : ∀ {q : Pending} {before : Option Token}, q.Fits d m →
      numberedFrom d i before q (fs.render d) =
        rowMarks d i before q.token ++ (fs.inRow d i (lastOf before q.token)).render d)
    (hp : p.Fits d a) :
    numberedFrom d i before p (s.toList ++ fs.render d) =
      rowMarks d i before p.token ++
        (s.toList ++ (fs.inRow d i (lastOf (lastOf before p.token) (lex d s.toList))).render d) := by
  have hidle (before : Option Token) :
      numberedFrom d i before .idle (s.toList ++ fs.render d) =
        s.toList ++ (fs.inRow d i (lastOf before (lex d s.toList))).render d := by
    obtain ⟨ts, hlex, hcopy⟩ := numberedFrom_plain (d := d) (i := i) idle_isPlain plain
    rw [hcopy, hrest (fits_after_text plain stop),
      rowMarks_of_isPlain (isPlain_after idle_isPlain plain), ← lastOf_append, lex, hlex]
    rfl
  cases hc : s.toList with
  | nil =>
    -- no text holds the sides apart, so both are the same one
    have hm : a = .loose ∧ m = .tight := by
      cases a <;> cases m <;> simp_all [startsApart, endsApart]
    obtain ⟨rfl, rfl⟩ := hm
    exact hrest fun c _ => hp c
  | cons c rest =>
    have hnone : p.extend d c = none := by
      cases a with
      | loose => exact hp c
      | tight => exact hp c (by simpa [startsApart, hc] using start rfl)
    rw [List.cons_append, numberedFrom_of_extend_none hnone, ← List.cons_append, ← hc, hidle]

theorem numberedFrom_render {a b : Side} {fs : Fragments} (h : Spaced a fs b) (hl : fs.Legible)
    (hp : p.Fits d a) :
    numberedFrom d i before p (fs.render d) =
      rowMarks d i before p.token ++ (fs.inRow d i (lastOf before p.token)).render d := by
  induction h generalizing p before with
  | nil => simp [Fragments.render, numberedFrom, Fragments.inRow]
  | @text a m b s fs plain start stop _ ih =>
    rw [Fragments.render_cons, Fragment.render, numberedFrom_text plain start stop (ih hl) hp,
      Fragments.inRow, Fragment.inRow, List.singleton_append, Fragments.render_cons, Fragment.render]
    rfl
  | @name b n fs _ ih =>
    have hmark : rowMarks d i (lastOf before p.token) (Pending.closing n.toList).token =
        Fragments.render d
          (if namesKey (lastOf before p.token) n then rowNumber (some i) else []) := by
      rw [rowMarks, Pending.token, List.flatMap_singleton, String.ofList_toList, rowMark,
        ← render_rowNumber]
      cases namesKey (lastOf before p.token) n <;> rfl
    rw [Fragments.render_cons, Fragment.render, numberedFrom_quoteChars (hp _),
      ih hl (Pending.fits_closing n.toList), hmark, Fragments.inRow, Fragment.inRow,
      List.cons_append, Fragments.render_cons, Fragment.render, Fragments.render, Fragments.render,
      Fragments.render, List.flatMap_append, Pending.token, String.ofList_toList]
    rfl
  | @placeholder b q fs _ ih =>
    obtain ⟨letters, hl⟩ := List.forall_mem_cons.mp hl
    have hmark : rowMarks d i (lastOf before p.token) (Pending.placeholder q.toList).token =
        '_' :: (toString i).toList := by
      simp [rowMarks, Pending.token, rowMark]
    have hlist : (q ++ "_" ++ toString i).toList = q.toList ++ '_' :: (toString i).toList := by
      simp
    rw [Fragments.render_cons, Fragment.render, numberedFrom_at (hp _) letters,
      ih hl (Pending.fits_placeholder q.toList), hmark, Fragments.inRow, Fragment.inRow,
      List.singleton_append, Fragments.render_cons, Fragment.render, hlist, Pending.token,
      String.ofList_toList, Fragment.tokens]
    simp

/-- **The text of fragments in a row is their text with the number of the row.** -/
theorem numbered_render {a b : Side} {fs : Fragments} (h : Spaced a fs b) (hl : fs.Legible) :
    numbered d i (fs.render d) = (fs.inRow d i none).render d := by
  have hidle : Pending.idle.Fits d a := by
    cases a with
    | loose => exact fun _ => rfl
    | tight => exact fun _ _ => rfl
  exact numberedFrom_render h hl hidle

/-! ### Fragments of rows -/

/-- Fragments that are built for a row are those of a single row with the number of the row, wherever
they do not stand behind the word `AS`. -/
structure Rowwise (d : Dialect) (f : Option Nat → Fragments) : Prop where
  inRow : ∀ i before, before ≠ some (.word "AS") → (f none).inRow d i before = f (some i)
  ends : ∀ before, before ≠ some (.word "AS") → lastOf before ((f none).tokens d) ≠ some (.word "AS")
  legible : (f none).Legible

theorem inRow_append (fs gs : Fragments) (before : Option Token) :
    Fragments.inRow d i before (fs ++ gs) =
      fs.inRow d i before ++ Fragments.inRow d i (lastOf before (fs.tokens d)) gs := by
  induction fs generalizing before with
  | nil => rfl
  | cons f fs ih =>
    have htokens : Fragments.tokens d (f :: fs) = f.tokens d ++ Fragments.tokens d fs := rfl
    rw [List.cons_append, Fragments.inRow, ih, Fragments.inRow, List.append_assoc, htokens,
      lastOf_append]

/-- Whether text is plain and does not end in the word `AS`. -/
def endsOutside (s : String) : Bool :=
  s.toList.all isPlain && (lex .postgres s.toList).getLast? ≠ some (.word "AS")

theorem lastOf_text {s : String} (hs : endsOutside s = true) {before : Option Token}
    (h : before ≠ some (.word "AS")) : lastOf before (lex d s.toList) ≠ some (.word "AS") := by
  simp only [endsOutside, Bool.and_eq_true, decide_eq_true_eq] at hs
  rw [lex, lexFrom_eq_of_isPlain idle_isPlain hs.1, ← lex, lastOf]
  cases hlast : (lex .postgres s.toList).getLast? with
  | none => exact h
  | some t =>
    rw [hlast] at hs
    exact hs.2

namespace Rowwise

variable {f g : Option Nat → Fragments}

theorem nil : Rowwise d fun _ => [] := ⟨fun _ _ _ => rfl, fun _ h => h, nofun⟩

theorem append (hf : Rowwise d f) (hg : Rowwise d g) : Rowwise d fun row => f row ++ g row := by
  refine ⟨fun i before h => ?_, fun before h => ?_, ?_⟩
  · rw [inRow_append, hf.inRow i before h, hg.inRow i _ (hf.ends before h)]
  · rw [Fragments.tokens_append, lastOf_append]
    exact hg.ends _ (hf.ends before h)
  · intro q hq
    rw [Fragments.placeholders_append] at hq
    rcases List.mem_append.mp hq with hq | hq
    · exact hf.legible q hq
    · exact hg.legible q hq

theorem text {s : String} (hs : endsOutside s = true) (hg : Rowwise d g) :
    Rowwise d fun row => .text s :: g row := by
  refine ⟨fun i before h => ?_, fun before h => ?_, hg.legible⟩
  · rw [Fragments.inRow, Fragment.tokens, hg.inRow i _ (lastOf_text hs h)]
    rfl
  · rw [Fragments.tokens_text, lastOf_append]
    exact hg.ends _ (lastOf_text hs h)

theorem name {n : String} (hg : Rowwise d g) : Rowwise d fun row => .name n :: g row := by
  refine ⟨fun i before h => ?_, fun before _ => ?_, hg.legible⟩
  · have hno : namesKey before n = false := by simp [namesKey, h]
    rw [Fragments.inRow, hg.inRow i _ (by simp [Fragment.tokens, lastOf]), Fragment.inRow, hno]
    rfl
  · rw [tokens_name, ← List.singleton_append, lastOf_append]
    exact hg.ends _ (by simp [lastOf])

/-- The parameter of a column in a row. -/
theorem placeholder {c : Column} (hc : ∀ ch ∈ c.parameterName.toList, isNameChar ch = true)
    (hg : Rowwise d g) : Rowwise d fun row => .placeholder (c.parameterAt row) :: g row := by
  refine ⟨fun i before _ => ?_, fun before _ => ?_, ?_⟩
  · rw [Fragments.inRow, hg.inRow i _ (by simp [Fragment.tokens, lastOf])]
    rfl
  · rw [tokens_placeholder, ← List.singleton_append, lastOf_append]
    exact hg.ends _ (by simp [lastOf])
  · intro q hq
    rw [Fragments.placeholders_placeholder] at hq
    rcases List.mem_cons.mp hq with rfl | hq
    · exact hc
    · exact hg.legible q hq

/-- A key that is given back with the number of its row. -/
theorem result (hg : Rowwise d g) :
    Rowwise d fun row => .text " AS " :: .name resultColumn :: (rowNumber row ++ g row) := by
  have has : lex d " AS ".toList = [.word "AS"] := by cases d <;> decide
  refine ⟨fun i before _ => ?_, fun before _ => ?_, hg.legible⟩
  · have hkey : namesKey (some (.word "AS")) resultColumn = true := by decide
    rw [Fragments.inRow, Fragments.inRow, Fragment.tokens, has]
    simp only [lastOf, List.getLast?_singleton, Option.some_or, Fragment.inRow, hkey, if_true,
      rowNumber, List.nil_append]
    rw [hg.inRow i _ (by simp [Fragment.tokens])]
    rfl
  · have htokens : Fragments.tokens d
        (.text " AS " :: .name resultColumn :: (rowNumber none ++ g none)) =
          [.word "AS", .name resultColumn] ++ (g none).tokens d := by
      rw [Fragments.tokens_text, has, tokens_name]
      rfl
    rw [htokens, lastOf_append]
    exact hg.ends _ (by simp [lastOf])

theorem separated {separator : String} (hs : endsOutside separator = true) {α : Type} {xs : List α}
    {f : Option Nat → α → Fragments} (h : ∀ x ∈ xs, Rowwise d fun row => f row x) :
    Rowwise d fun row => separated separator (xs.map (f row)) := by
  induction xs with
  | nil => exact nil
  | cons x xs ih =>
    obtain ⟨hx, hxs⟩ := List.forall_mem_cons.mp h
    cases xs with
    | nil => exact hx
    | cons y ys => exact hx.append (.text hs (ih hxs))

theorem commaList {α : Type} {xs : List α} {f : Option Nat → α → Fragments}
    (h : ∀ x ∈ xs, Rowwise d fun row => f row x) :
    Rowwise d fun row => commaList (f row) xs :=
  .separated (by decide) h

end Rowwise

end EntitySql.Sql
