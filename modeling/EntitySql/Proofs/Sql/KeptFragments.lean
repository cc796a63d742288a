import EntitySql.Proofs.Sql.Statement
import EntitySql.Proofs.Sql.Tidy

/-!
# Fragments that tidying keeps

Tidying reads a finished text and knows nothing of the fragments that it is made of, so it is not plain
that it leaves names and placeholders alone. A fragment is kept if it does not make a gap: its text has
no blank behind the name of an aggregate function, and does not start with a blank and a bracket where a
placeholder may stand in front of it, which may have that name. **`tidied_render`** says that tidying
changes nothing in spaced fragments that are kept.

The parts of statements are kept wherever they stand (`Fragments.Kept`): conditions whatever they test,
clauses with whatever numbers, and all values but the call of a function.
-/

namespace EntitySql.Sql

variable {d : Dialect} {word : List Char}

/-! ### Text that is kept -/

/-- Whether a blank of the text stands right behind the name of an aggregate function. The word in front
of the text is given last character first. -/
def callsIn (word : List Char) : List Char → Bool
  | [] => false
  | c :: rest =>
    if isWordChar c then callsIn (c :: word) rest
    else (c = ' ' && aggregateWords.contains word.reverse) || callsIn [] rest

/-- The word at the end of a text, last character first. -/
def wordBehind (word s : List Char) : List Char :=
  s.foldl (fun word c => if isWordChar c then c :: word else []) word

/-- Whether the text may start with a gap: with a blank, and a bracket behind it or nothing. -/
def opensGap (s : List Char) : Bool := s.head? = some ' ' && s.tail.head?.all (· = '(')

theorem tidied_calm {s : List Char} (hs : s.all isPlain = true) (h : callsIn word s = false)
    (rest : List Char) :
    tidied none word (s ++ rest) = s ++ tidied none (wordBehind word s) rest := by
  induction s generalizing word with
  | nil => rfl
  | cons c s ih =>
    simp only [List.all_cons, Bool.and_eq_true] at hs
    rw [List.cons_append, tidied_plain _ _ (closingQuote?_of_isPlain hs.1), wordBehind,
      List.foldl_cons]
    rw [callsIn] at h
    by_cases hc : isWordChar c = true
    · rw [if_pos hc] at h
      rw [if_pos hc, if_pos hc, ih hs.2 h]
      rfl
    · rw [if_neg hc, Bool.or_eq_false_iff] at h
      have hdrop : dropsBlank word c (s ++ rest) = false := by
        rw [dropsBlank, Bool.and_assoc, Bool.and_left_comm, h.1, Bool.and_false]
      rw [if_neg hc, if_neg hc, hdrop, if_neg Bool.false_ne_true, ih hs.2 h.2]
      rfl

theorem isWordChar_of_isSeparator {c : Char} (h : isSeparator c = true) : isWordChar c = false := by
  have hall : ∀ c ∈ " ().,;".toList, isWordChar c = false :=
    List.all_iff_forall_prop.mp (by decide)
  exact hall c (List.contains_iff_mem.mp h)

theorem wordBehind_of_endsApart {s : String} (h : endsApart s = true) (word : List Char) :
    wordBehind word s.toList = [] := by
  obtain ⟨c, hlast, hc⟩ : ∃ c, s.toList.getLast? = some c ∧ isSeparator c = true := by
    simpa [endsApart, Option.any_eq_true] using h
  obtain ⟨t, ht⟩ := List.getLast?_eq_some_iff.mp hlast
  rw [ht, wordBehind, List.foldl_append]
  simp [isWordChar_of_isSeparator hc]

/-- Whether the fragment makes no gap. `apart` tells that no word ends in front of it. -/
def Fragment.isKept (apart : Bool) : Fragment → Bool
  | .text s => !callsIn [] s.toList && (apart || !opensGap s.toList)
  | _ => true

/-- Whether no word ends with the fragment. -/
def Fragment.isApart : Fragment → Bool
  | .text s => endsApart s
  | .name _ => true
  | .placeholder _ => false

/-- The fragments make no gap. -/
def Gapless (apart : Bool) : Fragments → Prop
  | [] => True
  | f :: fs => f.isKept apart = true ∧ Gapless f.isApart fs

/-- Tidying keeps text that makes no gap. -/
theorem tidied_text {apart : Bool} {s : String} (hs : s.toList.all isPlain = true)
    (h : (Fragment.text s).isKept apart = true) (hapart : apart = true → word = [])
    (hstart : word = [] ∨ startsApart s = true) (rest : List Char) :
    ∃ word', tidied none word (s.toList ++ rest) = s.toList ++ tidied none word' rest ∧
      (endsApart s = true → word' = []) := by
  simp only [Fragment.isKept, Bool.and_eq_true, Bool.or_eq_true, Bool.not_eq_true'] at h
  obtain ⟨hcalls, hopens⟩ := h
  by_cases hword : word = []
  · subst hword
    exact ⟨_, tidied_calm hs hcalls rest, fun hend => wordBehind_of_endsApart hend []⟩
  · -- a separator ends the word that stands in front, whatever it is
    have hopens : opensGap s.toList = false := hopens.resolve_left fun h => hword (hapart h)
    obtain ⟨c, hc, hseparator⟩ : ∃ c, s.toList.head? = some c ∧ isSeparator c = true := by
      simpa [startsApart, Option.any_eq_true] using hstart.resolve_left hword
    obtain ⟨t, ht⟩ : ∃ t, s.toList = c :: t := List.head?_eq_some_iff.mp hc
    have hplain := isWordChar_of_isSeparator hseparator
    refine ⟨wordBehind [] s.toList, ?_, fun hend => wordBehind_of_endsApart hend []⟩
    rw [ht] at hs hcalls hopens ⊢
    simp only [List.all_cons, Bool.and_eq_true] at hs
    rw [callsIn, hplain, if_neg Bool.false_ne_true, Bool.or_eq_false_iff] at hcalls
    have hdrop : dropsBlank word c (t ++ rest) = false := by
      rw [← Bool.not_eq_true]
      intro hdrop
      simp only [dropsBlank, Bool.and_eq_true, decide_eq_true_eq] at hdrop
      cases t <;> simp_all [opensGap]
    rw [List.cons_append, tidied_plain _ _ (closingQuote?_of_isPlain hs.1), hplain, hdrop,
      if_neg Bool.false_ne_true, if_neg Bool.false_ne_true, tidied_calm hs.2 hcalls.2]
    simp [wordBehind, hplain]

/-- **Tidying changes nothing in spaced fragments that make no gap.** -/
theorem tidied_render {a b : Side} {apart : Bool} {fs : Fragments} (h : Spaced a fs b)
    (hl : fs.Legible) (hg : Gapless apart fs) (hword : apart = true ∨ a = .loose → word = []) :
    tidied none word (fs.render d) = fs.render d := by
  induction h generalizing apart word with
  | nil => rfl
  | @text a m b s fs plain start stop rest ih =>
    obtain ⟨hkept, hg⟩ := hg
    have hstart : word = [] ∨ startsApart s = true := by
      cases a with
      | loose => exact .inl (hword (.inr rfl))
      | tight => exact .inr (start rfl)
    obtain ⟨word', htext, hend⟩ :=
      tidied_text plain hkept (fun h => hword (.inl h)) hstart (fs.render d)
    have hword' : endsApart s = true ∨ m = .loose → word' = [] :=
      fun h => hend (h.elim id fun h => stop h)
    rw [Fragments.render_cons, Fragment.render, htext, ih hl hg hword']
  | @name b n fs rest ih =>
    rw [Fragments.render_cons, Fragment.render,
      tidied_name word n.toList rest.head?_ne_closeQuote, ih hl hg.2 fun _ => rfl]
  | @placeholder b p fs rest ih =>
    obtain ⟨letters, hl⟩ := List.forall_mem_cons.mp hl
    obtain ⟨word', h⟩ := tidied_placeholder letters word (fs.render d)
    rw [Fragments.render_cons, Fragment.render, h, ih hl hg.2 (by simp [Fragment.isApart])]

/-! ### Fragments that are kept wherever they stand -/

/-- The fragments make no gap, whatever stands in front of each of them. -/
def Fragments.Kept (fs : Fragments) : Prop := ∀ f ∈ fs, f.isKept false = true

variable {fs gs : Fragments} {apart : Bool}

@[simp] theorem kept_nil : Fragments.Kept [] := nofun

@[simp] theorem kept_cons {f : Fragment} :
    Fragments.Kept (f :: fs) ↔ f.isKept false = true ∧ fs.Kept :=
  List.forall_mem_cons

@[simp] theorem kept_append : Fragments.Kept (fs ++ gs) ↔ fs.Kept ∧ gs.Kept :=
  List.forall_mem_append

@[simp] theorem isKept_name (n : String) : (Fragment.name n).isKept apart = true := rfl

@[simp] theorem isKept_placeholder (p : String) : (Fragment.placeholder p).isKept apart = true := rfl

theorem isKept_mono {f : Fragment} (h : f.isKept false = true) : f.isKept apart = true := by
  cases f with
  | text s =>
    simp only [Fragment.isKept, Bool.and_eq_true, Bool.or_eq_true] at h ⊢
    exact ⟨h.1, .inr (h.2.resolve_left Bool.false_ne_true)⟩
  | _ => rfl

theorem Gapless.mono (h : Gapless false fs) : Gapless apart fs := by
  cases fs with
  | nil => trivial
  | cons f fs => exact ⟨isKept_mono h.1, h.2⟩

theorem Fragments.Kept.gapless (h : fs.Kept) : Gapless apart fs := by
  induction fs generalizing apart with
  | nil => trivial
  | cons f fs ih =>
    obtain ⟨hf, hfs⟩ := kept_cons.mp h
    exact ⟨isKept_mono hf, ih hfs⟩

/-- Fragments go on as after the last of those in front. -/
theorem Gapless.append (h : Gapless apart fs)
    (h' : Gapless (fs.getLast?.elim apart Fragment.isApart) gs) : Gapless apart (fs ++ gs) := by
  induction fs generalizing apart with
  | nil => exact h'
  | cons f fs ih =>
    refine ⟨h.1, ih h.2 ?_⟩
    cases fs with
    | nil => exact h'
    | cons g fs => rwa [List.getLast?_cons_cons] at h'

/-! ### Numbers in text -/

theorem callsIn_append (word s t : List Char) :
    callsIn word (s ++ t) = (callsIn word s || callsIn (wordBehind word s) t) := by
  induction s generalizing word with
  | nil => rfl
  | cons c s ih =>
    rw [List.cons_append, callsIn, callsIn, wordBehind, List.foldl_cons]
    by_cases hc : isWordChar c = true
    · rw [if_pos hc, if_pos hc, if_pos hc, ih]
      rfl
    · rw [if_neg hc, if_neg hc, if_neg hc, ih, Bool.or_assoc]
      rfl

/-- A word goes on through digits. -/
theorem callsIn_digits {s : List Char} (hs : ∀ c ∈ s, c.isDigit = true) (word : List Char) :
    callsIn word s = false ∧ wordBehind word s = s.reverse ++ word := by
  induction s generalizing word with
  | nil => exact ⟨rfl, rfl⟩
  | cons c s ih =>
    obtain ⟨hc, hs⟩ := List.forall_mem_cons.mp hs
    have hword : isWordChar c = true := by simp [isWordChar, Char.isAlphanum, hc]
    obtain ⟨hcalls, hbehind⟩ := ih hs (c :: word)
    refine ⟨by rw [callsIn, if_pos hword, hcalls], ?_⟩
    rw [wordBehind, List.foldl_cons, if_pos hword, ← wordBehind, hbehind]
    simp

/-- No aggregate function has a name that ends with a digit. -/
theorem callsIn_behindDigit {c : Char} (hc : c.isDigit = true) {t : String}
    (ht : callsIn [] t.toList = false) (hstart : t = "" ∨ startsApart t = true) :
    callsIn (c :: word) t.toList = false := by
  have hname : (c :: word).reverse ∉ aggregateWords := by
    intro h
    have hall : ∀ w ∈ aggregateWords, w.getLast?.any Char.isDigit = false := by decide
    have hdigit := hall _ h
    rw [List.reverse_cons, List.getLast?_concat, Option.any_some, hc] at hdigit
    cases hdigit
  rcases hstart with rfl | hstart
  · rfl
  · obtain ⟨x, hx, hseparator⟩ : ∃ x, t.toList.head? = some x ∧ isSeparator x = true := by
      simpa [startsApart, Option.any_eq_true] using hstart
    obtain ⟨rest, hrest⟩ := List.head?_eq_some_iff.mp hx
    rw [hrest, callsIn, isWordChar_of_isSeparator hseparator, if_neg Bool.false_ne_true,
      Bool.or_eq_false_iff] at ht
    rw [hrest, callsIn, isWordChar_of_isSeparator hseparator, if_neg Bool.false_ne_true, ht.2]
    rw [List.reverse_cons] at hname
    simp [hname]

theorem opensGap_append {s : List Char} (hs : opensGap s = false) {c : Char} (hc : c ≠ ' ')
    (t : List Char) : opensGap (s ++ c :: t) = false := by
  match s with
  | [] | [x] => simp_all [opensGap]
  | x :: y :: s => simpa [opensGap] using hs

/-- A number in a text makes no gap. -/
theorem isKept_number {s t : String} (hs : (Fragment.text s).isKept false = true) (n : Nat)
    (ht : callsIn [] t.toList = false) (hstart : t = "" ∨ startsApart t = true) :
    (Fragment.text (s ++ toString n ++ t)).isKept false = true := by
  simp only [Fragment.isKept, Bool.and_eq_true, Bool.not_eq_true', Bool.false_or] at hs ⊢
  have hdigits : ∀ c ∈ (toString n).toList, c.isDigit = true := by
    rw [Nat.toString_eq_repr, Nat.toList_repr]
    exact fun c => isDigit_of_mem_digits
  have hne : (toString n).toList ≠ [] := by
    rw [Nat.toString_eq_repr, Nat.toList_repr]
    exact Nat.toDigits_ne_nil
  rw [String.toList_append, String.toList_append, List.append_assoc]
  constructor
  · obtain ⟨hcalls, hbehind⟩ := callsIn_digits hdigits (wordBehind [] s.toList)
    obtain ⟨c, rest, hlast⟩ := List.exists_cons_of_ne_nil (mt List.reverse_eq_nil_iff.mp hne)
    have hc : c.isDigit = true := hdigits c (List.mem_reverse.mp (hlast ▸ List.mem_cons_self))
    rw [callsIn_append, callsIn_append, hs.1, hcalls, hbehind, hlast, List.cons_append]
    exact callsIn_behindDigit hc ht hstart
  · obtain ⟨c, rest, hfirst⟩ := List.exists_cons_of_ne_nil hne
    have hc : c ≠ ' ' := by
      rintro rfl
      exact absurd (hdigits ' ' (hfirst ▸ List.mem_cons_self)) (by decide)
    rw [hfirst, List.cons_append]
    exact opensGap_append hs.2 hc _

/-- A number at the end of a text makes no gap. -/
theorem isKept_lastNumber {s : String} (hs : (Fragment.text s).isKept false = true) (n : Nat) :
    (Fragment.text (s ++ toString n)).isKept false = true := by
  have h := isKept_number hs n (t := "") rfl (.inl rfl)
  rwa [String.append_empty] at h

/-! ### Parts of statements -/

theorem kept_separated {separator : String} {items : List Fragments}
    (hs : (Fragment.text separator).isKept false = true) (h : ∀ fs ∈ items, fs.Kept) :
    (separated separator items).Kept := by
  induction items with
  | nil => exact kept_nil
  | cons fs rest ih =>
    obtain ⟨hfs, hrest⟩ := List.forall_mem_cons.mp h
    cases rest with
    | nil => exact hfs
    | cons gs rest => exact kept_append.mpr ⟨hfs, kept_cons.mpr ⟨hs, ih hrest⟩⟩

theorem kept_commaList {α : Type} {f : α → Fragments} {items : List α}
    (h : ∀ x ∈ items, (f x).Kept) : (commaList f items).Kept := by
  refine kept_separated (by decide) fun fs hfs => ?_
  obtain ⟨x, hx, rfl⟩ := List.mem_map.mp hfs
  exact h x hx

@[simp] theorem kept_pathFragments (parts : List String) : (pathFragments parts).Kept := by
  refine kept_separated (by decide) fun fs hfs => ?_
  obtain ⟨n, -, rfl⟩ := List.mem_map.mp hfs
  simp

@[simp] theorem kept_dottedName (name : String) : (dottedName name).Kept := kept_pathFragments _

@[simp] theorem kept_columnList (names : List String) : (columnList names).Kept :=
  kept_commaList fun n _ => by simp

/-- The value is the call of a function. -/
def Operand.isCall : Operand → Bool
  | .function _ => true
  | _ => false

/-- Values but calls make no gap. -/
theorem Operand.kept {v : Operand} (h : v.isCall = false) : v.fragments.Kept := by
  cases v with
  | number n =>
    have h := isKept_lastNumber (s := "") (by decide) n
    rw [String.empty_append] at h
    simpa [Operand.fragments] using h
  | function call => cases h
  | _ => simp +decide [Operand.fragments]

theorem kept_operandList {values : List Operand} (h : ∀ v ∈ values, v.isCall = false) :
    (operandList values).Kept :=
  kept_commaList fun v hv => Operand.kept (h v hv)

theorem kept_assignmentList {set : List Assignment} (h : ∀ x ∈ set, x.value.isCall = false) :
    (assignmentList set).Kept :=
  kept_commaList fun x hx => by simp +decide [Operand.kept (h x hx)]

theorem kept_rows {rows : List (List Operand)} (h : ∀ row ∈ rows, ∀ v ∈ row, v.isCall = false) :
    (commaList rowFragments rows).Kept :=
  kept_commaList fun row hrow => by simp +decide [rowFragments, kept_operandList (h row hrow)]

@[simp] theorem kept_orderList (order : List OrderField) : (orderList order).Kept :=
  kept_commaList fun o _ => by
    obtain ⟨name, direction⟩ := o
    cases direction <;> simp +decide [orderFragments]

@[simp] theorem kept_orderClause (order : List OrderField) : (orderClause order).Kept := by
  unfold orderClause
  split <;> simp +decide

/-! ### Conditions -/

theorem kept_comparison (operator : Operator) (caseSensitive : Bool) (hfs : fs.Kept)
    (hgs : gs.Kept) : (comparison operator caseSensitive fs gs).Kept := by
  have hsign : (Fragment.text (" " ++ operator.symbol ++ " ")).isKept false = true := by
    cases operator <;> decide
  cases caseSensitive <;> simp +decide [comparison, lowered, hsign, hfs, hgs]

theorem kept_membershipTest (column : List String) (operator : Operator)
    (parameters : List String) : (membershipTest column operator parameters).Kept := by
  unfold membershipTest
  split
  · split <;> simp +decide
  · have hopen : (Fragment.text (" " ++ operator.symbol ++ " (")).isKept false = true := by
      cases operator <;> decide
    have hlist : (commaList (fun p => [Fragment.placeholder p]) parameters).Kept :=
      kept_commaList fun p _ => by simp
    simp +decide [hopen, hlist]

theorem kept_joined (conjunction : Conjunction) {items : List Fragments}
    (h : ∀ fs ∈ items, fs.Kept) : (joined conjunction items).Kept := by
  unfold joined
  split
  · cases conjunction <;> simp +decide
  · exact kept_separated (by cases conjunction <;> decide) h

theorem kept_bracketed (outermost negated : Bool) (h : fs.Kept) :
    (bracketed outermost negated fs).Kept := by
  cases outermost <;> cases negated <;> simp +decide [bracketed, h]

mutual
/-- A condition makes no gap. -/
theorem SearchCondition.kept (outermost : Bool) :
    ∀ c : SearchCondition, (c.fragments outermost).Kept
  | .nullTest column operator => by
    have hsymbol : (Fragment.text (" " ++ operator.symbol)).isKept false = true := by
      cases operator <;> decide
    simp [SearchCondition.fragments, hsymbol]
  | .compare column operator caseSensitive p =>
    kept_comparison operator caseSensitive (kept_pathFragments column) (by simp)
  | .membership column operator parameters => kept_membershipTest column operator parameters
  | .group conjunction negated items =>
    kept_bracketed outermost negated
      (kept_joined conjunction (SearchCondition.kept_fragmentsOf items))

theorem SearchCondition.kept_fragmentsOf :
    ∀ cs : List SearchCondition, ∀ fs ∈ fragmentsOf cs, fs.Kept
  | [], _, h => by cases h
  | c :: rest, fs, h => by
    rcases List.mem_cons.mp h with rfl | h
    · exact SearchCondition.kept false c
    · exact SearchCondition.kept_fragmentsOf rest fs h
end

@[simp] theorem kept_whereClause (c : Option SearchCondition) : (whereClause c).Kept := by
  cases c with
  | none => exact kept_nil
  | some c => simp +decide [whereClause, c.kept true]

/-! ### Clauses -/

@[simp] theorem RowLimit.kept (l : RowLimit) : l.fragments.Kept := by
  cases l with
  | all => exact kept_nil
  | limit n =>
    have h := isKept_lastNumber (s := " LIMIT ") (by decide) n
    simpa [RowLimit.fragments] using h
  | limitOffset n skip =>
    have h := isKept_lastNumber
      (isKept_number (s := " LIMIT ") (t := " OFFSET ") (by decide) n (by decide) (by decide)) skip
    simpa [RowLimit.fragments] using h
  | offsetFetch skip n =>
    have h := isKept_number (t := " ROWS ONLY")
      (isKept_number (s := " OFFSET ") (t := " ROWS FETCH NEXT ") (by decide) skip (by decide)
        (by decide)) n (by decide) (by decide)
    simpa [RowLimit.fragments] using h

@[simp] theorem kept_rowNumber (row : Option Nat) : (rowNumber row).Kept := by
  cases row with
  | none => exact kept_nil
  | some i =>
    have h := isKept_number (s := ", ") (t := " AS ") (by decide) i (by decide) (by decide)
    simpa [rowNumber] using h

@[simp] theorem kept_outputClause (batch : Bool) (key : Option String) :
    (outputClause batch key).Kept := by
  cases key <;> cases batch <;> simp +decide [outputClause]

@[simp] theorem kept_returningClause (key : Option ReturnedKey) : (returningClause key).Kept := by
  cases key <;> simp +decide [returningClause]

@[simp] theorem kept_matchFragments (columns : Option (List String)) :
    (matchFragments columns).Kept := by
  cases columns with
  | none => simp +decide [matchFragments]
  | some columns =>
    have hlist : (separated " AND " (columns.map fun c =>
        [.text "S.", .name c, .text " = T.", .name c])).Kept := by
      refine kept_separated (by decide) fun fs hfs => ?_
      obtain ⟨c, -, rfl⟩ := List.mem_map.mp hfs
      simp +decide
    simp +decide [matchFragments, hlist]

@[simp] theorem kept_mergeInsert (columns : List String) : (mergeInsert columns).Kept := by
  unfold mergeInsert
  split
  · simp +decide
  · have hvalues : (operandList (columns.map .source)).Kept := kept_operandList fun v hv => by
      obtain ⟨c, -, rfl⟩ := List.mem_map.mp hv
      rfl
    simp +decide [hvalues]

@[simp] theorem kept_mergeUpdate (columns : List String) : (mergeUpdate columns).Kept := by
  unfold mergeUpdate
  split
  · exact kept_nil
  · have hlist : (commaList (fun c => [.text "T.", .name c, .text " = S.", .name c]) columns).Kept :=
      kept_commaList fun c _ => by simp +decide
    simp +decide [hlist]

end EntitySql.Sql
