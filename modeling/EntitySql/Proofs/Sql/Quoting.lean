import EntitySql.Proofs.Sql.Gaps
import EntitySql.Proofs.Sql.WhereClause

/-!
# Reading quoted names back

A quoted name is scanned from the front of a text: after the opening quote of the dialect two closing
quotes stand for one, and a closing quote without another one behind it ends the name (`scanQuoted`). A
name with points is scanned as names with points between them (`scanPath`).

**`quoting_reversible`**: what is scanned is exactly what quoting writes. Whatever characters a name has,
none of them gets out of its quotes, and no two names are quoted alike. Quoted part by part a name is
scanned as what it has between its points, without the blanks around it.
-/

namespace EntitySql.Sql

open Text

variable {d : Dialect} {close : Char}

/-! ### Scanning -/

/-- Scans a name behind its opening quote, up to and with its closing quote. Gives the name and the text
behind it. -/
def scanName (close : Char) : List Char → Option (List Char × List Char)
  | [] => none
  | [c] => if c = close then some ([], []) else none
  | c :: e :: rest =>
    if c ≠ close then (scanName close (e :: rest)).map (Prod.map (c :: ·) id)
    else if e = close then (scanName close rest).map (Prod.map (close :: ·) id)
    else some ([], e :: rest)

/-- Scans a quoted name. -/
def scanQuoted (d : Dialect) : List Char → Option (String × List Char)
  | [] => none
  | c :: rest =>
    if c = d.openQuote then (scanName d.closeQuote rest).map (Prod.map String.ofList id) else none

example : scanQuoted .sqlServer "[a]]b] = 1".toList = some ("a]b", " = 1".toList) := by decide

/-! ### What is scanned is what is quoted -/

theorem scanName_of_ne {c : Char} (h : c ≠ close) (s : List Char) :
    scanName close (c :: s) = (scanName close s).map (Prod.map (c :: ·) id) := by
  cases s with
  | nil => simp only [scanName, if_neg h, Option.map_none]
  | cons e s => rw [scanName, if_pos h]

theorem scanName_doubled (s : List Char) :
    scanName close (close :: close :: s) = (scanName close s).map (Prod.map (close :: ·) id) := by
  rw [scanName, if_neg (not_not_intro rfl), if_pos rfl]

theorem scanName_end {s : List Char} (h : s.head? ≠ some close) :
    scanName close (close :: s) = some ([], s) := by
  cases s with
  | nil => rw [scanName, if_pos rfl]
  | cons e s =>
    have he : e ≠ close := fun heq => h (congrArg some heq)
    rw [scanName, if_neg (not_not_intro rfl), if_neg he]

theorem scanName_quoteChar (c : Char) (s : List Char) :
    scanName close (quoteChar close c ++ s) = (scanName close s).map (Prod.map (c :: ·) id) := by
  unfold quoteChar
  split
  · next h =>
    rw [h]
    exact scanName_doubled s
  · next h => exact scanName_of_ne h s

/-- The characters of a name are scanned as the name, whatever they are. -/
theorem scanName_quoted (name s : List Char) :
    scanName close (name.flatMap (quoteChar close) ++ s) =
      (scanName close s).map (Prod.map (name ++ ·) id) := by
  induction name with
  | nil =>
    rw [List.flatMap_nil, List.nil_append]
    exact (congrFun Option.map_id _).symm
  | cons c name ih =>
    rw [List.flatMap_cons, List.append_assoc, scanName_quoteChar, ih, Option.map_map]
    rfl

theorem scanName_eq_some_iff {s name rest : List Char} :
    scanName close s = some (name, rest) ↔
      s = name.flatMap (quoteChar close) ++ close :: rest ∧ rest.head? ≠ some close := by
  constructor
  · intro h
    obtain ⟨body, t, rfl, ht⟩ := exists_quoted close s
    rw [scanName_quoted] at h
    rcases ht with rfl | ⟨behind, rfl, hbehind⟩
    · cases h
    · rw [scanName_end hbehind] at h
      obtain ⟨hname, rfl⟩ := Prod.mk.inj (Option.some.inj h)
      obtain rfl : body = name := (List.append_nil body).symm.trans hname
      exact ⟨rfl, hbehind⟩
  · rintro ⟨rfl, hrest⟩
    rw [scanName_quoted, scanName_end hrest, Option.map_some, Prod.map_apply, List.append_nil]
    rfl

theorem scanQuoted_eq_some_iff {s rest : List Char} {name : String} :
    scanQuoted d s = some (name, rest) ↔
      s = (quote d name).toList ++ rest ∧ rest.head? ≠ some d.closeQuote := by
  have hquote : (quote d name).toList ++ rest = d.openQuote ::
      (name.toList.flatMap (quoteChar d.closeQuote) ++ d.closeQuote :: rest) := by
    simp [quote, quoteChars]
  rw [hquote]
  cases s with
  | nil => simp [scanQuoted]
  | cons c s =>
    rw [scanQuoted, Option.ite_none_right_eq_some, List.cons.injEq, and_assoc]
    refine and_congr_right fun _ => ?_
    rw [← scanName_eq_some_iff, Option.map_eq_some_iff]
    constructor
    · rintro ⟨⟨body, t⟩, h, heq⟩
      obtain ⟨rfl, rfl⟩ := Prod.mk.inj heq
      rwa [String.toList_ofList]
    · intro h
      exact ⟨_, h, Prod.ext String.ofList_toList rfl⟩

theorem quote_injective (d : Dialect) : Function.Injective (quote d) := by
  intro a b h
  have ha : scanQuoted d (quote d a).toList = some (a, []) :=
    scanQuoted_eq_some_iff.mpr ⟨(List.append_nil _).symm, by simp⟩
  have hb : scanQuoted d (quote d b).toList = some (b, []) :=
    scanQuoted_eq_some_iff.mpr ⟨(List.append_nil _).symm, by simp⟩
  rw [h, hb] at ha
  exact (Prod.mk.inj (Option.some.inj ha)).1.symm

/-! ### Names with points -/

theorem length_lt_of_scanQuoted {s rest : List Char} {name : String}
    (h : scanQuoted d s = some (name, rest)) : rest.length < s.length := by
  obtain ⟨rfl, -⟩ := scanQuoted_eq_some_iff.mp h
  rw [List.length_append, quote, quoteChars, String.toList_ofList, List.length_append,
    List.length_singleton]
  omega

/-- Scans quoted names with points between them. -/
def scanPath (d : Dialect) (s : List Char) : Option (List String × List Char) :=
  match _h : scanQuoted d s with
  | none => none
  | some (name, rest) =>
    if rest.head? = some '.' then (scanPath d rest.tail).map (Prod.map (name :: ·) id)
    else some ([name], rest)
termination_by s.length
decreasing_by
  have hlt := length_lt_of_scanQuoted ‹_›
  rw [List.length_tail]
  omega

theorem scanPath_of_scanQuoted {s rest : List Char} {name : String}
    (h : scanQuoted d s = some (name, rest)) :
    scanPath d s =
      if rest.head? = some '.' then (scanPath d rest.tail).map (Prod.map (name :: ·) id)
      else some ([name], rest) := by
  rw [scanPath]
  split
  · next hnone =>
    rw [h] at hnone
    cases hnone
  · next name' rest' hsome =>
    rw [h] at hsome
    obtain ⟨rfl, rfl⟩ := Prod.mk.inj (Option.some.inj hsome)
    rfl

theorem render_pathFragments_cons (part next : String) (parts : List String) :
    (pathFragments (part :: next :: parts)).render d =
      (quote d part).toList ++ '.' :: (pathFragments (next :: parts)).render d := by
  simp [pathFragments, separated, Fragments.render, Fragment.render, quote]

theorem render_pathFragments_singleton (part : String) :
    (pathFragments [part]).render d = (quote d part).toList := by
  simp [pathFragments, separated, Fragments.render, Fragment.render, quote]

theorem closeQuote_ne_point (d : Dialect) : d.closeQuote ≠ '.' := by
  cases d <;> decide

/-- A name that is quoted part by part is scanned as its parts. -/
theorem scanPath_render {rest : List Char} (hclose : rest.head? ≠ some d.closeQuote)
    (hpoint : rest.head? ≠ some '.') (part : String) (parts : List String) :
    scanPath d ((pathFragments (part :: parts)).render d ++ rest) = some (part :: parts, rest) := by
  induction parts generalizing part with
  | nil =>
    have hscan : scanQuoted d ((pathFragments [part]).render d ++ rest) = some (part, rest) :=
      scanQuoted_eq_some_iff.mpr ⟨by rw [render_pathFragments_singleton], hclose⟩
    rw [scanPath_of_scanQuoted hscan, if_neg hpoint]
  | cons next parts ih =>
    have hscan : scanQuoted d ((pathFragments (part :: next :: parts)).render d ++ rest) =
        some (part, '.' :: ((pathFragments (next :: parts)).render d ++ rest)) := by
      refine scanQuoted_eq_some_iff.mpr ⟨?_, fun h => closeQuote_ne_point d (Option.some.inj h).symm⟩
      rw [render_pathFragments_cons, List.append_assoc, List.cons_append]
    rw [scanPath_of_scanQuoted hscan, List.head?_cons, if_pos rfl, List.tail_cons, ih]
    rfl

/-- **Quoting can be read back, and nothing gets out of it.** Scanning a text gives a name exactly if the
text starts with that name between quotes and goes on without another closing quote; no more and no less
than the quoted name is taken. So names that are quoted alike are the same. A name that is quoted part by
part is scanned as what stands between its points, each part without the blanks around it. -/
theorem quoting_reversible (d : Dialect) :
    (∀ s name rest, scanQuoted d s = some (name, rest) ↔
      s = (quote d name).toList ++ rest ∧ rest.head? ≠ some d.closeQuote) ∧
    Function.Injective (quote d) ∧
    ∀ name rest, rest.head? ≠ some d.closeQuote → rest.head? ≠ some '.' →
      scanPath d ((quoteName d name).toList ++ rest) =
        some ((name.toList.splitOn '.').map fun part => trim (String.ofList part), rest) := by
  refine ⟨fun s name rest => scanQuoted_eq_some_iff, quote_injective d, fun name rest hclose hpoint => ?_⟩
  obtain ⟨part, parts, hname⟩ := List.exists_cons_of_ne_nil (nameParts_ne_nil name)
  rw [← nameParts_eq_splitOn, quoteName, dottedName, String.toList_ofList, hname]
  exact scanPath_render hclose hpoint part parts

end EntitySql.Sql
