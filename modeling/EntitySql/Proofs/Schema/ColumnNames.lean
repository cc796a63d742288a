import EntitySql.Proofs.Command
import EntitySql.Proofs.Predicate.ParameterNames
import EntitySql.Sql.Request

/-!
# The parameter names of columns

The columns of a table keep their names when they are given parameter names, and **no two of them get
one parameter name**, whatever the case of its letters (`Column.assignNames_spec`). The number of a row
is written after the last underscore, so a parameter name tells the column and the row that it was made
of (**`Column.parameterAt_inj`**).
-/

namespace EntitySql

open Text

/-- What stands after the last underscore of a text is told by the text. -/
theorem append_underscore_inj {a b s t : List Char} (hs : '_' ∉ s) (ht : '_' ∉ t)
    (h : a ++ '_' :: s = b ++ '_' :: t) : a = b ∧ s = t := by
  rcases List.append_eq_append_iff.mp h with ⟨m, rfl, hm⟩ | ⟨m, rfl, hm⟩
  · cases m with
    | nil => exact ⟨(List.append_nil a).symm, (List.cons.inj hm).2⟩
    | cons c m =>
      obtain ⟨rfl, rfl⟩ := List.cons.inj hm
      exact absurd (by simp) hs
  · cases m with
    | nil => exact ⟨List.append_nil b, (List.cons.inj hm).2.symm⟩
    | cons c m =>
      obtain ⟨rfl, rfl⟩ := List.cons.inj hm
      exact absurd (by simp) ht

theorem underscore_notMem_digits (n : Nat) : '_' ∉ Nat.toDigits 10 n := by
  intro h
  exact absurd (isDigit_of_mem_digits h) (by decide)

namespace Column

/-- No two columns have one name, whatever the case of the letters from A to Z. -/
def Distinct (cs : List Column) : Prop :=
  cs.Pairwise fun c d => equalIgnoringCase c.name d.name = false

/-! ### Assigning names -/

/-- A column is given the first free name for its own. -/
theorem parameterName_assigned (used : List String) (c : Column) :
    let base := EntitySql.parameterName c.name
    let name := (freeNames used base none).headD base
    ({ c with parameter := if name = base then none else some name } : Column).parameterName = name ∧
      name ∈ freeNames used base none := by
  intro base name
  constructor
  · unfold parameterName
    split
    · next heq => exact heq.symm
    · rfl
  · have hlength := length_freeNames used base none
    change (freeNames used base none).headD base ∈ freeNames used base none
    cases hnames : freeNames used base none with
    | nil =>
      rw [hnames] at hlength
      cases hlength
    | cons name rest => exact List.mem_cons_self

theorem assignNamesFrom_spec (used : List String) (cs : List Column) :
    (assignNamesFrom used cs).map name = cs.map name ∧
      ((assignNamesFrom used cs).map fun c => lower c.parameterName).Nodup ∧
        ∀ c ∈ assignNamesFrom used cs,
          lower c.parameterName ∉ used ∧ ∀ ch ∈ c.parameterName.toList, isNameChar ch = true := by
  induction cs generalizing used with
  | nil => exact ⟨rfl, List.nodup_nil, fun c hc => by cases hc⟩
  | cons c rest ih =>
    obtain ⟨hname, hmem⟩ := parameterName_assigned used c
    obtain ⟨n, -, hfree⟩ := freeNames_spec used (EntitySql.parameterName c.name) none
    obtain ⟨hnames, hnodup, hrest⟩ := ih (lower _ :: used)
    simp only [assignNamesFrom, List.map_cons]
    refine ⟨by rw [hnames], List.nodup_cons.mpr ⟨fun hmem' => ?_, hnodup⟩, fun d hd => ?_⟩
    · obtain ⟨d, hd, heq⟩ := List.mem_map.mp hmem'
      rw [hname] at heq
      exact (hrest d hd).1 (heq ▸ List.mem_cons_self)
    · rcases List.mem_cons.mp hd with rfl | hd
      · rw [hname]
        exact ⟨hfree _ hmem, isNameChar_of_mem_freeNames (fun _ => isNameChar_of_mem_parameterName)
          hmem⟩
      · exact ⟨fun hused => (hrest d hd).1 (List.mem_cons_of_mem _ hused), (hrest d hd).2⟩

/-- **The columns of a table keep their names and get parameter names that are apart.** -/
theorem assignNames_spec (cs : List Column) :
    (assignNames cs).map name = cs.map name ∧
      ((assignNames cs).map fun c => lower c.parameterName).Nodup ∧
        ∀ c ∈ assignNames cs, ∀ ch ∈ c.parameterName.toList, isNameChar ch = true := by
  obtain ⟨hnames, hnodup, hplain⟩ := assignNamesFrom_spec [] cs
  exact ⟨hnames, hnodup, fun c hc => (hplain c hc).2⟩

theorem distinct_assignNames {cs : List Column} (h : Distinct cs) : Distinct (assignNames cs) := by
  have hnames : (cs.map name).Pairwise fun a b => equalIgnoringCase a b = false :=
    List.pairwise_map.mpr h
  rw [← (assignNames_spec cs).1] at hnames
  exact List.pairwise_map.mp hnames

/-- A column of a table is told by its parameter name. -/
theorem eq_of_parameterName {cs : List Column} {c d : Column} (hc : c ∈ assignNames cs)
    (hd : d ∈ assignNames cs) (h : equalIgnoringCase c.parameterName d.parameterName = true) :
    c = d :=
  List.inj_on_of_nodup_map (assignNames_spec cs).2.1 hc hd (lower_eq_of_equalIgnoringCase h)

/-- A column is told by its name where the names are apart. -/
theorem eq_of_isNamed {cs : List Column} (h : Distinct cs) {c d : Column} (hc : c ∈ cs) (hd : d ∈ cs)
    (hname : c.isNamed d.name = true) : c = d :=
  eq_of_equalIgnoringCase h hc hd hname

/-! ### Finding columns -/

theorem isNamed_of_find? {cs : List Column} {name : String} {c : Column}
    (h : find? cs name = some c) : c.isNamed name = true := by
  simpa using List.find?_some h

/-- Names that are equal but for case find the same column. -/
theorem find?_congr {a b : String} (h : equalIgnoringCase a b = true) (cs : List Column) :
    find? cs a = find? cs b := by
  have hnamed : (fun c : Column => c.isNamed a) = fun c => c.isNamed b := by
    funext c
    rw [isNamed, isNamed, equalIgnoringCase_comm, equalIgnoringCase_congr h, equalIgnoringCase_comm]
  rw [find?, find?, hnamed]

/-- A column found by name is found by its own name. -/
theorem find?_name {cs : List Column} {name : String} {c : Column}
    (h : find? cs name = some c) : find? cs c.name = some c := by
  rw [find?_congr (isNamed_of_find? h), h]

/-! ### The names in rows -/

theorem toList_parameterAt (c : Column) (i : Nat) :
    (c.parameterAt (some i)).toList = c.parameterName.toList ++ '_' :: Nat.toDigits 10 i := by
  simp [parameterAt]

theorem isNameChar_of_mem_parameterAt {c : Column}
    (h : ∀ ch ∈ c.parameterName.toList, isNameChar ch = true) (row : Option Nat) :
    ∀ ch ∈ (c.parameterAt row).toList, isNameChar ch = true := by
  cases row with
  | none => exact h
  | some i =>
    intro ch hch
    rw [toList_parameterAt, List.mem_append, List.mem_cons] at hch
    rcases hch with hch | rfl | hch
    · exact h ch hch
    · decide
    · exact isNameChar_of_word (by simp [Char.isAlphanum, isDigit_of_mem_digits hch])

theorem parameterAt_some_inj {c d : Column} {i j : Nat}
    (h : equalIgnoringCase (c.parameterAt (some i)) (d.parameterAt (some j)) = true) :
    equalIgnoringCase c.parameterName d.parameterName = true ∧ i = j := by
  have hlow := equalIgnoringCase_iff.mp h
  simp only [toList_parameterAt, List.map_append, List.map_cons, map_toLower_digits,
    show Char.toLower '_' = '_' by decide] at hlow
  obtain ⟨hname, hdigits⟩ :=
    append_underscore_inj (underscore_notMem_digits i) (underscore_notMem_digits j) hlow
  exact ⟨equalIgnoringCase_iff.mpr hname, digits_injective hdigits⟩

/-- **The name of a parameter tells its column and its row**, among the rows of one operation. -/
theorem parameterAt_inj {cs : List Column} {c d : Column} (hc : c ∈ assignNames cs)
    (hd : d ∈ assignNames cs) {row other : Option Nat} (hrows : row.isSome = other.isSome)
    (h : equalIgnoringCase (c.parameterAt row) (d.parameterAt other) = true) :
    c = d ∧ row = other := by
  cases row with
  | none =>
    cases other with
    | none => exact ⟨eq_of_parameterName hc hd h, rfl⟩
    | some j => cases hrows
  | some i =>
    cases other with
    | none => cases hrows
    | some j =>
      obtain ⟨hname, rfl⟩ := parameterAt_some_inj h
      exact ⟨eq_of_parameterName hc hd hname, rfl⟩

end Column

end EntitySql
