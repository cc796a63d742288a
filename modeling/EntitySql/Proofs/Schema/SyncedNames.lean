import EntitySql.Proofs.Schema.ColumnNames

/-!
# The parameter names of a request

The columns of a table are told apart by lower case when they get their parameter names, and looked up
by the letters from A to Z when the columns asked for take over those names. The second test is the
coarser one: it stops at the first column that has the name in any case of those letters. So a column
asked for has the parameter name of that first column, whatever the case of its letters
(`Column.lower_parameterName_synced`), and not that of its own column if another stands before it.

**`Request.parameterName_withSchema`** says what this comes to. A column asked for has the parameter
name of its own column of the table unless a column before that one has the same name ignoring case,
and two columns asked for have parameter names that are apart unless their own names are the same
ignoring case. Where neither happens in a table, the names are as they were assigned.
-/

namespace EntitySql

open Text

/-! ### The case of a name -/

/-- The characters of a parameter name keep their case. -/
theorem toLower_parameterChar (c : Char) :
    (parameterChar c).toLower = parameterChar c.toLower := by
  rcases toLower_cases c with hc | hc
  · -- a character without a small letter stays, or becomes an underscore
    rw [hc]
    unfold parameterChar
    split
    · exact hc
    · decide
  · have hall : ∀ c ∈ capitals, (parameterChar c).toLower = parameterChar c.toLower :=
      List.all_iff_forall_prop.mp (by decide)
    exact hall c hc

theorem equalIgnoringCase_parameterName {a b : String} (h : equalIgnoringCase a b = true) :
    equalIgnoringCase (parameterName a) (parameterName b) = true := by
  have hlow (s : String) : (parameterName s).toList.map Char.toLower =
      (s.toList.map Char.toLower).map parameterChar := by
    rw [parameterName, String.toList_ofList, List.map_map, List.map_map]
    exact List.map_congr_left fun c _ => toLower_parameterChar c
  rw [equalIgnoringCase_iff, hlow, hlow, equalIgnoringCase_iff.mp h]

namespace Column

/-! ### Looking a column up -/

/-- Names that are found at the same column are the same ignoring case. -/
theorem equalIgnoringCase_of_find? {schema : List Column} {a b : String} {s : Column}
    (ha : find? schema a = some s) (hb : find? schema b = some s) :
    equalIgnoringCase a b = true := by
  have hsa : equalIgnoringCase s.name a = true := isNamed_of_find? ha
  have hsb : equalIgnoringCase s.name b = true := isNamed_of_find? hb
  rw [← equalIgnoringCase_congr hsa]
  exact hsb

/-- A column is found by its name if none before it has the name ignoring case. -/
theorem find?_of_before {before after : List Column} {c : Column}
    (h : ∀ d ∈ before, d.isNamed c.name = false) :
    find? (before ++ c :: after) c.name = some c := by
  rw [find?, List.find?_append, List.find?_eq_none.mpr (by simpa using h), Option.none_or]
  exact List.find?_cons_of_pos (equalIgnoringCase_refl c.name)

/-- Otherwise the column that is found stands before it. -/
theorem find?_before {before after : List Column} {c d : Column} (hd : d ∈ before)
    (h : d.isNamed c.name = true) : ∃ s ∈ before, find? (before ++ c :: after) c.name = some s := by
  obtain ⟨s, hs⟩ : ∃ s, before.find? (fun d => d.isNamed c.name) = some s :=
    Option.isSome_iff_exists.mp (List.find?_isSome.mpr ⟨d, hd, h⟩)
  refine ⟨s, List.mem_of_find?_eq_some hs, ?_⟩
  rw [find?, List.find?_append, hs, Option.some_or]

/-! ### Taking over a parameter name -/

/-- The column with the parameter name of another one. -/
def synced (c s : Column) : Column := { c with parameter := s.parameter }

@[simp] theorem name_synced (c s : Column) : (c.synced s).name = c.name := rfl

theorem parameterName_synced_self {c s : Column} (h : c.name = s.name) :
    (c.synced s).parameterName = s.parameterName := by
  rw [parameterName, parameterName, name_synced, h]
  rfl

/-- A name that is taken over is the same as that of the other column, ignoring case. -/
theorem equalIgnoringCase_parameterName_synced {c s : Column} (h : s.isNamed c.name = true) :
    equalIgnoringCase (c.synced s).parameterName s.parameterName = true := by
  unfold parameterName synced
  cases s.parameter with
  | some x => exact equalIgnoringCase_refl x
  | none =>
    rw [equalIgnoringCase_comm]
    exact equalIgnoringCase_parameterName h

/-- Two columns that take over the name of one column have the same, ignoring case. -/
theorem equalIgnoringCase_synced {c d s : Column} (hc : s.isNamed c.name = true)
    (hd : s.isNamed d.name = true) :
    equalIgnoringCase (c.synced s).parameterName (d.synced s).parameterName = true := by
  rw [equalIgnoringCase_congr (equalIgnoringCase_parameterName_synced hc), equalIgnoringCase_comm]
  exact equalIgnoringCase_parameterName_synced hd

theorem lower_parameterName_synced {c s : Column} (h : s.isNamed c.name = true) :
    lower (c.synced s).parameterName = lower s.parameterName :=
  lower_eq_of_equalIgnoringCase (equalIgnoringCase_parameterName_synced h)

/-- The columns asked for, each with the parameter name of the column that its name is found at. -/
theorem syncNames_of_named {fields schema : List Column}
    (h : ∀ f ∈ fields, ∃ c ∈ schema, c.name = f.name) :
    (syncNames fields schema).map name = fields.map name ∧
      ∀ f ∈ syncNames fields schema,
        ∃ c ∈ fields, ∃ s, find? schema c.name = some s ∧ f = c.synced s := by
  constructor
  · rw [syncNames, List.map_map]
    refine List.map_congr_left fun f _ => ?_
    rw [Function.comp_apply]
    split <;> rfl
  · intro f hf
    obtain ⟨c, hc, rfl⟩ := List.mem_map.mp hf
    obtain ⟨d, hd, hname⟩ := h c hc
    have hdc : d.isNamed c.name = true := by
      rw [← hname]
      exact equalIgnoringCase_refl d.name
    obtain ⟨s, hs⟩ : ∃ s, find? schema c.name = some s :=
      Option.isSome_iff_exists.mp (List.find?_isSome.mpr ⟨d, hd, hdc⟩)
    refine ⟨c, hc, s, hs, ?_⟩
    simp only [hs]
    rfl

/-- A column asked for has the parameter name of its own column exactly if that is the first of its
name. -/
theorem parameterName_synced_iff {table before after : List Column} {c f s : Column}
    (htable : assignNames table = before ++ c :: after) (hname : f.name = c.name)
    (hs : find? (assignNames table) f.name = some s) :
    (f.synced s).parameterName = c.parameterName ↔ ∀ d ∈ before, d.isNamed f.name = false := by
  have hnamed : s.isNamed f.name = true := isNamed_of_find? hs
  rw [htable, hname] at hs
  rw [hname]
  constructor
  · intro h d hd
    by_contra hdname
    obtain ⟨t, ht, hfind⟩ : ∃ t ∈ before, find? (before ++ c :: after) c.name = some t :=
      find?_before hd (Bool.not_eq_false _ ▸ hdname)
    obtain rfl : s = t := Option.some.inj (hs.symm.trans hfind)
    -- the column that was found stands before its own, so the assigned names of the two are apart
    have hnodup := (assignNames_spec table).2.1
    rw [htable, List.map_append, List.map_cons] at hnodup
    refine (List.nodup_append.mp hnodup).2.2 _ (List.mem_map_of_mem ht) _ List.mem_cons_self ?_
    rw [← lower_parameterName_synced hnamed, h]
  · intro h
    rw [find?_of_before h] at hs
    obtain rfl := Option.some.inj hs
    exact parameterName_synced_self hname

/-- Two columns asked for have parameter names that are the same ignoring case exactly if their own
names are. -/
theorem parameterName_synced_apart {table : List Column} {f g s t : Column}
    (hs : find? (assignNames table) f.name = some s)
    (ht : find? (assignNames table) g.name = some t) :
    (lower (f.synced s).parameterName = lower (g.synced t).parameterName ↔
      f.isNamed g.name = true) ∧
    (equalIgnoringCase (f.synced s).parameterName (g.synced t).parameterName = true ↔
      f.isNamed g.name = true) := by
  have hsf : s.isNamed f.name = true := isNamed_of_find? hs
  have htg : t.isNamed g.name = true := isNamed_of_find? ht
  have hsame : lower (f.synced s).parameterName = lower (g.synced t).parameterName →
      f.isNamed g.name = true := by
    intro h
    rw [lower_parameterName_synced hsf, lower_parameterName_synced htg] at h
    obtain rfl : s = t := List.inj_on_of_nodup_map (assignNames_spec table).2.1
      (List.mem_of_find?_eq_some hs) (List.mem_of_find?_eq_some ht) h
    exact equalIgnoringCase_of_find? hs ht
  have hshared : f.isNamed g.name = true →
      equalIgnoringCase (f.synced s).parameterName (g.synced t).parameterName = true := by
    intro h
    rw [find?_congr h, ht] at hs
    obtain rfl := Option.some.inj hs
    exact equalIgnoringCase_synced hsf htg
  exact ⟨⟨hsame, fun h => lower_eq_of_equalIgnoringCase (hshared h)⟩,
    ⟨fun h => hsame (lower_eq_of_equalIgnoringCase h), hshared⟩⟩

end Column

/-! ### The columns of a request -/

/-- **A request has the parameter names of its table but for the case of column names.** The columns
asked for are those of a table, by name. Each has the parameter name of its own column exactly if no
column before that one has the name ignoring case, and the parameter names of two of them are apart,
in lower case and ignoring the case of the letters from A to Z, exactly if their names are. -/
theorem Request.parameterName_withSchema (table : String) (fields schema : List Column)
    (hfields : ∀ f ∈ fields, ∃ c ∈ schema, c.name = f.name) :
    let r := (Request.make table fields).withSchema schema
    r.fields.map Column.name = fields.map Column.name ∧
    r.tableColumns.map Column.name = schema.map Column.name ∧
    (∀ f ∈ r.fields, ∀ before c after, r.tableColumns = before ++ c :: after → f.name = c.name →
      (f.parameterName = c.parameterName ↔ ∀ d ∈ before, d.isNamed f.name = false)) ∧
    r.fields.Pairwise fun f g =>
      (lower f.parameterName ≠ lower g.parameterName ↔ f.isNamed g.name = false) ∧
      (equalIgnoringCase f.parameterName g.parameterName = false ↔ f.isNamed g.name = false) := by
  intro r
  have hnames := (Column.assignNames_spec schema).1
  have hown := (Column.assignNames_spec fields).1
  have hnamed : ∀ f ∈ Column.assignNames fields, ∃ c ∈ Column.assignNames schema,
      c.name = f.name := by
    intro f hf
    have hf := List.mem_map_of_mem (f := Column.name) hf
    rw [hown] at hf
    obtain ⟨g, hg, hgf⟩ := List.mem_map.mp hf
    obtain ⟨c, hc, hcg⟩ := hfields g hg
    have hc := List.mem_map_of_mem (f := Column.name) hc
    rw [← hnames, hcg, hgf] at hc
    exact List.mem_map.mp hc
  obtain ⟨hkept, hsynced⟩ := Column.syncNames_of_named hnamed
  refine ⟨hkept.trans hown, hnames, ?_, ?_⟩
  · intro f hf before c after htable hname
    obtain ⟨g, -, s, hs, rfl⟩ := hsynced f hf
    exact Column.parameterName_synced_iff htable hname hs
  · refine List.Pairwise.imp_of_mem (fun hf hg _ => ?_) (List.pairwise_of_forall fun _ _ => trivial)
    obtain ⟨f, -, s, hs, rfl⟩ := hsynced _ hf
    obtain ⟨g, -, t, ht, rfl⟩ := hsynced _ hg
    obtain ⟨hlower, hcase⟩ := Column.parameterName_synced_apart hs ht
    constructor
    · rw [ne_eq, hlower, Bool.not_eq_true, Column.name_synced]
      exact Iff.rfl
    · rw [← Bool.not_eq_true, hcase, Bool.not_eq_true, Column.name_synced]
      exact Iff.rfl

/-- Of two columns that differ in case only, the second has a parameter name of its own in the table
and that of the first, spelled its own way, in the request. -/
theorem Request.parameterName_withSchema_case :
    let column (name : String) : Column :=
      ⟨name, false, false, false, .text, none, none, none, none, false, false, none, none⟩
    let r := (Request.make "T" [column "Name", column "NAME"]).withSchema
      [column "Name", column "NAME"]
    r.tableColumns.map Column.parameterName = ["Name", "NAME_1"] ∧
    r.fields.map Column.parameterName = ["Name", "NAME"] ∧
    r.fields.Pairwise fun f g => lower f.parameterName = lower g.parameterName := by
  intro column r
  have hfields : ∀ f ∈ [column "Name", column "NAME"],
      ∃ c ∈ [column "Name", column "NAME"], c.name = f.name := fun f hf => ⟨f, hf, rfl⟩
  obtain ⟨-, -, -, hapart⟩ := Request.parameterName_withSchema "T" _ _ hfields
  refine ⟨by decide +kernel, by decide +kernel, ?_⟩
  refine List.Pairwise.imp_of_mem (fun {f g} hf hg h => ?_) hapart
  have hcase : ∀ f ∈ r.fields, ∀ g ∈ r.fields, f.isNamed g.name = true := by decide +kernel
  by_contra hne
  have hfalse := h.1.mp hne
  rw [hcase f hf g hg] at hfalse
  cases hfalse

end EntitySql
