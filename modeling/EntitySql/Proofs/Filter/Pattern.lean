import EntitySql.Proofs.Filter.Meaning
import Mathlib.Data.List.Infix

/-!
# Patterns

A method that looks for a text in a property becomes a condition with a pattern, in which `%` stands for
any characters and `_` for one (`Fits`; `Comparisons.likes` decides it). The text is written into the
pattern as it is, so a `%` or `_` of its own is read as part of the pattern too.

**`ofExpr_like`**: the condition holds of the texts that contain, start or end with something that fits
the text of the method. All texts that the method asks for are among them, and there are no others if and
only if the text has no `%` and no `_` in it. No other pattern does better: `notWildcard_of_fits_iff`.
-/

namespace EntitySql

/-! ### Fitting -/

/-- The characters that stand for others in a pattern. -/
def IsWildcard (c : Char) : Prop := c = '%' ∨ c = '_'

/-- The text fits the pattern. -/
inductive Fits : (pattern text : List Char) → Prop where
  | nil : Fits [] []
  | sequence (skipped : List Char) {p s : List Char} (h : Fits p s) : Fits ('%' :: p) (skipped ++ s)
  | one (c : Char) {p s : List Char} (h : Fits p s) : Fits ('_' :: p) (c :: s)
  | same {c : Char} (hc : ¬IsWildcard c) {p s : List Char} (h : Fits p s) : Fits (c :: p) (c :: s)

variable {p q s t : List Char}

theorem fits_nil_iff : Fits [] s ↔ s = [] := by
  constructor
  · rintro ⟨⟩
    rfl
  · rintro rfl
    exact .nil

theorem fits_sequence_iff : Fits ('%' :: p) s ↔ ∃ u v, s = u ++ v ∧ Fits p v := by
  constructor
  · intro h
    cases h with
    | sequence skipped h => exact ⟨skipped, _, rfl, h⟩
    | same hc _ => exact absurd (.inl rfl) hc
  · rintro ⟨u, v, rfl, h⟩
    exact .sequence u h

theorem fits_one_iff : Fits ('_' :: p) s ↔ ∃ c v, s = c :: v ∧ Fits p v := by
  constructor
  · intro h
    cases h with
    | one c h => exact ⟨c, _, rfl, h⟩
    | same hc _ => exact absurd (.inr rfl) hc
  · rintro ⟨c, v, rfl, h⟩
    exact .one c h

theorem fits_same_iff {c : Char} (hc : ¬IsWildcard c) :
    Fits (c :: p) s ↔ ∃ v, s = c :: v ∧ Fits p v := by
  constructor
  · intro h
    cases h with
    | sequence => exact absurd (.inl rfl) hc
    | one => exact absurd (.inr rfl) hc
    | same _ h => exact ⟨_, rfl, h⟩
  · rintro ⟨v, rfl, h⟩
    exact .same hc h

/-- The parts of a pattern are fitted one after the other. -/
theorem fits_append_iff : Fits (p ++ q) s ↔ ∃ u v, s = u ++ v ∧ Fits p u ∧ Fits q v := by
  constructor
  · intro h
    induction p generalizing s with
    | nil => exact ⟨[], s, rfl, .nil, h⟩
    | cons c p ih =>
      cases h with
      | sequence skipped h =>
        obtain ⟨u, v, rfl, hu, hv⟩ := ih h
        exact ⟨skipped ++ u, v, (List.append_assoc ..).symm, .sequence skipped hu, hv⟩
      | one c h =>
        obtain ⟨u, v, rfl, hu, hv⟩ := ih h
        exact ⟨c :: u, v, rfl, .one c hu, hv⟩
      | same hc h =>
        obtain ⟨u, v, rfl, hu, hv⟩ := ih h
        exact ⟨c :: u, v, rfl, .same hc hu, hv⟩
  · rintro ⟨u, v, rfl, hu, hv⟩
    induction hu with
    | nil => exact hv
    | sequence skipped _ ih =>
      rw [List.append_assoc]
      exact .sequence skipped ih
    | one c _ ih => exact .one c ih
    | same hc _ ih => exact .same hc ih

/-- Everything fits `%`. -/
theorem fits_any (s : List Char) : Fits ['%'] s := by
  have h : Fits ['%'] (s ++ []) := .sequence s .nil
  rwa [List.append_nil] at h

/-- Every text fits itself. -/
theorem fits_self (t : List Char) : Fits t t := by
  induction t with
  | nil => exact .nil
  | cons c t ih =>
    by_cases hc : IsWildcard c
    · rcases hc with rfl | rfl
      · exact .sequence ['%'] ih
      · exact .one '_' ih
    · exact .same hc ih

/-- A text without wildcards is fitted by itself alone. -/
theorem fits_iff_eq (ht : ∀ c ∈ t, ¬IsWildcard c) : Fits t s ↔ s = t := by
  induction t generalizing s with
  | nil => exact fits_nil_iff
  | cons c t ih =>
    obtain ⟨hc, ht⟩ := List.forall_mem_cons.mp ht
    simp only [fits_same_iff hc, ih ht, exists_eq_right]

/-- A pattern cannot tell a wildcard in a text from another character: changing wildcards only leaves a
text fitting. -/
theorem Fits.map (h : Fits p s) {f : Char → Char} (hf : ∀ c, ¬IsWildcard c → f c = c) :
    Fits p (s.map f) := by
  induction h with
  | nil => exact .nil
  | sequence skipped _ ih =>
    rw [List.map_append]
    exact .sequence (skipped.map f) ih
  | one c _ ih => exact .one (f c) ih
  | same hc _ ih =>
    rw [List.map_cons, hf _ hc]
    exact .same hc ih

/-- Whether a text fits is decided by trying the places where a sequence may end. -/
theorem Comparisons.likes_iff (p s : List Char) : likes p s = true ↔ Fits p s := by
  fun_induction likes p s with
  | case1 s => rw [fits_nil_iff, List.isEmpty_iff]
  | case2 p s ih =>
    rw [fits_sequence_iff, List.any_eq_true]
    constructor
    · rintro ⟨n, -, h⟩
      exact ⟨s.take n, s.drop n, (List.take_append_drop n s).symm, (ih n).mp h⟩
    · rintro ⟨u, v, rfl, h⟩
      refine ⟨u.length, List.mem_range.mpr (by rw [List.length_append]; omega), (ih _).mpr ?_⟩
      rwa [List.drop_left]
  | case3 p c s ih =>
    rw [ih, fits_one_iff]
    constructor
    · exact fun h => ⟨c, s, rfl, h⟩
    · rintro ⟨_, _, heq, h⟩
      cases heq
      exact h
  | case4 c p d s hsequence hone ih =>
    have hc : ¬IsWildcard c := by
      rintro (rfl | rfl)
      · exact hsequence rfl
      · exact hone rfl
    rw [Bool.and_eq_true, decide_eq_true_eq, ih, fits_same_iff hc]
    constructor
    · rintro ⟨rfl, h⟩
      exact ⟨s, rfl, h⟩
    · rintro ⟨_, heq, h⟩
      cases heq
      exact ⟨rfl, h⟩
  | case5 c p hsequence =>
    by_cases hone : c = '_'
    · subst hone
      simp [fits_one_iff]
    · have hc : ¬IsWildcard c := not_or.mpr ⟨hsequence, hone⟩
      simp [fits_same_iff hc]

/-! ### Methods that look for a text -/

namespace Method

/-- The methods that look for a text in a property. -/
def IsSearch (m : Method) : Prop := m = .contains ∨ m = .startsWith ∨ m = .endsWith

/-- The method finds the text `t` in a text. -/
def Finds (t : List Char) : Method → List Char → Prop
  | .contains, s => t <:+: s
  | .startsWith, s => t <+: s
  | .endsWith, s => t <:+ s
  | _, _ => False

variable {m : Method}

theorem IsSearch.finds_self (hm : m.IsSearch) (t : List Char) : m.Finds t t := by
  rcases hm with rfl | rfl | rfl
  · exact List.infix_refl t
  · exact List.prefix_refl t
  · exact List.suffix_refl t

/-- In a text of the same length nothing else is found. -/
theorem Finds.eq (h : m.Finds t s) (hlength : s.length = t.length) : s = t := by
  cases m with
  | contains => exact (List.IsInfix.eq_of_length h hlength.symm).symm
  | startsWith => exact (List.IsPrefix.eq_of_length h hlength.symm).symm
  | endsWith => exact (List.IsSuffix.eq_of_length h hlength.symm).symm
  | _ => exact h.elim

end Method

variable {m : Method}

/-- The pattern of a method is fitted by the texts in which it finds something that fits its text. -/
theorem fits_likePattern_iff (hm : m.IsSearch) (text : String) :
    ∃ pattern, Predicate.likePattern m text = some pattern ∧
      ∀ s, Fits pattern.toList s ↔ ∃ u, Fits text.toList u ∧ m.Finds u s := by
  rcases hm with rfl | rfl | rfl
  · refine ⟨_, rfl, fun s => ?_⟩
    have hpattern : ("%" ++ text ++ "%").toList = '%' :: (text.toList ++ ['%']) := by simp
    rw [hpattern, fits_sequence_iff]
    constructor
    · rintro ⟨before, v, rfl, h⟩
      obtain ⟨u, after, rfl, hu, -⟩ := fits_append_iff.mp h
      exact ⟨u, hu, before, after, List.append_assoc ..⟩
    · rintro ⟨u, hu, before, after, rfl⟩
      refine ⟨before, u ++ after, List.append_assoc .., fits_append_iff.mpr ?_⟩
      exact ⟨u, after, rfl, hu, fits_any after⟩
  · refine ⟨_, rfl, fun s => ?_⟩
    have hpattern : (text ++ "%").toList = text.toList ++ ['%'] := by simp
    rw [hpattern, fits_append_iff]
    constructor
    · rintro ⟨u, after, rfl, hu, -⟩
      exact ⟨u, hu, after, rfl⟩
    · rintro ⟨u, hu, after, rfl⟩
      exact ⟨u, after, rfl, hu, fits_any after⟩
  · refine ⟨_, rfl, fun s => ?_⟩
    have hpattern : ("%" ++ text).toList = '%' :: text.toList := by simp
    rw [hpattern, fits_sequence_iff]
    constructor
    · rintro ⟨before, u, rfl, hu⟩
      exact ⟨u, hu, before, rfl⟩
    · rintro ⟨u, hu, before, rfl⟩
      exact ⟨before, u, rfl, hu⟩

/-- **Only texts without wildcards can be looked for by a pattern.** Where the texts that fit a pattern
are those in which a method finds a text, that text has no wildcard in it. -/
theorem notWildcard_of_fits_iff (hm : m.IsSearch) (h : ∀ s, Fits p s ↔ m.Finds t s) :
    ∀ c ∈ t, ¬IsWildcard c := by
  intro c hc hwildcard
  -- the text still fits once its wildcards are changed, so it is found in what it has become
  let f : Char → Char := fun d => if d = '%' ∨ d = '_' then 'x' else d
  have hself : Fits p t := (h t).mpr (hm.finds_self t)
  have hchanged : Fits p (t.map f) := hself.map fun d hd => if_neg hd
  have hmap : t.map f = t.map id := by
    rw [List.map_id]
    exact ((h _).mp hchanged).eq (List.length_map f)
  have hfix : f c = c := List.map_inj_left.mp hmap c hc
  rw [show f c = 'x' from if_pos hwildcard] at hfix
  subst hfix
  exact absurd hwildcard (by simp [IsWildcard])

/-! ### Conditions with a pattern -/

/-- A method that does not run over a list is called with its argument. -/
theorem ofExpr_call {rules : FilterRules} {map : EntityMap} {bindings : Bindings} {target arg : Expr}
    (hm : Predicate.quantifier? m = none) (harg : ∀ param body, arg ≠ .lambda param body) :
    Predicate.ofExpr rules map bindings (.call m target [arg]) =
      Predicate.call rules map bindings m target arg := by
  rw [Predicate.ofExpr, hm]
  · rfl
  · exact harg

/-- A method that looks for a text in a property is a condition with the pattern of the text, whether
the text stands in the filter or is bound by a lambda. -/
theorem ofExpr_search (hm : m.IsSearch) (rules : FilterRules) {map : EntityMap} {name : String}
    {p : Property} (hp : map.property? name = some p) {bindings : Bindings} {arg : Expr}
    {text pattern : String} (harg : arg.value? bindings = some (.text text))
    (hpattern : Predicate.likePattern m text = some pattern) :
    Predicate.ofExpr rules map bindings (.call m (.member name) [arg]) =
      .ok (.condition (.make (Predicate.fieldOf p) .like (.text pattern))) := by
  have hresolve : map.resolve name = .ok p := EntityMap.resolve_eq_ok_iff.mpr hp
  have hequality : Predicate.equality? m = none := by rcases hm with rfl | rfl | rfl <;> rfl
  have hquantifier : Predicate.quantifier? m = none := by rcases hm with rfl | rfl | rfl <;> rfl
  have hlambda : ∀ param body, arg ≠ .lambda param body := by
    rintro param body rfl
    cases harg
  rw [ofExpr_call hquantifier hlambda]
  simp only [Predicate.call, harg, Predicate.callMember, hequality, Value.asText, Option.bind_some,
    hpattern, hresolve]
  rfl

/-- **A method that looks for a text reads its wildcards as wildcards.** The condition that it becomes is
fitted by the texts in which the method finds something that fits its text. All texts in which it finds
the text itself are among them, and they are the only ones if and only if the text has no `%` and no
`_` in it. -/
theorem ofExpr_like (hm : m.IsSearch) (rules : FilterRules) {map : EntityMap} {name : String}
    {p : Property} (hp : map.property? name = some p) (text : String) :
    ∃ pattern : String,
      Group.ofExpr rules map (.call m (.member name) [.constant (.text text)]) =
        .ok (.single (.make (Predicate.fieldOf p) .like (.text pattern))) ∧
      (∀ bindings arg, Expr.value? bindings arg = some (.text text) →
        Predicate.ofExpr rules map bindings (.call m (.member name) [arg]) =
          .ok (.condition (.make (Predicate.fieldOf p) .like (.text pattern)))) ∧
      (∀ s, Fits pattern.toList s ↔ ∃ u, Fits text.toList u ∧ m.Finds u s) ∧
      (∀ s, m.Finds text.toList s → Fits pattern.toList s) ∧
      ((∀ s, Fits pattern.toList s ↔ m.Finds text.toList s) ↔
        ∀ c ∈ text.toList, ¬IsWildcard c) := by
  obtain ⟨pattern, hpattern, hfits⟩ := fits_likePattern_iff hm text
  have hcondition : ∀ bindings arg, Expr.value? bindings arg = some (.text text) →
      Predicate.ofExpr rules map bindings (.call m (.member name) [arg]) =
        .ok (.condition (.make (Predicate.fieldOf p) .like (.text pattern))) :=
    fun _ _ harg => ofExpr_search hm rules hp harg hpattern
  refine ⟨pattern, ?_, hcondition, hfits, fun s hs => ?_, notWildcard_of_fits_iff hm, fun ht s => ?_⟩
  · rw [Group.ofExpr, hcondition [] (.constant (.text text)) rfl]
  · exact (hfits s).mpr ⟨_, fits_self _, hs⟩
  · simp only [hfits, fits_iff_eq ht, exists_eq_left]

namespace Sample

/-- Notes, each with a text. -/
def notes : EntityMap := ⟨"Note", "Note", [⟨"Text", "body", ⟨.text, false⟩, none, false⟩]⟩

end Sample

/-- A note that begins with `a_b` is one that begins with `a`, any character and `b`. -/
theorem ofExpr_like_notes :
    Method.IsSearch .startsWith ∧
      Sample.notes.property? "Text" = some ⟨"Text", "body", ⟨.text, false⟩, none, false⟩ ∧
      ∃ pattern : String,
        Group.ofExpr ⟨.twoValued, .name⟩ Sample.notes
            (.call .startsWith (.member "Text") [.constant (.text "a_b")]) =
          .ok (.single (.make ⟨"body", some .text⟩ .like (.text pattern))) ∧
        Fits pattern.toList "a_bc".toList ∧ Fits pattern.toList "aXbc".toList ∧
        ¬∀ s, Fits pattern.toList s ↔ Method.Finds "a_b".toList .startsWith s := by
  have hm : Method.IsSearch .startsWith := .inr (.inl rfl)
  have hp : Sample.notes.property? "Text" =
      some ⟨"Text", "body", ⟨.text, false⟩, none, false⟩ := rfl
  obtain ⟨pattern, hgroup, -, hfits, hfinds, hexact⟩ := ofExpr_like hm ⟨.twoValued, .name⟩ hp "a_b"
  refine ⟨hm, hp, pattern, hgroup, hfinds _ ⟨['c'], rfl⟩, (hfits _).mpr ?_, fun h => ?_⟩
  · exact ⟨"aXb".toList, (Comparisons.likes_iff _ _).mp (by decide), ['c'], rfl⟩
  · exact hexact.mp h '_' (by decide) (.inr rfl)

/-- Notes with `50%` in them are looked for by a pattern that others fit too. -/
theorem fits_percent_sign :
    Group.ofExpr ⟨.twoValued, .name⟩ Sample.notes
        (.call .contains (.member "Text") [.constant (.text "50%")]) =
      .ok (.single (.make ⟨"body", some .text⟩ .like (.text "%50%%"))) ∧
    Fits "%50%%".toList "50 of 60".toList ∧ ¬"50%".toList <:+: "50 of 60".toList :=
  ⟨rfl, (Comparisons.likes_iff _ _).mp (by decide), by decide⟩

end EntitySql
