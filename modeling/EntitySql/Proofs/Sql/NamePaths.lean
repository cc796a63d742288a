import EntitySql.Proofs.Sql.WhereClause

/-!
# The names in a statement

The builder quotes a name in one of two ways: as a whole, or part by part between its points. A
database does not see which of the two it was. It sees quoted names, of which those with a point
between them belong together, so what it reads is a list of paths (`pathsOf`). Quoted as a whole a name
is a path of one part, and quoted part by part it is its parts without the blanks around them.

The two are one text, and one path, exactly for a name that is `Whole`: it has no point and no blank at
its ends (**`quoteName_eq_quote_iff`**). No other name is safe, whatever quotes the dialect has.

`Refers` says of fragments which paths are written in them, and **`Refers.pathsOf_tokens`** that these
are the paths that are read there.
-/

namespace EntitySql.Sql

variable {d : Dialect}

/-! ### Names with points -/

/-- A name without points and without blanks around it. -/
def Whole (name : String) : Prop := '.' ∉ name.toList ∧ Text.trim name = name

instance (name : String) : Decidable (Whole name) :=
  inferInstanceAs (Decidable (_ ∧ _))

theorem length_splitAtPoints (s : List Char) :
    (splitAtPoints s).length = s.count '.' + 1 := by
  induction s with
  | nil => rfl
  | cons c s ih =>
    unfold splitAtPoints
    by_cases hc : c = '.'
    · rw [if_pos hc, List.length_cons, ih, hc, List.count_cons_self]
    · rw [if_neg hc, List.count_cons_of_ne hc, ← ih]
      obtain ⟨part, parts, hs⟩ := List.exists_cons_of_ne_nil (splitAtPoints_ne_nil s)
      rw [hs]
      rfl

theorem splitAtPoints_of_notMem {s : List Char} (h : '.' ∉ s) : splitAtPoints s = [s] := by
  induction s with
  | nil => rfl
  | cons c s ih =>
    rw [List.mem_cons, not_or] at h
    rw [splitAtPoints, if_neg (Ne.symm h.1), ih h.2]

/-- A name is its only part exactly if it is whole. -/
theorem nameParts_eq_self_iff (name : String) : nameParts name = [name] ↔ Whole name := by
  constructor
  · intro h
    have hlength := congrArg List.length h
    rw [nameParts, List.length_map, length_splitAtPoints, List.length_singleton] at hlength
    have hpoint : '.' ∉ name.toList := List.count_eq_zero.mp (by omega)
    rw [nameParts, splitAtPoints_of_notMem hpoint] at h
    exact ⟨hpoint, List.singleton_inj.mp h⟩
  · rintro ⟨hpoint, htrim⟩
    rw [nameParts, splitAtPoints_of_notMem hpoint, List.map_singleton]
    exact congrArg (fun s => [s]) htrim

/-! ### Reading a name -/

theorem lex_quote (d : Dialect) (name : String) : lex d (quote d name).toList = [.name name] := by
  have h := lex_render (d := d) (Spaced.one name) (by intro p hp; cases hp)
  simpa [quote, Fragments.render, Fragment.render, Fragment.tokens] using h

theorem lex_quoteName (d : Dialect) (name : String) :
    lex d (quoteName d name).toList = pathTokens (nameParts name) := by
  have hlegible : Fragments.Legible (dottedName name) := by
    intro p hp
    rw [dottedName, placeholders_pathFragments] at hp
    cases hp
  rw [quoteName, String.toList_ofList, ← tokens_pathFragments (d := d)]
  exact lex_render (spaced_pathFragments _) hlegible

theorem pathTokens_eq_singleton {path : List String} {name : String}
    (h : pathTokens path = [.name name]) : path = [name] := by
  match path with
  | [] => cases h
  | [n] =>
    have hname : [Token.name n] = [.name name] := h
    rw [Token.name.inj (List.singleton_inj.mp hname)]
  | n :: m :: rest =>
    have hnames : Token.name n :: .sign "." :: pathTokens (m :: rest) = [.name name] := h
    cases hnames

/-- **A name is quoted alike in both ways exactly if it is whole.** -/
theorem quoteName_eq_quote_iff (d : Dialect) (name : String) :
    quoteName d name = quote d name ↔ Whole name := by
  rw [← nameParts_eq_self_iff]
  constructor
  · intro h
    have htokens := congrArg (fun text => lex d text.toList) h
    simp only [lex_quote, lex_quoteName] at htokens
    exact pathTokens_eq_singleton htokens
  · intro h
    rw [quoteName, dottedName, h]
    simp [pathFragments, separated, Fragments.render, Fragment.render, quote]

/-! ### Reading names among other tokens -/

/-- Whether a point and another name come next. -/
def goesOn : List Token → Bool
  | .sign s :: .name _ :: _ => s = "."
  | _ => false

/-- The paths in tokens: the names with points between them, one list for each. -/
def pathsOf : List Token → List (List String)
  | [] => []
  | .name n :: rest =>
    if goesOn rest then
      match pathsOf rest with
      | path :: paths => (n :: path) :: paths
      | [] => [[n]]
    else [n] :: pathsOf rest
  | _ :: rest => pathsOf rest

/-- The paths in a text. -/
def pathsIn (d : Dialect) (text : String) : List (List String) := pathsOf (lex d text.toList)

example : pathsIn .mySql "SELECT \x60a.b\x60, S.\x60c\x60 FROM \x60s\x60.\x60t\x60" =
    [["a.b"], ["c"], ["s", "t"]] := by
  decide

/-- Whether tokens have no point in front, which would belong to a name before them. -/
def StartsClear (ts : List Token) : Prop := ts.head? ≠ some (.sign ".")

theorem startsClear_nil : StartsClear [] := by simp [StartsClear]

theorem startsClear_name (n : String) (ts : List Token) : StartsClear (.name n :: ts) := by
  simp [StartsClear]

theorem startsClear_placeholder (p : String) (ts : List Token) :
    StartsClear (.placeholder p :: ts) := by
  simp [StartsClear]

theorem goesOn_of_startsClear {ts : List Token} (h : StartsClear ts) : goesOn ts = false := by
  unfold goesOn
  split
  · next s n rest =>
    rw [decide_eq_false_iff_not]
    rintro rfl
    exact h rfl
  · rfl

theorem pathsOf_pathTokens {path : List String} (hpath : path ≠ []) {rest : List Token}
    (hrest : StartsClear rest) : pathsOf (pathTokens path ++ rest) = path :: pathsOf rest := by
  induction path with
  | nil => exact absurd rfl hpath
  | cons n path ih =>
    cases path with
    | nil =>
      show pathsOf (.name n :: rest) = _
      rw [pathsOf, goesOn_of_startsClear hrest]
      rfl
    | cons m path =>
      have ih := ih (List.cons_ne_nil m path)
      obtain ⟨k, ts, hstarts⟩ := pathTokens_starts (List.cons_ne_nil m path)
      show pathsOf (.name n :: .sign "." :: (pathTokens (m :: path) ++ rest)) = _
      rw [hstarts, List.cons_append] at ih ⊢
      have hgoesOn : goesOn (.sign "." :: .name k :: (ts ++ rest)) = true := by
        simp [goesOn]
      rw [pathsOf, hgoesOn, if_pos rfl, pathsOf, ih]
      simp

theorem pathsOf_append {ts : List Token} (h : ∀ t ∈ ts, ∀ n, t ≠ .name n) (rest : List Token) :
    pathsOf (ts ++ rest) = pathsOf rest := by
  induction ts with
  | nil => rfl
  | cons t ts ih =>
    obtain ⟨ht, hts⟩ := List.forall_mem_cons.mp h
    rw [List.cons_append, pathsOf, ih hts]
    exact ht

/-! ### Text between names -/

/-- Whether text may follow a name: its first character that is no blank is no point. -/
def followsName (s : String) : Bool := (s.toList.dropWhile Text.isBlank).head? ≠ some '.'

/-- The token that is pending is neither missing nor starts with a point. -/
def Pending.OffPoint : Pending → Prop
  | idle => False
  | sign s => ∃ c t, s = c :: t ∧ c ≠ '.'
  | _ => True

theorem Pending.OffPoint.extend {p q : Pending} (h : p.OffPoint) {c : Char}
    (hq : p.extend d c = some q) : q.OffPoint := by
  cases p with
  | idle => cases h
  | word s | placeholder s =>
    simp only [Pending.extend] at hq
    split at hq
    · cases hq
      trivial
    · cases hq
  | sign s =>
    obtain ⟨x, t, rfl, hx⟩ := h
    simp only [Pending.extend] at hq
    split at hq
    · cases hq
      exact ⟨x, t ++ [c], rfl, hx⟩
    · cases hq
  | name s =>
    simp only [Pending.extend] at hq
    split at hq <;> cases hq <;> trivial
  | closing s =>
    simp only [Pending.extend] at hq
    split at hq
    · cases hq
      trivial
    · cases hq

theorem Pending.OffPoint.token {p : Pending} (h : p.OffPoint) :
    ∃ t, p.token = [t] ∧ t ≠ .sign "." := by
  cases p with
  | idle => cases h
  | sign s =>
    obtain ⟨x, t, rfl, hx⟩ := h
    refine ⟨_, rfl, fun heq => hx ?_⟩
    have hchars := congrArg String.toList (Token.sign.inj heq)
    rw [String.toList_ofList] at hchars
    exact (List.cons.inj hchars).1
  | _ => exact ⟨_, rfl, nofun⟩

/-- A pending token that does not start with a point comes first, whatever follows. -/
theorem startsClear_lexFrom {p : Pending} (hp : p.OffPoint) (s : List Char) (rest : List Token) :
    StartsClear (lexFrom d p s ++ rest) := by
  have hfirst {p : Pending} (hp : p.OffPoint) (ts : List Token) : StartsClear (p.token ++ ts) := by
    obtain ⟨t, ht, hne⟩ := hp.token
    rw [ht]
    exact fun heq => hne (Option.some.inj heq)
  induction s generalizing p with
  | nil => exact hfirst hp rest
  | cons c s ih =>
    rw [lexFrom]
    cases hc : p.extend d c with
    | some q => exact ih (hp.extend hc)
    | none =>
      simp only [List.append_assoc]
      exact hfirst hp _

/-- Text that may follow a name has no point in front. -/
theorem startsClear_lex {s : List Char} (h : (s.dropWhile Text.isBlank).head? ≠ some '.')
    {rest : List Token} (hrest : StartsClear rest) : StartsClear (lex d s ++ rest) := by
  induction s with
  | nil => exact hrest
  | cons c s ih =>
    show StartsClear (lexFrom d (.start d c) s ++ rest)
    -- a blank leaves nothing pending; every other character starts a token
    by_cases hidle : Pending.start d c = .idle
    · have hblank : Text.isBlank c = true := by
        by_contra hblank
        unfold Pending.start at hidle
        rw [if_neg hblank] at hidle
        split at hidle
        · cases hidle
        · split at hidle
          · cases hidle
          · split at hidle <;> cases hidle
      rw [List.dropWhile_cons_of_pos hblank] at h
      rw [hidle]
      exact ih h
    · refine startsClear_lexFrom ?_ s rest
      unfold Pending.start at hidle ⊢
      split
      · trivial
      · split
        · trivial
        · split
          · trivial
          · next hopen hat hname =>
            rw [if_neg hopen, if_neg hat, if_neg hname] at hidle
            split
            · next hblank => exact absurd (if_pos hblank) hidle
            · next hblank =>
              rw [List.dropWhile_cons_of_neg hblank] at h
              exact ⟨c, [], rfl, fun hc => h (congrArg some hc)⟩

/-- There are no names in plain text. -/
theorem lexFrom_plain_ne_name {p : Pending} (hp : p.IsPlain) {s : List Char}
    (hs : s.all isPlain = true) : ∀ t ∈ lexFrom d p s, ∀ n, t ≠ .name n := by
  intro t ht n
  obtain ⟨w, rfl⟩ | ⟨w, rfl⟩ := mem_lexFrom_plain hp hs t ht
  · nofun
  · nofun

/-! ### The paths in fragments -/

/-- The fragments are text, placeholders and these paths, each part of a path quoted for itself, and no
text goes on with a path in front of it. -/
inductive Refers : Fragments → List (List String) → Prop
  | nil : Refers [] []
  | text {s : String} {fs : Fragments} {paths : List (List String)} (follows : followsName s = true)
      (rest : Refers fs paths) : Refers (.text s :: fs) paths
  | placeholder {p : String} {fs : Fragments} {paths : List (List String)}
      (rest : Refers fs paths) : Refers (.placeholder p :: fs) paths
  | path {path : List String} {fs : Fragments} {paths : List (List String)} (ne : path ≠ [])
      (rest : Refers fs paths) : Refers (pathFragments path ++ fs) (path :: paths)

namespace Refers

variable {fs gs : Fragments} {paths others : List (List String)}

/-- A name that is quoted as a whole is a path of its own. -/
theorem name {n : String} (rest : Refers fs paths) : Refers (.name n :: fs) ([n] :: paths) := by
  have h : Refers (pathFragments [n] ++ fs) ([n] :: paths) := .path (List.cons_ne_nil n []) rest
  exact h

theorem append (h : Refers fs paths) (h' : Refers gs others) :
    Refers (fs ++ gs) (paths ++ others) := by
  induction h with
  | nil => exact h'
  | text follows _ ih => exact .text follows ih
  | placeholder _ ih => exact .placeholder ih
  | path ne _ ih =>
    rw [List.append_assoc]
    exact .path ne ih

/-- A text at the end. -/
theorem last {s : String} (follows : followsName s = true) : Refers [.text s] [] :=
  .text follows .nil

theorem only {path : List String} (ne : path ≠ []) : Refers (pathFragments path) [path] := by
  have h : Refers (pathFragments path ++ []) [path] := .path ne .nil
  rwa [List.append_nil] at h

theorem separated {α : Type} {separator : String} (hs : followsName separator = true)
    {f : α → Fragments} {g : α → List (List String)} {items : List α}
    (h : ∀ x ∈ items, Refers (f x) (g x)) :
    Refers (separated separator (items.map f)) (items.flatMap g) := by
  induction items with
  | nil => exact .nil
  | cons x rest ih =>
    obtain ⟨hx, hrest⟩ := List.forall_mem_cons.mp h
    cases rest with
    | nil => simpa [Sql.separated] using hx
    | cons y rest =>
      rw [List.flatMap_cons]
      exact hx.append (.text hs (ih hrest))

theorem commaList {α : Type} {f : α → Fragments} {g : α → List (List String)} {items : List α}
    (h : ∀ x ∈ items, Refers (f x) (g x)) : Refers (commaList f items) (items.flatMap g) :=
  .separated (by decide) h

/-- **The paths that are written are read.** -/
theorem pathsOf_tokens (h : Refers fs paths) (hplain : ∀ s, .text s ∈ fs → s.toList.all isPlain)
    {rest : List Token} (hrest : StartsClear rest) :
    pathsOf (fs.tokens d ++ rest) = paths ++ pathsOf rest ∧ StartsClear (fs.tokens d ++ rest) := by
  induction h with
  | nil => exact ⟨rfl, hrest⟩
  | @text s fs paths follows _ ih =>
    obtain ⟨hpaths, hclear⟩ := ih fun s hs => hplain s (List.mem_cons_of_mem _ hs)
    have hs := hplain s List.mem_cons_self
    rw [Fragments.tokens_text, List.append_assoc]
    refine ⟨?_, startsClear_lex (by simpa [followsName] using follows) hclear⟩
    rw [lex, pathsOf_append (lexFrom_plain_ne_name idle_isPlain hs), hpaths]
  | @placeholder p fs paths _ ih =>
    obtain ⟨hpaths, -⟩ := ih fun s hs => hplain s (List.mem_cons_of_mem _ hs)
    have htokens : Fragments.tokens d (.placeholder p :: fs) = .placeholder p :: fs.tokens d := rfl
    rw [htokens, List.cons_append]
    exact ⟨hpaths, startsClear_placeholder p _⟩
  | @path path fs paths ne _ ih =>
    obtain ⟨hpaths, hclear⟩ := ih fun s hs => hplain s (List.mem_append_right _ hs)
    rw [Fragments.tokens_append, tokens_pathFragments, List.append_assoc]
    refine ⟨?_, ?_⟩
    · rw [pathsOf_pathTokens ne hclear, hpaths, List.cons_append]
    · obtain ⟨n, ts, heq⟩ := pathTokens_starts ne
      rw [heq]
      exact startsClear_name n _

end Refers

theorem refers_dottedName (name : String) : Refers (dottedName name) [nameParts name] :=
  .only (nameParts_ne_nil name)

/-- Text between two sides is plain. -/
theorem Spaced.plain {a b : Side} {fs : Fragments} (h : Spaced a fs b) :
    ∀ s, .text s ∈ fs → s.toList.all isPlain := by
  induction h with
  | nil => nofun
  | text plain _ _ _ ih =>
    intro s hs
    rcases List.mem_cons.mp hs with hs | hs
    · cases hs
      exact plain
    · exact ih s hs
  | name _ ih | placeholder _ ih =>
    intro s hs
    rcases List.mem_cons.mp hs with hs | hs
    · cases hs
    · exact ih s hs

/-- **The paths in spaced fragments are read in their text.** -/
theorem Refers.pathsOf_lex {a b : Side} {fs : Fragments} {paths : List (List String)}
    (h : Refers fs paths) (hspaced : Spaced a fs b) (hl : fs.Legible) :
    pathsOf (lex d (fs.render d)) = paths := by
  have hread := (h.pathsOf_tokens (d := d) hspaced.plain startsClear_nil).1
  rw [List.append_nil] at hread
  rw [lex_render hspaced hl, ← Fragments.tokens, hread, pathsOf, List.append_nil]

end EntitySql.Sql
