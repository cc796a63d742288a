import EntitySql.Proofs.Filter.Reading

/-!
# Reading what was printed

`Expr.display` prints a filter with brackets around connectives and fallbacks and none around
comparisons. What it prints reads back where every part can be written in its place: a comparison and a
negation may stand between connectives and as arguments, but not as sides of a comparison or as targets
of a call (`PrintsTerm`, `PrintsFilter`, `PrintsArgument`).

The text of such a filter is read as the term that it is written as (`Expr.written`), whose identifiers
resolve to the filter again. So **`read_display`**: behind the name of the row, the text of a filter that
does not nest too deeply is read as the filter.
-/

namespace EntitySql.Filter

/-! ### Filters that can be printed -/

/-- A name that a lambda may bind: neither the row nor a value. -/
structure IsParameter (name : String) : Prop where
  identifier : IsIdentifier name
  free : name ∉ ["x", "true", "false", "null"]

mutual
/-- What stands as the side of a comparison or the target of a call, in the scope of some parameters. -/
inductive PrintsTerm : List String → Expr → Prop where
  | member {scope : List String} {name : String} (h : IsIdentifier name) :
    PrintsTerm scope (.member name)
  | constant {scope : List String} {v : Value} (h : IsLiteral v) : PrintsTerm scope (.constant v)
  | list {scope : List String} {items : List Value} (h : ∀ v ∈ items, IsLiteral v) :
    PrintsTerm scope (.constant (.list items))
  | parameter {scope : List String} {name : String} (h : name ∈ scope) :
    PrintsTerm scope (.parameter name)
  | coalesce {scope : List String} {e f : Expr} (he : PrintsTerm scope e)
    (hf : PrintsTerm scope f) : PrintsTerm scope (.coalesce e f)
  | and {scope : List String} {l r : Expr} (hl : PrintsFilter scope l)
    (hr : PrintsFilter scope r) : PrintsTerm scope (.and l r)
  | or {scope : List String} {l r : Expr} (hl : PrintsFilter scope l)
    (hr : PrintsFilter scope r) : PrintsTerm scope (.or l r)
  | call {scope : List String} {m : Method} {target : Expr} {args : List Expr}
    (ht : PrintsTerm scope target) (ha : ∀ a ∈ args, PrintsArgument scope a) :
    PrintsTerm scope (.call m target args)

/-- What stands between connectives. -/
inductive PrintsFilter : List String → Expr → Prop where
  | term {scope : List String} {e : Expr} (h : PrintsTerm scope e) : PrintsFilter scope e
  | compare {scope : List String} {op : CompareOp} {l r : Expr} (hl : PrintsTerm scope l)
    (hr : PrintsTerm scope r) : PrintsFilter scope (.compare op l r)
  | not {scope : List String} {e : Expr} (h : PrintsFilter scope e) : PrintsFilter scope (.not e)

/-- What stands as an argument. -/
inductive PrintsArgument : List String → Expr → Prop where
  | filter {scope : List String} {e : Expr} (h : PrintsFilter scope e) : PrintsArgument scope e
  | lambda {scope : List String} {param : String} {body : Expr} (hp : IsParameter param)
    (h : PrintsFilter (param :: scope) body) : PrintsArgument scope (.lambda param body)
end

/-! ### The term of a filter -/

mutual
/-- The term that a filter over the row `x` is written as. -/
def written : Expr → Term
  | .member name => .access (.identifier "x") name
  | .constant v => .constant v
  | .parameter name => .identifier name
  | .compare op l r => .compare op (written l) (written r)
  | .and l r => .and (written l) (written r)
  | .or l r => .or (written l) (written r)
  | .not e => .not (written e)
  | .coalesce e f => .coalesce (written e) (written f)
  | .call m target args => .call (written target) m.name (writtenAll args)
  | .lambda param body => .lambda param (written body)

/-- The terms of a list of arguments. -/
def writtenAll : List Expr → List Term
  | [] => []
  | e :: rest => written e :: writtenAll rest
end

/-! ### Resolving -/

theorem ofName?_name (m : Method) : Method.ofName? m.name = some m := by
  cases m <;> decide

theorem resolveAll_written {root : Option String} {scope : List String} {es : List Expr}
    (h : ∀ e ∈ es, (written e).resolve root scope = .ok e) :
    Term.resolveAll root scope (writtenAll es) = .ok es := by
  induction es with
  | nil => rfl
  | cons e es ih =>
    rw [writtenAll, Term.resolveAll, h e List.mem_cons_self,
      ih fun f hf => h f (List.mem_cons_of_mem _ hf)]
    rfl

variable {scope : List String} {e : Expr}

/-- Parameters that are bound do not hide the row. -/
theorem x_notMem (h : ∀ p ∈ scope, IsParameter p) : "x" ∉ scope :=
  fun hx => (h "x" hx).free List.mem_cons_self

theorem forall_cons_isParameter {param : String} (hp : IsParameter param)
    (h : ∀ p ∈ scope, IsParameter p) : ∀ p ∈ param :: scope, IsParameter p :=
  List.forall_mem_cons.mpr ⟨hp, h⟩

mutual
/-- The identifiers of the term of a filter resolve to the filter. -/
theorem resolve_term : ∀ {scope : List String} {e : Expr}, (∀ p ∈ scope, IsParameter p) →
    PrintsTerm scope e → (written e).resolve (some "x") scope = .ok e
  | scope, _, hscope, .member _ => by
    rw [written, Term.resolve, Term.resolveAccess, if_pos ⟨rfl, x_notMem hscope⟩]
  | _, _, _, .constant _ => rfl
  | _, _, _, .list _ => rfl
  | _, _, _, .parameter h => by rw [written, Term.resolve, Term.resolveIdentifier, if_pos h]
  | _, _, hscope, .coalesce he hf => by
    rw [written, Term.resolve, resolve_term hscope he, resolve_term hscope hf]
    rfl
  | _, _, hscope, .and hl hr => by
    rw [written, Term.resolve, resolve_filter hscope hl, resolve_filter hscope hr]
    rfl
  | _, _, hscope, .or hl hr => by
    rw [written, Term.resolve, resolve_filter hscope hl, resolve_filter hscope hr]
    rfl
  | _, _, hscope, .call ht ha => by
    have hargs := resolveAll_written fun a h => resolve_argument hscope (ha a h)
    rw [written, Term.resolve, ofName?_name]
    simp only [resolve_term hscope ht, hargs]
    rfl

theorem resolve_filter : ∀ {scope : List String} {e : Expr}, (∀ p ∈ scope, IsParameter p) →
    PrintsFilter scope e → (written e).resolve (some "x") scope = .ok e
  | _, _, hscope, .term h => resolve_term hscope h
  | _, _, hscope, .compare hl hr => by
    rw [written, Term.resolve, resolve_term hscope hl, resolve_term hscope hr]
    rfl
  | _, _, hscope, .not h => by
    rw [written, Term.resolve, resolve_filter hscope h]
    rfl

theorem resolve_argument : ∀ {scope : List String} {e : Expr}, (∀ p ∈ scope, IsParameter p) →
    PrintsArgument scope e → (written e).resolve (some "x") scope = .ok e
  | _, _, hscope, .filter h => resolve_filter hscope h
  | _, _, hscope, .lambda hp h => by
    rw [written, Term.resolve, resolve_filter (forall_cons_isParameter hp hscope) h]
    rfl
end

/-! ### Reading -/

theorem wordTerm_of_isParameter {name : String} (h : IsParameter name) :
    wordTerm name = .identifier name := by
  have hfree := h.free
  simp only [List.mem_cons, List.not_mem_nil, or_false, not_or] at hfree
  simp [wordTerm, hfree]

/-- The arguments of a call are read one after the other. -/
theorem reads_displayArgs {es : List Expr}
    (h : ∀ e ∈ es, ReadsArgument e.display.toList (written e)) :
    (Expr.displayArgs true es).toList = [] ∧ writtenAll es = [] ∨
      ReadsArguments (Expr.displayArgs true es).toList (writtenAll es) := by
  induction es with
  | nil => exact .inl ⟨rfl, rfl⟩
  | cons e es ih =>
    have he := h e List.mem_cons_self
    refine .inr ?_
    cases es with
    | nil =>
      have htext : (Expr.displayArgs true [e]).toList = e.display.toList := by
        simp [Expr.displayArgs]
      rw [htext]
      exact he.last
    | cons f es =>
      have htext : (Expr.displayArgs true (e :: f :: es)).toList =
          e.display.toList ++ ([',', ' '] ++ (Expr.displayArgs true (f :: es)).toList) := by
        simp [Expr.displayArgs]
      rw [htext]
      rcases ih fun g hg => h g (List.mem_cons_of_mem _ hg) with ⟨-, hnil⟩ | hes
      · cases hnil
      · exact he.next hes

mutual
/-- A printed filter is read as the term that it is written as. -/
theorem reads_term : ∀ {scope : List String} {e : Expr}, (∀ p ∈ scope, IsParameter p) →
    PrintsTerm scope e → ReadsTerm e.display.toList (written e)
  | _, .member name, _, .member h => by
    have htext : (Expr.member name).display.toList = "x".toList ++ '.' :: name.toList := by
      simp [Expr.display]
    rw [htext]
    exact readsTerm_access h (readsTerm_word isIdentifier_x)
  | _, _, _, .constant h => readsTerm_literal h
  | _, _, _, .list h => readsTerm_list h
  | _, .parameter name, hscope, .parameter h => by
    rw [written, ← wordTerm_of_isParameter (hscope name h)]
    exact readsTerm_word (hscope name h).identifier
  | _, .coalesce e f, hscope, .coalesce he hf => by
    have htext : (Expr.coalesce e f).display.toList =
        '(' :: ((e.display.toList ++ (spaced ['?', '?'] ++ f.display.toList)) ++ [')']) := by
      simp [Expr.display, spaced]
    rw [htext]
    exact ((reads_term hscope he).coalesce (reads_term hscope hf)).group
  | _, .and l r, hscope, .and hl hr => by
    have htext : (Expr.and l r).display.toList =
        '(' :: ((l.display.toList ++ (spaced ['&', '&'] ++ r.display.toList)) ++ [')']) := by
      simp [Expr.display, spaced]
    rw [htext]
    exact ((reads_filter hscope hl).and (reads_filter hscope hr)).group
  | _, .or l r, hscope, .or hl hr => by
    have htext : (Expr.or l r).display.toList =
        '(' :: ((l.display.toList ++ (spaced ['|', '|'] ++ r.display.toList)) ++ [')']) := by
      simp [Expr.display, spaced]
    rw [htext]
    exact ((reads_filter hscope hl).or (reads_filter hscope hr)).group
  | _, .call m target args, hscope, .call ht ha => by
    have htext : (Expr.call m target args).display.toList = target.display.toList ++
        ('.' :: m.name.toList ++ ('(' :: ((Expr.displayArgs true args).toList ++ [')']))) := by
      simp [Expr.display]
    rw [htext]
    exact (reads_term hscope ht).call (isIdentifier_method m)
      (reads_displayArgs fun a h => reads_argument hscope (ha a h))

theorem reads_filter : ∀ {scope : List String} {e : Expr}, (∀ p ∈ scope, IsParameter p) →
    PrintsFilter scope e → ReadsFilter e.display.toList (written e)
  | _, _, hscope, .term h => (reads_term hscope h).filter
  | _, .compare op l r, hscope, .compare hl hr => by
    have htext : (Expr.compare op l r).display.toList =
        l.display.toList ++ (spaced op.symbol.toList ++ r.display.toList) := by
      simp [Expr.display, spaced]
    rw [htext]
    exact (reads_term hscope hl).compare (reads_term hscope hr) op
  | _, .not e, hscope, .not h => by
    have htext : (Expr.not e).display.toList = '!' :: '(' :: (e.display.toList ++ [')']) := by
      simp [Expr.display]
    rw [htext]
    exact (reads_filter hscope h).not

theorem reads_argument : ∀ {scope : List String} {e : Expr}, (∀ p ∈ scope, IsParameter p) →
    PrintsArgument scope e → ReadsArgument e.display.toList (written e)
  | _, _, hscope, .filter h => (reads_filter hscope h).argument
  | _, .lambda param body, hscope, .lambda hp h => by
    have htext : (Expr.lambda param body).display.toList =
        param.toList ++ (spaced ['=', '>'] ++ body.display.toList) := by
      simp [Expr.display, spaced]
    rw [htext]
    exact (reads_filter (forall_cons_isParameter hp hscope) h).lambda hp.identifier
end

/-- **A printed filter reads back.** Behind the name of the row, the text of a filter that can be printed
and does not nest too deeply is read as the filter. -/
theorem read_display (h : PrintsFilter [] e)
    (hnesting : tooDeepAt? ("x => " ++ e.display).toList = none) :
    read ("x => " ++ e.display) = .ok e := by
  have hscope : ∀ p ∈ ([] : List String), IsParameter p := fun _ hp => by cases hp
  have htext : ("x => " ++ e.display).toList = 'x' :: (spaced ['=', '>'] ++ e.display.toList) := by
    simp [spaced]
  rw [read, readChars, hnesting, htext]
  simp only [(reads_filter hscope h).readTerm]
  exact resolve_filter hscope h

namespace Sample

/-- The age is one of `[-5, null]`, and the name, or a bracket that is text, has no `"J"` in it. -/
def bracketed : Expr :=
  .and
    (.call .any (.constant (.list [.int (-5), .null]))
      [.lambda "v" (.compare .eq (.parameter "v") (.member "Age"))])
    (.not (.call .contains (.coalesce (.member "Name") (.constant (.text "(["))) [.constant (.text "J")]))

theorem bracketed_prints : PrintsFilter [] bracketed := by
  have hv : IsParameter "v" := ⟨.of_all rfl (by decide) (by decide), by decide⟩
  have hage : PrintsFilter ["v"] (.compare .eq (.parameter "v") (.member "Age")) :=
    .compare (.parameter List.mem_cons_self) (.member (.of_all rfl (by decide) (by decide)))
  have hitems : ∀ v ∈ [Value.int (-5), .null], IsLiteral v := by
    simp [IsLiteral.int, IsLiteral.null]
  have hname : PrintsTerm [] (.coalesce (.member "Name") (.constant (.text "(["))) :=
    .coalesce (.member (.of_all rfl (by decide) (by decide))) (.constant (.text (by simp)))
  refine .term (.and (.term (.call (.list hitems) ?_)) (.not (.term (.call hname ?_))))
  · exact List.forall_mem_singleton.mpr (.lambda hv hage)
  · exact List.forall_mem_singleton.mpr (.filter (.term (.constant (.text (by simp)))))

end Sample

/-- A filter with a list, a lambda, a negation and a bracket in quotes is read from its text. -/
theorem read_display_bracketed :
    Sample.bracketed.display =
        "([-5, null].Any(v => v == x.Age) && !((x.Name ?? \"([\").Contains(\"J\")))" ∧
      PrintsFilter [] Sample.bracketed ∧
      tooDeepAt? ("x => " ++ Sample.bracketed.display).toList = none ∧
      read ("x => " ++ Sample.bracketed.display) = .ok Sample.bracketed := by
  have hnesting : tooDeepAt? ("x => " ++ Sample.bracketed.display).toList = none := by decide
  exact ⟨by decide, Sample.bracketed_prints, hnesting,
    read_display Sample.bracketed_prints hnesting⟩

end EntitySql.Filter
