import EntitySql.Filter.Reading
import EntitySql.Proofs.Result

/-!
# What identifiers resolve to

All that resolving a term can do is said once (`Term.Resolves`): an identifier becomes a parameter if a
lambda around it binds its name, and a property only if none does and the row has no name; a property
behind a point belongs to the row, and no lambda around it may bind the name of the row; a lambda adds its
parameter for its body alone; everything else goes part by part.

A text is read as what the term that it spells resolves to, if it does not nest too deeply
(`read_eq_ok_iff`).
-/

namespace EntitySql.Filter

namespace Term

mutual
/-- The term resolves to the expression; `scope` holds the parameters of the lambdas around it. -/
inductive Resolves (root : Option String) : List String → Term → Expr → Prop
  | constant {scope : List String} (v : Value) : Resolves root scope (.constant v) (.constant v)
  | parameter {scope : List String} {name : String} (h : name ∈ scope) :
      Resolves root scope (.identifier name) (.parameter name)
  | property {scope : List String} {name : String} (hroot : root = none) (h : name ∉ scope) :
      Resolves root scope (.identifier name) (.member name)
  | access {scope : List String} {row : String} (property : String) (hroot : root = some row)
      (h : row ∉ scope) : Resolves root scope (.access (.identifier row) property) (.member property)
  | call {scope : List String} {name : String} {m : Method} {target : Term} {target' : Expr}
      {args : List Term} {args' : List Expr} (hmethod : Method.ofName? name = some m)
      (ht : Resolves root scope target target') (ha : ResolvesAll root scope args args') :
      Resolves root scope (.call target name args) (.call m target' args')
  | lambda {scope : List String} {p : String} {body : Term} {body' : Expr}
      (h : Resolves root (p :: scope) body body') :
      Resolves root scope (.lambda p body) (.lambda p body')
  | compare {scope : List String} (op : CompareOp) {l r : Term} {l' r' : Expr}
      (hl : Resolves root scope l l') (hr : Resolves root scope r r') :
      Resolves root scope (.compare op l r) (.compare op l' r')
  | and {scope : List String} {l r : Term} {l' r' : Expr} (hl : Resolves root scope l l')
      (hr : Resolves root scope r r') : Resolves root scope (.and l r) (.and l' r')
  | or {scope : List String} {l r : Term} {l' r' : Expr} (hl : Resolves root scope l l')
      (hr : Resolves root scope r r') : Resolves root scope (.or l r) (.or l' r')
  | not {scope : List String} {t : Term} {e : Expr} (h : Resolves root scope t e) :
      Resolves root scope (.not t) (.not e)
  | coalesce {scope : List String} {l r : Term} {l' r' : Expr} (hl : Resolves root scope l l')
      (hr : Resolves root scope r r') : Resolves root scope (.coalesce l r) (.coalesce l' r')

/-- The terms of a list resolve to the expressions of another. -/
inductive ResolvesAll (root : Option String) : List String → List Term → List Expr → Prop
  | nil {scope : List String} : ResolvesAll root scope [] []
  | cons {scope : List String} {t : Term} {e : Expr} {ts : List Term} {es : List Expr}
      (h : Resolves root scope t e) (hs : ResolvesAll root scope ts es) :
      ResolvesAll root scope (t :: ts) (e :: es)
end

variable {root : Option String} {scope : List String}

theorem resolves_identifier {name : String} {e : Expr}
    (h : resolveIdentifier root scope name = .ok e) : Resolves root scope (.identifier name) e := by
  unfold resolveIdentifier at h
  split at h
  · next hscope =>
    cases h
    exact .parameter hscope
  · next hscope =>
    split at h
    · cases h
      exact .property rfl hscope
    · split at h <;> cases h

theorem resolves_access {target : Term} {property : String} {e : Expr}
    (h : resolveAccess root scope target property = .ok e) :
    Resolves root scope (.access target property) e := by
  unfold resolveAccess at h
  split at h
  · split at h
    · next hrow =>
      cases h
      exact .access property hrow.1 hrow.2
    · cases h
  · cases h

mutual
/-- Resolving does nothing else. -/
theorem resolves_of_resolve {root : Option String} :
    ∀ (t : Term) {scope : List String} {e : Expr}, t.resolve root scope = .ok e →
      Resolves root scope t e
  | .constant v, scope, e, h => by
    cases h
    exact .constant v
  | .identifier name, scope, e, h => resolves_identifier h
  | .access target property, scope, e, h => resolves_access h
  | .call target name args, scope, e, h => by
    unfold resolve at h
    split at h
    · cases h
    · next m hmethod =>
      obtain ⟨target', htarget, h⟩ := bind_eq_ok_iff.mp h
      obtain ⟨args', hargs, h⟩ := bind_eq_ok_iff.mp h
      cases h
      exact .call hmethod (resolves_of_resolve target htarget) (resolvesAll_of_resolveAll args hargs)
  | .lambda p body, scope, e, h => by
    obtain ⟨body', hbody, h⟩ := bind_eq_ok_iff.mp h
    cases h
    exact .lambda (resolves_of_resolve body hbody)
  | .compare op l r, scope, e, h => by
    obtain ⟨l', hl, h⟩ := bind_eq_ok_iff.mp h
    obtain ⟨r', hr, h⟩ := bind_eq_ok_iff.mp h
    cases h
    exact .compare op (resolves_of_resolve l hl) (resolves_of_resolve r hr)
  | .and l r, scope, e, h => by
    obtain ⟨l', hl, h⟩ := bind_eq_ok_iff.mp h
    obtain ⟨r', hr, h⟩ := bind_eq_ok_iff.mp h
    cases h
    exact .and (resolves_of_resolve l hl) (resolves_of_resolve r hr)
  | .or l r, scope, e, h => by
    obtain ⟨l', hl, h⟩ := bind_eq_ok_iff.mp h
    obtain ⟨r', hr, h⟩ := bind_eq_ok_iff.mp h
    cases h
    exact .or (resolves_of_resolve l hl) (resolves_of_resolve r hr)
  | .not t, scope, e, h => by
    obtain ⟨e', he, h⟩ := bind_eq_ok_iff.mp h
    cases h
    exact .not (resolves_of_resolve t he)
  | .coalesce l r, scope, e, h => by
    obtain ⟨l', hl, h⟩ := bind_eq_ok_iff.mp h
    obtain ⟨r', hr, h⟩ := bind_eq_ok_iff.mp h
    cases h
    exact .coalesce (resolves_of_resolve l hl) (resolves_of_resolve r hr)

theorem resolvesAll_of_resolveAll {root : Option String} :
    ∀ (ts : List Term) {scope : List String} {es : List Expr}, resolveAll root scope ts = .ok es →
      ResolvesAll root scope ts es
  | [], scope, es, h => by
    cases h
    exact .nil
  | t :: ts, scope, es, h => by
    obtain ⟨e, he, h⟩ := bind_eq_ok_iff.mp h
    obtain ⟨es', hes, h⟩ := bind_eq_ok_iff.mp h
    cases h
    exact .cons (resolves_of_resolve t he) (resolvesAll_of_resolveAll ts hes)
end

end Term

/-- A text that is read passes the scan and spells a term that resolves outside of any lambda. -/
theorem read_eq_ok_iff {text : String} {e : Expr} :
    read text = .ok e ↔ tooDeepAt? text.toList = none ∧
      ∃ root t, readTerm (lex text.toList) = .ok (root, t) ∧ t.resolve root [] = .ok e := by
  unfold read readChars
  constructor
  · intro h
    split at h
    · cases h
    · next hscan =>
      split at h
      · next root t hterm => exact ⟨hscan, root, t, hterm, h⟩
      · cases h
  · rintro ⟨hscan, root, t, hterm, h⟩
    rw [hscan]
    dsimp only
    rw [hterm]
    exact h

end EntitySql.Filter
