import EntitySql.Proofs.Wire.Value
import EntitySql.Wire.Expr

/-!
# Written expressions are read back

An expression is read back with civil times in its constants (**`readExpr_ofExpr`**). With room for
one bracket only the forms of one part are read, so the others are looked at from two brackets on
(`readExpr_two`).
-/

namespace EntitySql

mutual
/-- Every constant in the expression is canonical. -/
def Expr.IsCanonical : Expr → Prop
  | .member _ | .parameter _ => True
  | .constant v => v.IsCanonical
  | .compare _ l r | .and l r | .or l r | .coalesce l r => l.IsCanonical ∧ r.IsCanonical
  | .not e | .lambda _ e => e.IsCanonical
  | .call _ target args => target.IsCanonical ∧ Expr.AllCanonical args

/-- Every constant in the expressions of a list is canonical. -/
def Expr.AllCanonical : List Expr → Prop
  | [] => True
  | e :: es => e.IsCanonical ∧ Expr.AllCanonical es
end

/-! ### Leap seconds in expressions -/

mutual
/-- Every leap second in a constant of the expression follows a second 59. -/
def Expr.IsCivil : Expr → Prop
  | .member _ | .parameter _ => True
  | .constant v => v.IsCivil
  | .compare _ l r | .and l r | .or l r | .coalesce l r => l.IsCivil ∧ r.IsCivil
  | .not e | .lambda _ e => e.IsCivil
  | .call _ target args => target.IsCivil ∧ Expr.AllCivil args

/-- Every leap second in a constant of the expressions of a list follows a second 59. -/
def Expr.AllCivil : List Expr → Prop
  | [] => True
  | e :: es => e.IsCivil ∧ Expr.AllCivil es
end

mutual
/-- The expression with civil times. -/
def Expr.civil : Expr → Expr
  | .member n => .member n
  | .parameter n => .parameter n
  | .constant v => .constant v.civil
  | .compare op l r => .compare op l.civil r.civil
  | .and l r => .and l.civil r.civil
  | .or l r => .or l.civil r.civil
  | .coalesce e f => .coalesce e.civil f.civil
  | .not e => .not e.civil
  | .lambda p body => .lambda p body.civil
  | .call m target args => .call m target.civil (Expr.civilItems args)

/-- The expressions of a list with civil times. -/
def Expr.civilItems : List Expr → List Expr
  | [] => []
  | e :: es => e.civil :: Expr.civilItems es
end

mutual
theorem Expr.civil_eq_self_iff : ∀ e : Expr, e.civil = e ↔ e.IsCivil
  | .member _ | .parameter _ => iff_of_true rfl trivial
  | .constant v => by simp only [civil, IsCivil, constant.injEq, v.civil_eq_self_iff]
  | .compare _ l r => by
    simp only [civil, IsCivil, compare.injEq, true_and, l.civil_eq_self_iff,
      r.civil_eq_self_iff]
  | .and l r => by
    simp only [civil, IsCivil, and.injEq, l.civil_eq_self_iff, r.civil_eq_self_iff]
  | .or l r => by
    simp only [civil, IsCivil, or.injEq, l.civil_eq_self_iff, r.civil_eq_self_iff]
  | .coalesce e f => by
    simp only [civil, IsCivil, coalesce.injEq, e.civil_eq_self_iff, f.civil_eq_self_iff]
  | .not e => by simp only [civil, IsCivil, not.injEq, e.civil_eq_self_iff]
  | .lambda _ body => by
    simp only [civil, IsCivil, lambda.injEq, true_and, body.civil_eq_self_iff]
  | .call _ target args => by
    simp only [civil, IsCivil, call.injEq, true_and, target.civil_eq_self_iff,
      civilItems_eq_self_iff args]

theorem Expr.civilItems_eq_self_iff : ∀ es : List Expr, civilItems es = es ↔ AllCivil es
  | [] => iff_of_true rfl trivial
  | e :: es => by
    simp only [civilItems, AllCivil, List.cons.injEq, e.civil_eq_self_iff,
      civilItems_eq_self_iff es]
end

namespace Wire

open Json (Document)

mutual
theorem isIntegral_ofExpr : ∀ {e : Expr}, e.IsCanonical → (ofExpr e).IsIntegral
  | .member _, _ | .parameter _, _ => isIntegral_form trivial
  | .constant _, h => isIntegral_form (isIntegral_ofValue h)
  | .compare _ _ _, h =>
    isIntegral_form ⟨trivial, isIntegral_ofExpr h.1, isIntegral_ofExpr h.2, trivial⟩
  | .and _ _, h | .or _ _, h | .coalesce _ _, h =>
    isIntegral_form ⟨isIntegral_ofExpr h.1, isIntegral_ofExpr h.2, trivial⟩
  | .not _, h => isIntegral_form (isIntegral_ofExpr h)
  | .call _ _ _, h =>
    isIntegral_form ⟨trivial, isIntegral_ofExpr h.1, itemsIntegral_ofExprs h.2, trivial⟩
  | .lambda _ _, h => isIntegral_form ⟨trivial, isIntegral_ofExpr h, trivial⟩

theorem itemsIntegral_ofExprs : ∀ {es : List Expr}, Expr.AllCanonical es →
    Json.ItemsIntegral (ofExprs es)
  | [], _ => trivial
  | _ :: _, h => ⟨isIntegral_ofExpr h.1, itemsIntegral_ofExprs h.2⟩
end

theorem find?_compareOps (op : CompareOp) : compareOps.find? (compareOps.nameOf op) = some op := by
  cases op <;> rfl

theorem find?_methods (m : Method) : methods.find? (methods.nameOf m) = some m := by
  cases m <;> rfl

/-- A form whose content is in brackets with the parts inside is read with room for both. -/
theorem readExpr_two {kind : String} {content : Json} {e : Expr}
    (hone : readExpr 1 (form kind content).document = none) (hdepth : 1 ≤ content.depth)
    (h : ∀ room, Restores (room + 2) (readExpr (room + 2)) (form kind content) e) :
    ∀ room, Restores room (readExpr room) (form kind content) e
  | 0 => rfl
  | 1 => by
    rw [Restores, hone, depth_form, if_neg (by omega)]
  | room + 2 => h room

/-- A form whose content is one part. -/
theorem readExpr_one {kind : String} {content : Json} {e : Expr}
    (h : ∀ room, readExpr (room + 1) (form kind content).document =
      if content.depth ≤ room then some e else none) :
    ∀ room, Restores room (readExpr room) (form kind content) e
  | 0 => rfl
  | room + 1 => by
    rw [Restores, h, depth_form]
    simp only [Nat.add_le_add_iff_right]

/-- A pair of expressions is read with room for the brackets of the form and of the pair. -/
theorem readPair_array {kind : String} {i j : Json} {l r : Expr} {room : Nat}
    (f : Expr → Expr → Expr) (hl : Restores room (readExpr room) i l)
    (hr : Restores room (readExpr room) j r) :
    ((readPair (Json.array [i, j]).document).bind fun (l, r) =>
        (readExpr room l).bind fun l => (readExpr room r).bind fun r => some (f l r)) =
      if (form kind (.array [i, j])).depth ≤ room + 2 then some (f l r) else none := by
  simp only [Restores] at hl hr
  by_cases hleft : i.depth ≤ room <;> by_cases hright : j.depth ≤ room <;>
    simp [readPair, document_array, Json.documents, hl, hr, depth_form, Json.depth, Json.itemsDepth,
      hleft, hright]

mutual
/-- An expression is read back with civil times from what it is written as. -/
theorem readExpr_ofExpr : ∀ (e : Expr) (room : Nat), e.IsCanonical →
    Restores room (readExpr room) (ofExpr e) e.civil
  | .member n, room, _ => by
    refine readExpr_one (fun room => ?_) room
    have hn := congrArg (Option.map Expr.member) (readString_string n)
    cases room <;> exact hn
  | .constant v, room, h => by
    refine readExpr_one (fun room => ?_) room
    have hv := (readValue_ofValue (v := v) room h).map Expr.constant
    cases room <;> exact hv
  | .parameter n, room, _ => by
    refine readExpr_one (fun room => ?_) room
    have hn := congrArg (Option.map Expr.parameter) (readString_string n)
    cases room <;> exact hn
  | .compare op l r, room, h => by
    refine readExpr_two rfl (by simp [Json.depth]) (fun room => ?_) room
    have hop := readName_name (find?_compareOps op) room
    have hl := readExpr_ofExpr l room h.1
    have hr := readExpr_ofExpr r room h.2
    simp only [Restores] at hl hr
    rw [Restores, readExpr, readForm_form]
    by_cases hleft : (ofExpr l).depth ≤ room <;> by_cases hright : (ofExpr r).depth ≤ room <;>
      simp [readFields_object, hop, hl, hr, depth_form, Json.depth, Json.membersDepth, hleft,
        hright, Expr.civil]
  | .and l r, room, h => by
    refine readExpr_two rfl (by simp [Json.depth]) (fun room => ?_) room
    rw [Restores, readExpr, readForm_form]
    exact readPair_array Expr.and (readExpr_ofExpr l room h.1) (readExpr_ofExpr r room h.2)
  | .or l r, room, h => by
    refine readExpr_two rfl (by simp [Json.depth]) (fun room => ?_) room
    rw [Restores, readExpr, readForm_form]
    exact readPair_array Expr.or (readExpr_ofExpr l room h.1) (readExpr_ofExpr r room h.2)
  | .not e, room, h => by
    refine readExpr_one (fun room => ?_) room
    have he := (readExpr_ofExpr e room h).map Expr.not
    cases room <;> exact he
  | .coalesce e f, room, h => by
    refine readExpr_two rfl (by simp [Json.depth]) (fun room => ?_) room
    have he := readExpr_ofExpr e room h.1
    have hf := readExpr_ofExpr f room h.2
    simp only [Restores] at he hf
    rw [Restores, readExpr, readForm_form]
    by_cases hvalue : (ofExpr e).depth ≤ room <;> by_cases hfallback : (ofExpr f).depth ≤ room <;>
      simp [readFields_object, he, hf, depth_form, Json.depth, Json.membersDepth, hvalue, hfallback,
        Expr.civil]
  | .call m target args, room, h => by
    refine readExpr_two rfl (by simp [Json.depth]) (fun room => ?_) room
    have hm := readName_name (find?_methods m) room
    have ht := readExpr_ofExpr target room h.1
    simp only [Restores] at ht
    rw [Restores, readExpr, readForm_form]
    cases room with
    | zero =>
      -- the bracket of the arguments is one too many
      simp [readFields_object, depth_form, Json.depth, Json.membersDepth]
    | succ room =>
      have hargs := mapM_documents (forall₂_ofExprs args room h.2)
      by_cases htarget : (ofExpr target).depth ≤ room + 1 <;>
        by_cases hroom : Json.itemsDepth (ofExprs args) ≤ room <;>
          simp [readFields_object, hm, ht, hargs, depth_form, Json.depth, Json.membersDepth,
            document_array, htarget, hroom, Expr.civil]
  | .lambda p body, room, h => by
    refine readExpr_two rfl (by simp [Json.depth]) (fun room => ?_) room
    have hbody := readExpr_ofExpr body room h
    simp only [Restores] at hbody
    rw [Restores, readExpr, readForm_form]
    by_cases hroom : (ofExpr body).depth ≤ room <;>
      simp [readFields_object, hbody, depth_form, Json.depth, Json.membersDepth, hroom,
        Expr.civil]

theorem forall₂_ofExprs : ∀ (es : List Expr) (room : Nat), Expr.AllCanonical es →
    List.Forall₂ (Restores room (readExpr room)) (ofExprs es) (Expr.civilItems es)
  | [], _, _ => .nil
  | e :: es, room, h => .cons (readExpr_ofExpr e room h.1) (forall₂_ofExprs es room h.2)
end

end Wire

end EntitySql
