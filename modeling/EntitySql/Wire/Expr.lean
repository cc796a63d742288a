import EntitySql.Wire.Value

/-!
# Expressions in JSON

An expression is written as an object whose one member names its form, with the parts under their
names where there are several kinds of them.
-/

namespace EntitySql.Wire

open Json (Document)

mutual
/-- An expression. -/
def ofExpr : Expr → Json
  | .member n => form "Member" (.string n)
  | .constant v => form "Constant" (ofValue v)
  | .parameter n => form "Parameter" (.string n)
  | .compare op l r =>
    form "Compare" (.object [("op", name compareOps op), ("left", ofExpr l), ("right", ofExpr r)])
  | .and l r => form "And" (.array [ofExpr l, ofExpr r])
  | .or l r => form "Or" (.array [ofExpr l, ofExpr r])
  | .not e => form "Not" (ofExpr e)
  | .coalesce e f => form "Coalesce" (.object [("value", ofExpr e), ("fallback", ofExpr f)])
  | .call m target args =>
    form "Call"
      (.object
        [("method", name methods m), ("target", ofExpr target), ("args", .array (ofExprs args))])
  | .lambda p body => form "Lambda" (.object [("param", .string p), ("body", ofExpr body)])

/-- The expressions of a list. -/
def ofExprs : List Expr → List Json
  | [] => []
  | e :: rest => ofExpr e :: ofExprs rest
end

/-- An expression. Its own bracket and a bracket of parts inside it use up room, which leaves the
less for the expressions among the parts; with room for one bracket it has no parts but one. -/
def readExpr : (room : Nat) → Document → Option Expr
  | room + 2, d =>
    match readForm (room + 2) d with
    | some ("Member", some d) => (readString d).map .member
    | some ("Constant", some d) => (readValue (room + 1) d).map .constant
    | some ("Parameter", some d) => (readString d).map .parameter
    | some ("Compare", some d) => do
      let fields ← readFields ["op", "left", "right"] 0 d
      let op ← fields.required "op" (readName compareOps room)
      let l ← fields.required "left" (readExpr room)
      let r ← fields.required "right" (readExpr room)
      some (.compare op l r)
    | some ("And", some d) => do
      let (l, r) ← readPair d
      let l ← readExpr room l
      let r ← readExpr room r
      some (.and l r)
    | some ("Or", some d) => do
      let (l, r) ← readPair d
      let l ← readExpr room l
      let r ← readExpr room r
      some (.or l r)
    | some ("Not", some d) => (readExpr (room + 1) d).map .not
    | some ("Coalesce", some d) => do
      let fields ← readFields ["value", "fallback"] 0 d
      let e ← fields.required "value" (readExpr room)
      let f ← fields.required "fallback" (readExpr room)
      some (.coalesce e f)
    | some ("Call", some d) => do
      let fields ← readFields ["method", "target", "args"] 0 d
      let m ← fields.required "method" (readName methods room)
      let target ← fields.required "target" (readExpr room)
      let items ← fields.required "args" fun
        | .array items => some items
        | _ => none
      let args ← match room with | 0 => none | room + 1 => items.mapM (readExpr room)
      some (.call m target args)
    | some ("Lambda", some d) => do
      let fields ← readFields ["param", "body"] 0 d
      let p ← fields.required "param" readString
      let body ← fields.required "body" (readExpr room)
      some (.lambda p body)
    | _ => none
  | room + 1, d =>
    match readForm (room + 1) d with
    | some ("Member", some d) => (readString d).map .member
    | some ("Constant", some d) => (readValue room d).map .constant
    | some ("Parameter", some d) => (readString d).map .parameter
    | some ("Not", some d) => (readExpr room d).map .not
    | _ => none
  | 0, _ => none

end EntitySql.Wire
