import EntitySql.Predicate.OfExpr
import EntitySql.Schema.KeyPolicy
import EntitySql.Sql.Dialect

/-!
# Options

The options of an engine. A plan cache of no plans makes no sense and is refused.
-/

namespace EntitySql

/-- The options of an engine. -/
structure Options where
  dialect : Dialect
  nulls : NullSemantics
  keyPolicy : KeyPolicy
  /-- How elements of enumerations are stored where a property does not say. -/
  repr : EnumRepr
  /-- The greatest number of plans that are kept; without it all are. -/
  planCapacity : Option Nat
  /-- Whether the columns of a table are kept once they have been fetched. -/
  schemaCache : Bool
deriving DecidableEq, Repr

namespace Options

/-- The options where nothing else is said. -/
def standard : Options := ⟨.sqlServer, .twoValued, .primaryOrElseIdentity, .name, none, true⟩

/-- The options, if they can be used. -/
def checked (o : Options) : Result Options :=
  if o.planCapacity = some 0 then .error (.options .zeroCapacity) else .ok o

/-- The rules by which filters become predicates. -/
def rules (o : Options) : FilterRules := ⟨o.nulls, o.repr⟩

end Options

end EntitySql
