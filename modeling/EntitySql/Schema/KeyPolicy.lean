import EntitySql.Schema.Column

/-!
# Key policies

Which column of a table is read back as the key of a row that was written.
-/

namespace EntitySql

/-- How the key of a table is chosen. -/
inductive KeyPolicy where
  | primary
  | identity
  | primaryOrElseIdentity
  | identityOrElsePrimary
deriving DecidableEq, Repr

/-- The key among the columns of a table. -/
def KeyPolicy.resolve (policy : KeyPolicy) (columns : List Column) : Option Column :=
  let primary := columns.find? fun c => c.primary
  let identity := columns.find? fun c => c.identity
  match policy with
  | .primary => primary
  | .identity => identity
  | .primaryOrElseIdentity => primary.orElse fun _ => identity
  | .identityOrElsePrimary => identity.orElse fun _ => primary

end EntitySql
