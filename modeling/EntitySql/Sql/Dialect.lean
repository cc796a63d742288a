/-!
# Dialects

What the four databases do differently is said here once: how names are quoted, whether a table may
carry hints, and how many parameters a command may have.
-/

namespace EntitySql

/-- A dialect of the statements. -/
inductive Dialect where
  | sqlServer
  | postgres
  | mySql
  | sqlite
deriving DecidableEq, Repr

namespace Dialect

/-- The name of the database. -/
def name : Dialect → String
  | sqlServer => "SQL Server"
  | postgres => "PostgreSQL"
  | mySql => "MySQL"
  | sqlite => "SQLite"

/-- The character that opens a quoted name. -/
def openQuote : Dialect → Char
  | sqlServer => '['
  | postgres => '"'
  | mySql => '\x60'
  | sqlite => '"'

/-- The character that closes a quoted name. -/
def closeQuote : Dialect → Char
  | sqlServer => ']'
  | postgres => '"'
  | mySql => '\x60'
  | sqlite => '"'

/-- Whether a table may carry hints. -/
def supportsHints : Dialect → Bool
  | sqlServer => true
  | _ => false

/-- The greatest number of parameters that a command may carry. -/
def maxParameters : Dialect → Nat
  | sqlServer => 2100
  | postgres => 32767
  | mySql => 65535
  | sqlite => 999

end Dialect

end EntitySql
