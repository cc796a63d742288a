import EntitySql.Calendar
import EntitySql.Command
import EntitySql.Entity.Basic
import EntitySql.Entity.Handler
import EntitySql.Error
import EntitySql.Expr.Basic
import EntitySql.Expr.TypedProperty
import EntitySql.Filter.Nesting
import EntitySql.Filter.Reading
import EntitySql.Filter.Term
import EntitySql.Filter.Token
import EntitySql.Json.Basic
import EntitySql.Json.Document
import EntitySql.Number.Binary64
import EntitySql.Number.Decimal
import EntitySql.Number.Power
import EntitySql.Number.Shortest
import EntitySql.Options.Basic
import EntitySql.Options.Document
import EntitySql.Plan.Basic
import EntitySql.Plan.Cache
import EntitySql.Plan.Engine
import EntitySql.Plan.Key
import EntitySql.Plan.NamePool
import EntitySql.Predicate.Basic
import EntitySql.Predicate.OfExpr
import EntitySql.Predicate.Operator
import EntitySql.Predicate.Parameter
import EntitySql.Proofs.Command
import EntitySql.Proofs.CommandHistory
import EntitySql.Proofs.Entity.ColumnForm
import EntitySql.Proofs.Filter.DeepestNegation
import EntitySql.Proofs.Filter.FreeParameters
import EntitySql.Proofs.Filter.Meaning
import EntitySql.Proofs.Filter.NullEquality
import EntitySql.Proofs.Filter.Printing
import EntitySql.Proofs.Filter.Reading
import EntitySql.Proofs.Filter.Scope
import EntitySql.Proofs.Filter.Substitution
import EntitySql.Proofs.Filter.WellFormed
import EntitySql.Proofs.Plan.Binding
import EntitySql.Proofs.Plan.Command
import EntitySql.Proofs.Plan.Engine
import EntitySql.Proofs.Plan.Making
import EntitySql.Proofs.Plan.PropertyNames
import EntitySql.Proofs.Plan.Recency
import EntitySql.Proofs.Plan.ReturnedKeys
import EntitySql.Proofs.Plan.StoredForm
import EntitySql.Proofs.Predicate.Comparison
import EntitySql.Proofs.Predicate.LeastNames
import EntitySql.Proofs.Predicate.Meaning
import EntitySql.Proofs.Predicate.ParameterNames
import EntitySql.Proofs.Predicate.Parameters
import EntitySql.Proofs.Predicate.Shape
import EntitySql.Proofs.Result
import EntitySql.Proofs.Schema.ColumnNames
import EntitySql.Proofs.Schema.KeptColumns
import EntitySql.Proofs.Schema.SyncedNames
import EntitySql.Proofs.Sql.Acceptance
import EntitySql.Proofs.Sql.AggregateField
import EntitySql.Proofs.Sql.Batch
import EntitySql.Proofs.Sql.BatchLimit
import EntitySql.Proofs.Sql.Building
import EntitySql.Proofs.Sql.ColumnMentions
import EntitySql.Proofs.Sql.FilterAgreement
import EntitySql.Proofs.Sql.Gaps
import EntitySql.Proofs.Sql.NamePaths
import EntitySql.Proofs.Sql.Operation
import EntitySql.Proofs.Sql.Pages
import EntitySql.Proofs.Sql.Placeholders
import EntitySql.Proofs.Sql.Quoting
import EntitySql.Proofs.Sql.ReadOnlyColumns
import EntitySql.Proofs.Sql.Reading
import EntitySql.Proofs.Sql.Rendering
import EntitySql.Proofs.Sql.ReplacementKey
import EntitySql.Proofs.Sql.Request
import EntitySql.Proofs.Sql.RequestPaths
import EntitySql.Proofs.Sql.Restriction
import EntitySql.Proofs.Sql.RowKeys
import EntitySql.Proofs.Sql.SearchCondition
import EntitySql.Proofs.Sql.Spacing
import EntitySql.Proofs.Sql.Statement
import EntitySql.Proofs.Sql.StatementGaps
import EntitySql.Proofs.Sql.StatementPaths
import EntitySql.Proofs.Sql.StatementText
import EntitySql.Proofs.Sql.Tidy
import EntitySql.Proofs.Sql.Token
import EntitySql.Proofs.Sql.WhereClause
import EntitySql.Proofs.Sql.WritePaths
import EntitySql.Proofs.Sql.Writing
import EntitySql.Proofs.Text.LowerCase
import EntitySql.Proofs.Truth
import EntitySql.Proofs.Value.Integer
import EntitySql.Proofs.Wire.RoundTrip
import EntitySql.Schema.Cache
import EntitySql.Schema.Catalog
import EntitySql.Schema.Column
import EntitySql.Schema.KeyPolicy
import EntitySql.Sql.Build
import EntitySql.Sql.Dialect
import EntitySql.Sql.Fragment
import EntitySql.Sql.Guard
import EntitySql.Sql.Operation
import EntitySql.Sql.Request
import EntitySql.Sql.SearchCondition
import EntitySql.Sql.Statement
import EntitySql.Sql.Tidy
import EntitySql.Text.Blank
import EntitySql.Text.Hex
import EntitySql.Text.Letter
import EntitySql.Text.LowerCase
import EntitySql.Text.Names
import EntitySql.Text.Nearest
import EntitySql.Text.Numeral
import EntitySql.Text.Ranges
import EntitySql.Toml.Basic
import EntitySql.Toml.Document
import EntitySql.Toml.Scalar
import EntitySql.Trace
import EntitySql.Uuid
import EntitySql.Value.Basic
import EntitySql.Value.Conversion
import EntitySql.Wire.Expr
import EntitySql.Wire.Names
import EntitySql.Wire.Predicate
import EntitySql.Wire.Reading
import EntitySql.Wire.Schema
import EntitySql.Wire.Value
