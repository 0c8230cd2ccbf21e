import TableQuery.Builder.Retrieval
import TableQuery.Connection.Script
import TableQuery.Json.Reader
import TableQuery.Memory.Store
import TableQuery.Mutation.Write
import TableQuery.Query.Equality
import TableQuery.Query.Text
import TableQuery.Proofs.Expr.Connectives
import TableQuery.Proofs.Filter.Reading
import TableQuery.Proofs.Filter.Meaning
import TableQuery.Proofs.Memory.Rearrange
import TableQuery.Proofs.Memory.Counting
import TableQuery.Proofs.Sql.Pieces
import TableQuery.Proofs.Mutation.Database
import TableQuery.Proofs.Mutation.Batches
import TableQuery.Proofs.Mutation.Versions
import TableQuery.Proofs.Mutation.Concurrent
import TableQuery.Proofs.Sql.Places
import TableQuery.Proofs.Sql.Skeleton
import TableQuery.Proofs.Sql.Binding
import TableQuery.Proofs.Mutation.Replies
import TableQuery.Proofs.Mutation.Inserting
import TableQuery.Proofs.Grammar.Lexer
import TableQuery.Proofs.Grammar.Phrase
import TableQuery.Proofs.Grammar.Spelling
import TableQuery.Proofs.Grammar.Expression
import TableQuery.Proofs.Grammar.Parentheses
import TableQuery.Proofs.Expr.Unambiguous
import TableQuery.Proofs.Sql.Grouping
import TableQuery.Proofs.Expr.NormalForm
import TableQuery.Proofs.Filter.DoubleNegation
import TableQuery.Proofs.Memory.Counted
import TableQuery.Proofs.Memory.Paging
import TableQuery.Proofs.Number.Finite
import TableQuery.Proofs.Memory.Records
import TableQuery.Proofs.Expr.Membership
import TableQuery.Proofs.Builder.Calls
import TableQuery.Proofs.Builder.Interleaving
import TableQuery.Proofs.Number.Order
import TableQuery.Proofs.Number.Rounding
import TableQuery.Proofs.Value.Order
import TableQuery.Proofs.Value.Column
import TableQuery.Proofs.Memory.Distinct
import TableQuery.Proofs.Memory.Sorting
import TableQuery.Proofs.Text.Like
import TableQuery.Proofs.Value.Membership
import TableQuery.Proofs.Mutation.BatchSize
import TableQuery.Proofs.Sql.Reading
import TableQuery.Proofs.Mutation.Parameters
import TableQuery.Proofs.Mutation.Partial
import TableQuery.Proofs.Mutation.ReadBack
import TableQuery.Proofs.Mutation.Refusals
import TableQuery.Proofs.Sql.Safety
import TableQuery.Proofs.Value.Arithmetic
import TableQuery.Proofs.Sql.Layout
import TableQuery.Proofs.Memory.Stability
import TableQuery.Proofs.Memory.Filtering
import TableQuery.Proofs.Memory.Extremes
import TableQuery.Proofs.Memory.Sums
import TableQuery.Proofs.Value.Strict
import TableQuery.Proofs.Mutation.Registry
import TableQuery.Proofs.Query.Twins
import TableQuery.Proofs.Mutation.Columns
