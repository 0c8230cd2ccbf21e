import TableQuery.Dialect
import TableQuery.Expr.Text

/- Failures, by cause. Each belongs to a kind, by which callers tell them apart, and has a message. -/
namespace TableQuery

inductive Failure where
  /-- A field path without a name. -/
  | emptyPath
  /-- Navigation from something that is no path. -/
  | notNavigable (name : String) (origin : Expr)
  | notBoolean (e : Expr)
  | entityOfAggregate
  | unknownColumn (p : FieldPath)
  | aggregateOverRow (op : Operator)
  | versionNull
  /-- The version of the row of `table` with that identity. -/
  | rowVersionNull (table : String) (id : Value)
  | staleVersion (table : String) (id : Value)
  | rowMissing (table : String) (id : Value)
  | transactionRequired
  | queryDialect (connection expected : Dialect)
  | writeDialect (connection expected : Dialect)
  | settingsInvalid
  | settingsUnreadable
  | batchSizeZero
  | databaseUrlBlank
  | identityUnmapped (table : String)
  | versionType (column typeName : String)
  | scalarRowEmpty
  | countMissing
  | countInvalid (v : Value)
  | keyCount (inserted : Nat) (table : String) (keys : Nat)
  | keyEmpty
  | insertCounts (table : String) (counts : List Nat)
  | statementCounts (sent : Nat) (table : String) (counts : Nat)
  | rowsMatched (table : String) (id : Value) (count : Nat)
  | versionNotInteger (v : Value)
  | versionOverflow (n : Int)
  | multipleRows (count : Nat)
  | eagerFetch (paths : Nat)
  | pathNeedsJoin (p : FieldPath)
  | pathInMemory (p : FieldPath)
  | groupingInMemory
  | havingWithoutAggregate
  | keysUnsupported (table : String) (dialect : Dialect)
  /-- The database failed to run a statement. -/
  | execution (message : String)
  | decode (message : String)

inductive FailureKind where
  | emptyPath
  | illegalState
  | optimisticLock
  | notFound
  | transactionRequired
  | configuration
  | invariantViolation
  | multipleResults
  | unsupported
  | execution
  | decode
  deriving DecidableEq, Repr

namespace Failure

def kind : Failure → FailureKind
  | emptyPath => .emptyPath
  | notNavigable .. | notBoolean .. | entityOfAggregate | unknownColumn .. | aggregateOverRow .. | versionNull
  | rowVersionNull .. => .illegalState
  | staleVersion .. => .optimisticLock
  | rowMissing .. => .notFound
  | transactionRequired => .transactionRequired
  | queryDialect .. | writeDialect .. | settingsInvalid | settingsUnreadable | batchSizeZero | databaseUrlBlank
  | identityUnmapped .. | versionType .. => .configuration
  | scalarRowEmpty | countMissing | countInvalid .. | keyCount .. | keyEmpty | insertCounts .. | statementCounts ..
  | rowsMatched .. | versionNotInteger .. | versionOverflow .. => .invariantViolation
  | multipleRows .. => .multipleResults
  | eagerFetch .. | pathNeedsJoin .. | pathInMemory .. | groupingInMemory | havingWithoutAggregate
  | keysUnsupported .. => .unsupported
  | execution .. => .execution
  | decode .. => .decode

/-- What went wrong, without the kind. -/
def detail : Failure → String
  | emptyPath => "Field path must contain at least one field name"
  | notNavigable name origin =>
    "cannot navigate to `" ++ name ++ "` from non-path expression `" ++ origin.text ++ "`"
  | notBoolean e => "`" ++ e.text ++ "` is not a boolean expression"
  | entityOfAggregate => "cannot select entities from an aggregate query"
  | unknownColumn p => "unknown column `" ++ p.identity ++ "`"
  | aggregateOverRow op => "aggregate " ++ op.sign ++ " outside an aggregate query"
  | versionNull => "version is null"
  | rowVersionNull table id => "version of " ++ table ++ " row " ++ id.literal ++ " is null"
  | staleVersion table id => "Optimistic lock conflict on " ++ table ++ " (id = " ++ id.literal ++ ")"
  | rowMissing table id => "Row not found in " ++ table ++ " (id = " ++ id.literal ++ ")"
  | transactionRequired => "Mutations require an active transaction with auto-commit disabled"
  | queryDialect connection expected =>
    "connection speaks " ++ connection.label ++ " but queries are rendered for " ++ expected.label
  | writeDialect connection expected =>
    "connection speaks " ++ connection.label ++ " but settings expect " ++ expected.label
  | settingsInvalid => "invalid settings"
  | settingsUnreadable => "cannot read"
  | batchSizeZero => "batch_size must be greater than zero"
  | databaseUrlBlank => "database_url must not be blank"
  | identityUnmapped table => "no identity column mapped for " ++ table
  | versionType column typeName => "version column `" ++ column ++ "` has unsupported type " ++ typeName
  | scalarRowEmpty => "scalar row has no column"
  | countMissing => "count query returned no row"
  | countInvalid v => "count query returned " ++ v.literal
  | keyCount inserted table keys =>
    "inserted " ++ toString inserted ++ " rows into " ++ table ++ " but read back " ++ toString keys ++ " keys"
  | keyEmpty => "generated key row is empty"
  | insertCounts table counts =>
    "insert into " ++ table ++ " reported counts [" ++ ", ".intercalate (counts.map toString) ++ "]"
  | statementCounts sent table counts =>
    "sent " ++ toString sent ++ " statements to " ++ table ++ " but got " ++ toString counts ++ " counts"
  | rowsMatched table id count =>
    "update of " ++ table ++ " row " ++ id.literal ++ " matched " ++ toString count ++ " rows"
  | versionNotInteger v => "version " ++ v.literal ++ " is not an integer"
  | versionOverflow n => "version " ++ toString n ++ " overflows"
  | multipleRows count => "Expected at most one row, got " ++ toString count
  | eagerFetch paths => "eager fetch of " ++ toString paths ++ " paths"
  | pathNeedsJoin p => "nested path `" ++ p.identity ++ "` needs a join"
  | pathInMemory p => "nested path `" ++ p.identity ++ "` in memory"
  | groupingInMemory => "grouping in memory"
  | havingWithoutAggregate => "HAVING without aggregates"
  | keysUnsupported table dialect =>
    "generated keys for " ++ table ++ " need RETURNING, which " ++ dialect.label ++ " lacks"
  | execution message => message
  | decode message => message

end Failure

/-- What comes before the detail in the messages of a kind. -/
def FailureKind.heading : FailureKind → String
  | illegalState => "Illegal state: "
  | configuration => "Configuration error: "
  | invariantViolation => "Invariant violation: "
  | unsupported => "Unsupported: "
  | execution => "Execution failed: "
  | decode => "Failed to decode row: "
  | emptyPath | optimisticLock | notFound | transactionRequired | multipleResults => ""

def Failure.message (f : Failure) : String :=
  f.kind.heading ++ f.detail

end TableQuery
