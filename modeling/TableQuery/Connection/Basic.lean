import TableQuery.Executor
import TableQuery.Sql.Query

/- Database connections, as far as they are used: what they speak, whether a transaction is open, and the
   ways to run a statement. -/
namespace TableQuery

/-- A connection whose state is a `σ`. -/
structure Connection (σ : Type) where
  dialect : Dialect
  /-- Changes are not committed one by one. -/
  inTransaction : Bool
  /-- Runs a statement with its parameters. -/
  query : String → List Value → Run σ (List Row)
  /-- Runs a statement once for each set of parameters and gives the numbers of affected rows. They and their sums
  have no upper bound here. -/
  executeBatch : String → List (List Value) → Run σ (List Nat)
  /-- Runs a statement once for each set of parameters and gives the rows that come back. -/
  fetchBatch : String → List (List Value) → Run σ (List Row)

namespace Connection

variable {σ : Type}

/-- Runs queries, written for `d`, on a connection that is acquired for each of them. -/
def executorOver (acquire : Run σ (Connection σ)) (d : Dialect) : Executor σ where
  rows q := do
    let s ← Run.ofExcept (Sql.render d q)
    let c ← acquire
    if c.dialect = d then c.query s.sql s.params else throw (.queryDialect c.dialect d)

/-- Runs queries, written for `d`, on one connection. -/
def executor (c : Connection σ) (d : Dialect) : Executor σ :=
  executorOver (pure c) d

end Connection

end TableQuery
