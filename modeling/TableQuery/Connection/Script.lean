import TableQuery.Connection.Basic

/- Connections that play a script: they reply from prepared lists and keep a log of what they were asked.
   They serve for dry runs. -/
namespace TableQuery

inductive Reply (α : Type) where
  | answer (a : α)
  | failure (message : String)
  /-- What a database would reply in the usual case. -/
  | usual

/-- A statement as it was asked, for a query or for sets of parameters. -/
inductive Call where
  | query (sql : String) (params : List Value)
  | batch (sql : String) (batch : List (List Value))

structure Script where
  queries : List (Reply (List Row))
  executions : List (Reply (List Nat))
  fetches : List (Reply (List Row))
  /-- The key that is generated next. -/
  nextKey : Nat
  log : List Call

namespace Script

/-- The next reply from a list, or the usual one where the list has ended. -/
def next {α : Type} : List (Reply α) → Reply α
  | [] => .usual
  | r :: _ => r

/-- One-column rows of the `n` keys from `key` on. -/
def keyRows (key : Nat) : Nat → List Row
  | 0 => []
  | n + 1 => ⟨["id"], [.long (Int64.ofNat key)]⟩ :: keyRows (key + 1) n

def query (sql : String) (params : List Value) : Run Script (List Row) := do
  let s ← get
  set { s with log := s.log ++ [Call.query sql params], queries := s.queries.tail }
  match next s.queries with
  | .answer rows => pure rows
  | .failure message => throw (.execution message)
  | .usual => pure []

def executeBatch (sql : String) (batch : List (List Value)) : Run Script (List Nat) := do
  let s ← get
  set { s with log := s.log ++ [Call.batch sql batch], executions := s.executions.tail }
  match next s.executions with
  | .answer counts => pure counts
  | .failure message => throw (.execution message)
  | .usual => pure (batch.map fun _ => 1)

def fetchBatch (sql : String) (batch : List (List Value)) : Run Script (List Row) := do
  let s ← get
  let called := { s with log := s.log ++ [Call.batch sql batch], fetches := s.fetches.tail }
  match next s.fetches with
  | .answer rows => do
    set called
    pure rows
  | .failure message => do
    set called
    throw (.execution message)
  | .usual => do
    set { called with nextKey := s.nextKey + batch.length }
    pure (keyRows s.nextKey batch.length)

def connection (dialect : Dialect) (inTransaction : Bool) : Connection Script :=
  ⟨dialect, inTransaction, query, executeBatch, fetchBatch⟩

end Script

end TableQuery
