import TableQuery.Builder.Basic
import TableQuery.Executor

/- Running what a builder has built and reading the rows. -/
namespace TableQuery

/-- A page of rows, with the number of all rows. -/
structure Slice (α : Type) where
  total : Nat
  offset : Nat
  limit : Nat
  data : List α

namespace Slice

variable {α : Type}

def isEmpty (s : Slice α) : Bool :=
  s.data.isEmpty

def hasNext (s : Slice α) : Bool :=
  decide (s.offset + s.data.length < s.total)

end Slice

namespace Builder

variable {σ α : Type}

/-- The rows of a query, read one by one. -/
def collect (x : Executor σ) (d : Json.Decoder α) (q : Query) : Run σ (List α) := do
  let rows ← x.rows q
  Run.ofExcept (rows.mapM (Row.decode d q.clauses.select.selection))

def list (b : Builder) (x : Executor σ) (d : Json.Decoder α) : Run σ (List α) :=
  collect x d b.query

/-- All rows, with paging and lock replaced. -/
def listPage (b : Builder) (x : Executor σ) (d : Json.Decoder α) (offset limit : Option Nat) (mode : LockMode) :
    Run σ (List α) :=
  collect x d (b.query.listQuery offset limit mode)

def first (b : Builder) (x : Executor σ) (d : Json.Decoder α) : Run σ (Option α) := do
  let rows ← collect x d (b.query.withLimit (some 1))
  pure rows.head?

/-- The only row, if there is one; several rows are refused. -/
def single (b : Builder) (x : Executor σ) (d : Json.Decoder α) : Run σ (Option α) := do
  let rows ← collect x d (b.query.withLimit (some 2))
  if 1 < rows.length then throw (.multipleRows rows.length) else pure rows.head?

/-- The query has a row past the first `offset`. -/
def exist (b : Builder) (x : Executor σ) (offset : Nat) : Run σ Bool := do
  let rows ← x.rows (b.query.existQuery offset)
  pure !rows.isEmpty

/-- The count in the rows of a count query. -/
def readCount (rows : List Row) : Except Failure Nat :=
  match rows.head?.bind fun r => r.values.head? with
  | none => .error .countMissing
  | some v =>
    match v.toInt? with
    | some n => if 0 ≤ n then .ok n.toNat else .error (.countInvalid v)
    | none => .error (.countInvalid v)

def count (b : Builder) (x : Executor σ) : Run σ Nat := do
  let rows ← x.rows b.query.countQuery
  Run.ofExcept (readCount rows)

/-- The rows from `offset` on, up to `limit` of them, and the number of all rows. The rows are not asked
for when the count shows that there are none. -/
def slice (b : Builder) (x : Executor σ) (d : Json.Decoder α) (offset limit : Nat) : Run σ (Slice α) := do
  let total ← b.count x
  if total ≤ offset then pure ⟨total, offset, limit, []⟩
  else
    let data ← b.listPage x d (some offset) (some limit) b.query.clauses.lock
    pure ⟨total, offset, limit, data⟩

end Builder

end TableQuery
