import TableQuery.Row

/- What runs queries. A run may change a state, such as a connection, and the changes that it made before
   a failure stay. -/
namespace TableQuery

/-- A computation on a state `σ` that may fail. -/
abbrev Run (σ : Type) (α : Type) := ExceptT Failure (StateM σ) α

namespace Run

variable {σ α : Type}

def ofExcept : Except Failure α → Run σ α
  | .ok a => pure a
  | .error f => throw f

def start (x : Run σ α) (s : σ) : Except Failure α × σ :=
  StateT.run (ExceptT.run x) s

end Run

/-- Gives the rows of queries. -/
structure Executor (σ : Type) where
  rows : Query → Run σ (List Row)

end TableQuery
