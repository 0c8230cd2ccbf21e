import TableQuery.Executor
import TableQuery.Json.Printer
import TableQuery.Memory.Query

/- Tables in memory together with the queries they have served. -/
namespace TableQuery.Memory

structure Store where
  tables : Tables
  /-- The queries that have been run, oldest first. -/
  served : List Query

namespace Store

def empty : Store := ⟨[], []⟩

def insertRows (s : Store) (table : String) (rows : List Row) : Store :=
  { s with tables := addRows table rows s.tables }

/-- The row of a record, with a column for each of its fields. -/
def rowOfRecord : Json → Except Failure Row
  | .obj fields => .ok ⟨fields.map Prod.fst, fields.map fun (_, j) => .ofJson j⟩
  | j => .error (.decode ("expected an object, got " ++ j.text))

/-- Adds records to a table, all of them or none. -/
def insertRecords (s : Store) (table : String) (records : List Json) : Except Failure Store :=
  (records.mapM rowOfRecord).map (s.insertRows table)

def clearServed (s : Store) : Store :=
  { s with served := [] }

end Store

/-- Runs queries on the tables and records them, also those that fail. -/
def executor : Executor Store where
  rows q := do
    let s ← get
    set { s with served := s.served ++ [q] }
    Run.ofExcept (evaluate s.tables q)

end TableQuery.Memory
