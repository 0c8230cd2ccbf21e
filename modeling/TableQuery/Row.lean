import TableQuery.Failure
import TableQuery.Json.Decode
import TableQuery.Query.Basic
import TableQuery.Value.Json

/- Result rows: values in order under the names of their columns. There may be fewer names than values,
   or more. -/
namespace TableQuery

structure Row where
  columns : List String
  values : List Value
  deriving DecidableEq

namespace Row

def empty : Row := ⟨[], []⟩

def push (r : Row) (column : String) (v : Value) : Row :=
  ⟨r.columns ++ [column], r.values ++ [v]⟩

/-- Equality of rows: the same names, and equal values in order. -/
def beq (a b : Row) : Bool :=
  a.columns == b.columns && a.values == b.values

instance : BEq Row := ⟨beq⟩

def get? (r : Row) (column : String) : Option Value :=
  (r.columns.findIdx? (· == column)).bind fun i => r.values[i]?

/-- The JSON of a row: an object for a record, a single value for a scalar and an array for a tuple. -/
def toJson (selection : Selection) (r : Row) : Except Failure Json :=
  match selection with
  | .entity => .ok (.object ((r.columns.zip r.values).map fun (name, v) => (name, v.toJson)))
  | .scalar _ =>
    match r.values with
    | [] => .error .scalarRowEmpty
    | v :: _ => .ok v.toJson
  | .tuple _ => .ok (.arr (r.values.map Value.toJson))

/-- What a decoder makes of JSON, or a failure. -/
def decodeJson {α : Type} (d : Json.Decoder α) (j : Json) : Except Failure α :=
  match d j with
  | some a => .ok a
  | none => .error (.decode "value does not fit its type")

/-- Reads the row as what the selection has returned. -/
def decode {α : Type} (d : Json.Decoder α) (selection : Selection) (r : Row) : Except Failure α :=
  (r.toJson selection).bind (decodeJson d)

end Row

def Value.decode {α : Type} (d : Json.Decoder α) (v : Value) : Except Failure α :=
  Row.decodeJson d v.toJson

end TableQuery
