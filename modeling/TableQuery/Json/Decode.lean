import TableQuery.Json.Basic

/- Reading typed values out of JSON. A decoder accepts the values of its type and nothing else: whole
   numbers within their range, doubles from any number, and so on. -/
namespace TableQuery.Json

/-- Reads a value of type `α`; nothing if the JSON does not fit. -/
abbrev Decoder (α : Type) := Json → Option α

namespace Decoder

def json : Decoder Json := some

/-- A whole number from `low` to `high`. -/
def intIn (low high : Int) : Decoder Int
  | .int n => if low ≤ n ∧ n ≤ high then some n else none
  | _ => none

def int32 : Decoder Int := intIn Int32.minValue.toInt Int32.maxValue.toInt

def int64 : Decoder Int := intIn Int64.minValue.toInt Int64.maxValue.toInt

def nat64 : Decoder Int := intIn 0 (UInt64.size - 1)

def byte : Decoder Int := intIn 0 255

/-- Any number; a whole one is rounded to the nearest double. -/
def double : Decoder Float
  | .int n => some (Float.ofInt n)
  | .real x => some x
  | _ => none

def bool : Decoder Bool
  | .bool b => some b
  | _ => none

def string : Decoder String
  | .str s => some s
  | _ => none

/-- Null or what `d` accepts. -/
def optional {α : Type} (d : Decoder α) : Decoder (Option α)
  | .null => some none
  | j => (d j).map some

def list {α : Type} (d : Decoder α) : Decoder (List α)
  | .arr items => items.mapM d
  | _ => none

/-- The items of an array of exactly `n`. -/
def items (n : Nat) : Decoder (List Json)
  | .arr items => if items.length = n then some items else none
  | _ => none

def field {α : Type} (key : String) (d : Decoder α) : Decoder α
  | .obj fields => (fields.lookup key).bind d
  | _ => none

/-- The field `key` of an object, where a missing field is as good as null. -/
def optionalField {α : Type} (key : String) (d : Decoder α) : Decoder (Option α)
  | .obj fields => optional d ((fields.lookup key).getD .null)
  | _ => none

end Decoder

end TableQuery.Json
