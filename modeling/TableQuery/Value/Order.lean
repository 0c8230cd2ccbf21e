import TableQuery.Value.Basic
import TableQuery.Number.Double

/- Comparison of values. Null compares to nothing, not even to itself; numbers compare as numbers
   whatever their kinds, and values of other different kinds do not compare. -/
namespace TableQuery.Value

def bytesOrder : List UInt8 → List UInt8 → Ordering
  | [], [] => .eq
  | [], _ :: _ => .lt
  | _ :: _, [] => .gt
  | a :: as, b :: bs => (compare a b).then (bytesOrder as bs)

def textOrder (a b : String) : Ordering :=
  if a < b then .lt else if a = b then .eq else .gt

/-- Integers compare exactly, and as doubles if only one of the two numbers is an integer. -/
def numberOrder? (a b : Value) : Option Ordering :=
  match a.toInt?, b.toInt? with
  | some x, some y => some (compare x y)
  | _, _ =>
    match a.toDouble?, b.toDouble? with
    | some x, some y => Double.order x y
    | _, _ => none

def order? : Value → Value → Option Ordering
  | null, _ => none
  | _, null => none
  | bool a, bool b => some (compare a b)
  | text a, text b => some (textOrder a b)
  | bytes a, bytes b => some (bytesOrder a b)
  | timestamp a, timestamp b => some (a.order b)
  | uuid a, uuid b => some (a.order b)
  | a, b => numberOrder? a b

end TableQuery.Value
