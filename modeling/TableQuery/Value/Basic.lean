import TableQuery.Timestamp
import TableQuery.Uuid

/- Scalar values: what constants hold, what columns hold and what is bound to a statement. -/
namespace TableQuery

inductive Value where
  | null
  | bool (b : Bool)
  | int (n : Int32)
  | long (n : Int64)
  | double (x : Float)
  | text (s : String)
  | bytes (bs : List UInt8)
  | timestamp (t : Timestamp)
  | uuid (u : Uuid)
  deriving DecidableEq

instance : Inhabited Value := ⟨.null⟩

namespace Value

/-- Equality of constants: the kinds must be the same, and doubles are equal as numbers are, so that no
NaN equals itself and the zeros are equal. -/
def beq : Value → Value → Bool
  | null, null => true
  | bool a, bool b => a == b
  | int a, int b => a == b
  | long a, long b => a == b
  | double a, double b => a == b
  | text a, text b => a == b
  | bytes a, bytes b => a == b
  | timestamp a, timestamp b => decide (a = b)
  | uuid a, uuid b => decide (a = b)
  | _, _ => false

instance : BEq Value := ⟨beq⟩

def isNull : Value → Bool
  | null => true
  | _ => false

def toInt? : Value → Option Int
  | int n => some n.toInt
  | long n => some n.toInt
  | _ => none

/-- Numbers of any kind; an integer becomes the nearest double. -/
def toDouble? : Value → Option Float
  | int n => some (Float.ofInt n.toInt)
  | long n => some (Float.ofInt n.toInt)
  | double x => some x
  | _ => none

def toBool? : Value → Option Bool
  | bool b => some b
  | _ => none

def toText? : Value → Option String
  | text s => some s
  | _ => none

/-- The 32-bit integer `n`, if it is one. -/
def ofInt32? (n : Int) : Option Value :=
  if Int32.minValue.toInt ≤ n ∧ n ≤ Int32.maxValue.toInt then some (int (Int32.ofInt n)) else none

/-- The 64-bit integer `n`, if it is one. -/
def ofInt64? (n : Int) : Option Value :=
  if Int64.minValue.toInt ≤ n ∧ n ≤ Int64.maxValue.toInt then some (long (Int64.ofInt n)) else none

end Value

end TableQuery
