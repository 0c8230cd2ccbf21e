import TableQuery.Json.Basic

/- Reading JSON numbers. A number is whole if it is written without fraction and exponent, is no
   negative zero and fits 64 bits, signed or unsigned. Otherwise it is a double: as many digits as fit
   64 bits form a whole number, which is scaled by a power of ten in one operation on doubles. -/
namespace TableQuery.Json

/-- Appends digits to `n` as long as the number fits 64 bits, and counts those appended. -/
def absorb (n : Nat) : List Nat → Nat × Nat
  | [] => (n, 0)
  | d :: ds =>
    if n * 10 + d < UInt64.size then
      let (m, count) := absorb (n * 10 + d) ds
      (m, count + 1)
    else (n, 0)

/-- The power of ten nearest to `10 ^ k`. -/
def powerOfTen (k : Nat) : Float :=
  Float.ofScientific 1 false k

/-- `x * 10 ^ e`, or nothing where that is too large for a double. Powers beyond `10 ^ 308` are divided
out in steps, of which a double that is not zero stands at most `fuel`. -/
def scaleByTen : Nat → Float → Int → Option Float
  | 0, _, _ => some 0
  | fuel + 1, x, e =>
    if e.natAbs ≤ 308 then
      if 0 ≤ e then
        let y := x * powerOfTen e.toNat
        if y.isInf then none else some y
      else some (x / powerOfTen e.natAbs)
    else if x == 0 then some x
    else if 0 ≤ e then none
    else scaleByTen fuel (x / powerOfTen 308) (e + 308)

/-- The number with the given sign, whole digits, digits after the point and power of ten, the last two
only if they are written. -/
def ofParts (negative : Bool) (whole : List Nat) (fraction : Option (List Nat)) (power : Option Int) :
    Option Json :=
  let (n, used) := absorb 0 whole
  let double (m : Nat) (e : Int) :=
    (scaleByTen 4 (Float.ofNat m) e).map fun x => Json.real (if negative then -x else x)
  let dropped : Int := ↑(whole.length - used)
  match fraction, power with
  | none, none =>
    if used = whole.length ∧ !negative then some (.int n)
    else if used = whole.length ∧ 0 < n ∧ Int64.minValue.toInt ≤ -n then some (.int (-n))
    else double n dropped
  | none, some e => double n (dropped + e)
  | some ds, e =>
    let (m, after) := absorb n ds
    double m (dropped - after + e.getD 0)

end TableQuery.Json
