/- Exact views of a double. A finite double is `m * 2 ^ q` up to its sign; `magnitude` reads the two
   numbers off the bits and `ofDyadic` goes back. Comparison leaves a NaN unordered, and `remainder`
   is the exact remainder of the division truncated toward zero. -/
namespace TableQuery.Double

/-- The least significand of a normal double, that of the powers of two. -/
def leastNormal : Nat := 0x10000000000000

/-- The sign bit of `x` is set, so a negative zero counts. -/
def isNegative (x : Float) : Bool :=
  0x8000000000000000 ≤ x.toBits.toNat

/-- Significand and binary exponent of a finite `x`: its magnitude is `m * 2 ^ q`. -/
def magnitude (x : Float) : Nat × Int :=
  let bits : Nat := x.toBits.toNat
  let exponent : Nat := bits / leastNormal % 2048
  let fraction : Nat := bits % leastNormal
  if exponent = 0 then (fraction, -1074) else (fraction + leastNormal, (exponent : Int) - 1075)

/-- The double nearest to `m * 2 ^ q`. -/
def ofDyadic (m : Nat) : Int → Float
  | .ofNat k => Float.ofNat (m * Nat.pow 2 k)
  | .negSucc k => Float.ofScientific (m * Nat.pow 5 (k + 1)) true (k + 1)

/-- Numeric order. A NaN stands in no order to anything, and the two zeros are equal. -/
def order (x y : Float) : Option Ordering :=
  if x < y then some .lt
  else if y < x then some .gt
  else if x == y then some .eq
  else none

/-- The exact remainder of `x / y` truncated toward zero, with the sign of `x`. -/
def remainder (x y : Float) : Float :=
  if x.isNaN || y.isNaN || x.isInf || y == 0 then 0 / 0
  else if y.isInf then x
  else
    let (mx, qx) := magnitude x
    let (my, qy) := magnitude y
    let q := min qx qy
    let r := ofDyadic ((mx * Nat.pow 2 (qx - q).toNat) % (my * Nat.pow 2 (qy - q).toNat)) q
    if isNegative x then -r else r

end TableQuery.Double
