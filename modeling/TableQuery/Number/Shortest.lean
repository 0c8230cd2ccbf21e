import TableQuery.Number.Double

/- The fewest decimal digits that read back to a double. The reals that round to a double form an
   interval around it, ends included exactly when its significand is even. For one, two, … digits the
   two neighbours of the double on that decimal grid are tested against the interval in exact
   arithmetic; the first grid with a hit wins, and of two hits the nearer. -/
namespace TableQuery.Decimal

/-- Which of two equally near decimals is taken. -/
inductive Tie where
  | up
  | even
  deriving DecidableEq, Repr

/-- The number `digits * 10 ^ exponent`. -/
structure Scientific where
  digits : Nat
  exponent : Int
  deriving DecidableEq, Repr

/-- Compares `a * 10 ^ e` with `b * 2 ^ q`. -/
def compareScaled (a : Nat) (e : Int) (b : Nat) (q : Int) : Ordering :=
  compare (a * Nat.pow 10 e.toNat * Nat.pow 2 (-q).toNat) (b * Nat.pow 2 q.toNat * Nat.pow 10 (-e).toNat)

/-- `d * 10 ^ e` rounds to the double `m * 2 ^ q`. The gap below a power of two is half the gap above it. -/
def readsBack (m : Nat) (q : Int) (d : Nat) (e : Int) : Bool :=
  let low := if m = Double.leastNormal ∧ q ≠ -1074 then 4 * m - 1 else 4 * m - 2
  let below := compareScaled d e low (q - 2)
  let above := compareScaled d e (4 * m + 2) (q - 2)
  if m % 2 = 0 then below != .lt && above != .gt else below == .gt && above == .lt

/-- The number rounds to a finite double: it is less than the middle between the largest double and
`2 ^ 1024`. Where the number of digits decides this, no large power is computed. -/
def Scientific.roundsToFinite (s : Scientific) : Bool :=
  let point : Int := (toString s.digits).length + s.exponent
  s.digits = 0 || point < 309 ||
    (point = 309 && compareScaled s.digits s.exponent (Nat.pow 2 54 - 1) 970 == .lt)

/-- The whole part of `m * 2 ^ q / 10 ^ e`. -/
def floorAt (m : Nat) (q e : Int) : Nat :=
  (m * Nat.pow 2 q.toNat * Nat.pow 10 (-e).toNat) / (Nat.pow 2 (-q).toNat * Nat.pow 10 e.toNat)

/-- The better of the two neighbours of `m * 2 ^ q` on the grid `10 ^ e`, if one of them reads back. -/
def onGrid? (tie : Tie) (m : Nat) (q e : Int) : Option Scientific :=
  let d := floorAt m q e
  match readsBack m q d e, readsBack m q (d + 1) e with
  | false, false => none
  | true, false => some ⟨d, e⟩
  | false, true => some ⟨d + 1, e⟩
  | true, true =>
    match compareScaled (2 * d + 1) e (2 * m) q, tie with
    | .gt, _ => some ⟨d, e⟩
    | .lt, _ => some ⟨d + 1, e⟩
    | .eq, .up => some ⟨d + 1, e⟩
    | .eq, .even => some ⟨if d % 2 = 0 then d else d + 1, e⟩

/-- The least `k` from `start` on with `m * 2 ^ q < 10 ^ k`, looked for in `fuel` steps. -/
def scaleFrom (m : Nat) (q : Int) : Nat → Int → Int
  | 0, k => k
  | fuel + 1, k => if compareScaled 1 k m q == .gt then k else scaleFrom m q fuel (k + 1)

/-- The least `k` with `m * 2 ^ q < 10 ^ k`, for `m` not zero. -/
def scale (m : Nat) (q : Int) : Int :=
  let bits : Int := (Nat.log2 m : Int) + q
  scaleFrom m q 4 (bits * 30103 / 100000 - 1)

/-- The first of the grids with `n`, `n + 1`, … digits that has a number reading back. -/
def search (tie : Tie) (m : Nat) (q k : Int) : Nat → Nat → Scientific
  | 0, _ => ⟨floorAt m q (k - 800), k - 800⟩
  | fuel + 1, n => (onGrid? tie m q (k - n)).getD (search tie m q k fuel (n + 1))

/-- Moves trailing zeros of the digits into the exponent, at most `fuel` of them. -/
def stripZeros : Nat → Scientific → Scientific
  | 0, s => s
  | fuel + 1, s =>
    if s.digits ≠ 0 ∧ s.digits % 10 = 0 then stripZeros fuel ⟨s.digits / 10, s.exponent + 1⟩ else s

/-- The shortest decimal that reads back to the magnitude of a finite `x`; zero has the digit 0. -/
def shortest (tie : Tie) (x : Float) : Scientific :=
  let (m, q) := Double.magnitude x
  if m = 0 then ⟨0, 0⟩ else stripZeros 20 (search tie m q (scale m q) 17 1)

end TableQuery.Decimal
