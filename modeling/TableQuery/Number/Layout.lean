import TableQuery.Number.Shortest

/- How doubles are written. Literals are positional, whatever their size, and have no point when they
   are whole. JSON numbers keep at least one decimal, and very large or small ones have an exponent. -/
namespace TableQuery.Decimal

def zeros (n : Nat) : String :=
  String.ofList (List.replicate n '0')

/-- The digits with a point after the first `n` of them, which are some but not all. -/
def pointAfter (digits : String) (n : Nat) : String :=
  String.ofList (digits.toList.take n) ++ "." ++ String.ofList (digits.toList.drop n)

/-- Positional text of `s`; `whole` is appended where there is no fraction. -/
def positional (whole : String) (s : Scientific) : String :=
  let digits := toString s.digits
  let point : Int := digits.length + s.exponent
  if 0 ≤ s.exponent then digits ++ zeros s.exponent.toNat ++ whole
  else if 0 < point then pointAfter digits point.toNat
  else "0." ++ zeros (-point).toNat ++ digits

def signed (x : Float) (magnitude : String) : String :=
  if Double.isNegative x then "-" ++ magnitude else magnitude

/-- A double as a literal: the shortest digits that read back, written positionally. -/
def literal (x : Float) : String :=
  if x.isNaN then "NaN"
  else if x.isInf then signed x "inf"
  else signed x (positional "" (shortest .up x))

/-- The digits with a point after the first, unless there is only one, and a power of ten with its sign. -/
def withExponent (s : Scientific) : String :=
  let digits := toString s.digits
  let power := s.exponent + digits.length - 1
  let mantissa := if digits.length = 1 then digits else pointAfter digits 1
  mantissa ++ (if 0 ≤ power then "e+" else "e") ++ toString power

/-- A finite double as a JSON number. It is positional with at least one decimal when the point falls
within sixteen digits or at most five places before them, and has an exponent otherwise. -/
def jsonNumber (x : Float) : String :=
  let s := shortest .even x
  let point : Int := (toString s.digits).length + s.exponent
  signed x <|
    if s.digits = 0 then "0.0"
    else if -5 < point ∧ point ≤ 16 then positional ".0" s
    else withExponent s

end TableQuery.Decimal
