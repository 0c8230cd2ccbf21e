import TableQuery.Number.Shortest
import TableQuery.Text.Hex
import TableQuery.Toml.Table

/- Numbers, booleans and dates of TOML, which are written as words. Underscores may stand between two
   digits, and there are no leading zeros. Whole numbers fit 128 bits, signed or unsigned, and floats are
   in the range of doubles. -/
namespace TableQuery.Toml

/-- The digits of a group in which single underscores may stand between digits. -/
def digits? (isDigit : Char → Bool) : List Char → Option (List Char)
  | [] => none
  | [c] => if isDigit c then some [c] else none
  | c :: '_' :: d :: rest =>
    if isDigit c && isDigit d then (digits? isDigit (d :: rest)).map (c :: ·) else none
  | c :: rest => if isDigit c then (digits? isDigit rest).map (c :: ·) else none

/-- The number that the digits stand for in a base. -/
def valueIn (base : Nat) (cs : List Char) : Nat :=
  cs.foldl (fun n c => n * base + (Text.hexValue? c).getD 0) 0

/-- Decimal digits without a leading zero. -/
def decimal? (cs : List Char) : Option Nat :=
  match digits? Char.isDigit cs with
  | some ('0' :: _ :: _) => none
  | some ds => some (valueIn 10 ds)
  | none => none

def splitSign : List Char → Option Bool × List Char
  | '+' :: cs => (some false, cs)
  | '-' :: cs => (some true, cs)
  | cs => (none, cs)

/-- A whole number that fits 128 bits, signed or unsigned. -/
def int? (cs : List Char) : Option Int :=
  let inBase (base : Nat) (isDigit : Char → Bool) (ds : List Char) : Option Int :=
    (digits? isDigit ds).map fun ds => (valueIn base ds : Int)
  let n : Option Int :=
    match cs with
    | '0' :: 'x' :: ds => inBase 16 (fun c => (Text.hexValue? c).isSome) ds
    | '0' :: 'o' :: ds => inBase 8 (fun c => '0' ≤ c && c ≤ '7') ds
    | '0' :: 'b' :: ds => inBase 2 (fun c => c = '0' || c = '1') ds
    | cs =>
      let (sign, ds) := splitSign cs
      (decimal? ds).map fun n => if sign = some true then -(n : Int) else n
  n.filter fun n => -(Nat.pow 2 127 : Int) ≤ n && n < (Nat.pow 2 128 : Int)

/-- An exponent: digits, before which a sign may stand. -/
def exponent? (cs : List Char) : Option Int :=
  let (sign, ds) := splitSign cs
  (digits? Char.isDigit ds).map fun ds =>
    if sign = some true then -(valueIn 10 ds : Int) else (valueIn 10 ds : Int)

/-- The number that a fraction, an exponent or both are written for. -/
def scientific? (cs : List Char) : Option Decimal.Scientific := do
  let isMark (c : Char) : Bool := c = 'e' || c = 'E'
  let mantissa := cs.takeWhile fun c => !isMark c
  let power := cs.dropWhile fun c => !isMark c
  let fraction := mantissa.dropWhile (· ≠ '.')
  if fraction.isEmpty ∧ power.isEmpty then none
  else
    let whole ← decimal? (mantissa.takeWhile (· ≠ '.'))
    let places ← if fraction.isEmpty then some [] else digits? Char.isDigit fraction.tail
    let e ← if power.isEmpty then some 0 else exponent? power.tail
    some ⟨whole * Nat.pow 10 places.length + valueIn 10 places, e - places.length⟩

/-- A float that is finite as a double, or one of the special ones. -/
def isFloat (cs : List Char) : Bool :=
  let body := (splitSign cs).2
  body = ['i', 'n', 'f'] || body = ['n', 'a', 'n'] ||
    (scientific? body).any Decimal.Scientific.roundsToFinite

/-- `n` digits whose number is from `low` to `high`. -/
def isNumberIn (n low high : Nat) (cs : List Char) : Bool :=
  cs.length == n && cs.all Char.isDigit && decide (low ≤ valueIn 10 cs ∧ valueIn 10 cs ≤ high)

def daysIn (year month : Nat) : Nat :=
  if month = 2 then (if year % 4 = 0 ∧ (year % 100 ≠ 0 ∨ year % 400 = 0) then 29 else 28)
  else if month = 4 ∨ month = 6 ∨ month = 9 ∨ month = 11 then 30
  else 31

def isDate (cs : List Char) : Bool :=
  let year := cs.take 4
  let month := (cs.drop 5).take 2
  cs.length == 10 && cs[4]? == some '-' && cs[7]? == some '-' && isNumberIn 4 0 9999 year &&
    isNumberIn 2 1 12 month && isNumberIn 2 1 (daysIn (valueIn 10 year) (valueIn 10 month)) (cs.drop 8)

/-- The second, and a fraction if there is one. -/
def isSecond (cs : List Char) : Bool :=
  let fraction := cs.drop 2
  isNumberIn 2 0 60 (cs.take 2) &&
    (fraction.isEmpty ||
      (fraction.head? == some '.' && !fraction.tail.isEmpty && fraction.tail.all Char.isDigit))

/-- Hour and minute, and the second if it is there. -/
def isTime (cs : List Char) : Bool :=
  let second := cs.drop 5
  cs[2]? == some ':' && isNumberIn 2 0 23 (cs.take 2) && isNumberIn 2 0 59 ((cs.drop 3).take 2) &&
    (second.isEmpty || (second.head? == some ':' && isSecond second.tail))

/-- The offset of a zone: a sign, hours and minutes. -/
def isOffset (cs : List Char) : Bool :=
  (cs.head? == some '+' || cs.head? == some '-') && cs[3]? == some ':' &&
    isNumberIn 2 0 23 ((cs.drop 1).take 2) && isNumberIn 2 0 59 (cs.drop 4)

/-- A time of day, which may be followed by a zone. -/
def isZonedTime (cs : List Char) : Bool :=
  match cs.getLast? with
  | some 'Z' | some 'z' => isTime cs.dropLast
  | _ => isTime cs || (isOffset (cs.drop (cs.length - 6)) && isTime (cs.take (cs.length - 6)))

/-- A date, a time, or both. -/
def isDateTime (cs : List Char) : Bool :=
  let mark := cs[10]?
  isDate cs || isTime cs ||
    (isDate (cs.take 10) && (mark == some 'T' || mark == some 't' || mark == some ' ') &&
      isZonedTime (cs.drop 11))

def word? (cs : List Char) : Option Node :=
  if cs = ['t', 'r', 'u', 'e'] then some (.bool true)
  else if cs = ['f', 'a', 'l', 's', 'e'] then some (.bool false)
  else
    match int? cs with
    | some n => some (.int n)
    | none => if isFloat cs || isDateTime cs then some .other else none

end TableQuery.Toml
