import TableQuery.Json.Number
import TableQuery.Text.Hex

/- Reading JSON text. Each reader takes what it recognises off the front of the characters and returns
   the rest. The recursion is bounded by a number that is computed from the length of the text. -/
namespace TableQuery.Json

def isSpace (c : Char) : Bool :=
  c = ' ' || c = '\n' || c = '\t' || c = '\r'

def skipSpace (cs : List Char) : List Char :=
  cs.dropWhile isSpace

def takeDigits (cs : List Char) : List Nat × List Char :=
  ((cs.takeWhile Char.isDigit).map fun c => c.toNat - 48, cs.dropWhile Char.isDigit)

/-- A sign and at least one digit. -/
def readPower (cs : List Char) : Option (Int × List Char) :=
  let (negative, cs) :=
    match cs with
    | '-' :: r => (true, r)
    | '+' :: r => (false, r)
    | r => (false, r)
  match takeDigits cs with
  | ([], _) => none
  | (ds, r) =>
    let n : Nat := ds.foldl (fun n d => n * 10 + d) 0
    some (if negative then -(n : Int) else n, r)

/-- Fraction and power of ten, as far as they are there. -/
def readTail (cs : List Char) : Option (Option (List Nat) × Option Int × List Char) := do
  let (fraction, cs) ←
    match cs with
    | '.' :: r =>
      match takeDigits r with
      | ([], _) => none
      | (ds, r) => some (some ds, r)
    | r => some (none, r)
  match cs with
  | 'e' :: r | 'E' :: r =>
    let (power, r) ← readPower r
    some (fraction, some power, r)
  | r => some (fraction, none, r)

/-- A number; a leading zero stands alone. -/
def readNumber (cs : List Char) : Option (Json × List Char) := do
  let (negative, cs) :=
    match cs with
    | '-' :: r => (true, r)
    | r => (false, r)
  match takeDigits cs with
  | ([], _) => none
  | (0 :: _ :: _, _) => none
  | (whole, r) =>
    let (fraction, power, r) ← readTail r
    let j ← ofParts negative whole fraction power
    some (j, r)

def readHex4 : List Char → Option (Nat × List Char)
  | a :: b :: c :: d :: r => (Text.hexNumber? [a, b, c, d]).map fun n => (n, r)
  | _ => none

/-- The character of an escape, after the backslash. A high surrogate needs its low one. -/
def readEscape : List Char → Option (Char × List Char)
  | '"' :: r => some ('"', r)
  | '\\' :: r => some ('\\', r)
  | '/' :: r => some ('/', r)
  | 'b' :: r => some (Char.ofNat 8, r)
  | 'f' :: r => some (Char.ofNat 12, r)
  | 'n' :: r => some ('\n', r)
  | 'r' :: r => some ('\r', r)
  | 't' :: r => some ('\t', r)
  | 'u' :: r => do
    let (high, r) ← readHex4 r
    if 0xD800 ≤ high ∧ high < 0xDC00 then
      match r with
      | '\\' :: 'u' :: r =>
        let (low, r) ← readHex4 r
        if 0xDC00 ≤ low ∧ low < 0xE000 then
          some (Char.ofNat (0x10000 + (high - 0xD800) * 0x400 + (low - 0xDC00)), r)
        else none
      | _ => none
    else if 0xDC00 ≤ high ∧ high < 0xE000 then none
    else some (Char.ofNat high, r)
  | _ => none

/-- The rest of a string after its opening quote; `acc` holds the characters so far, reversed. -/
def readString : Nat → List Char → List Char → Option (String × List Char)
  | 0, _, _ => none
  | fuel + 1, acc, cs =>
    match cs with
    | [] => none
    | '"' :: r => some (String.ofList acc.reverse, r)
    | '\\' :: r => do
      let (c, r) ← readEscape r
      readString fuel (c :: acc) r
    | c :: r => if c.toNat < 32 then none else readString fuel (c :: acc) r

mutual

def readValue : Nat → List Char → Option (Json × List Char)
  | 0, _ => none
  | fuel + 1, cs =>
    match skipSpace cs with
    | 'n' :: 'u' :: 'l' :: 'l' :: r => some (.null, r)
    | 't' :: 'r' :: 'u' :: 'e' :: r => some (.bool true, r)
    | 'f' :: 'a' :: 'l' :: 's' :: 'e' :: r => some (.bool false, r)
    | '"' :: r => (readString fuel [] r).map fun (s, r) => (.str s, r)
    | '[' :: r =>
      match skipSpace r with
      | ']' :: r => some (.arr [], r)
      | r => (readItems fuel r).map fun (js, r) => (.arr js, r)
    | '\x7b' :: r =>
      match skipSpace r with
      | '\x7d' :: r => some (.obj [], r)
      | r => (readFields fuel r).map fun (fields, r) => (object fields, r)
    | r => readNumber r

def readItems : Nat → List Char → Option (List Json × List Char)
  | 0, _ => none
  | fuel + 1, cs => do
    let (j, r) ← readValue fuel cs
    match skipSpace r with
    | ']' :: r => some ([j], r)
    | ',' :: r =>
      let (js, r) ← readItems fuel r
      some (j :: js, r)
    | _ => none

def readFields : Nat → List Char → Option (List (String × Json) × List Char)
  | 0, _ => none
  | fuel + 1, cs => do
    match skipSpace cs with
    | '"' :: r =>
      let (key, r) ← readString fuel [] r
      match skipSpace r with
      | ':' :: r =>
        let (j, r) ← readValue fuel r
        match skipSpace r with
        | '\x7d' :: r => some ([(key, j)], r)
        | ',' :: r =>
          let (rest, r) ← readFields fuel r
          some ((key, j) :: rest, r)
        | _ => none
      | _ => none
    | _ => none

end

/-- The value that the text stands for. -/
def parse? (text : String) : Option Json :=
  let cs := text.toList
  match readValue (2 * cs.length + 2) cs with
  | some (j, r) => if skipSpace r = [] then some j else none
  | none => none

end TableQuery.Json
