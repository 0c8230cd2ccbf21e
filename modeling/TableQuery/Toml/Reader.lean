import TableQuery.Toml.Scalar

/- Reading TOML documents. Each reader takes what it recognises off the front of the characters and
   returns the rest. The recursion is bounded by a number that is computed from the length of the text;
   how deep values are nested is bounded by a fixed one. -/
namespace TableQuery.Toml

/-- The most parts of a key, and the most arrays and inline tables inside each other. -/
def depthLimit : Nat := 80

def apostrophe : Char := Char.ofNat 39

def isSpace (c : Char) : Bool :=
  c = ' ' || c = '\t'

def skipSpace (cs : List Char) : List Char :=
  cs.dropWhile isSpace

/-- Control characters must not stand in texts and comments, but for the tab. -/
def isControl (c : Char) : Bool :=
  (c.toNat < 32 && c ≠ '\t') || c.toNat = 127

def newline? : List Char → Option (List Char)
  | '\n' :: r => some r
  | '\r' :: '\n' :: r => some r
  | _ => none

/-- Skips a comment, if one begins here, up to the end of its line. -/
def skipComment : List Char → Option (List Char)
  | '#' :: r =>
    let body := r.takeWhile (· ≠ '\n')
    let text := if body.getLast? = some '\r' then body.dropLast else body
    if text.any isControl then none else some (r.drop text.length)
  | r => some r

/-- Skips blanks, comments and ends of lines. -/
def skipLines : Nat → List Char → Option (List Char)
  | 0, _ => none
  | fuel + 1, cs => do
    let r ← skipComment (skipSpace cs)
    match newline? r with
    | some r => skipLines fuel r
    | none => some r

/-! ## Texts -/

/-- The character of a code point that is one. -/
def scalar? (n : Nat) : Option Char :=
  if h : n.isValidChar then some (Char.ofNatAux n h) else none

/-- The character of an escape, after the backslash. -/
def escape? (cs : List Char) : Option (Char × List Char) :=
  let code (width : Nat) (r : List Char) : Option (Char × List Char) :=
    if r.length < width then none
    else ((Text.hexNumber? (r.take width)).bind scalar?).map fun c => (c, r.drop width)
  match cs with
  | 'b' :: r => some (Char.ofNat 8, r)
  | 't' :: r => some ('\t', r)
  | 'n' :: r => some ('\n', r)
  | 'f' :: r => some (Char.ofNat 12, r)
  | 'r' :: r => some ('\r', r)
  | 'e' :: r => some (Char.ofNat 27, r)
  | '"' :: r => some ('"', r)
  | '\\' :: r => some ('\\', r)
  | 'x' :: r => code 2 r
  | 'u' :: r => code 4 r
  | 'U' :: r => code 8 r
  | _ => none

/-- The rest of a text on one line, after its opening quote. Escapes are read if `escapes` is set. -/
def lineText (quote : Char) (escapes : Bool) : Nat → List Char → List Char → Option (String × List Char)
  | 0, _, _ => none
  | _, _, [] => none
  | fuel + 1, acc, c :: r =>
    if c = quote then some (String.ofList acc.reverse, r)
    else if escapes && c = '\\' then do
      let (e, r) ← escape? r
      lineText quote escapes fuel (e :: acc) r
    else if isControl c then none
    else lineText quote escapes fuel (c :: acc) r

def skipGap : Nat → List Char → List Char
  | 0, cs => cs
  | fuel + 1, cs =>
    let r := skipSpace cs
    match newline? r with
    | some r => skipGap fuel r
    | none => r

/-- The rest of a text on several lines, after its three opening quotes. Up to two quotes may stand
before the closing three, and an escaped end of line swallows the blanks after it. Other ends of lines
stay as they are written. -/
def blockText (quote : Char) (escapes : Bool) : Nat → List Char → List Char → Option (String × List Char)
  | 0, _, _ => none
  | _, _, [] => none
  | fuel + 1, acc, c :: r =>
    if c = quote then
      let quotes := (c :: r).takeWhile (· = quote)
      let n := quotes.length
      if n < 3 then blockText quote escapes fuel (c :: acc) r
      else if 5 < n then none
      else some (String.ofList (acc.reverse ++ quotes.take (n - 3)), (c :: r).drop n)
    else if escapes && c = '\\' then
      match newline? (skipSpace r) with
      | some r => blockText quote escapes fuel acc (skipGap fuel r)
      | none => do
        let (e, r) ← escape? r
        blockText quote escapes fuel (e :: acc) r
    else if (newline? (c :: r)).isSome || !isControl c then blockText quote escapes fuel (c :: acc) r
    else none

/-- A text after its first quote, on one line or on several. -/
def text? (quote : Char) (escapes : Bool) (fuel : Nat) (cs : List Char) : Option (String × List Char) :=
  match cs with
  | a :: b :: r =>
    if a = quote ∧ b = quote then blockText quote escapes fuel [] ((newline? r).getD r)
    else lineText quote escapes fuel [] cs
  | cs => lineText quote escapes fuel [] cs

/-! ## Keys -/

def isBare (c : Char) : Bool :=
  c.isAlphanum || c = '_' || c = '-'

/-- A part of a key: a word, or a text on one line. -/
def keyPart? (fuel : Nat) (cs : List Char) : Option (String × List Char) :=
  match cs with
  | '"' :: r => lineText '"' true fuel [] r
  | c :: r =>
    if c = apostrophe then lineText apostrophe false fuel [] r
    else
      let word := cs.takeWhile isBare
      if word.isEmpty then none else some (String.ofList word, cs.dropWhile isBare)
  | [] => none

/-- Parts of a key with points between them. -/
def keyParts? : Nat → List Char → Option (List String × List Char)
  | 0, _ => none
  | fuel + 1, cs => do
    let (part, r) ← keyPart? fuel cs
    match skipSpace r with
    | '.' :: r =>
      let (parts, r) ← keyParts? fuel (skipSpace r)
      some (part :: parts, r)
    | r => some ([part], r)

/-- A key, which has no more parts than the limit. -/
def key? (fuel : Nat) (cs : List Char) : Option (List String × List Char) :=
  (keyParts? fuel cs).filter fun (parts, _) => parts.length ≤ depthLimit

/-! ## Values -/

def isWordChar (c : Char) : Bool :=
  c.isAlphanum || c = '_' || c = '-' || c = '+' || c = '.' || c = ':'

/-- A word as a value. A blank after a date belongs to the word if a time follows. -/
def wordValue? (cs : List Char) : Option (Node × List Char) :=
  let word := cs.takeWhile isWordChar
  let rest := cs.dropWhile isWordChar
  match rest with
  | ' ' :: d :: r =>
    if isDate word && d.isDigit then
      let long := word ++ ' ' :: (d :: r).takeWhile isWordChar
      (word? long).map fun n => (n, (d :: r).dropWhile isWordChar)
    else (word? word).map fun n => (n, rest)
  | rest => (word? word).map fun n => (n, rest)

mutual

/-- A value in which at most `room` arrays and inline tables may stand inside each other. -/
def value? : Nat → Nat → List Char → Option (Node × List Char)
  | 0, _, _ => none
  | fuel + 1, room, cs =>
    match cs with
    | [] => none
    | '"' :: r => (text? '"' true fuel r).map fun (s, r) => (.text s, r)
    | '[' :: r =>
      if room = 0 then none else (items? fuel (room - 1) r).map fun (ns, r) => (.array ns, r)
    | '\x7b' :: r =>
      if room = 0 then none
      else (pairs? fuel (room - 1) [] r).map fun (fields, r) => (.table .inline fields, r)
    | c :: r =>
      if c = apostrophe then (text? apostrophe false fuel r).map fun (s, r) => (.text s, r)
      else wordValue? (c :: r)

/-- The items of an array, up to its closing bracket. A comma may follow the last one. -/
def items? : Nat → Nat → List Char → Option (List Node × List Char)
  | 0, _, _ => none
  | fuel + 1, room, cs => do
    let r ← skipLines fuel cs
    match r with
    | ']' :: r => some ([], r)
    | r =>
      let (n, r) ← value? fuel room r
      let r ← skipLines fuel r
      match r with
      | ']' :: r => some ([n], r)
      | ',' :: r =>
        let (ns, r) ← items? fuel room r
        some (n :: ns, r)
      | _ => none

/-- The pairs of an inline table after those in `fields`, up to its closing brace. A comma may follow
the last one, and ends of lines may stand wherever blanks may, but not inside a key. -/
def pairs? : Nat → Nat → Fields → List Char → Option (Fields × List Char)
  | 0, _, _, _ => none
  | fuel + 1, room, fields, cs => do
    let r ← skipLines fuel cs
    match r with
    | '\x7d' :: r => some (fields, r)
    | r =>
      let (keys, r) ← key? fuel r
      let r ← skipLines fuel r
      match r with
      | '=' :: r =>
        let r ← skipLines fuel r
        let (n, r) ← value? fuel room r
        let fields ← define keys n fields
        let r ← skipLines fuel r
        match r with
        | '\x7d' :: r => some (fields, r)
        | ',' :: r => pairs? fuel room fields r
        | _ => none
      | _ => none

end

/-! ## Documents -/

/-- A document up to here: all that is defined, and the table that is open. -/
structure Progress where
  root : Fields
  path : List String

/-- A heading after its opening bracket. -/
def heading? (fuel : Nat) (p : Progress) (cs : List Char) : Option (Progress × List Char) := do
  let (keys, r) ← key? fuel (skipSpace cs)
  let (path, last) ← splitLast keys
  let root ← within (openTable last) path p.root
  match r with
  | ']' :: r => some (⟨root, keys⟩, r)
  | _ => none

/-- A heading of an item of an array of tables, after its opening brackets. -/
def itemHeading? (fuel : Nat) (p : Progress) (cs : List Char) : Option (Progress × List Char) := do
  let (keys, r) ← key? fuel (skipSpace cs)
  let (path, last) ← splitLast keys
  let root ← within (openItem last) path p.root
  match r with
  | ']' :: ']' :: r => some (⟨root, keys⟩, r)
  | _ => none

def pair? (fuel : Nat) (p : Progress) (cs : List Char) : Option (Progress × List Char) := do
  let (keys, r) ← key? fuel cs
  match r with
  | '=' :: r =>
    let (n, r) ← value? fuel depthLimit (skipSpace r)
    let root ← within (define keys n) p.path p.root
    some (⟨root, p.path⟩, r)
  | _ => none

/-- The statements of a document, each on a line of its own. -/
def statements : Nat → Progress → List Char → Option Fields
  | 0, _, _ => none
  | fuel + 1, p, cs => do
    let r ← skipLines (fuel + 1) cs
    if r.isEmpty then some p.root
    else
      let (p, r) ←
        match r with
        | '[' :: '[' :: r => itemHeading? fuel p r
        | '[' :: r => heading? fuel p r
        | r => pair? fuel p r
      let r ← skipComment (skipSpace r)
      match newline? r with
      | some r => statements fuel p r
      | none => if r.isEmpty then some p.root else none

/-- The fields of a document, before which a byte order mark may stand. -/
def parse? (text : String) : Option Fields :=
  let cs := if text.toList.head? = some '\ufeff' then text.toList.tail else text.toList
  statements (2 * cs.length + 2) ⟨[], []⟩ cs

end TableQuery.Toml
