import TableQuery.Text.CaseTable

/- Full case mapping of texts: letters may map to several letters, and a capital sigma that ends a word
   maps to the final form of the small one. -/
namespace TableQuery.Text

/-- The letter with code point `c` lies in one of the ranges. -/
def inRanges (ranges : List (Nat × Nat)) (c : Nat) : Bool :=
  ranges.any fun (first, last) => first ≤ c && c ≤ last

/-- What the runs map the code point `c` to, if it is in one of them. -/
def shift? (runs : List (Nat × Nat × Nat × Int)) (c : Nat) : Option Nat :=
  (runs.find? fun (first, last, step, _) => first ≤ c && c ≤ last && (c - first) % step == 0).map
    fun (_, _, _, by_) => ((c : Int) + by_).toNat

/-- The mapping given by a list of expansions and a list of runs; other letters stay as they are. -/
def mapCase (expansions : List (Nat × List Nat)) (runs : List (Nat × Nat × Nat × Int)) (c : Char) :
    List Char :=
  match expansions.lookup c.toNat with
  | some cs => cs.map Char.ofNat
  | none => [((shift? runs c.toNat).map Char.ofNat).getD c]

def upperChar (c : Char) : List Char :=
  mapCase upperExpansions upperRuns c

def lowerChar (c : Char) : List Char :=
  mapCase lowerExpansions lowerRuns c

/-- The first character that does not interrupt a word is a cased letter. -/
def startsCased (cs : List Char) : Bool :=
  match cs.dropWhile fun c => inRanges caseIgnorableRanges c.toNat with
  | [] => false
  | c :: _ => inRanges casedRanges c.toNat

/-- The lower case of a capital sigma between the reversed text `before` and the text `after`. -/
def lowerSigma (before after : List Char) : Char :=
  if startsCased before && !startsCased after then 'ς' else 'σ'

/-- Lower case of the characters, of which those in `before` (reversed) came first. -/
def lowerFrom (before : List Char) : List Char → List Char
  | [] => []
  | c :: cs =>
    (if c = 'Σ' then [lowerSigma before cs] else lowerChar c) ++ lowerFrom (c :: before) cs

def lower (s : String) : String :=
  String.ofList (lowerFrom [] s.toList)

def upper (s : String) : String :=
  String.ofList (s.toList.flatMap upperChar)

end TableQuery.Text
