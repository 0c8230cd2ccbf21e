/- Pattern matching with wildcards: `%` stands for any text and `_` for any single character. A text is
   read from its start. A row tells which prefixes of the pattern match what has been read, from the empty
   one to the whole pattern, and each character that is read makes the next row of the last one. -/
namespace TableQuery.Text

/-- Which longer prefixes of the pattern match the empty text, where `before` tells it of the last one. -/
def likeEmpty (before : Bool) : List Char → List Bool
  | [] => []
  | p :: ps =>
    let here := before && p == '%'
    here :: likeEmpty here ps

/-- The same after `c` has been read, where the row that was there before it begins with the cell of the
last prefix. -/
def likeNext (c : Char) (before : Bool) : List Char → List Bool → List Bool
  | p :: ps, shorter :: same :: row =>
    let here := if p == '%' then before || same else (p == '_' || p == c) && shorter
    here :: likeNext c here ps (same :: row)
  | _, _ => []

/-- Which prefixes of the pattern match the text. -/
def likeRow (pattern text : List Char) : List Bool :=
  text.foldl (fun row c => false :: likeNext c false pattern row) (true :: likeEmpty true pattern)

/-- The whole text matches the pattern. Case matters. -/
def like (text pattern : String) : Bool :=
  (likeRow pattern.toList text.toList).getLastD false

end TableQuery.Text
