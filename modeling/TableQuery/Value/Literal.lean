import TableQuery.Value.Basic
import TableQuery.Number.Layout

/- Values as literals. A quote inside a text is written twice. -/
namespace TableQuery.Value

/-- The code point of the quote around literals. -/
def quoteChar : Char := Char.ofNat 39

/-- The characters with each quote written twice. -/
def doubleQuotes (cs : List Char) : List Char :=
  cs.flatMap fun c => if c = quoteChar then [c, c] else [c]

def inQuotes (s : String) : String :=
  String.ofList (quoteChar :: s.toList ++ [quoteChar])

def literal : Value → String
  | null => "NULL"
  | bool true => "TRUE"
  | bool false => "FALSE"
  | int n => toString n.toInt
  | long n => toString n.toInt
  | double x => Decimal.literal x
  | text s => inQuotes (String.ofList (doubleQuotes s.toList))
  | bytes bs => "X" ++ inQuotes (Text.hexBytesUpper bs)
  | timestamp t => inQuotes t.text
  | uuid u => inQuotes u.text

end TableQuery.Value
