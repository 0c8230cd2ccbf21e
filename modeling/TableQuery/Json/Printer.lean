import TableQuery.Json.Basic
import TableQuery.Number.Layout
import TableQuery.Text.Hex

/- Compact JSON text: no blanks, control characters escaped, everything else as it is. -/
namespace TableQuery.Json

def escapeChar (c : Char) : List Char :=
  if c = '"' then ['\\', '"']
  else if c = '\\' then ['\\', '\\']
  else if c = '\n' then ['\\', 'n']
  else if c = '\r' then ['\\', 'r']
  else if c = '\t' then ['\\', 't']
  else if c.toNat = 8 then ['\\', 'b']
  else if c.toNat = 12 then ['\\', 'f']
  else if c.toNat < 32 then ['\\', 'u'] ++ Text.hexDigits c.toNat 4
  else [c]

def quoted (s : String) : String :=
  "\"" ++ String.ofList (s.toList.flatMap escapeChar) ++ "\""

/-- A double that is no number has no JSON form but null. -/
def realText (x : Float) : String :=
  if x.isFinite then Decimal.jsonNumber x else "null"

mutual

def text : Json → String
  | .null => "null"
  | .bool b => if b then "true" else "false"
  | .int n => toString n
  | .real x => realText x
  | .str s => quoted s
  | .arr items => "[" ++ ",".intercalate (texts items) ++ "]"
  | .obj fields => "\x7b" ++ ",".intercalate (fieldTexts fields) ++ "\x7d"

def texts : List Json → List String
  | [] => []
  | j :: js => text j :: texts js

def fieldTexts : List (String × Json) → List String
  | [] => []
  | (key, j) :: rest => (quoted key ++ ":" ++ text j) :: fieldTexts rest

end

end TableQuery.Json
