import TableQuery.Value.Basic
import TableQuery.Json.Printer

/- Values as JSON, in both directions. Whole numbers read from JSON are 64-bit integers, and doubles
   beyond that range; arrays and objects are kept as their text. -/
namespace TableQuery.Value

def ofJson : Json → Value
  | .null => null
  | .bool b => bool b
  | .int n => (ofInt64? n).getD (double (Float.ofInt n))
  | .real x => double x
  | .str s => text s
  | j => text j.text

/-- The JSON in which rows are decoded; a double that is no number becomes null. -/
def toJson : Value → Json
  | null => .null
  | bool b => .bool b
  | int n => .int n.toInt
  | long n => .int n.toInt
  | double x => if x.isFinite then .real x else .null
  | text s => .str s
  | bytes bs => .arr (bs.map fun b => .int b.toNat)
  | timestamp t => .str t.text
  | uuid u => .str u.text

/-- The self-describing JSON form: the kind of the value with its payload. -/
def toTaggedJson : Value → Json
  | null => .str "Null"
  | bool b => .obj [("Bool", .bool b)]
  | int n => .obj [("Int", .int n.toInt)]
  | long n => .obj [("BigInt", .int n.toInt)]
  | double x => .obj [("Double", toJson (double x))]
  | text s => .obj [("String", .str s)]
  | bytes bs => .obj [("Bytes", toJson (bytes bs))]
  | timestamp t => .obj [("Timestamp", .str (t.textWith "Z"))]
  | uuid u => .obj [("Uuid", .str u.text)]

end TableQuery.Value
