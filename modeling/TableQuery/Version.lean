import TableQuery.Failure
import TableQuery.Property

/- Version numbers of rows. A version column holds integers of one width; each write takes the next one,
   and the last of the width has none. -/
namespace TableQuery

inductive VersionWidth where
  | int
  | long
  deriving DecidableEq, Repr

namespace VersionWidth

/-- The width of a version column, from the declared type of its values. -/
def ofProperty (p : Property) : Except Failure VersionWidth :=
  match p.type with
  | .int | .optional .int => .ok int
  | .long | .optional .long => .ok long
  | t => .error (.versionType p.name t.label)

/-- The integer of that width, if it fits. -/
def value? (w : VersionWidth) (n : Int) : Option Value :=
  match w with
  | int => Value.ofInt32? n
  | long => Value.ofInt64? n

/-- The version of a row that is inserted without one. -/
def initial : VersionWidth → Value
  | int => .int 0
  | long => .long 0

/-- The version after `current`, which must be an integer of the width that is not the last. -/
def next (w : VersionWidth) (current : Value) : Except Failure Value :=
  if current.isNull then .error .versionNull
  else
    match current.toInt? with
    | none => .error (.versionNotInteger current)
    | some n =>
      match (w.value? n).bind fun _ => w.value? (n + 1) with
      | some v => .ok v
      | none => .error (.versionOverflow n)

end VersionWidth

end TableQuery
