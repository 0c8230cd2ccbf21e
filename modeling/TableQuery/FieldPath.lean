/- Paths of field names, such as `author.name`. A path has at least one name. Two paths are equal when
   their dotted forms are. -/
namespace TableQuery

structure FieldPath where
  first : String
  rest : List String
  deriving DecidableEq, Repr

namespace FieldPath

/-- The path of these names, if there are any. -/
def ofNames? : List String → Option FieldPath
  | [] => none
  | first :: rest => some ⟨first, rest⟩

def single (name : String) : FieldPath :=
  ⟨name, []⟩

def names (p : FieldPath) : List String :=
  p.first :: p.rest

def length (p : FieldPath) : Nat :=
  p.rest.length + 1

def identity (p : FieldPath) : String :=
  ".".intercalate p.names

def leaf (p : FieldPath) : String :=
  p.rest.getLastD p.first

/-- The path without its last name, if any is left. -/
def parent? (p : FieldPath) : Option FieldPath :=
  if p.rest = [] then none else some ⟨p.first, p.rest.dropLast⟩

def concat (p q : FieldPath) : FieldPath :=
  ⟨p.first, p.rest ++ q.names⟩

instance : BEq FieldPath := ⟨fun p q => p.identity == q.identity⟩

end FieldPath

end TableQuery
