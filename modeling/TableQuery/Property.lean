/- Properties of records: a name, the record type that declares it and the type of its values. A registry
   remembers each property that has been resolved; the first declaration of a name stays. -/
namespace TableQuery

inductive ValueType where
  | bool
  | int
  | long
  | double
  | text
  | optional (t : ValueType)
  /-- Any other type, known by its name. -/
  | named (name : String)
  deriving DecidableEq, Repr

def ValueType.label : ValueType → String
  | bool => "bool"
  | int => "i32"
  | long => "i64"
  | double => "f64"
  | text => "alloc::string::String"
  | optional t => "core::option::Option<" ++ t.label ++ ">"
  | named name => name

structure Property where
  name : String
  model : String
  type : ValueType
  deriving DecidableEq, Repr

/-- The properties that have been resolved, by record type and name. -/
abbrev Registry := List ((String × String) × Property)

namespace Registry

def isCached (r : Registry) (model name : String) : Bool :=
  (r.lookup (model, name)).isSome

/-- The property of that name, and the registry that remembers it. -/
def resolve (r : Registry) (model name : String) (type : ValueType) : Property × Registry :=
  match r.lookup (model, name) with
  | some p => (p, r)
  | none => (⟨name, model, type⟩, r ++ [((model, name), ⟨name, model, type⟩)])

end Registry

end TableQuery
