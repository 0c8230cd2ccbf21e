/- JSON values. Whole numbers and doubles are different values even where they are equal as numbers.
   Objects built by `object` have their keys once each and in ascending order. -/
namespace TableQuery

inductive Json where
  | null
  | bool (b : Bool)
  | int (n : Int)
  | real (x : Float)
  | str (s : String)
  | arr (items : List Json)
  | obj (fields : List (String × Json))

instance : Inhabited Json := ⟨.null⟩

namespace Json

/-- Puts a field into a list in ascending order of keys; a field of that key is replaced. -/
def insertField (key : String) (value : Json) : List (String × Json) → List (String × Json)
  | [] => [(key, value)]
  | (k, v) :: rest =>
    if key < k then (key, value) :: (k, v) :: rest
    else if key = k then (key, value) :: rest
    else (k, v) :: insertField key value rest

/-- The object of these fields; the last of several fields of one key counts. -/
def object (fields : List (String × Json)) : Json :=
  .obj (fields.foldl (fun acc (k, v) => insertField k v acc) [])

def get? (key : String) : Json → Option Json
  | .obj fields => fields.lookup key
  | _ => none

end Json

end TableQuery
