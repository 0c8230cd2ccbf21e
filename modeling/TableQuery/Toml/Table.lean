/- Tables of a TOML document and how its statements build them. A table may be named on the way to
   another, written as a heading, written as a part of a dotted key or written inline; what may be
   added to it later depends on that. No key is defined twice. -/
namespace TableQuery.Toml

inductive Origin where
  /-- Named in a heading on the way to another table. -/
  | implied
  | heading
  | dotted
  | inline
  deriving DecidableEq, Repr

inductive Node where
  | text (s : String)
  | int (n : Int)
  /-- A float or a date, whose value is not kept. -/
  | other
  | bool (b : Bool)
  | array (items : List Node)
  | table (origin : Origin) (fields : List (String × Node))
  /-- An array of tables written as headings. -/
  | tables (items : List (List (String × Node)))

abbrev Fields := List (String × Node)

/-- Replaces the value of a key that is there. -/
def setField (key : String) (n : Node) : Fields → Fields
  | [] => []
  | (k, m) :: rest => if k = key then (k, n) :: rest else (k, m) :: setField key n rest

/-- The last of a list with those before it. -/
def splitLast {α : Type} : List α → Option (List α × α)
  | [] => none
  | a :: as =>
    match splitLast as with
    | none => some ([], a)
    | some (init, last) => some (a :: init, last)

/-- Defines a key by a value, under the tables of the parts before it. On the way may be tables that
are implied by headings and the last items of arrays of tables, but the table that gets the key is new or
made by dotted keys. -/
def define (keys : List String) (n : Node) (fields : Fields) : Option Fields :=
  match keys with
  | [] => none
  | [key] => if (fields.lookup key).isNone then some (fields ++ [(key, n)]) else none
  | key :: rest =>
    match fields.lookup key with
    | none => (define rest n []).map fun inner => fields ++ [(key, .table .dotted inner)]
    | some (.table origin inner) =>
      if origin = .dotted ∨ (origin = .implied ∧ 1 < rest.length) then
        (define rest n inner).map fun inner => setField key (.table origin inner) fields
      else none
    | some (.tables items) =>
      match splitLast items with
      | some (init, last) =>
        if 1 < rest.length then
          (define rest n last).map fun last => setField key (.tables (init ++ [last])) fields
        else none
      | none => none
    | some _ => none

/-- Works on the table of that path, and makes the tables on the way that are missing. The last of an
array of tables stands for the array. -/
def within (f : Fields → Option Fields) (path : List String) (fields : Fields) : Option Fields :=
  match path with
  | [] => f fields
  | key :: rest =>
    match fields.lookup key with
    | none => (within f rest []).map fun inner => fields ++ [(key, .table .implied inner)]
    | some (.table origin inner) =>
      if origin = .inline then none
      else (within f rest inner).map fun inner => setField key (.table origin inner) fields
    | some (.tables items) =>
      match splitLast items with
      | none => none
      | some (init, last) =>
        (within f rest last).map fun last => setField key (.tables (init ++ [last])) fields
    | some _ => none

/-- Opens a table by a heading. It must not have been opened before. -/
def openTable (key : String) (fields : Fields) : Option Fields :=
  match fields.lookup key with
  | none => some (fields ++ [(key, .table .heading [])])
  | some (.table .implied inner) => some (setField key (.table .heading inner) fields)
  | some _ => none

/-- Adds a table to an array of tables. -/
def openItem (key : String) (fields : Fields) : Option Fields :=
  match fields.lookup key with
  | none => some (fields ++ [(key, .tables [[]])])
  | some (.tables items) => some (setField key (.tables (items ++ [[]])) fields)
  | some _ => none

end TableQuery.Toml
