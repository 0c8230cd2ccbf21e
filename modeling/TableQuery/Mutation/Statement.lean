import TableQuery.Mapping
import TableQuery.Sql.Piece

/- The statements of writes. The places for parameters say which value of a record they take, so that the
   text and the parameters come from the same pieces. -/
namespace TableQuery.Mutation

/-- Which value of a record a parameter takes. -/
inductive Slot (ε : Type) where
  | column (c : Column ε)
  /-- The value of a column, or the first version where it is null. -/
  | startVersion (c : Column ε) (w : VersionWidth)
  /-- The version after that of the record. -/
  | nextVersion (v : Versioning ε)

namespace Slot

variable {ε : Type}

def value (e : ε) : Slot ε → Except Failure Value
  | column c => .ok (c.get e)
  | startVersion c w => .ok (if (c.get e).isNull then w.initial else c.get e)
  | nextVersion v => v.width.next (v.column.get e)

end Slot

/-- A statement whose parameters are taken from records. -/
abbrev Template (ε : Type) := List (Sql.Piece (Slot ε))

namespace Template

variable {ε : Type}

/-- The parameters for a record, up to the first that fails. -/
def params (t : Template ε) (e : ε) : Except Failure (List Value) :=
  (Sql.bindings t).mapM (Slot.value e)

end Template

variable {ε : Type}

/-- What an insert writes into a column: a null in a column of the version's name becomes the first
version. -/
def insertSlot (v : Option (Versioning ε)) (c : Column ε) : Slot ε :=
  match v with
  | some v => if c.name = v.column.name then .startVersion c v.width else .column c
  | none => .column c

/-- Inserts a record, and returns the key if the database generates it. -/
def insertTemplate (m : Mapping ε) (v : Option (Versioning ε)) : Template ε :=
  let columns := m.insertColumns
  .raw "INSERT INTO " :: .name m.table :: .raw " (" :: Sql.joined ", " (columns.map fun c => [.name c.name]) ++
    .raw ") VALUES (" :: Sql.joined ", " (columns.map fun c => [.bound (insertSlot v c)]) ++ .raw ")" ::
    match m.generatedId? with
    | some c => [.raw " RETURNING ", .name c.name]
    | none => []

/-- A column set equal to what a slot takes. -/
def equation (c : Column ε) (s : Slot ε) : Template ε :=
  [.name c.name, .raw " = ", .bound s]

/-- Updates columns of the record with its identity. On a versioned table the record must have the
version of the row, which takes the next one. -/
def updateTemplate (table : String) (columns : List (Column ε)) (id : Column ε) (v : Option (Versioning ε)) :
    Template ε :=
  let assigned := columns.map fun c => equation c (.column c)
  let versions := v.toList.map fun v => equation v.column (.nextVersion v)
  .raw "UPDATE " :: .name table :: .raw " SET " :: Sql.joined ", " (assigned ++ versions) ++
    .raw " WHERE " :: equation id (.column id) ++
    match v with
    | some v => .raw " AND " :: equation v.column (.column v.column)
    | none => []

def deleteTemplate (table : String) (id : Column ε) : Template ε :=
  .raw "DELETE FROM " :: .name table :: .raw " WHERE " :: equation id (.column id)

end TableQuery.Mutation
