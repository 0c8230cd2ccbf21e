import TableQuery.Version

/- How the records of a type are kept in a table: which columns there are, and how their values are read
   from a record and written into it. -/
namespace TableQuery

/-- A column of the table for records of type `ε`. -/
structure Column (ε : Type) where
  property : Property
  get : ε → Value
  /-- Stores a value, such as a generated key, in a record. -/
  set : ε → Value → Except Failure ε

/-- The name of a column is that of its property. -/
def Column.name {ε : Type} (c : Column ε) : String :=
  c.property.name

structure Identity (ε : Type) where
  column : Column ε
  /-- The database gives the value on insert. -/
  generated : Bool

structure Mapping (ε : Type) where
  table : String
  identity : Option (Identity ε)
  /-- The columns that updates write, without identity and version. -/
  columns : List (Column ε)
  version : Option (Column ε)

/-- A version column with its width. -/
structure Versioning (ε : Type) where
  column : Column ε
  width : VersionWidth

namespace Mapping

variable {ε : Type}

def ofTable (table : String) : Mapping ε :=
  ⟨table, none, [], none⟩

def withIdentity (m : Mapping ε) (c : Column ε) (generated : Bool) : Mapping ε :=
  { m with identity := some ⟨c, generated⟩ }

def withColumn (m : Mapping ε) (c : Column ε) : Mapping ε :=
  { m with columns := m.columns ++ [c] }

def withVersion (m : Mapping ε) (c : Column ε) : Mapping ε :=
  { m with version := some c }

/-- The identity column, without which most writes are refused. -/
def id (m : Mapping ε) : Except Failure (Column ε) :=
  match m.identity with
  | some i => .ok i.column
  | none => .error (.identityUnmapped m.table)

/-- The identity column if the database gives its values. -/
def generatedId? (m : Mapping ε) : Option (Column ε) :=
  match m.identity with
  | some ⟨c, true⟩ => some c
  | _ => none

/-- The identity column if the records carry its values. -/
def assignedId? (m : Mapping ε) : Option (Column ε) :=
  match m.identity with
  | some ⟨c, false⟩ => some c
  | _ => none

/-- The version column with its width, if there is one. -/
def versioning (m : Mapping ε) : Except Failure (Option (Versioning ε)) :=
  match m.version with
  | none => .ok none
  | some c => (VersionWidth.ofProperty c.property).map fun w => some ⟨c, w⟩

/-- The columns that an insert writes: an assigned identity, the columns, and the version. -/
def insertColumns (m : Mapping ε) : List (Column ε) :=
  m.assignedId?.toList ++ m.columns ++ m.version.toList

end Mapping

end TableQuery
