import TableQuery.Failure
import TableQuery.Text.Blank
import TableQuery.Toml.Reader

/- Settings of executors and writers, and how they are read from a TOML document. What a document leaves
   out has its default, and keys that mean nothing are ignored. -/
namespace TableQuery

structure Settings where
  dialect : Dialect
  /-- The most rows that are written by one statement. -/
  batchSize : Nat
  databaseUrl : Option String
  logSql : Bool
  deriving DecidableEq, Repr

namespace Settings

def default : Settings := ⟨.sqlite, 1000, none, true⟩

/-- Refuses settings that make no sense. -/
def validate (s : Settings) : Except Failure Unit :=
  if s.batchSize = 0 then .error .batchSizeZero
  else if s.databaseUrl.any fun url => (Text.trimChars url.toList).isEmpty then .error .databaseUrlBlank
  else .ok ()

/-- The value of a key if it is there, read by `read?`; a value that cannot be read fails the whole. -/
def field {α : Type} (fields : Toml.Fields) (key : String) (absent : α) (read? : Toml.Node → Option α) :
    Option α :=
  match fields.lookup key with
  | none => some absent
  | some n => read? n

/-- The dialect that a value names: by its key, or as a table with that key and nothing under it. -/
def dialectOf? : Toml.Node → Option Dialect
  | .text s => Dialect.ofKey? s
  | .table _ [(key, .table _ [])] => Dialect.ofKey? key
  | .table _ [(key, .array [])] => Dialect.ofKey? key
  | _ => none

/-- The size that a value gives: a whole number that is not negative and fits 64 bits with a sign. -/
def sizeOf? : Toml.Node → Option Nat
  | .int n => if 0 ≤ n ∧ n ≤ Int64.maxValue.toInt then some n.toNat else none
  | _ => none

/-- The settings that the fields of a document describe. -/
def ofFields? (fields : Toml.Fields) : Option Settings := do
  let dialect ← field fields "dialect" default.dialect dialectOf?
  let batchSize ← field fields "batch_size" default.batchSize sizeOf?
  let databaseUrl ← field fields "database_url" none fun
    | .text s => some (some s)
    | _ => none
  let logSql ← field fields "log_sql" default.logSql fun
    | .bool b => some b
    | _ => none
  some ⟨dialect, batchSize, databaseUrl, logSql⟩

/-- Reads and checks the settings in a TOML document. -/
def ofToml (source : String) : Except Failure Settings :=
  match (Toml.parse? source).bind ofFields? with
  | none => .error .settingsInvalid
  | some s => s.validate.map fun _ => s

/-- Reads the settings from the content of a file, if the file could be read. -/
def ofContent (content : Option String) : Except Failure Settings :=
  match content with
  | none => .error .settingsUnreadable
  | some source => ofToml source

end Settings

end TableQuery
