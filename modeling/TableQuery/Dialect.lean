/- SQL dialects: what differs between the databases that statements are written for. -/
namespace TableQuery

inductive Dialect where
  | postgres
  | mysql
  | sqlite
  deriving DecidableEq, Repr

instance : Inhabited Dialect := ⟨.sqlite⟩

namespace Dialect

/-- The name in messages. -/
def label : Dialect → String
  | postgres => "Postgres"
  | mysql => "Mysql"
  | sqlite => "Sqlite"

/-- The name in settings. -/
def key : Dialect → String
  | postgres => "postgres"
  | mysql => "mysql"
  | sqlite => "sqlite"

def all : List Dialect := [postgres, mysql, sqlite]

def ofKey? (s : String) : Option Dialect :=
  all.find? fun d => d.key == s

/-- The text that stands for the parameter of that number, counted from 1. -/
def placeholder (d : Dialect) (index : Nat) : String :=
  match d with
  | postgres => "$" ++ toString index
  | mysql | sqlite => "?"

/-- The character around identifiers. -/
def quoteChar : Dialect → Char
  | mysql => Char.ofNat 96
  | postgres | sqlite => Char.ofNat 34

/-- An identifier between quotes, with each quote inside written twice. -/
def quote (d : Dialect) (name : String) : String :=
  let q := d.quoteChar
  String.ofList (q :: (name.toList.flatMap fun c => if c = q then [q, q] else [c]) ++ [q])

/-- Inserts can return the generated keys. -/
def supportsReturning : Dialect → Bool
  | mysql => false
  | postgres | sqlite => true

end Dialect

end TableQuery
