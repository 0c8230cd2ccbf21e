import TableQuery.Dialect
import TableQuery.Value.Basic

/- Statements as pieces. A piece is text as it stands, an identifier to be quoted, or something to be
   bound; what is bound appears in the text as a placeholder only, numbered in order. -/
namespace TableQuery.Sql

inductive Piece (β : Type) where
  | raw (s : String)
  | name (s : String)
  | bound (b : β)

variable {β : Type}

/-- The text of a statement in whose pieces `index` placeholders come before these. -/
def textFrom (d : Dialect) (index : Nat) : List (Piece β) → String
  | [] => ""
  | .raw s :: ps => s ++ textFrom d index ps
  | .name s :: ps => d.quote s ++ textFrom d index ps
  | .bound _ :: ps => d.placeholder (index + 1) ++ textFrom d (index + 1) ps

def text (d : Dialect) (ps : List (Piece β)) : String :=
  textFrom d 0 ps

/-- What is bound in the pieces, in order. -/
def bindings : List (Piece β) → List β
  | [] => []
  | .bound b :: ps => b :: bindings ps
  | _ :: ps => bindings ps

/-- The lists of pieces with `separator` between them. -/
def joined (separator : String) : List (List (Piece β)) → List (Piece β)
  | [] => []
  | [ps] => ps
  | ps :: rest => ps ++ .raw separator :: joined separator rest

/-- The text of a statement and the values bound to its placeholders. -/
structure Statement where
  sql : String
  params : List Value

def Statement.ofPieces (d : Dialect) (ps : List (Piece Value)) : Statement :=
  ⟨text d ps, bindings ps⟩

end TableQuery.Sql
