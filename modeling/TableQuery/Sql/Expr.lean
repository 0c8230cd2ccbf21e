import TableQuery.Failure
import TableQuery.Sql.Piece

/- Expressions in SQL. The layout is that of the text of expressions, but for three things: a list of
   no members is written as a condition that is false or true, concatenation is an operator except in
   MySQL, and nothing that may begin with a minus sign follows one. -/
namespace TableQuery.Sql

/-- Null, booleans and integers are written out; everything else is bound. -/
def value (v : Value) : Piece Value :=
  match v with
  | .null | .bool _ | .int _ | .long _ => .raw v.literal
  | _ => .bound v

/-- The child needs parentheses under `op`. -/
def needsParens (op : Operator) (asArgument : Bool) : Expr → Bool
  | .app inner _ _ => op.wraps inner asArgument || (op == .neg && inner == .neg)
  | .const _ => op == .neg
  | .path _ => false

/-- What an operation without arguments is replaced by, if it tests membership in a list. -/
def emptyList? (op : Operator) (args : List Expr) : Option String :=
  if args.isEmpty then
    match op with
    | .isIn => some "1 = 0"
    | .isNotIn => some "1 = 1"
    | _ => none
  else none

section

variable {β : Type}

/-- Parentheses around the pieces of the child, if it needs them. -/
def wrapped (op : Operator) (asArgument : Bool) (child : Expr) (ps : List (Piece β)) : List (Piece β) :=
  if needsParens op asArgument child then .raw "(" :: ps ++ [.raw ")"] else ps

/-- Sign, operand and arguments in the layout of the operator. -/
def arrange (d : Dialect) (op : Operator) (operand : List (Piece β)) (args : List (List (Piece β))) :
    List (Piece β) :=
  if op = .concat ∧ d ≠ .mysql then .raw "(" :: joined " || " (operand :: args) ++ [.raw ")"]
  else
    match op.layout with
    | .before => .raw (op.sign ++ if op = .not then " " else "") :: operand
    | .after => operand ++ [.raw (" " ++ op.sign)]
    | .infixed => joined (" " ++ op.sign ++ " ") (operand :: args)
    | .call => .raw (op.sign ++ "(") :: joined ", " (operand :: args) ++ [.raw ")"]
    | .list => operand ++ .raw (" " ++ op.sign ++ " (") :: joined ", " args ++ [.raw ")"]
    | .range => operand ++ .raw (" " ++ op.sign ++ " ") :: joined " AND " args

end

mutual

/-- The pieces of an expression. A path of several names would need a join. Arguments that the layout does
not write are not looked at. -/
def pieces (d : Dialect) : Expr → Except Failure (List (Piece Value))
  | .const v => .ok [value v]
  | .path p => if 1 < p.length then .error (.pathNeedsJoin p) else .ok [.name p.leaf]
  | .app op x args =>
    match emptyList? op args with
    | some s => .ok [.raw s]
    | none => do
      let operand ← pieces d x
      let args ← if op.layout.writesArguments then argPieces d op args else .ok []
      .ok (arrange d op (wrapped op false x operand) args)

def argPieces (d : Dialect) (op : Operator) : List Expr → Except Failure (List (List (Piece Value)))
  | [] => .ok []
  | x :: xs => do
    let ps ← pieces d x
    let rest ← argPieces d op xs
    .ok (wrapped op true x ps :: rest)

end

def renderExpr (d : Dialect) (e : Expr) : Except Failure Statement :=
  (pieces d e).map (Statement.ofPieces d)

end TableQuery.Sql
