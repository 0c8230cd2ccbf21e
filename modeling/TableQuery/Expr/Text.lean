import TableQuery.Expr.Basic
import TableQuery.Value.Literal

/- The text of expressions, with as few parentheses as the precedence of the operators needs. -/
namespace TableQuery.Expr

/-- Parentheses around `s`, if the child that it is the text of needs them under `op`. -/
def wrapped (op : Operator) (asArgument : Bool) (child : Expr) (s : String) : String :=
  match child with
  | app inner _ _ => if op.wraps inner asArgument then "(" ++ s ++ ")" else s
  | _ => s

/-- Sign, operand and arguments in the layout of the operator. -/
def arrange (op : Operator) (operand : String) (args : List String) : String :=
  match op.layout with
  | .before => op.sign ++ (if op = .not then " " else "") ++ operand
  | .after => operand ++ " " ++ op.sign
  | .infixed => (" " ++ op.sign ++ " ").intercalate (operand :: args)
  | .call => op.sign ++ "(" ++ ", ".intercalate (operand :: args) ++ ")"
  | .list => operand ++ " " ++ op.sign ++ " (" ++ ", ".intercalate args ++ ")"
  | .range => operand ++ " " ++ op.sign ++ " " ++ " AND ".intercalate args

mutual

def text : Expr → String
  | const v => v.literal
  | path p => p.identity
  | app op x args => arrange op (wrapped op false x (text x)) (argTexts op args)

def argTexts (op : Operator) : List Expr → List String
  | [] => []
  | x :: xs => wrapped op true x (text x) :: argTexts op xs

end

end TableQuery.Expr
