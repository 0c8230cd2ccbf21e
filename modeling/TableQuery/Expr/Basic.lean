import TableQuery.FieldPath
import TableQuery.Operator
import TableQuery.Value.Basic

/- Expressions: constants, field paths and operations. Operations are built by `operate`, which takes
   back a double negation and keeps AND, OR and IN flat. -/
namespace TableQuery

inductive Expr where
  | const (v : Value)
  | path (p : FieldPath)
  /-- An operator with its operand and its arguments, in order. -/
  | app (op : Operator) (operand : Expr) (args : List Expr)

instance : Inhabited Expr := ⟨.const .null⟩

namespace Expr

/-- The constant true, which stands for a condition that is not there. -/
def tru : Expr := const (.bool true)

/-- Applies an operator. `NOT` of `NOT x` is `x`. An operand that already applies the same multivalued
operator takes the arguments in, after its own. -/
def operate (x : Expr) (op : Operator) (args : List Expr) : Expr :=
  match op, x with
  | .not, app .not y [] => y
  | op, app inner y ys => if op.isMultivalued ∧ inner = op then app op y (ys ++ args) else app op x args
  | op, x => app op x args

def isTrue : Expr → Bool
  | const (.bool true) => true
  | _ => false

/-- Conjunction, where the constant true on either side is left out. -/
def and (x y : Expr) : Expr :=
  if x.isTrue then y else if y.isTrue then x else x.operate .and [y]

def or (x y : Expr) : Expr :=
  x.operate .or [y]

def not (x : Expr) : Expr :=
  x.operate .not []

def operator? : Expr → Option Operator
  | app op _ _ => some op
  | _ => none

/-- The expression can stand as a condition. A path can, since the type of its field is not known here. -/
def yieldsBoolean : Expr → Bool
  | const (.bool _) => true
  | const _ => false
  | path _ => true
  | app op _ _ => op.yieldsBoolean

mutual

def hasAggregate : Expr → Bool
  | const _ => false
  | path _ => false
  | app op x args => op.isAggregate || hasAggregate x || anyAggregate args

def anyAggregate : List Expr → Bool
  | [] => false
  | x :: xs => hasAggregate x || anyAggregate xs

end

mutual

/-- Equality of expressions: that of constants, of paths and of operators, throughout. -/
def beq : Expr → Expr → Bool
  | const a, const b => a == b
  | path p, path q => p == q
  | app op x xs, app op' y ys => op == op' && beq x y && beqList xs ys
  | _, _ => false

def beqList : List Expr → List Expr → Bool
  | [], [] => true
  | x :: xs, y :: ys => beq x y && beqList xs ys
  | _, _ => false

end

instance : BEq Expr := ⟨beq⟩

end Expr

end TableQuery
