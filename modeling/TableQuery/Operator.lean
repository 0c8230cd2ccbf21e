/- The operators of expressions: how each is written, how tightly it binds and what it yields. The
   layout and the precedence decide where an operand needs parentheses. -/
namespace TableQuery

inductive Operator where
  | not
  | and
  | or
  | eq
  | ne
  | gt
  | ge
  | lt
  | le
  | like
  | notLike
  | isIn
  | isNotIn
  | between
  | isNull
  | isNotNull
  | add
  | sub
  | mul
  | div
  | rem
  | neg
  | lower
  | upper
  | trim
  | length
  | substring
  | concat
  | coalesce
  | count
  | sum
  | avg
  | min
  | max
  deriving DecidableEq, Repr

/-- Where the sign of an operator stands. -/
inductive Layout where
  /-- `NOT x`, `-x` -/
  | before
  /-- `x IS NULL` -/
  | after
  /-- `a = b`, `a AND b AND c` -/
  | infixed
  /-- `LOWER(x)`, `COALESCE(a, b)` -/
  | call
  /-- `x IN (a, b, c)` -/
  | list
  /-- `x BETWEEN a AND b` -/
  | range
  deriving DecidableEq, Repr

/-- The arguments are written, and not the operand alone. -/
def Layout.writesArguments : Layout → Bool
  | before | after => false
  | infixed | call | list | range => true

namespace Operator

/-- All operators, in the order of their declaration. -/
def all : List Operator :=
  [not, and, or, eq, ne, gt, ge, lt, le, like, notLike, isIn, isNotIn, between, isNull, isNotNull, add, sub,
    mul, div, rem, neg, lower, upper, trim, length, substring, concat, coalesce, count, sum, avg, min, max]

def sign : Operator → String
  | not => "NOT"
  | and => "AND"
  | or => "OR"
  | eq => "="
  | ne => "<>"
  | gt => ">"
  | ge => ">="
  | lt => "<"
  | le => "<="
  | like => "LIKE"
  | notLike => "NOT LIKE"
  | isIn => "IN"
  | isNotIn => "NOT IN"
  | between => "BETWEEN"
  | isNull => "IS NULL"
  | isNotNull => "IS NOT NULL"
  | add => "+"
  | sub => "-"
  | mul => "*"
  | div => "/"
  | rem => "%"
  | neg => "-"
  | lower => "LOWER"
  | upper => "UPPER"
  | trim => "TRIM"
  | length => "LENGTH"
  | substring => "SUBSTR"
  | concat => "CONCAT"
  | coalesce => "COALESCE"
  | count => "COUNT"
  | sum => "SUM"
  | avg => "AVG"
  | min => "MIN"
  | max => "MAX"

/-- The smaller, the tighter the operator binds; functions have 0. -/
def precedence : Operator → Nat
  | neg => 2
  | mul | div | rem => 3
  | add | sub => 4
  | gt | ge | lt | le => 6
  | eq | ne => 7
  | like | notLike | isIn | isNotIn | between | isNull | isNotNull => 8
  | not => 10
  | and => 11
  | or => 13
  | _ => 0

def layout : Operator → Layout
  | not | neg => .before
  | isNull | isNotNull => .after
  | isIn | isNotIn => .list
  | between => .range
  | op => if op.precedence = 0 then .call else .infixed

/-- Applied to its own result, the operator takes the new arguments into the one operation. -/
def isMultivalued : Operator → Bool
  | and | or | isIn => true
  | _ => false

/-- The operator folds many rows into one value. -/
def isAggregate : Operator → Bool
  | count | sum | avg | min | max => true
  | _ => false

/-- The operator compares its operands: it is relational, an equality, or a test of pattern,
membership, range or null. -/
def isComparison (op : Operator) : Bool :=
  6 ≤ op.precedence && op.precedence ≤ 8

def yieldsBoolean : Operator → Bool
  | not | and | or | eq | ne | gt | ge | lt | le | like | notLike | isIn | isNotIn | between | isNull
  | isNotNull => true
  | _ => false

/-- A child operation needs parentheses under this operator. It does when it binds looser, when both
compare, since comparisons do not associate, and when it is an argument that binds equally to an
infixed operator that does not take it in, as in `a - (b - c)`. Arguments of functions and members
of lists are delimited already. -/
def wraps (op child : Operator) (asArgument : Bool) : Bool :=
  match op.layout, asArgument with
  | .call, _ => false
  | .list, true => false
  | _, _ =>
    decide (op.precedence < child.precedence) || (op.isComparison && child.isComparison) ||
      (asArgument && child.precedence == op.precedence && op.layout == .infixed && !op.isMultivalued)

/-- The operator that tests the opposite condition. -/
def negated? : Operator → Option Operator
  | eq => some ne
  | ne => some eq
  | like => some notLike
  | notLike => some like
  | isIn => some isNotIn
  | isNotIn => some isIn
  | isNull => some isNotNull
  | isNotNull => some isNull
  | _ => none

end Operator

end TableQuery
