import TableQuery.Filter.Chain

/- Conditions in the making. A stage holds a chain whose current expression is being shaped. Shapings
   change the expression; a test makes a condition of it and hands the chain on. -/
namespace TableQuery

/-- What shapes an expression. -/
inductive Shaping where
  | count
  | coalesce (fallback : Expr)
  | min
  | max
  | add (e : Expr)
  | sub (e : Expr)
  | mul (e : Expr)
  | div (e : Expr)
  | rem (e : Expr)
  | neg
  | sum
  | avg
  | lower
  | upper
  | trim
  | length
  /-- The part that begins at `start`, which counts from 1. -/
  | substring (start length : Int64)
  | concat (e : Expr)
  | get (name : String)

/-- What makes a condition of an expression. -/
inductive Test where
  | eq (e : Expr)
  | ne (e : Expr)
  | gt (e : Expr)
  | ge (e : Expr)
  | lt (e : Expr)
  | le (e : Expr)
  | between (low high : Expr)
  | isIn (es : List Expr)
  | isNotIn (es : List Expr)
  | isNull
  | isNotNull
  | like (pattern : String)
  | notLike (pattern : String)
  | startsWith (s : String)
  | endsWith (s : String)
  | contains (s : String)

namespace Chain

def shape (c : Chain) : Shaping → Except Failure Chain
  | .count => .ok (c.apply .count [])
  | .coalesce e => .ok (c.apply .coalesce [e])
  | .min => .ok (c.apply .min [])
  | .max => .ok (c.apply .max [])
  | .add e => .ok (c.apply .add [e])
  | .sub e => .ok (c.apply .sub [e])
  | .mul e => .ok (c.apply .mul [e])
  | .div e => .ok (c.apply .div [e])
  | .rem e => .ok (c.apply .rem [e])
  | .neg => .ok (c.apply .neg [])
  | .sum => .ok (c.apply .sum [])
  | .avg => .ok (c.apply .avg [])
  | .lower => .ok (c.apply .lower [])
  | .upper => .ok (c.apply .upper [])
  | .trim => .ok (c.apply .trim [])
  | .length => .ok (c.apply .length [])
  | .substring start length => .ok (c.apply .substring [.const (.long start), .const (.long length)])
  | .concat e => .ok (c.apply .concat [e])
  | .get name => c.navigate name

def like (c : Chain) (pattern : String) : Chain :=
  c.apply .like [.const (.text pattern)]

/-- Makes a condition of the current expression. Wildcards in the texts keep their meaning. -/
def test (c : Chain) : Test → Chain
  | .eq e => c.apply .eq [e]
  | .ne e => c.apply .ne [e]
  | .gt e => c.apply .gt [e]
  | .ge e => c.apply .ge [e]
  | .lt e => c.apply .lt [e]
  | .le e => c.apply .le [e]
  | .between low high => c.apply .between [low, high]
  | .isIn es => c.apply .isIn es
  | .isNotIn es => c.apply .isNotIn es
  | .isNull => c.apply .isNull []
  | .isNotNull => c.apply .isNotNull []
  | .like pattern => c.like pattern
  | .notLike pattern => c.apply .notLike [.const (.text pattern)]
  | .startsWith s => c.like (s ++ "%")
  | .endsWith s => c.like ("%" ++ s)
  | .contains s => c.like ("%" ++ s ++ "%")

end Chain

/-- A chain with an expression in the making, and what is built from it in the end. -/
structure Stage (α : Type) where
  chain : Chain
  resume : Chain → α

namespace Stage

variable {α : Type}

def shape (s : Stage α) (shaping : Shaping) : Except Failure (Stage α) :=
  (s.chain.shape shaping).map fun c => { s with chain := c }

def test (s : Stage α) (t : Test) : α :=
  s.resume (s.chain.test t)

end Stage

end TableQuery
