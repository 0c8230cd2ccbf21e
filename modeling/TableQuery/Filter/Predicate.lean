import TableQuery.Filter.Stage

/- Conditions that stand on their own, built by the rules of chains. -/
namespace TableQuery

structure Predicate where
  chain : Chain

namespace Predicate

def start (e : Expr) : Stage Predicate :=
  ⟨.start e, .mk⟩

/-- Goes on with a test of `e` in the open group. -/
def and (p : Predicate) (e : Expr) : Stage Predicate :=
  ⟨p.chain.and e, .mk⟩

/-- Goes on with a test of `e` in a new group. -/
def or (p : Predicate) (e : Expr) : Stage Predicate :=
  ⟨p.chain.or e, .mk⟩

def build (p : Predicate) : Expr :=
  p.chain.merge

/-- A whole predicate as the next condition of the open group. -/
def andWhere (p q : Predicate) : Predicate :=
  ⟨p.chain.and q.build⟩

/-- A whole predicate as the first condition of a new group. -/
def orWhere (p q : Predicate) : Predicate :=
  ⟨p.chain.or q.build⟩

def not (p : Predicate) : Predicate :=
  ⟨p.chain.negate⟩

/-- An expression as a predicate, if it can stand as a condition. -/
def ofExpr (e : Expr) : Except Failure Predicate :=
  if e.yieldsBoolean then .ok ⟨.start e⟩ else .error (.notBoolean e)

end Predicate

end TableQuery
