import TableQuery.Failure

/- Chains of conditions. Connectives take effect in the order in which they are written: `and` extends
   the open group of conditions and `or` closes it, so that a chain is a disjunction of conjunctions.
   Other groupings take a predicate of their own. -/
namespace TableQuery

structure Chain where
  /-- The groups that `or` has closed. -/
  closed : List Expr
  /-- The conditions of the open group before the current one. -/
  group : Expr
  /-- The condition that is being written. -/
  current : Expr

namespace Chain

def start (e : Expr) : Chain :=
  ⟨[], .tru, e⟩

/-- The open group with the current condition. -/
def openGroup (c : Chain) : Expr :=
  c.group.and c.current

/-- Applies an operator to the current condition. -/
def apply (c : Chain) (op : Operator) (args : List Expr) : Chain :=
  { c with current := c.current.operate op args }

def and (c : Chain) (e : Expr) : Chain :=
  ⟨c.closed, c.openGroup, e⟩

/-- Closes the open group and goes on with `e` in a new one. A group that is the constant true is
dropped. -/
def or (c : Chain) (e : Expr) : Chain :=
  ⟨if c.openGroup.isTrue then c.closed else c.closed ++ [c.openGroup], .tru, e⟩

def disjunction (e : Expr) (es : List Expr) : Expr :=
  es.foldl Expr.or e

/-- The condition that the chain stands for. -/
def merge (c : Chain) : Expr :=
  match c.closed with
  | [] => c.openGroup
  | e :: es => disjunction e (es ++ [c.openGroup])

def negate (c : Chain) : Chain :=
  start c.merge.not

/-- Goes from the path in the current condition to a field of what it leads to. -/
def navigate (c : Chain) (name : String) : Except Failure Chain :=
  match c.current with
  | .path p => .ok { c with current := .path (p.concat (.single name)) }
  | e => .error (.notNavigable name e)

end Chain

end TableQuery
