import TableQuery.Memory.Aggregate
import TableQuery.Row

/- Evaluation of expressions. An expression is evaluated over a single row, or over a group of rows that
   aggregates fold; outside an aggregate, a group stands for its first row. -/
namespace TableQuery.Memory

/-- What an expression is evaluated over. -/
inductive Scope where
  | row (r : Row)
  | group (rows : List Row)

/-- The value of a column; every column of an empty group is null. -/
def lookup (p : FieldPath) (scope : Scope) : Except Failure Value :=
  let column (r : Row) : Except Failure Value :=
    match r.get? p.leaf with
    | some v => .ok v
    | none => .error (.unknownColumn p)
  if 1 < p.length then .error (.pathInMemory p)
  else
    match scope with
    | .row r => column r
    | .group [] => .ok .null
    | .group (r :: _) => column r

mutual

def eval : Expr → Scope → Except Failure Value
  | .const v, _ => .ok v
  | .path p, scope => lookup p scope
  | .app op x args, scope =>
    if op.isAggregate then
      match scope with
      | .row _ => .error (.aggregateOverRow op)
      | .group rows => do
        let vs ← rows.mapM fun r => eval x (.row r)
        .ok (Value.aggregate op (vs.filter fun v => !v.isNull))
    else do
      let v ← eval x scope
      let vs ← evalAll args scope
      .ok (Value.applyOperator op v vs)

def evalAll : List Expr → Scope → Except Failure (List Value)
  | [], _ => .ok []
  | x :: xs, scope => do
    let v ← eval x scope
    let vs ← evalAll xs scope
    .ok (v :: vs)

end

/-- The condition holds; where it is false or unknown, it does not. -/
def satisfies (e : Expr) (scope : Scope) : Except Failure Bool :=
  (eval e scope).map Value.holds

end TableQuery.Memory
