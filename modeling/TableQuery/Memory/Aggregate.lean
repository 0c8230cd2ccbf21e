import TableQuery.Memory.Scalar

/- Aggregates: folds over the values of an expression on many rows, of which nulls are left out. -/
namespace TableQuery.Value

/-- The order in which rows are sorted: null comes first, and values that do not compare are even. -/
def sortOrder (a b : Value) : Ordering :=
  match a.isNull, b.isNull with
  | true, true => .eq
  | true, false => .lt
  | false, true => .gt
  | false, false => (order? a b).getD .eq

/-- The sum, or null where two of the values have none. A single value is its own sum. -/
def total : List Value → Value
  | [] => .null
  | v :: vs => (vs.foldlM (arithmetic? .add) v).getD .null

/-- The numbers among the values, added as doubles from left to right onto a negative zero, over the count
of all values. -/
def average (vs : List Value) : Value :=
  if vs.isEmpty then .null
  else double ((vs.filterMap toDouble?).foldl (· + ·) (-0.0) / Float.ofNat vs.length)

/-- The first of the values that no later one comes before. -/
def least : List Value → Value
  | [] => .null
  | v :: vs => vs.foldl (fun a b => if (sortOrder b a).isLT then b else a) v

/-- The first of the values that no later one comes after. -/
def greatest : List Value → Value
  | [] => .null
  | v :: vs => vs.foldl (fun a b => if (sortOrder b a).isGT then b else a) v

/-- Applies an aggregate to the values that are not null. -/
def aggregate (op : Operator) (vs : List Value) : Value :=
  match op with
  | .count => long (Int64.ofNat vs.length)
  | .sum => total vs
  | .avg => average vs
  | .min => least vs
  | .max => greatest vs
  | _ => .null

end TableQuery.Value
