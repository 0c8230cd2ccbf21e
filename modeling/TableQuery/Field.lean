import TableQuery.Query.Basic

/- Fields of records: what queries select, filter, group and sort by. -/
namespace TableQuery

structure Field where
  name : String

namespace Field

def path (f : Field) : FieldPath :=
  .single f.name

def expr (f : Field) : Expr :=
  .path f.path

def ascending (f : Field) : SortKey :=
  ⟨f.expr, .asc⟩

def descending (f : Field) : SortKey :=
  ⟨f.expr, .desc⟩

/-- Counts the records in which the field is not null. -/
def count (f : Field) : Expr :=
  f.expr.operate .count []

/-- The field, or `fallback` where it is null. -/
def coalesce (f : Field) (fallback : Expr) : Expr :=
  f.expr.operate .coalesce [fallback]

def min (f : Field) : Expr :=
  f.expr.operate .min []

def max (f : Field) : Expr :=
  f.expr.operate .max []

def sum (f : Field) : Expr :=
  f.expr.operate .sum []

def avg (f : Field) : Expr :=
  f.expr.operate .avg []

def lower (f : Field) : Expr :=
  f.expr.operate .lower []

def upper (f : Field) : Expr :=
  f.expr.operate .upper []

def length (f : Field) : Expr :=
  f.expr.operate .length []

end Field

end TableQuery
