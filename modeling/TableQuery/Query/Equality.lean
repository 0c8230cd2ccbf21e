import TableQuery.Query.Basic

/- Equality of queries: that of expressions and of paths, clause by clause. -/
namespace TableQuery

instance : BEq SortKey := ⟨fun a b => a.expr == b.expr && a.direction == b.direction⟩

namespace Selection

def beq : Selection → Selection → Bool
  | entity, entity => true
  | scalar a, scalar b => a == b
  | tuple as, tuple bs => Expr.beqList as bs
  | _, _ => false

instance : BEq Selection := ⟨beq⟩

end Selection

instance : BEq Select := ⟨fun a b => a.selection == b.selection && a.distinct == b.distinct⟩

namespace Clauses

def beq (a b : Clauses) : Bool :=
  a.select == b.select && a.filter == b.filter && Expr.beqList a.groupBy b.groupBy && a.having == b.having &&
    a.orderBy == b.orderBy && a.fetch == b.fetch && a.offset == b.offset && a.limit == b.limit && a.lock == b.lock

instance : BEq Clauses := ⟨beq⟩

end Clauses

namespace Query

def beq : Query → Query → Bool
  | table a c, table b d => a == b && c == d
  | nested a c, nested b d => beq a b && c == d
  | _, _ => false

instance : BEq Query := ⟨beq⟩

end Query

end TableQuery
