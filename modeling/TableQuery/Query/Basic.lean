import TableQuery.Expr.Basic

/- Queries. A query reads a table or the rows of another query, and its clauses say what becomes of the
   rows. Steps on a clause give a new query; the query they start from can be used again. -/
namespace TableQuery

inductive Direction where
  | asc
  | desc
  deriving DecidableEq, Repr

instance : Inhabited Direction := ⟨.asc⟩

structure SortKey where
  expr : Expr
  direction : Direction

/-- Row locking that a query asks for. Optimistic modes rely on version columns, pessimistic modes on
row locks of the database. -/
inductive LockMode where
  | none
  | optimistic
  | optimisticForceIncrement
  | pessimisticRead
  | pessimisticWrite
  | pessimisticForceIncrement
  deriving DecidableEq, Repr

instance : Inhabited LockMode := ⟨.none⟩

def LockMode.all : List LockMode :=
  [none, optimistic, optimisticForceIncrement, pessimisticRead, pessimisticWrite, pessimisticForceIncrement]

def LockMode.isPessimistic : LockMode → Bool
  | pessimisticRead | pessimisticWrite | pessimisticForceIncrement => true
  | _ => false

/-- What a query returns for a row. -/
inductive Selection where
  /-- The whole record. -/
  | entity
  | scalar (e : Expr)
  /-- Several expressions, by position. -/
  | tuple (es : List Expr)

/-- The selected expressions; there are none for whole records. -/
def Selection.exprs : Selection → List Expr
  | entity => []
  | scalar e => [e]
  | tuple es => es

structure Select where
  selection : Selection
  distinct : Bool

namespace Select

def entity : Select := ⟨.entity, false⟩

def scalar (e : Expr) : Select := ⟨.scalar e, false⟩

def tuple (es : List Expr) : Select := ⟨.tuple es, false⟩

def asDistinct (s : Select) : Select := { s with distinct := true }

end Select

/-- The clauses of a query. A condition that is the constant true is absent. -/
structure Clauses where
  select : Select
  filter : Expr
  groupBy : List Expr
  having : Expr
  orderBy : List SortKey
  fetch : List FieldPath
  offset : Option Nat
  limit : Option Nat
  lock : LockMode

def Clauses.empty : Clauses where
  select := .entity
  filter := .tru
  groupBy := []
  having := .tru
  orderBy := []
  fetch := []
  offset := none
  limit := none
  lock := .none

inductive Query where
  | table (name : String) (clauses : Clauses)
  /-- Reads the rows of `inner`. -/
  | nested (inner : Query) (clauses : Clauses)

namespace Query

def ofTable (name : String) : Query :=
  table name .empty

def ofQuery (inner : Query) : Query :=
  nested inner .empty

def clauses : Query → Clauses
  | table _ c => c
  | nested _ c => c

def update (f : Clauses → Clauses) : Query → Query
  | table name c => table name (f c)
  | nested inner c => nested inner (f c)

/-- The table that the innermost query reads. -/
def rootTable : Query → String
  | table name _ => name
  | nested inner _ => inner.rootTable

/-! ## Steps on a clause -/

def withSelect (q : Query) (s : Select) : Query :=
  q.update fun c => { c with select := s }

def withFilter (q : Query) (e : Expr) : Query :=
  q.update fun c => { c with filter := e }

def andFilter (q : Query) (e : Expr) : Query :=
  q.update fun c => { c with filter := c.filter.and e }

def withGroupBy (q : Query) (es : List Expr) : Query :=
  q.update fun c => { c with groupBy := es }

def addGroupBy (q : Query) (e : Expr) : Query :=
  q.update fun c => { c with groupBy := c.groupBy ++ [e] }

def withHaving (q : Query) (e : Expr) : Query :=
  q.update fun c => { c with having := e }

def andHaving (q : Query) (e : Expr) : Query :=
  q.update fun c => { c with having := c.having.and e }

def withOrderBy (q : Query) (keys : List SortKey) : Query :=
  q.update fun c => { c with orderBy := keys }

def addOrderBy (q : Query) (key : SortKey) : Query :=
  q.update fun c => { c with orderBy := c.orderBy ++ [key] }

/-- Asks for a related record to be loaded along; a path that is there already is not added again. -/
def addFetch (q : Query) (p : FieldPath) : Query :=
  q.update fun c => { c with fetch := if c.fetch.contains p then c.fetch else c.fetch ++ [p] }

def withOffset (q : Query) (n : Option Nat) : Query :=
  q.update fun c => { c with offset := n }

def withLimit (q : Query) (n : Option Nat) : Query :=
  q.update fun c => { c with limit := n }

def withLock (q : Query) (mode : LockMode) : Query :=
  q.update fun c => { c with lock := mode }

/-! ## Derived queries -/

/-- Counting the rows of the query takes a query around it: it has a row for each group, for all rows
together or for each distinct one. -/
def countsNested (q : Query) : Bool :=
  let c := q.clauses
  c.select.distinct || !c.groupBy.isEmpty || c.having.hasAggregate || Expr.anyAggregate c.select.selection.exprs

def unpaged (q : Query) : Query :=
  q.update fun c => { c with orderBy := [], fetch := [], offset := none, limit := none, lock := .none }

/-- `COUNT(1)`, which counts rows. -/
def countOne : Expr :=
  (Expr.const (.int 1)).operate .count []

/-- Counts the rows that the query returns without paging. -/
def countQuery (q : Query) : Query :=
  if q.countsNested then (ofQuery q.unpaged).withSelect (.scalar countOne)
  else q.unpaged.withSelect (.scalar countOne)

/-- Has a row if the query returns one past the first `offset`. -/
def existQuery (q : Query) (offset : Nat) : Query :=
  let source := if q.countsNested then ofQuery q.unpaged else q.unpaged
  ((source.withSelect (.scalar (.const (.int 1)))).withOffset (if 0 < offset then some offset else none)).withLimit
    (some 1)

/-- Paging and lock replaced. -/
def listQuery (q : Query) (offset limit : Option Nat) (mode : LockMode) : Query :=
  q.update fun c => { c with offset := offset, limit := limit, lock := mode }

end Query

end TableQuery
