import TableQuery.Field
import TableQuery.Filter.Predicate

/- Building queries step by step. A builder holds a query and at most one open chain of conditions, which
   belongs to the filter or to the condition on groups. Each step gives a new builder; the one it starts
   from can be used again. -/
namespace TableQuery

inductive ConditionClause where
  | filter
  | having
  deriving DecidableEq, Repr

structure OpenChain where
  clause : ConditionClause
  chain : Chain

structure Builder where
  /-- The query without the open chain. -/
  base : Query
  pending : Option OpenChain

namespace Builder

def ofQuery (q : Query) : Builder :=
  ⟨q, none⟩

/-- The query with the open chain taken in. -/
def query (b : Builder) : Query :=
  match b.pending with
  | none => b.base
  | some ⟨.filter, c⟩ => b.base.andFilter c.merge
  | some ⟨.having, c⟩ => b.base.andHaving c.merge

def pendingClause (b : Builder) : Option ConditionClause :=
  b.pending.map OpenChain.clause

/-- A step on the clauses other than the conditions. -/
def update (b : Builder) (f : Query → Query) : Builder :=
  ⟨f b.base, b.pending⟩

/-- A stage for `clause` whose test gives a builder over `base`. -/
def stage (base : Query) (clause : ConditionClause) (c : Chain) : Stage Builder :=
  ⟨c, fun c => ⟨base, some ⟨clause, c⟩⟩⟩

/-! ## Conditions -/

/-- Opens a new chain, which is added to the filter. -/
def filter (b : Builder) (e : Expr) : Stage Builder :=
  stage b.query .filter (.start e)

/-- Opens a new chain, which is added to the condition on groups. -/
def having (b : Builder) (e : Expr) : Stage Builder :=
  stage b.query .having (.start e)

/-- The open chain and the query without it. Where no chain is open, the filter of the query becomes
one. -/
def continuation (b : Builder) : Query × OpenChain :=
  match b.pending with
  | some p => (b.base, p)
  | none => (b.base.withFilter .tru, ⟨.filter, .start b.base.clauses.filter⟩)

/-- Goes on with a test of `e` in the open group. -/
def and (b : Builder) (e : Expr) : Stage Builder :=
  let (base, p) := b.continuation
  stage base p.clause (p.chain.and e)

/-- Goes on with a test of `e` in a new group. -/
def or (b : Builder) (e : Expr) : Stage Builder :=
  let (base, p) := b.continuation
  stage base p.clause (p.chain.or e)

/-- A whole predicate as the next condition of the open group. -/
def andWhere (b : Builder) (p : Predicate) : Builder :=
  let (base, o) := b.continuation
  ⟨base, some ⟨o.clause, o.chain.and p.build⟩⟩

/-- A whole predicate as the first condition of a new group. -/
def orWhere (b : Builder) (p : Predicate) : Builder :=
  let (base, o) := b.continuation
  ⟨base, some ⟨o.clause, o.chain.or p.build⟩⟩

/-- The opposite of the open chain, or of the filter where no chain is open. A builder without either
stays as it is: no filter lets every row pass, and so does its opposite. -/
def not (b : Builder) : Builder :=
  if b.pending.isNone ∧ b.base.clauses.filter.isTrue then b
  else
    let (base, o) := b.continuation
    ⟨base, some ⟨o.clause, o.chain.negate⟩⟩

/-- Takes in the open chain and adds a whole predicate to the filter. -/
def filterBy (b : Builder) (p : Predicate) : Builder :=
  ofQuery (b.query.andFilter p.build)

/-! ## Other clauses -/

def select (b : Builder) (s : Select) : Builder :=
  b.update (·.withSelect s)

def selectDistinct (b : Builder) (s : Select) : Builder :=
  b.update (·.withSelect s.asDistinct)

def groupBy (b : Builder) (e : Expr) : Builder :=
  b.update (·.addGroupBy e)

def orderBy (b : Builder) (key : SortKey) : Builder :=
  b.update (·.addOrderBy key)

/-- Loads the record behind a field along. -/
def fetch (b : Builder) (f : Field) : Builder :=
  b.update (·.addFetch f.path)

def offset (b : Builder) (n : Nat) : Builder :=
  b.update (·.withOffset (some n))

def limit (b : Builder) (n : Nat) : Builder :=
  b.update (·.withLimit (some n))

def lock (b : Builder) (mode : LockMode) : Builder :=
  b.update (·.withLock mode)

end Builder

end TableQuery
