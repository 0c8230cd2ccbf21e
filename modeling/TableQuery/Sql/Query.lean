import TableQuery.Query.Basic
import TableQuery.Sql.Expr

/- Queries in SQL. A nested query is named after its depth, so that all names differ. Eager fetches would
   need joins, which are not written. -/
namespace TableQuery.Sql

/-- The pieces of the expressions, with commas between them. -/
def listPieces (d : Dialect) (es : List Expr) : Except Failure (List (Piece Value)) :=
  (es.mapM (pieces d)).map (joined ", ")

def selectPieces (d : Dialect) (s : Select) : Except Failure (List (Piece Value)) := do
  let selected ←
    match s.selection with
    | .entity => .ok [.raw "*"]
    | .scalar e => pieces d e
    | .tuple es => listPieces d es
  .ok (.raw (if s.distinct then "SELECT DISTINCT " else "SELECT ") :: selected)

/-- A condition after its keyword; the constant true is left out. -/
def conditionPieces (d : Dialect) (keyword : String) (e : Expr) : Except Failure (List (Piece Value)) :=
  if e.isTrue then .ok [] else (pieces d e).map (.raw keyword :: ·)

def groupPieces (d : Dialect) (es : List Expr) : Except Failure (List (Piece Value)) :=
  if es.isEmpty then .ok [] else (listPieces d es).map (.raw " GROUP BY " :: ·)

def keyPieces (d : Dialect) (k : SortKey) : Except Failure (List (Piece Value)) :=
  (pieces d k.expr).map fun ps =>
    ps ++ [.raw (match k.direction with | .asc => " ASC" | .desc => " DESC")]

def orderPieces (d : Dialect) (keys : List SortKey) : Except Failure (List (Piece Value)) :=
  if keys.isEmpty then .ok []
  else (keys.mapM (keyPieces d)).map fun ps => .raw " ORDER BY " :: joined ", " ps

/-- Limit and offset. An offset alone is no valid text in SQLite and MySQL, where a limit that limits
nothing is written before it. -/
def pagingText (d : Dialect) (offset limit : Option Nat) : String :=
  (match limit, offset with
    | some n, _ => " LIMIT " ++ toString n
    | none, some _ =>
      match d with
      | .sqlite => " LIMIT -1"
      | .mysql => " LIMIT 18446744073709551615"
      | .postgres => ""
    | none, none => "") ++
  match offset with
  | some n => " OFFSET " ++ toString n
  | none => ""

/-- Row locks; SQLite has none. -/
def lockText (d : Dialect) (mode : LockMode) : String :=
  if mode.isPessimistic ∧ d ≠ .sqlite then
    if mode = .pessimisticRead then " FOR SHARE" else " FOR UPDATE"
  else ""

def tailPieces (d : Dialect) (c : Clauses) : Except Failure (List (Piece Value)) := do
  let filter ← conditionPieces d " WHERE " c.filter
  let groups ← groupPieces d c.groupBy
  let having ← conditionPieces d " HAVING " c.having
  let order ← orderPieces d c.orderBy
  .ok (filter ++ groups ++ having ++ order ++ [.raw (pagingText d c.offset c.limit ++ lockText d c.lock)])

/-- The selection, after a look at the fetches. -/
def headPieces (d : Dialect) (c : Clauses) : Except Failure (List (Piece Value)) :=
  if c.fetch.isEmpty then selectPieces d c.select else .error (.eagerFetch c.fetch.length)

def nestedName (depth : Nat) : String :=
  "q" ++ toString depth

/-- The pieces of a query that stands inside `depth` others. -/
def queryPieces (d : Dialect) (depth : Nat) : Query → Except Failure (List (Piece Value))
  | .table name c => do
    let head ← headPieces d c
    let tail ← tailPieces d c
    .ok (head ++ [.raw " FROM ", .name name] ++ tail)
  | .nested inner c => do
    let head ← headPieces d c
    let source ← queryPieces d (depth + 1) inner
    let tail ← tailPieces d c
    .ok (head ++ .raw " FROM (" :: source ++ [.raw ") AS ", .name (nestedName depth)] ++ tail)

/-- A query as a statement with bound parameters. -/
def render (d : Dialect) (q : Query) : Except Failure Statement :=
  (queryPieces d 0 q).map (Statement.ofPieces d)

end TableQuery.Sql
