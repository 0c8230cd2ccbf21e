import TableQuery.Memory.Eval
import TableQuery.Query.Basic

/- Queries over tables held in memory. A query keeps the source rows on which its condition holds, folds
   them into one row if it has an aggregate, and sorts and projects them otherwise; then duplicates and
   the rows outside its page go. Groups are not supported. -/
namespace TableQuery.Memory

abbrev Tables := List (String × List Row)

/-- The rows of a table; a table that is not there has none. -/
def rowsOf (tables : Tables) (name : String) : List Row :=
  (tables.lookup name).getD []

/-- Adds rows after those of a table, which is there from then on. -/
def addRows (name : String) (rows : List Row) : Tables → Tables
  | [] => [(name, rows)]
  | (n, rs) :: rest => if n = name then (n, rs ++ rows) :: rest else (n, rs) :: addRows name rows rest

def keep (e : Expr) : List Row → Except Failure (List Row)
  | [] => .ok []
  | r :: rs => do
    let here ← satisfies e (.row r)
    let rest ← keep e rs
    .ok (if here then r :: rest else rest)

/-- The name of a selected column: the field, or the text of an expression. -/
def columnName : Expr → String
  | .path p => p.leaf
  | e => e.text

def projectAll (es : List Expr) (scope : Scope) : Except Failure Row :=
  es.foldlM (fun row e => (eval e scope).map (row.push (columnName e))) .empty

def project (selection : Selection) (scope : Scope) : Except Failure Row :=
  match selection, scope with
  | .entity, .row r => .ok r
  | .entity, .group _ => .error .entityOfAggregate
  | .scalar e, _ => projectAll [e] scope
  | .tuple es, _ => projectAll es scope

/-! ## Sorting -/

/-- The order of two rows by the values of their sort keys: the first key in which they differ decides. -/
def keyOrder : List Direction → List Value → List Value → Ordering
  | dir :: dirs, x :: xs, y :: ys =>
    (match dir with
      | .asc => Value.sortOrder x y
      | .desc => Value.sortOrder y x).then (keyOrder dirs xs ys)
  | _, _, _ => .eq

/-- Puts `a` before the items at the front of a list in reverse order that come after it. -/
def insertReversed {α : Type} (order : α → α → Ordering) (a : α) : List α → List α
  | [] => [a]
  | b :: bs => if (order a b).isLT then b :: insertReversed order a bs else a :: b :: bs

def sortBy {α : Type} (order : α → α → Ordering) (as : List α) : List α :=
  (as.foldl (fun done a => insertReversed order a done) []).reverse

/-- The rows with the values of their sort keys. -/
def withKeys (keys : List SortKey) (rows : List Row) : Except Failure (List (List Value × Row)) :=
  rows.mapM fun r => (evalAll (keys.map SortKey.expr) (.row r)).map fun vs => (vs, r)

def sortRows (keys : List SortKey) (rows : List Row) : Except Failure (List Row) :=
  if keys.isEmpty then .ok rows
  else (withKeys keys rows).map fun keyed =>
    (sortBy (fun a b => keyOrder (keys.map SortKey.direction) a.1 b.1) keyed).map Prod.snd

/-! ## Evaluation -/

/-- The rows without those that equal an earlier one. -/
def dedup (rows : List Row) : List Row :=
  rows.foldl (fun done r => if done.contains r then done else done ++ [r]) []

/-- An aggregate decides on the query as a whole. -/
def isAggregated (c : Clauses) : Bool :=
  c.having.hasAggregate || Expr.anyAggregate c.select.selection.exprs

/-- The selected rows, from those on which the condition holds. -/
def selectRows (c : Clauses) (kept : List Row) : Except Failure (List Row) :=
  if isAggregated c then do
    if ← satisfies c.having (.group kept) then
      let r ← project c.select.selection (.group kept)
      .ok [r]
    else .ok []
  else if c.having.isTrue then do
    let sorted ← sortRows c.orderBy kept
    sorted.mapM fun r => project c.select.selection (.row r)
  else .error .havingWithoutAggregate

/-- The rows of the page that offset and limit describe. -/
def page (offset limit : Option Nat) (rows : List Row) : List Row :=
  let rest := rows.drop (offset.getD 0)
  match limit with
  | some n => rest.take n
  | none => rest

/-- What the clauses make of the source rows. -/
def runClauses (c : Clauses) (source : List Row) : Except Failure (List Row) := do
  let kept ← keep c.filter source
  let selected ← selectRows c kept
  .ok (page c.offset c.limit (if c.select.distinct then dedup selected else selected))

def checkGroups (c : Clauses) : Except Failure Unit :=
  if c.groupBy.isEmpty then .ok () else .error .groupingInMemory

def evaluate (tables : Tables) : Query → Except Failure (List Row)
  | .table name c => do
    checkGroups c
    runClauses c (rowsOf tables name)
  | .nested inner c => do
    checkGroups c
    let source ← evaluate tables inner
    runClauses c source

end TableQuery.Memory
