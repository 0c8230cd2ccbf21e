import TableQuery.Expr.Text
import TableQuery.Query.Basic

/- The text of queries. Clauses that are not there are left out. -/
namespace TableQuery

def Direction.text : Direction → String
  | asc => "asc"
  | desc => "desc"

def LockMode.text : LockMode → String
  | none => "NONE"
  | optimistic => "OPTIMISTIC"
  | optimisticForceIncrement => "OPTIMISTIC_FORCE_INCREMENT"
  | pessimisticRead => "PESSIMISTIC_READ"
  | pessimisticWrite => "PESSIMISTIC_WRITE"
  | pessimisticForceIncrement => "PESSIMISTIC_FORCE_INCREMENT"

def SortKey.text (k : SortKey) : String :=
  k.expr.text ++ " " ++ k.direction.text

def Select.text (s : Select) : String :=
  (if s.distinct then "distinct " else "") ++
    match s.selection with
    | .entity => "*"
    | .scalar e => e.text
    | .tuple es => ", ".intercalate (es.map Expr.text)

namespace Clauses

/-- The clauses after the keyword for selection, around the text of the source. -/
def text (c : Clauses) (source : String) : String :=
  let list (keyword : String) (items : List String) :=
    if items.isEmpty then "" else keyword ++ ", ".intercalate items
  let condition (keyword : String) (e : Expr) := if e.isTrue then "" else keyword ++ e.text
  let number (keyword : String) : Option Nat → String
    | none => ""
    | some n => keyword ++ toString n
  c.select.text ++ list " fetch " (c.fetch.map FieldPath.identity) ++ " from " ++ source ++
    condition " where " c.filter ++ list " group by " (c.groupBy.map Expr.text) ++ condition " having " c.having ++
    list " orderBy " (c.orderBy.map SortKey.text) ++ number " offset " c.offset ++ number " limit " c.limit ++
    if c.lock = .none then "" else " lock(" ++ c.lock.text ++ ")"

end Clauses

/-- A nested query stands between parentheses. -/
def Query.text : Query → String
  | .table name c => "select " ++ c.text name
  | .nested inner c => "select " ++ c.text ("(" ++ inner.text ++ ")")

end TableQuery
