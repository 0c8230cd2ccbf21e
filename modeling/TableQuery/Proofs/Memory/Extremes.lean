import TableQuery.Proofs.Expr.NormalForm
import TableQuery.Proofs.Memory.Filtering

/- MIN and MAX are what comes first of the sorted values. Both fold the values that are not null, and replace the
   value in hand only by one that comes before it, in ascending order or in descending order (`aggregate_extreme`).
   So of values that are even, such as integers of two widths, they keep the first, which is the first as well
   once the rows are sorted (`Keeps.extreme`, `Keeps.first`). -/
namespace TableQuery

/-- The aggregate that gives what comes first in a direction. -/
def Direction.extreme : Direction → Operator
  | asc => .min
  | desc => .max

namespace Query

def extreme (q : Query) (e : Expr) (dir : Direction) : Query :=
  q.withSelect (.scalar (e.operate dir.extreme []))

/-- Selects the expression from the first row, in a direction, on which it is not null. -/
def first (q : Query) (e : Expr) (dir : Direction) : Query :=
  ((((q.andFilter (e.operate .isNotNull [])).withSelect (.scalar e)).withOrderBy [⟨e, dir⟩]).withLimit (some 1))

theorem clauses_extreme (q : Query) (e : Expr) (dir : Direction) :
    (q.extreme e dir).clauses = { q.clauses with select := .scalar (e.operate dir.extreme []) } := by
  rw [extreme, withSelect, clauses_update]

theorem clauses_first (q : Query) (e : Expr) (dir : Direction) :
    (q.first e dir).clauses =
      { q.clauses with
        select := .scalar e, filter := q.clauses.filter.and (e.operate .isNotNull []), orderBy := [⟨e, dir⟩],
        limit := some 1 } := by
  simp only [first, andFilter, withSelect, withOrderBy, withLimit, clauses_update]

@[simp] theorem source_extreme (tables : Memory.Tables) (q : Query) (e : Expr) (dir : Direction) :
    (q.extreme e dir).source tables = q.source tables := by
  rw [extreme, withSelect, source_update]

@[simp] theorem source_first (tables : Memory.Tables) (q : Query) (e : Expr) (dir : Direction) :
    (q.first e dir).source tables = q.source tables := by
  simp only [first, andFilter, withSelect, withOrderBy, withLimit, source_update]

/-- The query has neither a condition on groups nor an order nor a page. -/
structure Plain (q : Query) : Prop where
  having_eq : q.clauses.having = .tru
  orderBy_eq : q.clauses.orderBy = []
  offset_eq : q.clauses.offset = none
  limit_eq : q.clauses.limit = none

end Query

namespace Memory

open Value

variable {tables : Tables} {q : Query} {e : Expr} {dir : Direction} {source rows kept : List Row}

/-- The values of the expression on the rows, without nulls. -/
def present (e : Expr) (rows : List Row) : List Value :=
  (rows.map (valueOn e)).filter fun v => !v.isNull

/-! ## Aggregates -/

theorem aggregate_extreme (dir : Direction) (vs : List Value) :
    Value.aggregate dir.extreme vs = (earliest (directed dir) vs).getD .null := by
  cases vs with
  | nil => cases dir <;> rfl
  | cons v vs =>
    cases dir with
    | asc => rfl
    | desc =>
      have hgt : ∀ a b, (sortOrder b a).isGT = (directed .desc b a).isLT := by
        intro a b
        show (sortOrder b a).isGT = (sortOrder a b).isLT
        rw [sortOrder_swap b a, Ordering.isLT_swap]
      simp only [Direction.extreme, Value.aggregate, greatest, hgt]
      rfl

theorem operate_extreme (e : Expr) (dir : Direction) : e.operate dir.extreme [] = .app dir.extreme e [] := by
  refine Expr.operate_of_settled ⟨?_, ?_⟩ []
  all_goals cases dir <;> nofun

/-- An aggregate folds the values of its operand that are not null. -/
theorem eval_aggregate {op : Operator} (hop : op.isAggregate = true) (he : Evaluates e rows) (args : List Expr) :
    eval (.app op e args) (.group rows) = .ok (Value.aggregate op (present e rows)) := by
  have hvalues : rows.mapM (fun r => eval e (.row r)) = .ok (rows.map (valueOn e)) :=
    (mapM_ok_iff fun _ _ => eval_ok_iff).mpr ⟨he, rfl⟩
  rw [eval, if_pos hop]
  simp only [hvalues]
  rfl

theorem eval_extreme (he : Evaluates e kept) (dir : Direction) :
    eval (e.operate dir.extreme []) (.group kept) = .ok ((earliest (directed dir) (present e kept)).getD .null) := by
  have hagg : dir.extreme.isAggregate = true := by cases dir <;> rfl
  rw [operate_extreme, eval_aggregate hagg he, aggregate_extreme]

theorem Keeps.keep_eq (h : Keeps tables q kept) (hsource : q.source tables = .ok source) :
    keep q.clauses.filter source = .ok kept := by
  obtain ⟨source', hsource', hkeep⟩ := h.kept_eq
  cases hsource.symm.trans hsource'
  exact hkeep

/-- Of the kept rows, MIN and MAX give a single row. -/
theorem Keeps.extreme (h : Keeps tables q kept) (he : Evaluates e kept) (dir : Direction) :
    evaluate tables (q.extreme e dir) = .ok [⟨[columnName (e.operate dir.extreme [])],
      [(earliest (directed dir) (present e kept)).getD .null]⟩] := by
  obtain ⟨source, hsource, hkeep⟩ := h.kept_eq
  have hagg : (e.operate dir.extreme []).hasAggregate = true := by
    rw [operate_extreme]
    cases dir <;> rfl
  have hselect : selectRows (q.extreme e dir).clauses kept = .ok [⟨[columnName (e.operate dir.extreme [])],
      [(earliest (directed dir) (present e kept)).getD .null]⟩] := by
    rw [Query.clauses_extreme, selectRows_folded rfl hagg (eval_extreme he dir), h.having_eq]
    rfl
  refine evaluate_ok_iff.mpr ⟨?_, source, ?_, runClauses_ok_iff.mpr ⟨kept, _, ⟨?_, hselect⟩, ?_⟩⟩
  · rw [Query.clauses_extreme]
    exact h.groupBy_eq
  · rw [Query.source_extreme]
    exact hsource
  · rw [Query.clauses_extreme]
    exact hkeep
  · rw [Query.clauses_extreme, h.offset_eq, h.limit_eq]
    rfl

/-! ## Sorted rows -/

/-- The rows on which the expression is not null. -/
theorem isNotNull_holdsOn (he : Evaluates e source) :
    Evaluates (e.operate .isNotNull []) source ∧
      ∀ r ∈ source, holdsOn (e.operate .isNotNull []) r = !(valueOn e r).isNull := by
  have hsettled : Expr.Settled .isNotNull e := ⟨nofun, nofun⟩
  have heval : ∀ r ∈ source, eval (e.operate .isNotNull []) (.row r) = .ok (.bool !(valueOn e r).isNull) := by
    intro r hr
    rw [Expr.operate_of_settled hsettled, eval, if_neg (by exact Bool.false_ne_true), he.eval_eq hr, evalAll]
    rfl
  refine ⟨fun r hr => ⟨_, heval r hr⟩, fun r hr => ?_⟩
  rw [holdsOn, (eval_ok_iff.mp (heval r hr)).2]
  cases (valueOn e r).isNull <;> rfl

theorem project_scalar_ok_iff {r row : Row} : project (.scalar e) (.row r) = .ok row ↔
    (∃ v, eval e (.row r) = .ok v) ∧ (⟨[columnName e], [valueOn e r]⟩ : Row) = row := by
  have hproject : project (.scalar e) (.row r) = (eval e (.row r)).map fun v => ⟨[columnName e], [v]⟩ := by
    simp only [project, projectAll, List.foldlM_cons, List.foldlM_nil]
    cases eval e (.row r) <;> rfl
  rw [hproject, map_ok]
  constructor
  · rintro ⟨v, hv, rfl⟩
    obtain ⟨hr, rfl⟩ := eval_ok_iff.mp hv
    exact ⟨hr, rfl⟩
  · rintro ⟨hr, rfl⟩
    exact ⟨_, eval_ok_iff.mpr ⟨hr, rfl⟩, rfl⟩

/-- Sorted by one key, the rows begin with the one whose value comes first. -/
theorem sortBy_take_one (hsort : Sortable (rows.map (valueOn e))) (dir : Direction) (f : Value → Row) :
    ((sortBy (rowOrder [⟨e, dir⟩]) rows).map fun r => f (valueOn e r)).take 1 =
      (earliest (directed dir) (rows.map (valueOn e))).toList.map f := by
  have horder : rowOrder [⟨e, dir⟩] = fun r s => directed dir (valueOn e r) (valueOn e s) := by
    funext r s
    exact (keyOrder_cons _ _ _ _ _ _).trans Ordering.then_eq
  have hpreorder : PreorderOn (rowOrder [⟨e, dir⟩]) rows := rowOrder_preorderOn (List.forall_mem_singleton.mpr hsort)
  rw [List.take_one, List.head?_map, sortBy_head? hpreorder, horder, earliest_map, ← Option.toList_map, Option.map_map]
  rfl

/-- The values of the sort key itself, in order. -/
theorem selectRows_ranked {c : Clauses} (hselect : c.select = .scalar e) (hhaving : c.having = .tru)
    (horder : c.orderBy = [⟨e, dir⟩]) (hagg : e.hasAggregate = false) (he : Evaluates e rows) :
    selectRows c rows =
      .ok ((sortBy (rowOrder [⟨e, dir⟩]) rows).map fun r => ⟨[columnName e], [valueOn e r]⟩) := by
  have hplain : isAggregated c = false := by
    rw [isAggregated, hselect, hhaving]
    show (false || (e.hasAggregate || false)) = false
    rw [hagg]
    rfl
  have hsorted : Evaluates e (sortBy (rowOrder [⟨e, dir⟩]) rows) :=
    he.subset fun r hr => (sortBy_perm _ rows).mem_iff.mp hr
  refine (selectRows_ok_iff hplain).mpr ⟨hhaving, sortBy (rowOrder [⟨e, dir⟩]) rows, ?_, ?_⟩
  · rw [horder]
    exact sortRows_ok_iff.mpr ⟨List.forall_mem_singleton.mpr he, rfl⟩
  · rw [hselect]
    exact (mapM_ok_iff fun _ _ => project_scalar_ok_iff).mpr ⟨hsorted, rfl⟩

/-- Of the kept rows on which the expression is not null, the first in a direction has the value that MIN or MAX
gives. -/
theorem Keeps.first (h : Keeps tables q kept) (hsource : q.source tables = .ok source)
    (hagg : e.hasAggregate = false) (he : Evaluates e source) (hkind : OneKind (source.map (valueOn e)))
    (dir : Direction) : evaluate tables (q.first e dir) =
      .ok ((earliest (directed dir) (present e kept)).toList.map fun v => ⟨[columnName e], [v]⟩) := by
  have hkeep := h.keep_eq hsource
  have hkept := keep_subset hkeep
  obtain ⟨heval, hholds⟩ := isNotNull_holdsOn he
  let rest := kept.filter (holdsOn (e.operate .isNotNull []))
  have hrest : ∀ r ∈ rest, r ∈ source := fun r hr => hkept r (List.mem_filter.mp hr).1
  have hvalues : rest.map (valueOn e) = present e kept := by
    rw [present, List.filter_map]
    exact congrArg _ (List.filter_congr fun r hr => hholds r (hkept r hr))
  have hsort : Sortable (rest.map (valueOn e)) := by
    refine (hkind.subset fun v hv => ?_).sortable
    obtain ⟨r, hr, rfl⟩ := List.mem_map.mp hv
    exact List.mem_map_of_mem (hrest r hr)
  have hselect : selectRows (q.first e dir).clauses rest =
      .ok ((sortBy (rowOrder [⟨e, dir⟩]) rest).map fun r => ⟨[columnName e], [valueOn e r]⟩) := by
    rw [Query.clauses_first]
    exact selectRows_ranked rfl h.having_eq rfl hagg (he.subset hrest)
  refine evaluate_ok_iff.mpr ⟨?_, source, ?_, runClauses_ok_iff.mpr ⟨rest, _, ⟨?_, hselect⟩, ?_⟩⟩
  · rw [Query.clauses_first]
    exact h.groupBy_eq
  · rw [Query.source_first]
    exact hsource
  · rw [Query.clauses_first]
    exact keep_and hkeep heval
  · rw [Query.clauses_first, h.offset_eq, ← hvalues, ← sortBy_take_one hsort dir fun v => ⟨[columnName e], [v]⟩]
    rfl

/-! ## Queries -/

/-- A query that gives rows has read its source and kept some of them. -/
theorem plain_keeps (hq : q.Plain) (h : evaluate tables q = .ok rows) : ∃ kept, Keeps tables q kept := by
  obtain ⟨hgroups, source, hsource, hrun⟩ := evaluate_ok_iff.mp h
  obtain ⟨kept, _, ⟨hkeep, _⟩, _⟩ := runClauses_ok_iff.mp hrun
  exact ⟨kept, hgroups, hq.having_eq, hq.orderBy_eq, hq.offset_eq, hq.limit_eq, source, hsource, hkeep⟩

/-- For an expression without aggregates that can be evaluated on all source rows, with values that are null or of one
kind, MIN gives one row. It has the value that comes first where the query selects the expression instead, from the
rows on which it is not null, in ascending order and with a limit of one; or null, if that query gives no row.
With MAX it is the same in descending order. -/
theorem extreme_is_first_sorted (tables : Tables) (q : Query) (e : Expr) (source rows : List Row) (dir : Direction)
    (hq : q.Plain) (hrows : evaluate tables q = .ok rows) (hsource : q.source tables = .ok source)
    (hagg : e.hasAggregate = false) (he : Evaluates e source) (hkind : OneKind (source.map (valueOn e))) :
    ∃ v? : Option Value,
      evaluate tables (q.first e dir) = .ok (v?.toList.map fun v => ⟨[columnName e], [v]⟩) ∧
      evaluate tables (q.extreme e dir) = .ok [⟨[columnName (e.operate dir.extreme [])], [v?.getD .null]⟩] := by
  obtain ⟨kept, hkeeps⟩ := plain_keeps hq hrows
  have hkept : Evaluates e kept := he.subset (keep_subset (hkeeps.keep_eq hsource))
  exact ⟨_, hkeeps.first hsource hagg he hkind dir, hkeeps.extreme hkept dir⟩

/-- The rank of a task. -/
def rank : Expr :=
  .path (.single "rank")

/-- Two tasks have the least rank, of which MIN gives the value of the first. -/
theorem extreme_is_first_sorted_tasks :
    evaluate tasks (openTasks.extreme rank .asc) = .ok [⟨["MIN(rank)"], [.int 2]⟩] ∧
    evaluate tasks (openTasks.extreme rank .desc) = .ok [⟨["MAX(rank)"], [.long 3]⟩] ∧
    ∀ dir, ∃ v? : Option Value,
      evaluate tasks (openTasks.first rank dir) = .ok (v?.toList.map fun v => ⟨["rank"], [v]⟩) ∧
      evaluate tasks (openTasks.extreme rank dir) =
        .ok [⟨[columnName (rank.operate dir.extreme [])], [v?.getD .null]⟩] :=
  have hplain : openTasks.Plain := ⟨rfl, rfl, rfl, rfl⟩
  have hrows : evaluate tasks openTasks = .ok ((rowsOf tasks "tasks").take 4) := by rfl
  have heval : Evaluates rank (rowsOf tasks "tasks") := (keep_ok_iff.mp (by rfl)).1
  have hkind : OneKind [.int 2, .null, .long 3, .long 2, .int 4] := ⟨.integer, by decide⟩
  ⟨by rfl, by rfl, fun dir => extreme_is_first_sorted tasks openTasks rank (rowsOf tasks "tasks") _ dir hplain hrows rfl
    rfl heval hkind⟩

end Memory

end TableQuery
