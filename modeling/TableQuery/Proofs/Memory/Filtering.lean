import TableQuery.Proofs.Memory.Counting
import TableQuery.Proofs.Memory.Stability

/- A further condition only leaves out rows:

     1. `keep_ok_iff`: the rows that are kept are those on which the condition holds, if it can be evaluated on all.
        Of two conditions joined by AND, both hold (`holdsOn_and`).
     2. `sortRows_ok_iff`: rows are sorted by the values of their sort keys, if these can be evaluated. Where the
        values of each key can be sorted, this is a total preorder (`rowOrder_preorderOn`), so that leaving out rows
        before they are sorted and after it is the same.
     3. `condition_leaves_out_rows`: the condition can be added to a query for whole records, or to a query around
        it. -/
namespace TableQuery

namespace Query

/-- The query is for whole records, also if some are equal, without a condition on groups and a page. -/
structure ForRecords (q : Query) : Prop where
  select_eq : q.clauses.select = .entity
  having_eq : q.clauses.having = .tru
  offset_eq : q.clauses.offset = none
  limit_eq : q.clauses.limit = none

theorem ForRecords.andFilter {q : Query} (h : q.ForRecords) (p : Expr) : (q.andFilter p).ForRecords := by
  obtain ⟨hselect, hhaving, hoffset, hlimit⟩ := h
  constructor
  all_goals simp only [Query.andFilter, clauses_update]
  · exact hselect
  · exact hhaving
  · exact hoffset
  · exact hlimit

theorem forRecords_ofQuery (q : Query) : (ofQuery q).ForRecords :=
  ⟨rfl, rfl, rfl, rfl⟩

end Query

namespace Memory

open Value

/-! ## Rows on which a condition holds -/

/-- The value of an expression on a row. It is null where the expression cannot be evaluated. -/
def valueOn (e : Expr) (r : Row) : Value :=
  match eval e (.row r) with
  | .ok v => v
  | .error _ => .null

/-- The condition holds on the row. -/
def holdsOn (e : Expr) (r : Row) : Bool :=
  (valueOn e r).holds

/-- The expression can be evaluated on each of the rows. -/
def Evaluates (e : Expr) (rows : List Row) : Prop :=
  ∀ r ∈ rows, ∃ v, eval e (.row r) = .ok v

variable {tables : Tables} {q : Query} {p e x y : Expr} {r : Row} {v : Value} {source rows kept sorted : List Row}

theorem eval_ok_iff : eval e (.row r) = .ok v ↔ (∃ w, eval e (.row r) = .ok w) ∧ valueOn e r = v := by
  constructor
  · intro h
    rw [valueOn, h]
    exact ⟨⟨v, rfl⟩, rfl⟩
  · rintro ⟨⟨w, hw⟩, rfl⟩
    rw [valueOn, hw]

theorem Evaluates.eval_eq (h : Evaluates e rows) (hr : r ∈ rows) : eval e (.row r) = .ok (valueOn e r) :=
  eval_ok_iff.mpr ⟨h r hr, rfl⟩

theorem Evaluates.subset (h : Evaluates e rows) (hkept : ∀ r ∈ kept, r ∈ rows) : Evaluates e kept :=
  fun r hr => h r (hkept r hr)

theorem keep_ok_iff : keep e rows = .ok kept ↔ Evaluates e rows ∧ rows.filter (holdsOn e) = kept := by
  induction rows generalizing kept with
  | nil =>
    rw [keep, Except.ok.injEq]
    exact (and_iff_right (List.forall_mem_nil _)).symm
  | cons r rows ih =>
    have hcons : Evaluates e (r :: rows) ↔ (∃ v, eval e (.row r) = .ok v) ∧ Evaluates e rows := List.forall_mem_cons
    rw [keep, hcons]
    simp only [bind_ok, satisfies, map_ok, ih, List.filter_cons, Except.ok.injEq]
    constructor
    · rintro ⟨_, ⟨v, hv, rfl⟩, rest, ⟨hrest, rfl⟩, rfl⟩
      obtain ⟨hr, rfl⟩ := eval_ok_iff.mp hv
      exact ⟨⟨hr, hrest⟩, rfl⟩
    · rintro ⟨⟨hr, hrest⟩, rfl⟩
      exact ⟨_, ⟨_, eval_ok_iff.mpr ⟨hr, rfl⟩, rfl⟩, _, ⟨hrest, rfl⟩, rfl⟩

theorem keep_subset (h : keep e rows = .ok kept) : ∀ r ∈ kept, r ∈ rows := by
  obtain ⟨_, rfl⟩ := keep_ok_iff.mp h
  exact fun r hr => (List.mem_filter.mp hr).1

/-- Both conditions hold where they are joined by AND, with the constant true left out or not. -/
theorem holdsOn_and (hx : Evaluates x rows) (hy : Evaluates y rows) :
    Evaluates (x.and y) rows ∧ ∀ r ∈ rows, holdsOn (x.and y) r = (holdsOn x r && holdsOn y r) := by
  have htruth : ∀ r ∈ rows, ∃ v, eval (x.and y) (.row r) = .ok v ∧
      Truth.ofValue v = (Truth.ofValue (valueOn x r)).and (Truth.ofValue (valueOn y r)) := by
    intro r hr
    have hand := truth_and x y (.row r)
    rw [truth, truth, truth, hx.eval_eq hr, hy.eval_eq hr] at hand
    exact map_ok.mp hand
  refine ⟨fun r hr => ?_, fun r hr => ?_⟩
  · obtain ⟨v, hv, _⟩ := htruth r hr
    exact ⟨v, hv⟩
  · obtain ⟨v, hv, hand⟩ := htruth r hr
    rw [holdsOn, (eval_ok_iff.mp hv).2, Value.holds, hand, holdsOn, holdsOn, Value.holds, Value.holds]
    cases Truth.ofValue (valueOn x r) <;> cases Truth.ofValue (valueOn y r) <;> rfl

theorem keep_and (hkeep : keep x rows = .ok kept) (hy : Evaluates y rows) :
    keep (x.and y) rows = .ok (kept.filter (holdsOn y)) := by
  obtain ⟨hx, rfl⟩ := keep_ok_iff.mp hkeep
  obtain ⟨heval, hholds⟩ := holdsOn_and hx hy
  refine keep_ok_iff.mpr ⟨heval, ?_⟩
  rw [List.filter_filter]
  exact List.filter_congr fun r hr => (hholds r hr).trans (Bool.and_comm _ _)

/-! ## Sorted rows -/

/-- The values of the sort keys of a row. -/
def sortValues (keys : List SortKey) (r : Row) : List Value :=
  keys.map fun k => valueOn k.expr r

def rowOrder (keys : List SortKey) (r s : Row) : Ordering :=
  keyOrder (keys.map SortKey.direction) (sortValues keys r) (sortValues keys s)

theorem evalAll_ok_iff {es : List Expr} {vs : List Value} :
    evalAll es (.row r) = .ok vs ↔ (∀ e ∈ es, ∃ v, eval e (.row r) = .ok v) ∧ es.map (valueOn · r) = vs := by
  induction es generalizing vs with
  | nil =>
    rw [evalAll, Except.ok.injEq]
    exact (and_iff_right (List.forall_mem_nil _)).symm
  | cons e es ih =>
    simp only [evalAll, bind_ok, ih, List.forall_mem_cons, List.map_cons, Except.ok.injEq]
    constructor
    · rintro ⟨v, hv, _, ⟨hes, rfl⟩, rfl⟩
      obtain ⟨he, rfl⟩ := eval_ok_iff.mp hv
      exact ⟨⟨he, hes⟩, rfl⟩
    · rintro ⟨⟨he, hes⟩, rfl⟩
      exact ⟨_, eval_ok_iff.mpr ⟨he, rfl⟩, _, ⟨hes, rfl⟩, rfl⟩

theorem withKeys_ok_iff {keys : List SortKey} {keyed : List (List Value × Row)} :
    withKeys keys rows = .ok keyed ↔
      (∀ k ∈ keys, Evaluates k.expr rows) ∧ rows.map (fun r => (sortValues keys r, r)) = keyed := by
  have hrow : ∀ r kr, (evalAll (keys.map SortKey.expr) (.row r)).map (fun vs => (vs, r)) = .ok kr ↔
      (∀ k ∈ keys, ∃ v, eval k.expr (.row r) = .ok v) ∧ (sortValues keys r, r) = kr := by
    intro r kr
    rw [map_ok, sortValues]
    simp only [evalAll_ok_iff, List.forall_mem_map, List.map_map, Function.comp_def]
    constructor
    · rintro ⟨_, ⟨hkeys, rfl⟩, rfl⟩
      exact ⟨hkeys, rfl⟩
    · rintro ⟨hkeys, rfl⟩
      exact ⟨_, ⟨hkeys, rfl⟩, rfl⟩
  have hswap : (∀ r ∈ rows, ∀ k ∈ keys, ∃ v, eval k.expr (.row r) = .ok v) ↔ ∀ k ∈ keys, Evaluates k.expr rows :=
    ⟨fun h k hk r hr => h r hr k hk, fun h r hr k hk => h k hk r hr⟩
  rw [withKeys, mapM_ok_iff hrow, hswap]

/-- Rows are sorted by the values of their sort keys, and stay as they are without keys. -/
theorem sortRows_ok_iff {keys : List SortKey} :
    sortRows keys rows = .ok sorted ↔ (∀ k ∈ keys, Evaluates k.expr rows) ∧ sortBy (rowOrder keys) rows = sorted := by
  cases keys with
  | nil =>
    have hself : sortBy (rowOrder []) rows = rows := sortBy_eq_self fun _ _ => rfl
    rw [hself]
    exact ⟨fun h => ⟨List.forall_mem_nil _, Except.ok.inj h⟩, fun h => congrArg Except.ok h.2⟩
  | cons key keys =>
    rw [sortRows, if_neg (by exact Bool.false_ne_true), map_ok]
    simp only [withKeys_ok_iff]
    constructor
    · rintro ⟨_, ⟨hkeys, rfl⟩, rfl⟩
      refine ⟨hkeys, ?_⟩
      rw [sortBy_map, List.map_map]
      exact (List.map_id _).symm
    · rintro ⟨hkeys, rfl⟩
      refine ⟨_, ⟨hkeys, rfl⟩, ?_⟩
      rw [sortBy_map, List.map_map]
      exact List.map_id _

/-- Where the values of each key can be sorted, the order of the rows is a total preorder. -/
theorem rowOrder_preorderOn {keys : List SortKey} (h : ∀ k ∈ keys, Sortable (rows.map (valueOn k.expr))) :
    PreorderOn (rowOrder keys) rows := by
  induction keys with
  | nil => exact ⟨fun _ _ _ _ => rfl, fun _ _ _ _ _ _ _ _ => rfl⟩
  | cons key keys ih =>
    obtain ⟨hkey, hkeys⟩ := List.forall_mem_cons.mp h
    refine ((directed_preorderOn hkey key.direction).comap.then (ih hkeys)).congr fun r _ s _ => ?_
    exact keyOrder_cons _ _ _ _ _ _

/-! ## Queries for whole records -/

/-- A query for whole records keeps rows of its source and sorts them. -/
theorem evaluate_records (hq : q.ForRecords) :
    evaluate tables q = .ok rows ↔ q.clauses.groupBy = [] ∧ ∃ source kept, q.source tables = .ok source ∧
      keep q.clauses.filter source = .ok kept ∧ sortRows q.clauses.orderBy kept = .ok rows := by
  have hpage : ∀ selected, page q.clauses.offset q.clauses.limit
      (distinctIf q.clauses.select.distinct selected) = selected := by
    intro selected
    rw [hq.offset_eq, hq.limit_eq, hq.select_eq]
    rfl
  rw [evaluate_ok_iff]
  simp only [runClauses_ok_iff, hpage]
  constructor
  · rintro ⟨hgroups, source, hsource, kept, _, ⟨hkeep, hselect⟩, rfl⟩
    rw [selectRows_sorted hq.select_eq hq.having_eq] at hselect
    exact ⟨hgroups, source, kept, hsource, hkeep, hselect⟩
  · rintro ⟨hgroups, source, kept, hsource, hkeep, hsort⟩
    refine ⟨hgroups, source, hsource, kept, rows, ⟨hkeep, ?_⟩, rfl⟩
    rwa [selectRows_sorted hq.select_eq hq.having_eq]

/-- Sorting the rows on which a condition holds is leaving out the others of the sorted rows. -/
theorem sortRows_filter {keys : List SortKey} (hsort : sortRows keys kept = .ok sorted)
    (hkeys : ∀ k ∈ keys, Sortable (kept.map (valueOn k.expr))) (p : Expr) :
    sortRows keys (kept.filter (holdsOn p)) = .ok (sorted.filter (holdsOn p)) := by
  obtain ⟨heval, rfl⟩ := sortRows_ok_iff.mp hsort
  refine sortRows_ok_iff.mpr ⟨fun k hk => (heval k hk).subset fun r hr => (List.mem_filter.mp hr).1, ?_⟩
  exact sortBy_filter (rowOrder_preorderOn hkeys) _

/-- A condition that can be evaluated on the source rows leaves out the rows on which it does not hold, whether it is
added to a query for whole records or to a query that reads the rows of that query, if the values of each sort key
on these rows are null or of one kind. -/
theorem condition_leaves_out_rows (tables : Tables) (q : Query) (p : Expr) (source rows : List Row)
    (hq : q.ForRecords) (hsource : q.source tables = .ok source) (hrows : evaluate tables q = .ok rows)
    (hp : Evaluates p source) (hkeys : ∀ k ∈ q.clauses.orderBy, OneKind (rows.map (valueOn k.expr))) :
    evaluate tables (q.andFilter p) = .ok (rows.filter (holdsOn p)) ∧
      evaluate tables ((Query.ofQuery q).andFilter p) = .ok (rows.filter (holdsOn p)) := by
  obtain ⟨hgroups, source', kept, hsource', hkeep, hsort⟩ := (evaluate_records hq).mp hrows
  cases hsource.symm.trans hsource'
  have hperm : rows.Perm kept := sortRows_perm hsort
  constructor
  -- The condition is checked along with that of the query, and only the rows on which both hold are sorted.
  · refine (evaluate_records (hq.andFilter p)).mpr ?_
    simp only [Query.andFilter, Query.clauses_update, Query.source_update]
    refine ⟨hgroups, source, kept.filter (holdsOn p), hsource, keep_and hkeep hp, sortRows_filter hsort ?_ p⟩
    intro k hk
    exact ((hkeys k hk).subset fun v hv => (hperm.map _).mem_iff.mpr hv).sortable
  -- The condition is checked on the sorted rows, which are rows of the source.
  · refine (evaluate_records ((Query.forRecords_ofQuery q).andFilter p)).mpr ?_
    have heval : Evaluates p rows := hp.subset fun r hr => keep_subset hkeep r (hperm.mem_iff.mp hr)
    exact ⟨rfl, rows, rows.filter (holdsOn p), hrows, keep_ok_iff.mpr ⟨heval, rfl⟩, rfl⟩

/-- Tasks with a rank, of two widths or null, and a team that may be null. -/
def tasks : Tables :=
  [("tasks", [⟨["name", "rank", "team"], [.text "a", .int 2, .text "x"]⟩,
    ⟨["name", "rank", "team"], [.text "b", .null, .text "x"]⟩,
    ⟨["name", "rank", "team"], [.text "c", .long 3, .null]⟩,
    ⟨["name", "rank", "team"], [.text "d", .long 2, .text "x"]⟩,
    ⟨["name", "rank", "team"], [.text "e", .int 4, .text "y"]⟩])]

/-- All tasks but the last. -/
def openTasks : Query :=
  (Query.ofTable "tasks").withFilter ((Expr.path (.single "name")).operate .ne [.const (.text "e")])

/-- From the highest rank down. -/
def byRank : Query :=
  openTasks.withOrderBy [⟨.path (.single "rank"), .desc⟩]

/-- Its truth is unknown for a task without a team. -/
def ofTeamX : Expr :=
  (Expr.path (.single "team")).operate .eq [.const (.text "x")]

/-- Tasks of one rank stay in their order, and the one without a rank is the last. -/
theorem condition_leaves_out_rows_tasks :
    let rows : List Row := [⟨["name", "rank", "team"], [.text "a", .int 2, .text "x"]⟩,
      ⟨["name", "rank", "team"], [.text "d", .long 2, .text "x"]⟩,
      ⟨["name", "rank", "team"], [.text "b", .null, .text "x"]⟩]
    evaluate tasks (byRank.andFilter ofTeamX) = .ok rows ∧
      evaluate tasks ((Query.ofQuery byRank).andFilter ofTeamX) = .ok rows :=
  have hrecords : byRank.ForRecords := ⟨rfl, rfl, rfl, rfl⟩
  have hrows : evaluate tasks byRank = .ok [⟨["name", "rank", "team"], [.text "c", .long 3, .null]⟩,
      ⟨["name", "rank", "team"], [.text "a", .int 2, .text "x"]⟩,
      ⟨["name", "rank", "team"], [.text "d", .long 2, .text "x"]⟩,
      ⟨["name", "rank", "team"], [.text "b", .null, .text "x"]⟩] := by rfl
  have heval : Evaluates ofTeamX (rowsOf tasks "tasks") := (keep_ok_iff.mp (by rfl)).1
  have hranks : OneKind [.long 3, .int 2, .long 2, .null] := ⟨.integer, by decide⟩
  condition_leaves_out_rows tasks byRank ofTeamX (rowsOf tasks "tasks") _ hrecords rfl hrows heval
    (List.forall_mem_singleton.mpr hranks)

end Memory

end TableQuery
