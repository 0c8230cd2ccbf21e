import TableQuery.Proofs.Expr.Connectives
import TableQuery.Proofs.Memory.Rearrange
import TableQuery.Proofs.Query.Clauses

/- Counting, listing and looking for a row agree. A query without its own offset and limit lists `n` rows;
   its count query then gives `n`, and its query for a row past the first `k` finds one just where `k` is
   below `n`.

   Both derived queries select from one base (`Query.countBase`). Where a row of the query is a source row
   that was kept, the base keeps the same source rows; otherwise it reads the rows of the query without its
   order (`unpaged_evaluate`), of which there are as many. Either way the base keeps as many rows as the
   query lists (`countBase_keeps`). -/
namespace TableQuery

namespace Query

def source (tables : Memory.Tables) : Query → Except Failure (List Row)
  | table name _ => .ok (Memory.rowsOf tables name)
  | nested inner _ => Memory.evaluate tables inner

@[simp] theorem source_update (tables : Memory.Tables) (f : Clauses → Clauses) (q : Query) :
    (q.update f).source tables = q.source tables := by
  cases q <;> rfl

/-- What the derived queries select from. -/
def countBase (q : Query) : Query :=
  if q.countsNested then ofQuery q.unpaged else q.unpaged

theorem countQuery_eq (q : Query) : q.countQuery = q.countBase.withSelect (.scalar countOne) := by
  unfold countQuery countBase
  split <;> rfl

end Query

namespace Memory

/-- What the clauses select from the source rows, before duplicates and paging. -/
structure Selects (c : Clauses) (source kept selected : List Row) : Prop where
  keep_eq : keep c.filter source = .ok kept
  select_eq : selectRows c kept = .ok selected

def distinctIf (distinct : Bool) (rows : List Row) : List Row :=
  if distinct then dedup rows else rows

theorem distinctIf_length_perm {distinct : Bool} {as bs : List Row} (hp : as.Perm bs) :
    (distinctIf distinct as).length = (distinctIf distinct bs).length := by
  cases distinct with
  | false => exact hp.length_eq
  | true => exact dedup_length_perm hp

theorem runClauses_ok_iff {c : Clauses} {source rows : List Row} :
    runClauses c source = .ok rows ↔ ∃ kept selected, Selects c source kept selected ∧
      page c.offset c.limit (distinctIf c.select.distinct selected) = rows := by
  simp only [runClauses, bind_ok, Except.ok.injEq]
  constructor
  · rintro ⟨kept, hkeep, selected, hselect, rfl⟩
    exact ⟨kept, selected, ⟨hkeep, hselect⟩, rfl⟩
  · rintro ⟨kept, selected, ⟨hkeep, hselect⟩, rfl⟩
    exact ⟨kept, hkeep, selected, hselect, rfl⟩

theorem checkGroups_ok_iff {c : Clauses} {u : Unit} : checkGroups c = .ok u ↔ c.groupBy = [] := by
  cases h : c.groupBy <;> simp [checkGroups, h]

/-- A query gives rows where it has no groups, its source can be read and its clauses run. -/
theorem evaluate_ok_iff {tables : Tables} {q : Query} {rows : List Row} :
    evaluate tables q = .ok rows ↔
      q.clauses.groupBy = [] ∧ ∃ source, q.source tables = .ok source ∧ runClauses q.clauses source = .ok rows := by
  cases q with
  | table name c =>
    simp only [evaluate, bind_ok, checkGroups_ok_iff, Query.clauses, Query.source, Except.ok.injEq]
    constructor
    · rintro ⟨_, hgroups, hrun⟩
      exact ⟨hgroups, _, rfl, hrun⟩
    · rintro ⟨hgroups, _, rfl, hrun⟩
      exact ⟨(), hgroups, hrun⟩
  | nested inner c =>
    simp only [evaluate, bind_ok, checkGroups_ok_iff, Query.clauses, Query.source]
    constructor
    · rintro ⟨_, hgroups, source, hsource, hrun⟩
      exact ⟨hgroups, source, hsource, hrun⟩
    · rintro ⟨hgroups, source, hsource, hrun⟩
      exact ⟨(), hgroups, source, hsource, hrun⟩

theorem keep_tru (rows : List Row) : keep .tru rows = .ok rows := by
  induction rows with
  | nil => rfl
  | cons r rows ih =>
    unfold keep
    rw [ih]
    rfl

/-! ## Without order and paging -/

/-- Without aggregates, a query sorts the rows it keeps and selects from each. -/
theorem selectRows_ok_iff {c : Clauses} (hagg : isAggregated c = false) {kept selected : List Row} :
    selectRows c kept = .ok selected ↔ c.having = .tru ∧ ∃ sorted, sortRows c.orderBy kept = .ok sorted ∧
      sorted.mapM (fun r => project c.select.selection (.row r)) = .ok selected := by
  unfold selectRows
  rw [hagg, if_neg Bool.false_ne_true]
  cases hh : c.having.isTrue with
  | true => simp only [if_true, bind_ok, isTrue_iff.mp hh, true_and]
  | false =>
    have hne : c.having ≠ .tru := fun h => by rw [h] at hh; cases hh
    simp only [Bool.false_eq_true, if_false, hne, false_and, reduceCtorEq]

/-- A query for whole records without a condition on groups sorts the rows that it keeps. -/
theorem selectRows_sorted {c : Clauses} (hselect : c.select = .entity) (hhaving : c.having = .tru)
    (kept : List Row) : selectRows c kept = sortRows c.orderBy kept := by
  have hagg : isAggregated c = false := by
    rw [isAggregated, hselect, hhaving]
    rfl
  have hrows : ∀ sorted : List Row,
      sorted.mapM (fun r => project c.select.selection (.row r)) = (.ok sorted : Except Failure _) := by
    intro sorted
    rw [hselect]
    exact (mapM_total id sorted).trans (congrArg _ (List.map_id sorted))
  rw [selectRows, hagg, if_neg Bool.false_ne_true, hhaving]
  cases hsort : sortRows c.orderBy kept with
  | error e => rfl
  | ok sorted => exact hrows sorted

/-- A query for whole records without a condition on groups and an order gives the rows that it keeps. -/
theorem selectRows_entity {c : Clauses} (hselect : c.select = .entity) (hhaving : c.having = .tru)
    (horder : c.orderBy = []) (kept : List Row) : selectRows c kept = .ok kept := by
  rw [selectRows_sorted hselect hhaving, horder]
  rfl

/-- Without its order, a query selects the same rows in another order. -/
theorem selectRows_unpaged {q : Query} {kept selected : List Row} (h : selectRows q.clauses kept = .ok selected) :
    ∃ selected', selectRows q.unpaged.clauses kept = .ok selected' ∧ selected.Perm selected' := by
  have hagg : isAggregated q.unpaged.clauses = isAggregated q.clauses := by
    simp only [isAggregated, Query.unpaged, Query.clauses_update]
  cases ha : isAggregated q.clauses with
  -- The rows are folded into one, and the order is not looked at.
  | true =>
    unfold selectRows at h ⊢
    rw [ha, if_pos rfl] at h
    rw [hagg, ha, if_pos rfl]
    simp only [Query.unpaged, Query.clauses_update]
    exact ⟨selected, h, .refl _⟩
  | false =>
    obtain ⟨hhaving, sorted, hsort, hproject⟩ := (selectRows_ok_iff ha).mp h
    obtain ⟨selected', hselect', hp⟩ := mapM_perm (sortRows_perm hsort) hproject
    refine ⟨selected', (selectRows_ok_iff (hagg.trans ha)).mpr ?_, hp⟩
    simp only [Query.unpaged, Query.clauses_update]
    exact ⟨hhaving, kept, rfl, hselect'⟩

/-- Without order and paging, a query has as many rows. -/
theorem unpaged_evaluate {tables : Tables} {q : Query} {rows : List Row}
    (h : evaluate tables ((q.withOffset none).withLimit none) = .ok rows) :
    ∃ rows', evaluate tables q.unpaged = .ok rows' ∧ rows'.length = rows.length := by
  obtain ⟨hgroups, source, hsource, hrun⟩ := evaluate_ok_iff.mp h
  simp only [Query.withOffset, Query.withLimit, Query.update_update, Query.clauses_update, Query.source_update,
    Function.comp_apply] at hgroups hsource hrun
  obtain ⟨kept, selected, ⟨hkeep, hselect⟩, rfl⟩ := runClauses_ok_iff.mp hrun
  obtain ⟨selected', hselect', hp⟩ := selectRows_unpaged (q := q) hselect
  refine ⟨distinctIf q.clauses.select.distinct selected', ?_, (distinctIf_length_perm hp).symm⟩
  refine evaluate_ok_iff.mpr ⟨?_, source, ?_, runClauses_ok_iff.mpr ⟨kept, selected', ⟨?_, hselect'⟩, ?_⟩⟩
  all_goals simp only [Query.unpaged, Query.clauses_update, Query.source_update]
  · exact hgroups
  · exact hsource
  · exact hkeep
  · rfl

/-! ## The base of the derived queries -/

/-- The query keeps these rows of its source, and has neither groups nor a condition on them nor an order
nor a page. -/
structure Keeps (tables : Tables) (q : Query) (kept : List Row) : Prop where
  groupBy_eq : q.clauses.groupBy = []
  having_eq : q.clauses.having = .tru
  orderBy_eq : q.clauses.orderBy = []
  offset_eq : q.clauses.offset = none
  limit_eq : q.clauses.limit = none
  kept_eq : ∃ source, q.source tables = .ok source ∧ keep q.clauses.filter source = .ok kept

theorem ofQuery_keeps {tables : Tables} {q : Query} {rows : List Row} (h : evaluate tables q = .ok rows) :
    Keeps tables (.ofQuery q) rows where
  groupBy_eq := rfl
  having_eq := rfl
  orderBy_eq := rfl
  offset_eq := rfl
  limit_eq := rfl
  kept_eq := ⟨rows, h, keep_tru rows⟩

/-- A query that is not counted nested has neither duplicates to take out nor aggregates. -/
theorem not_countsNested {q : Query} (h : q.countsNested = false) :
    q.clauses.select.distinct = false ∧ isAggregated q.clauses = false := by
  simp only [Query.countsNested, Bool.or_eq_false_iff] at h
  obtain ⟨⟨⟨hdistinct, _⟩, hhaving⟩, hselect⟩ := h
  refine ⟨hdistinct, ?_⟩
  simp only [isAggregated, hhaving, hselect, Bool.or_self]

/-- A query without aggregates gives a row for each row that it keeps. -/
theorem selectRows_length {c : Clauses} {kept selected : List Row} (hagg : isAggregated c = false)
    (h : selectRows c kept = .ok selected) : c.having = .tru ∧ selected.length = kept.length := by
  obtain ⟨hhaving, sorted, hsort, hproject⟩ := (selectRows_ok_iff hagg).mp h
  refine ⟨hhaving, ?_⟩
  calc selected.length = sorted.length := mapM_length hproject
    _ = kept.length := (sortRows_perm hsort).length_eq

theorem countBase_keeps {tables : Tables} {q : Query} {rows : List Row}
    (h : evaluate tables ((q.withOffset none).withLimit none) = .ok rows) :
    ∃ kept, Keeps tables q.countBase kept ∧ kept.length = rows.length := by
  cases hn : q.countsNested with
  -- The base reads the rows of the query, all of which it keeps.
  | true =>
    obtain ⟨rows', hrows', hlen⟩ := unpaged_evaluate h
    refine ⟨rows', ?_, hlen⟩
    rw [Query.countBase, hn, if_pos rfl]
    exact ofQuery_keeps hrows'
  -- The base is the query itself, and each row that it keeps gives a row.
  | false =>
    obtain ⟨hdistinct, hagg⟩ := not_countsNested hn
    obtain ⟨hgroups, source, hsource, hrun⟩ := evaluate_ok_iff.mp h
    simp only [Query.withOffset, Query.withLimit, Query.update_update, Query.clauses_update, Query.source_update,
      Function.comp_apply] at hgroups hsource hrun
    obtain ⟨kept, selected, ⟨hkeep, hselect⟩, rfl⟩ := runClauses_ok_iff.mp hrun
    obtain ⟨hhaving, hlen⟩ :=
      selectRows_length (c := { q.clauses with offset := none, limit := none }) hagg hselect
    refine ⟨kept, ?_, ?_⟩
    · rw [Query.countBase, hn, if_neg Bool.false_ne_true]
      constructor
      all_goals simp only [Query.unpaged, Query.clauses_update, Query.source_update]
      · exact hgroups
      · exact hhaving
      · exact ⟨source, hsource, hkeep⟩
    · rw [hdistinct]
      exact hlen.symm

/-! ## The derived queries -/

theorem eval_countOne (rows : List Row) :
    eval Query.countOne (.group rows) = .ok (.long (Int64.ofNat rows.length)) := by
  have hcount : Value.aggregate .count ((rows.map fun _ => Value.int 1).filter fun v => !v.isNull) =
      .long (Int64.ofNat rows.length) := by
    have hkept : (rows.map fun _ => Value.int 1).filter (fun v => !v.isNull) = rows.map fun _ => Value.int 1 := by
      rw [List.filter_eq_self]
      intro v hv
      obtain ⟨_, _, rfl⟩ := List.mem_map.mp hv
      rfl
    rw [hkept]
    simp only [Value.aggregate, List.length_map]
  simp only [Query.countOne, Expr.operate, eval, Operator.isAggregate, if_true]
  rw [mapM_total (fun _ => Value.int 1) rows]
  exact congrArg Except.ok hcount

/-- The row that counts these rows. -/
def countRow (rows : List Row) : Row :=
  Row.empty.push (columnName Query.countOne) (.long (Int64.ofNat rows.length))

/-- One row, with the value that the kept rows are folded into, where the condition on them holds. -/
theorem selectRows_folded {c : Clauses} {e : Expr} {v : Value} {kept : List Row} (hselect : c.select = .scalar e)
    (hagg : e.hasAggregate = true) (hv : eval e (.group kept) = .ok v) :
    selectRows c kept = (satisfies c.having (.group kept)).map fun holds =>
      if holds then [Row.empty.push (columnName e) v] else [] := by
  have hfolded : isAggregated c = true := by
    rw [isAggregated, hselect]
    show (c.having.hasAggregate || (e.hasAggregate || false)) = true
    rw [hagg, Bool.true_or, Bool.or_true]
  have hproject : project (.scalar e) (.group kept) = .ok (Row.empty.push (columnName e) v) := by
    simp only [project, projectAll, List.foldlM_cons, List.foldlM_nil, hv]
    rfl
  unfold selectRows
  rw [hfolded, if_pos rfl, hselect]
  simp only [Select.scalar, hproject]
  rcases satisfies c.having (.group kept) with _ | _ | _ <;> rfl

/-- One row, with the number of kept rows, where the condition on them holds. -/
theorem selectRows_countOne {c : Clauses} (hselect : c.select = .scalar Query.countOne) (kept : List Row) :
    selectRows c kept =
      (satisfies c.having (.group kept)).map fun holds => if holds then [countRow kept] else [] :=
  selectRows_folded hselect rfl (eval_countOne kept)

theorem selectRows_count {c : Clauses} (hselect : c.select = .scalar Query.countOne) (hhaving : c.having = .tru)
    (kept : List Row) :
    ∃ r, selectRows c kept = .ok [r] ∧ r.values.head? = some (.long (Int64.ofNat kept.length)) := by
  refine ⟨countRow kept, ?_, rfl⟩
  rw [selectRows_countOne hselect, hhaving]
  rfl

theorem selectRows_const {c : Clauses} {v : Value} (hselect : c.select = .scalar (.const v))
    (hhaving : c.having = .tru) (horder : c.orderBy = []) (kept : List Row) :
    ∃ selected, selectRows c kept = .ok selected ∧ selected.length = kept.length := by
  have hagg : isAggregated c = false := by
    rw [isAggregated, hselect, hhaving]
    rfl
  have hmap := mapM_total (fun _ => Row.empty.push (columnName (.const v)) v) kept
  refine ⟨kept.map fun _ => Row.empty.push (columnName (.const v)) v,
    (selectRows_ok_iff hagg).mpr ⟨hhaving, kept, ?_, ?_⟩, List.length_map _⟩
  · rw [horder]
    rfl
  · rw [hselect]
    exact hmap

theorem Keeps.count {tables : Tables} {q : Query} {kept : List Row} (h : Keeps tables q kept) :
    ∃ r, evaluate tables (q.withSelect (.scalar Query.countOne)) = .ok [r] ∧
      r.values.head? = some (.long (Int64.ofNat kept.length)) := by
  obtain ⟨source, hsource, hkeep⟩ := h.kept_eq
  obtain ⟨r, hselect, hr⟩ := selectRows_count (c := (q.withSelect (.scalar Query.countOne)).clauses)
    (by simp only [Query.withSelect, Query.clauses_update])
    (by simp only [Query.withSelect, Query.clauses_update, h.having_eq]) kept
  refine ⟨r, evaluate_ok_iff.mpr ⟨?_, source, ?_, runClauses_ok_iff.mpr ⟨kept, [r], ⟨?_, hselect⟩, ?_⟩⟩, hr⟩
  all_goals simp only [Query.withSelect, Query.clauses_update, Query.source_update]
  · exact h.groupBy_eq
  · exact hsource
  · exact hkeep
  · rw [h.offset_eq, h.limit_eq]
    rfl

/-- A row past the first `k`, where each kept row gives one. -/
theorem Keeps.exist {tables : Tables} {q : Query} {kept : List Row} (h : Keeps tables q kept) (v : Value)
    (k : Option Nat) :
    ∃ found, evaluate tables (((q.withSelect (.scalar (.const v))).withOffset k).withLimit (some 1)) = .ok found ∧
      (found ≠ [] ↔ k.getD 0 < kept.length) := by
  obtain ⟨source, hsource, hkeep⟩ := h.kept_eq
  obtain ⟨selected, hselect, hlen⟩ := selectRows_const
    (c := (((q.withSelect (.scalar (.const v))).withOffset k).withLimit (some 1)).clauses) (v := v)
    (by simp only [Query.withSelect, Query.withOffset, Query.withLimit, Query.clauses_update])
    (by simp only [Query.withSelect, Query.withOffset, Query.withLimit, Query.clauses_update, h.having_eq])
    (by simp only [Query.withSelect, Query.withOffset, Query.withLimit, Query.clauses_update, h.orderBy_eq]) kept
  refine ⟨(selected.drop (k.getD 0)).take 1, ?_, ?_⟩
  · refine evaluate_ok_iff.mpr ⟨?_, source, ?_, runClauses_ok_iff.mpr ⟨kept, selected, ⟨?_, hselect⟩, ?_⟩⟩
    all_goals simp only [Query.withSelect, Query.withOffset, Query.withLimit, Query.clauses_update,
      Query.source_update]
    · exact h.groupBy_eq
    · exact hsource
    · exact hkeep
    · rfl
  · rw [Ne, List.take_eq_nil_iff, List.drop_eq_nil_iff, hlen]
    omega

/-- If a query without its own offset and limit gives `n` rows, its count query gives a single row, which
begins with `n`, and its query for a row past the first `k` finds one just where `k` is below `n`. -/
theorem count_list_exist_agree (tables : Tables) (q : Query) (rows : List Row)
    (h : evaluate tables ((q.withOffset none).withLimit none) = .ok rows) :
    (∃ r, evaluate tables q.countQuery = .ok [r] ∧
      r.values.head? = some (.long (Int64.ofNat rows.length))) ∧
    ∀ k, ∃ found, evaluate tables (q.existQuery k) = .ok found ∧ (found ≠ [] ↔ k < rows.length) := by
  obtain ⟨kept, hkeeps, hlen⟩ := countBase_keeps h
  rw [← hlen]
  constructor
  · rw [Query.countQuery_eq]
    exact hkeeps.count
  · intro k
    obtain ⟨found, hfound, hiff⟩ := hkeeps.exist (.int 1) (if 0 < k then some k else none)
    refine ⟨found, hfound, hiff.trans ?_⟩
    -- An offset of 0 is left out, which makes no difference.
    have hk : (if 0 < k then some k else none).getD 0 = k := by
      split
      · rfl
      · simp only [Option.getD_none]
        omega
    rw [hk]

/-- Cities of which one is there twice. -/
def cities : Tables :=
  [("city", [⟨["name"], [.text "Oslo"]⟩, ⟨["name"], [.text "Bergen"]⟩, ⟨["name"], [.text "Oslo"]⟩])]

/-- The second page of the distinct names, read from a query around the table. -/
def cityNames : Query :=
  (((Query.ofQuery (.ofTable "city")).withSelect (Select.scalar (.path (.single "name"))).asDistinct).withOrderBy
    [⟨.path (.single "name"), .asc⟩] |>.withOffset (some 1)).withLimit (some 1)

theorem count_list_exist_agree_cities :
    let rows : List Row := [⟨["name"], [.text "Bergen"]⟩, ⟨["name"], [.text "Oslo"]⟩]
    evaluate cities ((cityNames.withOffset none).withLimit none) = .ok rows ∧
    (∃ r, evaluate cities cityNames.countQuery = .ok [r] ∧
      r.values.head? = some (.long (Int64.ofNat rows.length))) ∧
    ∀ k, ∃ found, evaluate cities (cityNames.existQuery k) = .ok found ∧ (found ≠ [] ↔ k < rows.length) :=
  have h : evaluate cities ((cityNames.withOffset none).withLimit none) =
      .ok [⟨["name"], [.text "Bergen"]⟩, ⟨["name"], [.text "Oslo"]⟩] := by rfl
  ⟨h, count_list_exist_agree cities cityNames _ h⟩

end Memory

end TableQuery
