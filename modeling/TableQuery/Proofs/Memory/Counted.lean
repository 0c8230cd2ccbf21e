import TableQuery.Proofs.Memory.Counting

/- What an answer to a count query stands for. Where the condition on groups is absent or the query is counted
   nested, a count that is given is the number of rows of a query that can be listed, namely the query without
   order, fetches and page (`Query.counted`). In between, a count query is given for a query that cannot be
   listed: a condition on groups without an aggregate is refused in the query itself, but not beside `COUNT(1)`,
   where it is evaluated on the group of all kept rows (`condition_without_aggregate_counted`). -/
namespace TableQuery

namespace Query

/-- The query whose rows a count query counts: without order, fetches and page, and of whole records where it
is not counted nested. -/
def counted (q : Query) : Query :=
  let bare := q.update fun c => { c with orderBy := [], fetch := [], offset := none, limit := none }
  if q.countsNested then bare else bare.withSelect .entity

@[simp] theorem source_counted (tables : Memory.Tables) (q : Query) : q.counted.source tables = q.source tables := by
  unfold counted
  split <;> simp only [withSelect, source_update]

theorem clauses_counted {q : Query} (h : q.countsNested = false) :
    q.counted.clauses =
      { q.clauses with select := .entity, orderBy := [], fetch := [], offset := none, limit := none } := by
  rw [counted, h, if_neg Bool.false_ne_true]
  simp only [withSelect, clauses_update]

theorem countQuery_of_nested {q : Query} (h : q.countsNested = true) :
    q.countQuery = (ofQuery q.unpaged).withSelect (.scalar countOne) := by
  rw [countQuery, h, if_pos rfl]

theorem countQuery_of_not_nested {q : Query} (h : q.countsNested = false) :
    q.countQuery = q.unpaged.withSelect (.scalar countOne) := by
  rw [countQuery, h, if_neg Bool.false_ne_true]

end Query

namespace Memory

/-- Rows are not locked in memory. -/
theorem evaluate_withLock (tables : Tables) (q : Query) (mode : LockMode) :
    evaluate tables (q.withLock mode) = evaluate tables q := by
  cases q <;> rfl

theorem evaluate_unpaged {tables : Tables} {q : Query} (h : q.countsNested = true) :
    evaluate tables q.unpaged = evaluate tables q.counted := by
  rw [Query.counted, h, if_pos rfl, ← evaluate_withLock tables _ .none]
  cases q <;> rfl

theorem evaluate_eq (tables : Tables) (q : Query) :
    evaluate tables q =
      (checkGroups q.clauses).bind fun _ => (q.source tables).bind fun source => runClauses q.clauses source := by
  cases q <;> rfl

/-- The condition on groups of a query that is not counted nested has no aggregate. -/
theorem having_of_not_nested {q : Query} (h : q.countsNested = false) : q.clauses.having.hasAggregate = false := by
  simp only [Query.countsNested, Bool.or_eq_false_iff] at h
  exact h.1.2

/-! ## Not nested -/

/-- A count query that is not nested has read and filtered the source rows, and evaluated the condition on the
group of those that it has kept. -/
theorem countQuery_reads {tables : Tables} {q : Query} {answer : List Row} (hn : q.countsNested = false)
    (h : evaluate tables q.countQuery = .ok answer) :
    q.clauses.groupBy = [] ∧ ∃ source kept holds, q.source tables = .ok source ∧
      keep q.clauses.filter source = .ok kept ∧ satisfies q.clauses.having (.group kept) = .ok holds ∧
      answer = if holds then [countRow kept] else [] := by
  rw [Query.countQuery_of_not_nested hn] at h
  obtain ⟨hgroups, source, hsource, hrun⟩ := evaluate_ok_iff.mp h
  obtain ⟨kept, selected, ⟨hkeep, hselect⟩, rfl⟩ := runClauses_ok_iff.mp hrun
  rw [selectRows_countOne (by simp only [Query.withSelect, Query.clauses_update])] at hselect
  obtain ⟨holds, hholds, rfl⟩ := map_ok.mp hselect
  simp only [Query.unpaged, Query.withSelect, Query.clauses_update, Query.source_update] at hgroups hsource hkeep hholds
  refine ⟨hgroups, source, kept, holds, hsource, hkeep, hholds, ?_⟩
  simp only [Query.unpaged, Query.withSelect, Query.clauses_update]
  rfl

/-- The counted query goes on with the same kept rows. -/
theorem evaluate_counted {tables : Tables} {q : Query} {source kept : List Row} (hn : q.countsNested = false)
    (hgroups : q.clauses.groupBy = []) (hsource : q.source tables = .ok source)
    (hkeep : keep q.clauses.filter source = .ok kept) :
    evaluate tables q.counted = selectRows q.counted.clauses kept := by
  have hcheck : checkGroups q.counted.clauses = .ok () := by
    rw [checkGroups_ok_iff, Query.clauses_counted hn]
    exact hgroups
  have hfilter : q.counted.clauses.filter = q.clauses.filter := by rw [Query.clauses_counted hn]
  have hwhole : ∀ selected, page q.counted.clauses.offset q.counted.clauses.limit
      (if q.counted.clauses.select.distinct then dedup selected else selected) = selected := by
    intro selected
    rw [Query.clauses_counted hn]
    rfl
  calc evaluate tables q.counted
      = runClauses q.counted.clauses source := by rw [evaluate_eq, hcheck, Query.source_counted, hsource]; rfl
    _ = (selectRows q.counted.clauses kept).bind .ok := by
      rw [runClauses, hfilter, hkeep]
      exact congrArg _ (funext fun selected => congrArg _ (hwhole selected))
    _ = selectRows q.counted.clauses kept := by cases selectRows q.counted.clauses kept <;> rfl

theorem selectRows_refuses {c : Clauses} (hagg : isAggregated c = false) (hhaving : c.having ≠ .tru)
    (kept : List Row) : selectRows c kept = .error .havingWithoutAggregate := by
  have hne : c.having.isTrue = false := Bool.eq_false_iff.mpr (mt isTrue_iff.mp hhaving)
  rw [selectRows, hagg, if_neg Bool.false_ne_true, hne, if_neg Bool.false_ne_true]

/-- What the answer to a count query says. If the query is counted nested or has no condition on groups, the
counted query gives rows, and the answer is a single row, which begins with their number. A condition on groups
without an aggregate is refused in the counted query; the answer is then the number of kept rows, if the
condition holds on them as a group, and no row otherwise. -/
theorem counts_are_of_listed_rows (tables : Tables) (q : Query) (answer : List Row)
    (h : evaluate tables q.countQuery = .ok answer) :
    (q.countsNested = true ∨ q.clauses.having = .tru → ∃ rows r, evaluate tables q.counted = .ok rows ∧
      answer = [r] ∧ r.values.head? = some (.long (Int64.ofNat rows.length))) ∧
    (q.countsNested = false → q.clauses.having ≠ .tru →
      evaluate tables q.counted = .error .havingWithoutAggregate ∧
      ∃ source kept holds, q.source tables = .ok source ∧ keep q.clauses.filter source = .ok kept ∧
        satisfies q.clauses.having (.group kept) = .ok holds ∧ answer = if holds then [countRow kept] else []) := by
  cases hn : q.countsNested with
  -- The rows of the query are the source of the count, so that they have been listed.
  | true =>
    refine ⟨fun _ => ?_, nofun⟩
    rw [Query.countQuery_of_nested hn] at h
    obtain ⟨_, rows, hrows, _⟩ := evaluate_ok_iff.mp h
    obtain ⟨r, hr, hcount⟩ := (ofQuery_keeps hrows).count
    exact ⟨rows, r, (evaluate_unpaged hn).symm.trans hrows, Except.ok.inj (h.symm.trans hr), hcount⟩
  | false =>
    obtain ⟨hgroups, source, kept, holds, hsource, hkeep, hholds, rfl⟩ := countQuery_reads hn h
    have heval := evaluate_counted hn hgroups hsource hkeep
    have hclauses := Query.clauses_counted hn
    constructor
    · intro hor
      have hhaving : q.clauses.having = .tru := hor.resolve_left Bool.false_ne_true
      obtain rfl : holds = true := by
        rw [hhaving] at hholds
        exact (Except.ok.inj hholds).symm
      refine ⟨kept, countRow kept, ?_, rfl, rfl⟩
      rw [heval, hclauses]
      refine selectRows_entity rfl ?_ rfl kept
      exact hhaving
    · intro _ hhaving
      refine ⟨?_, source, kept, holds, hsource, hkeep, hholds, rfl⟩
      rw [heval, hclauses]
      refine selectRows_refuses (Bool.or_eq_false_iff.mpr ⟨?_, rfl⟩) ?_ kept
      · exact having_of_not_nested hn
      · exact hhaving

/-- People by their age; two are of the same. -/
def people : Tables :=
  [("people", [⟨["age"], [.int 20]⟩, ⟨["age"], [.int 30]⟩, ⟨["age"], [.int 20]⟩])]

/-- The ages, each once, from the highest on. -/
def ages : Query :=
  ((Query.ofTable "people").withSelect (Select.scalar (.path (.single "age"))).asDistinct).withOrderBy
    [⟨.path (.single "age"), .desc⟩]

theorem counts_are_of_listed_rows_ages :
    let answer : List Row := [⟨["COUNT(1)"], [.long 2]⟩]
    evaluate people ages.countQuery = .ok answer ∧
    (ages.countsNested = true ∨ ages.clauses.having = .tru → ∃ rows r, evaluate people ages.counted = .ok rows ∧
      answer = [r] ∧ r.values.head? = some (.long (Int64.ofNat rows.length))) ∧
    (ages.countsNested = false → ages.clauses.having ≠ .tru →
      evaluate people ages.counted = .error .havingWithoutAggregate ∧
      ∃ source kept holds, ages.source people = .ok source ∧ keep ages.clauses.filter source = .ok kept ∧
        satisfies ages.clauses.having (.group kept) = .ok holds ∧
        answer = if holds then [countRow kept] else []) :=
  have h : evaluate people ages.countQuery = .ok [⟨["COUNT(1)"], [.long 2]⟩] := by rfl
  ⟨h, counts_are_of_listed_rows people ages _ h⟩

/-- `HAVING age > 18`, without an aggregate. -/
def olderThan18 : Query :=
  (Query.ofTable "people").withHaving ((Expr.path (.single "age")).operate .gt [.const (.int 18)])

/-- The people are counted, since the condition holds for the first of them, but they cannot be listed. -/
theorem condition_without_aggregate_counted :
    evaluate people olderThan18.countQuery = .ok [⟨["COUNT(1)"], [.long 3]⟩] ∧
      ¬∃ rows, evaluate people olderThan18.counted = .ok rows := by
  have hrefused : evaluate people olderThan18.counted = .error .havingWithoutAggregate := by rfl
  refine ⟨by rfl, ?_⟩
  rintro ⟨rows, h⟩
  rw [hrefused] at h
  cases h

end Memory

end TableQuery
