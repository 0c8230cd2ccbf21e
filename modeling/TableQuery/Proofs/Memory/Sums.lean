import TableQuery.Proofs.Memory.Extremes
import TableQuery.Proofs.Value.Total

/- SUM of an expression that is null or an integer on each row. It adds up in the order of the rows, in 64 bits, and is
   exact unless a running total does not fit; then it is null, also if the sum itself fits
   (`running_total_overflows`). A null adds nothing. So each order of the rows gives the exact sum or null, and which of
   the two it is hangs on the order only where the positive values alone or the negative ones alone do not fit
   (`sum_exact_while_totals_fit`). -/
namespace TableQuery.Memory

open Value

variable {e : Expr} {rows rows' : List Row}

/-- On each of the rows, the expression is null or an integer. -/
def YieldsIntegers (e : Expr) (rows : List Row) : Prop :=
  ∀ r ∈ rows, ∃ v, eval e (.row r) = .ok v ∧ (v = .null ∨ ∃ n, v.toInt? = some n)

/-- The integers that the expression is on the rows, in their order. -/
def integersOn (e : Expr) (rows : List Row) : List Int :=
  rows.filterMap fun r => (valueOn e r).toInt?

theorem YieldsIntegers.evaluates (h : YieldsIntegers e rows) : Evaluates e rows := by
  intro r hr
  obtain ⟨v, hv, _⟩ := h r hr
  exact ⟨v, hv⟩

theorem YieldsIntegers.subset (h : YieldsIntegers e rows) (hrows : ∀ r ∈ rows', r ∈ rows) : YieldsIntegers e rows' :=
  fun r hr => h r (hrows r hr)

theorem YieldsIntegers.null_or_integer (h : YieldsIntegers e rows) {r : Row} (hr : r ∈ rows) :
    valueOn e r = .null ∨ ∃ n, (valueOn e r).toInt? = some n := by
  obtain ⟨v, hv, hint⟩ := h r hr
  rwa [(eval_ok_iff.mp hv).2]

/-- What is not null is one of the integers. -/
theorem YieldsIntegers.toInt?_present (h : YieldsIntegers e rows) :
    (present e rows).map toInt? = (integersOn e rows).map some := by
  induction rows with
  | nil => rfl
  | cons r rows ih =>
    have hrest := ih (h.subset fun r' hr' => List.mem_cons_of_mem r hr')
    rw [present] at hrest ⊢
    rw [integersOn, List.map_cons, List.filterMap_cons, List.filter_cons]
    rcases h.null_or_integer List.mem_cons_self with hnull | ⟨n, hn⟩
    · rw [hnull]
      exact hrest
    · have hknown : (valueOn e r).isNull = false := by
        cases hv : valueOn e r <;> simp_all [toInt?, isNull]
      rw [hn, hknown]
      exact congr (congrArg _ hn) hrest

theorem integersOn_ne_nil (h : YieldsIntegers e rows) (hknown : ∃ r ∈ rows, eval e (.row r) ≠ .ok .null) :
    integersOn e rows ≠ [] := by
  obtain ⟨r, hr, hnull⟩ := hknown
  obtain ⟨v, hv, rfl | ⟨n, hn⟩⟩ := h r hr
  · exact absurd hv hnull
  · have hmem : n ∈ integersOn e rows := List.mem_filterMap.mpr ⟨r, hr, by rw [(eval_ok_iff.mp hv).2, hn]⟩
    exact List.ne_nil_of_mem hmem

theorem sum_integersOn (hp : rows'.Perm rows) : (integersOn e rows').sum = (integersOn e rows).sum :=
  (hp.filterMap _).sum_eq

/-- The sum over rows is that of the integers, exact or null. -/
theorem eval_sum (h : YieldsIntegers e rows) (hne : integersOn e rows ≠ []) (args : List Expr) :
    ∃ u, eval (.app .sum e args) (.group rows) = .ok u ∧
      (u.toInt? = some (integersOn e rows).sum ∨ u = .null) ∧
      (u = .null ↔ ¬TotalsFit (2 ^ 63) (integersOn e rows)) :=
  ⟨total (present e rows), eval_aggregate rfl h.evaluates args, total_integers h.toInt?_present hne⟩

/-- Over rows on which the expression is null or an integer, and not null on all, SUM gives in each order of the rows
the exact sum, or null, and null just where a running total does not fit 64 bits; so it is null in each order if the
sum does not fit. It is the exact sum in every order, if and only if the positive integers alone and the negative
ones alone have sums that fit. -/
theorem sum_exact_while_totals_fit (e : Expr) (args : List Expr) (rows : List Row) (h : YieldsIntegers e rows)
    (hknown : ∃ r ∈ rows, eval e (.row r) ≠ .ok .null) :
    (∀ rows' : List Row, rows'.Perm rows → ∃ u, eval (.app .sum e args) (.group rows') = .ok u ∧
      (u.toInt? = some (integersOn e rows).sum ∨ u = .null) ∧
      (u = .null ↔ ¬TotalsFit (2 ^ 63) (integersOn e rows')) ∧
      (¬Fits (2 ^ 63) (integersOn e rows).sum → u = .null)) ∧
    ((∀ rows' : List Row, rows'.Perm rows → ∃ u, eval (.app .sum e args) (.group rows') = .ok u ∧
        u.toInt? = some (integersOn e rows).sum) ↔
      Fits (2 ^ 63) ((integersOn e rows).filter (0 < ·)).sum ∧
        Fits (2 ^ 63) ((integersOn e rows).filter (· < 0)).sum) := by
  have heval : ∀ rows' : List Row, rows'.Perm rows → ∃ u, eval (.app .sum e args) (.group rows') = .ok u ∧
      (u.toInt? = some (integersOn e rows).sum ∨ u = .null) ∧
      (u = .null ↔ ¬TotalsFit (2 ^ 63) (integersOn e rows')) := by
    intro rows' hp
    have hne : integersOn e rows' ≠ [] := by
      intro hnil
      have hempty := hp.filterMap fun r => (valueOn e r).toInt?
      exact integersOn_ne_nil h hknown (List.nil_perm.mp (hnil ▸ hempty))
    rw [← sum_integersOn hp]
    exact eval_sum (h.subset fun r hr => hp.mem_iff.mp hr) hne args
  constructor
  · intro rows' hp
    obtain ⟨u, hu, hexact, hnull⟩ := heval rows' hp
    refine ⟨u, hu, hexact, hnull, fun hsum => hnull.mpr fun hfit => hsum ?_⟩
    -- The sum itself is the last running total.
    have hlast := hfit (integersOn e rows').length
    rwa [List.take_length, sum_integersOn hp] at hlast
  · refine Iff.trans ?_ totalsFit_perm_iff
    refine forall_congr' fun rows' => forall_congr' fun hp => ?_
    obtain ⟨u, hu, hexact, hnull⟩ := heval rows' hp
    constructor
    · rintro ⟨u', hu', hsum⟩
      cases hu.symm.trans hu'
      by_contra hfit
      rw [hnull.mpr hfit] at hsum
      cases hsum
    · intro hfit
      exact ⟨u, hu, hexact.resolve_right fun h => hnull.mp h hfit⟩

/-- A column of numbers. -/
def number : Expr :=
  .path (.single "n")

/-- A row with the number. -/
def numbered (v : Value) : Row :=
  ⟨["n"], [v]⟩

/-- Numbers of both widths and a null, whose sum is 2 in each order. -/
theorem sum_exact_while_totals_fit_mixed :
    let rows := [numbered (.int 5), numbered .null, numbered (.long (-3))]
    YieldsIntegers number rows ∧ (∃ r ∈ rows, eval number (.row r) ≠ .ok .null) ∧ integersOn number rows = [5, -3] ∧
    ∀ rows' : List Row, rows'.Perm rows →
      ∃ u, eval (.app .sum number []) (.group rows') = .ok u ∧ u.toInt? = some 2 := by
  intro rows
  have hints : YieldsIntegers number rows :=
    List.forall_mem_cons.mpr ⟨⟨_, rfl, .inr ⟨5, rfl⟩⟩, List.forall_mem_cons.mpr ⟨⟨_, rfl, .inl rfl⟩,
      List.forall_mem_singleton.mpr ⟨_, rfl, .inr ⟨-3, rfl⟩⟩⟩⟩
  have hknown : ∃ r ∈ rows, eval number (.row r) ≠ .ok .null := ⟨_, List.mem_cons_self, nofun⟩
  exact ⟨hints, hknown, rfl, (sum_exact_while_totals_fit number [] rows hints hknown).2.mpr (by decide)⟩

/-- The greatest integer, 1 and -1. -/
def aroundGreatest : List Row :=
  [numbered (.long Int64.maxValue), numbered (.int 1), numbered (.int (-1))]

/-- The sum fits, but the second running total does not, unless the rows are taken in another order. -/
theorem running_total_overflows :
    YieldsIntegers number aroundGreatest ∧ (integersOn number aroundGreatest).sum = 2 ^ 63 - 1 ∧
    eval (.app .sum number []) (.group aroundGreatest) = .ok .null ∧
    ¬ExactOrNull (2 ^ 63) .null (some (integersOn number aroundGreatest).sum) ∧
    aroundGreatest.reverse.Perm aroundGreatest ∧
    eval (.app .sum number []) (.group aroundGreatest.reverse) = .ok (.long Int64.maxValue) := by
  refine ⟨?_, by decide, rfl, fun h => ?_, List.reverse_perm _, rfl⟩
  · exact List.forall_mem_cons.mpr ⟨⟨_, rfl, .inr ⟨2 ^ 63 - 1, rfl⟩⟩, List.forall_mem_cons.mpr
      ⟨⟨_, rfl, .inr ⟨1, rfl⟩⟩, List.forall_mem_singleton.mpr ⟨_, rfl, .inr ⟨-1, rfl⟩⟩⟩⟩
  · have hsum := h.exact (2 ^ 63 - 1) (by decide) (by decide)
    cases hsum

end TableQuery.Memory
