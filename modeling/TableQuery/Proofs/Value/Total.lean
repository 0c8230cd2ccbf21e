import Mathlib.Algebra.BigOperators.Group.List.Basic
import TableQuery.Proofs.Value.Arithmetic

/- Sums of integers of both widths. The values are added up one by one, so that the sum is exact if each running total
   fits 64 bits, and null otherwise (`total_integers`). The running totals hang on the order of the values:

     1. `sum_between`: the sum of some of the integers lies between that of all negative ones and that of all positive
        ones.
     2. `totalsFit_perm_iff`: they fit in every order, if and only if these two sums do. -/
namespace TableQuery.Value

/-- The sum of the first integers is within the range, however many these are. -/
def TotalsFit (bound : Int) (ns : List Int) : Prop :=
  ∀ k, Fits bound (ns.take k).sum

variable {α : Type} {v w u : Value} {vs : List Value} {m n b : Int} {ns ms : List Int}

/-! ## Adding up -/

theorem arithmetic?_add (hv : v.toInt? = some m) (hw : w.toInt? = some n) :
    arithmetic? .add v w = ofInt64? (m + n) := by
  rw [arithmetic?, hv, hw]
  rfl

theorem exists_integers_cons (h : (v :: vs).map toInt? = ns.map some) :
    ∃ n ns', ns = n :: ns' ∧ v.toInt? = some n ∧ vs.map toInt? = ns'.map some := by
  cases ns with
  | nil => cases h
  | cons n ns => exact ⟨n, ns, rfl, List.cons.inj h⟩

/-- From a value on, the sum is exact if there is one. -/
theorem foldlM_add_exact (hvs : vs.map toInt? = ns.map some) (hv : v.toInt? = some m)
    (h : vs.foldlM (arithmetic? .add) v = some u) : u.toInt? = some (m + ns.sum) := by
  induction vs generalizing v m ns with
  | nil =>
    obtain rfl : ns = [] := List.map_eq_nil_iff.mp hvs.symm
    cases h
    rw [hv, List.sum_nil, add_zero]
  | cons w vs ih =>
    obtain ⟨n, ns, rfl, hw, hvs⟩ := exists_integers_cons hvs
    rw [List.foldlM_cons, arithmetic?_add hv hw] at h
    obtain ⟨v', hv', h⟩ := Option.bind_eq_some_iff.mp h
    rw [ih hvs (toInt?_of_ofInt64? hv') h, List.sum_cons, add_assoc]

/-- The sums of the first integers are zero and those of the first one with some after it. -/
theorem forall_total_cons {P : Int → Prop} :
    (∀ k, P ((n :: ns).take k).sum) ↔ P 0 ∧ ∀ k, P (n + (ns.take k).sum) := by
  constructor
  · exact fun h => ⟨h 0, fun k => by simpa using h (k + 1)⟩
  · rintro ⟨hzero, hsucc⟩ k
    cases k with
    | zero => exact hzero
    | succ k => simpa using hsucc k

/-- There is a sum if each running total fits. The first one is the value itself. -/
theorem foldlM_add_isSome (hvs : vs.map toInt? = ns.map some) (hv : v.toInt? = some m) :
    (vs.foldlM (arithmetic? .add) v).isSome ↔ ∀ k, Fits (2 ^ 63) (m + (ns.take k).sum) := by
  have hm : Fits (2 ^ 63) (m + 0) := by
    rw [add_zero]
    exact fits_of_toInt? hv
  induction vs generalizing v m ns with
  | nil =>
    obtain rfl : ns = [] := List.map_eq_nil_iff.mp hvs.symm
    simpa using hm
  | cons w vs ih =>
    obtain ⟨n, ns, rfl, hw, hvs⟩ := exists_integers_cons hvs
    rw [forall_total_cons (P := fun s => Fits (2 ^ 63) (m + s)), and_iff_right hm, List.foldlM_cons,
      arithmetic?_add hv hw, ofInt64?_eq]
    simp only [← add_assoc]
    by_cases hsum : Fits (2 ^ 63) (m + n)
    · rw [if_pos hsum]
      exact ih hvs (congrArg some (Int64.toInt_ofInt_of_le hsum.1 hsum.2)) (by rwa [add_zero])
    · rw [if_neg hsum]
      refine ⟨nofun, fun h => absurd (h 0) ?_⟩
      rwa [List.take_zero, List.sum_nil, add_zero]

/-- The sum of integers is exact or null, and null if some running total does not fit. -/
theorem total_integers (hvs : vs.map toInt? = ns.map some) (hne : ns ≠ []) :
    ((total vs).toInt? = some ns.sum ∨ total vs = .null) ∧ (total vs = .null ↔ ¬TotalsFit (2 ^ 63) ns) := by
  cases vs with
  | nil => exact absurd (List.map_eq_nil_iff.mp hvs.symm) hne
  | cons v vs =>
    obtain ⟨n, ns, rfl, hv, hvs⟩ := exists_integers_cons hvs
    have hsome : (vs.foldlM (arithmetic? .add) v).isSome ↔ TotalsFit (2 ^ 63) (n :: ns) := by
      rw [foldlM_add_isSome hvs hv, TotalsFit, forall_total_cons]
      exact (and_iff_right (by decide)).symm
    rw [total]
    cases hsum : vs.foldlM (arithmetic? .add) v with
    | none =>
      rw [hsum] at hsome
      exact ⟨.inr rfl, fun _ h => (nomatch hsome.mpr h), fun _ => rfl⟩
    | some u =>
      rw [hsum] at hsome
      have hexact := foldlM_add_exact hvs hv hsum
      refine ⟨.inl hexact, ?_, fun h => absurd (hsome.mp rfl) h⟩
      rintro rfl
      cases hexact

/-! ## Running totals in any order -/

theorem sum_filter_cons (p : Int → Bool) (n : Int) (ns : List Int) :
    ((n :: ns).filter p).sum = (if p n then n else 0) + (ns.filter p).sum := by
  rw [List.filter_cons]
  split
  · rw [List.sum_cons]
  · rw [zero_add]

/-- Some of the integers, taken together, are between the negative ones and the positive ones. -/
theorem sum_between (h : ms.Sublist ns) :
    (ns.filter (· < 0)).sum ≤ ms.sum ∧ ms.sum ≤ (ns.filter (0 < ·)).sum := by
  induction h with
  | slnil => exact ⟨le_refl 0, le_refl 0⟩
  | cons n _ ih =>
    simp only [sum_filter_cons, decide_eq_true_eq]
    split <;> split <;> omega
  | cons_cons n _ ih =>
    simp only [sum_filter_cons, decide_eq_true_eq, List.sum_cons]
    split <;> split <;> omega

/-- With the positive ones in front, they are one of the running totals, and so are the negative ones. -/
theorem fits_of_totalsFit {f : α → Option Int} {as : List α} (p : Int → Bool)
    (h : ∀ as' : List α, as'.Perm as → TotalsFit b (as'.filterMap f)) : Fits b ((as.filterMap f).filter p).sum := by
  have hfront := h _ (List.filter_append_perm (fun a => (f a).any p) as)
  have hfilter : (as.filter fun a => (f a).any p).filterMap f = (as.filterMap f).filter p := by
    rw [List.filter_filterMap, List.filterMap_filter]
    congr 1
    funext a
    cases f a with
    | none => rfl
    | some n => simp [Option.filter]
  rw [List.filterMap_append, hfilter] at hfront
  have htotal := hfront ((as.filterMap f).filter p).length
  rwa [List.take_left] at htotal

theorem totalsFit_perm_iff {f : α → Option Int} {as : List α} :
    (∀ as' : List α, as'.Perm as → TotalsFit b (as'.filterMap f)) ↔
      Fits b ((as.filterMap f).filter (0 < ·)).sum ∧ Fits b ((as.filterMap f).filter (· < 0)).sum := by
  constructor
  · exact fun h => ⟨fits_of_totalsFit _ h, fits_of_totalsFit _ h⟩
  · rintro ⟨hpositive, hnegative⟩ as' hp k
    have hperm := hp.filterMap f
    obtain ⟨hlow, hhigh⟩ := sum_between (List.take_sublist k (as'.filterMap f))
    rw [(hperm.filter _).sum_eq] at hlow hhigh
    exact ⟨hnegative.1.trans hlow, hhigh.trans_lt hpositive.2⟩

end TableQuery.Value
