import TableQuery.Number.Double

/- The order of doubles. Each double but a NaN has a rank, three integers of which the first that differ
   decide, and doubles compare as their ranks do (`order_eq`). So the order is total among the doubles that
   are no NaN, and a NaN compares to nothing. -/
namespace TableQuery

theorem eq_of_isLE_swap : ∀ {o : Ordering}, o.isLE = true → o.swap.isLE = true → o = .eq := by
  decide

namespace Double

open Float.Model

/-- Where a double stands: on which side of zero, or at an end, and there by exponent and significand. -/
structure Rank where
  level : Int
  exponent : Int
  significand : Int

def Rank.order : Rank → Rank → Ordering :=
  compareLex (compareOn Rank.level) (compareLex (compareOn Rank.exponent) (compareOn Rank.significand))

instance : Std.TransCmp Rank.order :=
  inferInstanceAs (Std.TransCmp
    (compareLex (compareOn Rank.level) (compareLex (compareOn Rank.exponent) (compareOn Rank.significand))))

theorem Rank.order_level (level e e' m m' : Int) :
    Rank.order ⟨level, e, m⟩ ⟨level, e', m'⟩ = (compare e e').then (compare m m') := by
  simp only [Rank.order, compareLex, compareOn, Int.compare_eq_eq.mpr rfl]
  rfl

/-- One rank is at most another where its first part that differs is the smaller one. -/
theorem Rank.isLE_iff {r s : Rank} :
    (r.order s).isLE = true ↔ r.level < s.level ∨ r.level = s.level ∧
      (r.exponent < s.exponent ∨ r.exponent = s.exponent ∧ r.significand ≤ s.significand) := by
  simp only [Rank.order, compareLex, compareOn, Ordering.isLE_then_iff_and, Int.isLE_compare, Int.compare_eq_lt]
  omega

def Rank.neg (r : Rank) : Rank :=
  ⟨-r.level, -r.exponent, -r.significand⟩

theorem Rank.neg_isLE_iff {r s : Rank} : (r.neg.order s.neg).isLE = true ↔ (s.order r).isLE = true := by
  simp only [Rank.isLE_iff, Rank.neg]
  omega

/-- The rank of a double. Those below zero are ranked by what they are when turned around. -/
def modelRank? : UnpackedFloat → Option Rank
  | .notANumber => none
  | .infinity .negative => some ⟨-2, 0, 0⟩
  | .finite .negative m e _ => some ⟨-1, -e, -m⟩
  | .zero _ => some ⟨0, 0, 0⟩
  | .finite .positive m e _ => some ⟨1, e, m⟩
  | .infinity .positive => some ⟨2, 0, 0⟩

theorem modelRank?_neg (a : UnpackedFloat) : modelRank? a.neg = (modelRank? a).map Rank.neg := by
  rcases a with ⟨_ | _⟩ | _ | _ | ⟨_ | _, m, e, hm⟩
  -- Turned around twice, the parts are as they were.
  case finite.negative =>
    show some _ = some (Rank.mk (- -1) (- -e) (- -(m : Int)))
    simp only [Int.neg_neg]
  all_goals rfl

def rank? (x : Float) : Option Rank :=
  modelRank? x.toModel.unpack

def rankOrder? : Option Rank → Option Rank → Option Ordering
  | some r, some s => some (r.order s)
  | _, _ => none

theorem compare_neg (a b : Int) : compare (-a) (-b) = (compare a b).swap := by
  rcases Int.lt_trichotomy a b with h | rfl | h
  · rw [Int.compare_eq_lt.mpr h, Int.compare_eq_gt.mpr (by omega)]
    rfl
  · rw [Int.compare_eq_eq.mpr rfl, Int.compare_eq_eq.mpr rfl]
    rfl
  · rw [Int.compare_eq_gt.mpr h, Int.compare_eq_lt.mpr (by omega)]
    rfl

theorem compare_cast (m n : Nat) : compare (m : Int) (n : Int) = compare m n := by
  rcases Nat.lt_trichotomy m n with h | rfl | h
  · rw [Nat.compare_eq_lt.mpr h, Int.compare_eq_lt.mpr (Int.ofNat_lt.mpr h)]
  · rw [Nat.compare_eq_eq.mpr rfl, Int.compare_eq_eq.mpr rfl]
  · rw [Nat.compare_eq_gt.mpr h, Int.compare_eq_gt.mpr (Int.ofNat_lt.mpr h)]

theorem model_compare_eq (a b : UnpackedFloat) : a.compare b = rankOrder? (modelRank? a) (modelRank? b) := by
  rcases a with ⟨_ | _⟩ | _ | _ | ⟨_ | _, m, e, hm⟩ <;>
  rcases b with ⟨_ | _⟩ | _ | _ | ⟨_ | _, m', e', hm'⟩
  -- Two finite numbers on the same side of zero have the same level.
  case finite.negative.finite.negative =>
    show some ((compare e e').then (compare m m')).swap = some (Rank.order ⟨-1, -e, -m⟩ ⟨-1, -e', -m'⟩)
    rw [Rank.order_level, compare_neg, compare_neg, compare_cast, Ordering.swap_then]
  case finite.positive.finite.positive =>
    show some ((compare e e').then (compare m m')) = some (Rank.order ⟨1, e, m⟩ ⟨1, e', m'⟩)
    rw [Rank.order_level, compare_cast]
  -- Otherwise the levels decide, or there is a NaN.
  all_goals rfl

theorem lt_iff {x y : Float} : x < y ↔ x.toModel.unpack.compare y.toModel.unpack = some .lt := by
  show decide ((x.toModel.unpack.compare y.toModel.unpack == some Ordering.lt) = true) = true ↔ _
  rw [decide_eq_true_iff, beq_iff_eq]

theorem eq_iff {x y : Float} : (x == y) = true ↔ x.toModel.unpack.compare y.toModel.unpack = some .eq := by
  show (x.toModel.unpack.compare y.toModel.unpack == some Ordering.eq) = true ↔ _
  rw [beq_iff_eq]

theorem rankOrder?_swap (r s : Option Rank) : rankOrder? s r = (rankOrder? r s).map Ordering.swap := by
  cases r with
  | none => cases s <;> rfl
  | some r =>
    cases s with
    | none => rfl
    | some s => exact congrArg some Std.OrientedCmp.eq_swap

/-- Doubles compare as their ranks do. -/
theorem order_eq (x y : Float) : order x y = rankOrder? (rank? x) (rank? y) := by
  have hxy := model_compare_eq x.toModel.unpack y.toModel.unpack
  have hyx := model_compare_eq y.toModel.unpack x.toModel.unpack
  rw [rankOrder?_swap] at hyx
  simp only [order, lt_iff, eq_iff, hxy, hyx]
  show _ = rankOrder? (modelRank? x.toModel.unpack) (modelRank? y.toModel.unpack)
  rcases rankOrder? (modelRank? x.toModel.unpack) (modelRank? y.toModel.unpack) with _ | _ | _ | _ <;> rfl

/-- Doubles compare where both have a rank. -/
theorem order_isSome_iff {x y : Float} :
    (∃ o, order x y = some o) ↔ (∃ r, rank? x = some r) ∧ ∃ s, rank? y = some s := by
  rw [order_eq]
  cases rank? x <;> cases rank? y <;> simp [rankOrder?]

theorem order_swap (x y : Float) : order y x = (order x y).map Ordering.swap := by
  rw [order_eq, order_eq, rankOrder?_swap]

theorem order_eq_iff {x y : Float} : order x y = some .eq ↔ (x == y) = true := by
  rw [eq_iff, model_compare_eq, order_eq, rank?, rank?]

theorem le_iff {x y : Float} : x ≤ y ↔ ∃ o, order x y = some o ∧ o.isLE = true := by
  show decide ((x.toModel.unpack.compare y.toModel.unpack).any (·.isLE) = true) = true ↔ _
  rw [decide_eq_true_iff, Option.any_eq_true, order_eq, model_compare_eq]
  rfl

theorem le_iff_rank {x y : Float} :
    x ≤ y ↔ ∃ r s, rank? x = some r ∧ rank? y = some s ∧ (r.order s).isLE = true := by
  rw [le_iff, order_eq]
  cases rank? x <;> cases rank? y <;> simp [rankOrder?]

theorem le_trans {x y z : Float} (hxy : x ≤ y) (hyz : y ≤ z) : x ≤ z := by
  obtain ⟨r, s, hr, hs, hrs⟩ := le_iff_rank.mp hxy
  obtain ⟨s', t, hs', ht, hst⟩ := le_iff_rank.mp hyz
  cases hs.symm.trans hs'
  exact le_iff_rank.mpr ⟨r, t, hr, ht, Std.TransCmp.isLE_trans hrs hst⟩

theorem order_eq_of_le {x y : Float} (hxy : x ≤ y) (hyx : y ≤ x) : order x y = some .eq := by
  obtain ⟨o, ho, hle⟩ := le_iff.mp hxy
  obtain ⟨o', ho', hle'⟩ := le_iff.mp hyx
  rw [order_swap, ho] at ho'
  cases ho'
  rw [ho, eq_of_isLE_swap hle hle']

end Double

end TableQuery
