import Mathlib.Algebra.Order.Ring.Int
import TableQuery.Number.Double

/- Whole numbers of 64 bits have finite doubles (`ofInt_isFinite`). Rounding a number of few bits leaves its
   exponent far below that of the infinities (`roundWithAccuracy_bounded`), so that it is still there when the
   number is packed into 64 bits and taken out again (`isFinite_of_bounded`). -/
namespace TableQuery.Double

open Float.Model Float.Model.UnpackedFloat

/-- A zero, or a number whose exponent is at most `limit`. -/
inductive Bounded (limit : Int) : UnpackedFloat → Prop where
  | zero (s : Sign) : Bounded limit (.zero s)
  | finite {s : Sign} {m : Nat} {e : Int} {hm : 0 < m} (he : e ≤ limit) : Bounded limit (.finite s m e hm)

theorem bounded_of_le {limit e : Int} (s : Sign) (m : Nat) (he : e ≤ limit) :
    Bounded limit (if h : m = 0 then .zero s else .finite s m e (Nat.pos_of_ne_zero h)) := by
  by_cases hm : m = 0
  · rw [dif_pos hm]
    exact .zero s
  · rw [dif_neg hm]
    exact .finite he

/-! ## Packing -/

theorem isFinite_of_exponent {b : BitVec Format.binary64.numBits} (h : unpackExponent b ≠ -1#_) :
    (UnpackedFloat.unpack Format.binary64 b).isFinite = true := by
  delta UnpackedFloat.unpack
  rw [if_neg h]
  by_cases hexponent : unpackExponent b = 0#_
  · rw [if_pos hexponent]
    by_cases hmantissa : unpackMantissa b = 0#_
    · rw [dif_pos hmantissa]
      rfl
    · rw [dif_neg hmantissa]
      rfl
  · rw [if_neg hexponent]
    rfl

theorem ofNat_ne_allOnes {n : Nat} (h : n + 1 < 2 ^ 11) : BitVec.ofNat 11 n ≠ -1#11 := by
  intro heq
  have hn := congrArg BitVec.toNat heq
  rw [BitVec.toNat_ofNat, Nat.mod_eq_of_lt (by omega)] at hn
  have : (-1#11).toNat = 2047 := by decide
  omega

theorem isFinite_of_bounded {u : UnpackedFloat} (h : Bounded 900 u) : (pack u).isFinite = true := by
  refine isFinite_of_exponent ?_
  show unpackExponent (UnpackedFloat.pack Format.binary64 u) ≠ -1#11
  cases h with
  | zero s =>
    show unpackExponent (packComponents Format.binary64 s 0#_ 0#_) ≠ -1#11
    rw [unpackExponent_packComponents]
    decide
  | @finite s m e hm hbound =>
    have he : (e + Format.binary64.exponentBias + (52 : Nat)).toNat + 1 < 2 ^ 11 := by
      have hbias : Format.binary64.exponentBias = 1023 := by decide
      rw [hbias]
      omega
    show @unpackExponent Format.binary64
      (if 2 ^ 11 ≤ (e + Format.binary64.exponentBias + (52 : Nat)).toNat + 1 then _
        else if m.log2 + 1 = Format.binary64.mantissaBits then _ else _) ≠ -1#11
    rw [if_neg (Nat.not_le.mpr he)]
    split
    · rw [unpackExponent_packComponents]
      exact ofNat_ne_allOnes he
    · rw [unpackExponent_packComponents]
      decide

/-! ## Rounding -/

theorem shiftRight_mantissa_le (em : ExtendedMantissa) (n : Nat) : (em >>> n).mantissa ≤ em.mantissa := by
  show (n.repeat ExtendedMantissa.shiftRightOne em).mantissa ≤ em.mantissa
  induction n with
  | zero => exact Nat.le_refl _
  | succ n ih => exact Nat.le_trans (Nat.div_le_self _ 2) ih

theorem roundedMantissa_le (em : ExtendedMantissa) : em.roundedMantissa ≤ em.mantissa + 1 := by
  obtain ⟨m, round, sticky⟩ := em
  cases round <;> cases sticky <;>
    simp only [ExtendedMantissa.roundedMantissa, ExtendedMantissa.accuracy, Accuracy.roundToNearestEven]
  all_goals omega

/-- Shifting makes the significand no larger, and the exponent as large as the bits that go. -/
theorem shiftToTargetExponent_le {m : Nat} {e limit : Int} (hm : (m.log2 : Int) ≤ 200) (he : e ≤ limit)
    (hlimit : 0 ≤ limit) :
    (shiftToTargetExponent Format.binary64 m e .exact).1.mantissa ≤ m ∧
      (shiftToTargetExponent Format.binary64 m e .exact).2 ≤ limit + 200 := by
  have hmin : Format.binary64.minExponent = -1074 := by decide
  have hbits : (Format.binary64.mantissaBits : Int) = 53 := by decide
  refine ⟨shiftRight_mantissa_le _ _, ?_⟩
  show e + ((Format.binary64.targetExponent (totalExponent m e) - e).toNat : Int) ≤ limit + 200
  rw [Format.targetExponent, totalExponent, hmin, hbits]
  omega

/-- The first shift drops bits and rounds; the second one is for a significand that was rounded up. -/
theorem roundWithAccuracy_eq (s : Sign) (m : Nat) (e : Int) :
    let first := shiftToTargetExponent Format.binary64 m e .exact
    let last := shiftToTargetExponent Format.binary64 first.1.roundedMantissa first.2 .exact
    roundWithAccuracy Format.binary64 s m e .exact =
      if h : last.1.mantissa = 0 then .zero s
      else .finite s last.1.mantissa last.2 (Nat.pos_of_ne_zero h) :=
  rfl

theorem log2_le_of_lt {n : Nat} (hn : n < 2 ^ 200) : (n.log2 : Int) ≤ 200 := by
  rcases Nat.eq_zero_or_pos n with rfl | hpos
  · decide
  · have := (Nat.log2_lt (Nat.pos_iff_ne_zero.mp hpos)).mpr hn
    omega

theorem roundWithAccuracy_bounded (s : Sign) {m : Nat} {e : Int} (hm : m + 1 < 2 ^ 200) (he : e ≤ 0) :
    Bounded 900 (roundWithAccuracy Format.binary64 s m e .exact) := by
  obtain ⟨hfirst, hexp⟩ := shiftToTargetExponent_le (log2_le_of_lt (Nat.lt_of_succ_lt hm)) he (Int.le_refl 0)
  have hround : (shiftToTargetExponent Format.binary64 m e .exact).1.roundedMantissa < 2 ^ 200 :=
    Nat.lt_of_le_of_lt (Nat.le_trans (roundedMantissa_le _) (Nat.add_le_add_right hfirst 1)) hm
  obtain ⟨_, hlast⟩ := shiftToTargetExponent_le (log2_le_of_lt hround) hexp (by decide)
  rw [roundWithAccuracy_eq]
  refine bounded_of_le s _ ?_
  omega

/-! ## Whole numbers -/

/-- A whole number is rounded from a significand that is shifted by all the bits of one. -/
theorem ofScientific_whole {n : Nat} (hn : n ≠ 0) :
    UnpackedFloat.ofScientific Format.binary64 n 0 =
      roundWithAccuracy Format.binary64 (.positive * .positive)
        ((n <<< Format.binary64.mantissaBits) * 10 ^ (0 : Int).toNat) (-Format.binary64.mantissaBits + 0) .exact := by
  have hhigh : ¬(0 : Int) > 2 ^ Format.binary64.exponentBits := by decide
  have hlow : ¬(0 : Int) < -((2 ^ Format.binary64.exponentBits : Int) + n.log2) := by
    have hbits : (2 ^ Format.binary64.exponentBits : Int) = 2048 := by decide
    rw [hbits]
    omega
  rw [UnpackedFloat.ofScientific, dif_neg hn, if_neg hhigh, if_neg hlow, if_pos (Int.le_refl 0)]
  rfl

theorem shifted_lt {n : Nat} (hn : n < 2 ^ 64) :
    (n <<< Format.binary64.mantissaBits) * 10 ^ (0 : Int).toNat + 1 < 2 ^ 200 := by
  have hbits : Format.binary64.mantissaBits = 53 := by decide
  have hzero : (0 : Int).toNat = 0 := rfl
  rw [hbits, hzero, Nat.shiftLeft_eq]
  omega

theorem ofNat_isFinite_eq {n : Nat} (hn : 2 ^ 53 ≤ n) :
    (Float.ofNat n).isFinite = (Float.Model.pack (UnpackedFloat.ofScientific Format.binary64 n 0)).isFinite := by
  have hslow : ¬(n < 2 ^ 53 ∧ 0 ≤ 22) := fun h => absurd h.1 (Nat.not_lt.mpr hn)
  exact congrArg Float.isFinite (dif_neg hslow : Float.ofScientific n false 0 = _)

theorem bounded_ofScientific {n : Nat} (hn : n ≠ 0) (hhigh : n < 2 ^ 64) :
    Bounded 900 (UnpackedFloat.ofScientific Format.binary64 n 0) := by
  rw [ofScientific_whole hn]
  exact roundWithAccuracy_bounded _ (shifted_lt hhigh) (by decide)

theorem ofNat_isFinite {n : Nat} (hlow : 2 ^ 53 ≤ n) (hhigh : n < 2 ^ 64) : (Float.ofNat n).isFinite = true := by
  have hn : n ≠ 0 := Nat.pos_iff_ne_zero.mp (Nat.lt_of_lt_of_le (Nat.two_pow_pos 53) hlow)
  rw [ofNat_isFinite_eq hlow]
  exact isFinite_of_bounded (bounded_ofScientific hn hhigh)

theorem ofInt_isFinite {n : Int} (hlow : 2 ^ 53 ≤ n) (hhigh : n < 2 ^ 64) : (Float.ofInt n).isFinite = true := by
  cases n with
  | ofNat k =>
    rw [Float.ofInt]
    exact ofNat_isFinite (Int.ofNat_le.mp hlow) (Int.ofNat_lt.mp hhigh)
  | negSucc k => exact absurd hlow (by omega)

end TableQuery.Double
