import TableQuery.Proofs.Number.Finite
import TableQuery.Proofs.Number.Order

/- The doubles of integers are in the order of the integers (`ofInt_mono`), although integers of more
   than 53 bits may share one. Dropping bits is a division that is rounded to the nearest number, the even
   one of two (`nearest`), and rounding keeps the order (`nearest_mono`). A whole number `n` below `2 ^ 64`
   becomes the double `whole .positive n`, whether it fits a double as it is or not (`unpack_ofNat`), of
   which the exponent is that of the highest bit of `n`. -/
namespace TableQuery.Double

open Float.Model Float.Model.UnpackedFloat

/-! ## Rounding as arithmetic -/

/-- The whole number nearest to `m / 2 ^ k`, the even one if there are two. -/
def nearest (m k : Nat) : Nat :=
  let q := m / 2 ^ k
  let r := m % 2 ^ k
  if 2 * r < 2 ^ k then q else if 2 * r = 2 ^ k then q + q % 2 else q + 1

theorem mod_two_pow_succ (m k : Nat) : m % 2 ^ (k + 1) = m % 2 ^ k + 2 ^ k * (m / 2 ^ k % 2) := by
  rw [Nat.pow_succ, Nat.mod_mul]

/-- Shifting leaves the quotient, the bit below it and whether there is more below that. -/
theorem shiftRight_succ (m k : Nat) :
    (⟨m, false, false⟩ : ExtendedMantissa) >>> (k + 1) =
      ⟨m / 2 ^ (k + 1), m / 2 ^ k % 2 != 0, m % 2 ^ k != 0⟩ := by
  show (k + 1).repeat ExtendedMantissa.shiftRightOne _ = _
  induction k with
  | zero =>
    simp [Nat.repeat, ExtendedMantissa.shiftRightOne, Nat.mod_one]
  | succ k ih =>
    rw [Nat.repeat, ih]
    have hpos : 0 < 2 ^ k := Nat.two_pow_pos k
    have hquot : m / 2 ^ (k + 1) / 2 = m / 2 ^ (k + 1 + 1) := by
      rw [Nat.div_div_eq_div_mul, ← Nat.pow_succ]
    have hsticky : ((m / 2 ^ k % 2 != 0) || (m % 2 ^ k != 0)) = (m % 2 ^ (k + 1) != 0) := by
      rw [mod_two_pow_succ]
      rcases Nat.mod_two_eq_zero_or_one (m / 2 ^ k) with h | h
      · simp [h]
      · simp [h]
    simp only [ExtendedMantissa.shiftRightOne, hquot, hsticky]

theorem roundedMantissa_shiftRight (m k : Nat) :
    ((⟨m, false, false⟩ : ExtendedMantissa) >>> k).roundedMantissa = nearest m k := by
  cases k with
  | zero =>
    simp [nearest, Nat.mod_one]
    rfl
  | succ k =>
    have hlt : m % 2 ^ k < 2 ^ k := Nat.mod_lt _ (Nat.two_pow_pos k)
    have hpow : 2 ^ (k + 1) = 2 * 2 ^ k := by rw [Nat.pow_succ, Nat.mul_comm]
    rw [shiftRight_succ, nearest, mod_two_pow_succ]
    -- The bit below the quotient says on which side of a half the rest is, or at it.
    rcases Nat.mod_two_eq_zero_or_one (m / 2 ^ k) with hround | hround
    · rw [hround, Nat.mul_zero, if_pos (by omega)]
      cases m % 2 ^ k != 0 <;> rfl
    · rw [hround, Nat.mul_one, if_neg (by omega)]
      by_cases hzero : m % 2 ^ k = 0
      · rw [if_pos (by omega), hzero]
        rfl
      · rw [if_neg (by omega), bne_iff_ne.mpr hzero]
        rfl

theorem nearest_bounds (m k : Nat) : m / 2 ^ k ≤ nearest m k ∧ nearest m k ≤ m / 2 ^ k + 1 := by
  simp only [nearest]
  split_ifs <;> omega

theorem nearest_mono {m n : Nat} (k : Nat) (h : m ≤ n) : nearest m k ≤ nearest n k := by
  have hm := Nat.div_add_mod m (2 ^ k)
  have hn := Nat.div_add_mod n (2 ^ k)
  rcases Nat.lt_or_eq_of_le (Nat.div_le_div_right h : m / 2 ^ k ≤ n / 2 ^ k) with hlt | heq
  · have hupper := (nearest_bounds m k).2
    have hlower := (nearest_bounds n k).1
    omega
  -- With the same quotient, it is the larger rest that is rounded up.
  · have hrest : m % 2 ^ k ≤ n % 2 ^ k := by
      rw [heq] at hm
      omega
    simp only [nearest, heq]
    split_ifs <;> omega

/-- Nothing is rounded where only zeros are shifted out. -/
theorem nearest_mul (m k : Nat) : nearest (m * 2 ^ k) k = m := by
  have hpos : 0 < 2 ^ k := Nat.two_pow_pos k
  rw [nearest, Nat.mul_mod_left, Nat.mul_div_cancel m hpos, if_pos (by omega)]

theorem nearest_zero (m : Nat) : nearest m 0 = m :=
  (congrArg (nearest · 0) (Nat.mul_one m).symm).trans (nearest_mul m 0)

/-- A number of `53 + k` bits is rounded to one of 53 bits, or to the next power of two. -/
theorem nearest_normal {m k : Nat} (hbits : m.log2 = 52 + k) (hm : m ≠ 0) :
    2 ^ 52 ≤ nearest m k ∧ nearest m k ≤ 2 ^ 53 := by
  have hpos : 0 < 2 ^ k := Nat.two_pow_pos k
  have hlow : 2 ^ 52 ≤ m / 2 ^ k := by
    rw [Nat.le_div_iff_mul_le hpos, ← Nat.pow_add, ← hbits]
    exact Nat.log2_self_le hm
  have hhigh : m / 2 ^ k < 2 ^ 53 := by
    rw [Nat.div_lt_iff_lt_mul hpos, ← Nat.pow_add]
    exact (Nat.log2_lt hm).mp (by omega)
  obtain ⟨hlower, hupper⟩ := nearest_bounds m k
  omega

/-! ## Rounding to a double -/

theorem shiftToTargetExponent_eq {m k : Nat} {e : Int} (hbits : m.log2 = 52 + k) (he : -1074 ≤ e + k) :
    shiftToTargetExponent Format.binary64 m e .exact =
      ((⟨m, false, false⟩ : ExtendedMantissa) >>> k, e + k) := by
  have hmin : Format.binary64.minExponent = -1074 := by decide
  have hmantissa : (Format.binary64.mantissaBits : Int) = 53 := by decide
  have hamount : (Format.binary64.targetExponent (totalExponent m e) - e).toNat = k := by
    rw [Format.targetExponent, totalExponent, hmin, hmantissa, hbits]
    omega
  simp only [shiftToTargetExponent, shiftToExponent, hamount]
  rfl

/-- The double of these parts, a zero if it has no significand. -/
def assemble (s : Sign) (m : Nat) (e : Int) : UnpackedFloat :=
  if h : m = 0 then .zero s else .finite s m e (Nat.pos_of_ne_zero h)

/-- A significand that has got a bit too many is halved. -/
def settle (s : Sign) (m : Nat) (e : Int) : UnpackedFloat :=
  if m = 2 ^ 53 then assemble s (2 ^ 52) (e + 1) else assemble s m e

theorem finite_eq_assemble (s : Sign) {m : Nat} (e : Int) (hm : 0 < m) : .finite s m e hm = assemble s m e := by
  rw [assemble, dif_neg (Nat.pos_iff_ne_zero.mp hm)]

theorem roundWithAccuracy_assemble (s : Sign) (m : Nat) (e : Int) :
    let first := shiftToTargetExponent Format.binary64 m e .exact
    let last := shiftToTargetExponent Format.binary64 first.1.roundedMantissa first.2 .exact
    roundWithAccuracy Format.binary64 s m e .exact = assemble s last.1.mantissa last.2 :=
  rfl

theorem roundWithAccuracy_settle (s : Sign) {m k : Nat} {e : Int} (hm : m ≠ 0) (hbits : m.log2 = 52 + k)
    (he : -1074 ≤ e + k) :
    roundWithAccuracy Format.binary64 s m e .exact = settle s (nearest m k) (e + k) := by
  obtain ⟨hlow, hhigh⟩ := nearest_normal hbits hm
  rw [roundWithAccuracy_assemble, shiftToTargetExponent_eq hbits he, roundedMantissa_shiftRight]
  by_cases hfull : nearest m k = 2 ^ 53
  -- One bit more goes, which is a zero.
  · have hlog : (2 ^ 53).log2 = 52 + 1 := Nat.log2_two_pow
    rw [hfull, shiftToTargetExponent_eq hlog (by omega)]
    rfl
  · have hlog : (nearest m k).log2 = 52 + 0 := (Nat.log2_eq_iff (by omega)).mpr (by omega)
    rw [shiftToTargetExponent_eq hlog (by omega), settle, if_neg hfull, Int.add_assoc]
    rfl

/-! ## Packing -/

theorem unpackSign_packComponents {spec : Format} (s : Sign) (e : BitVec spec.exponentBits)
    (m : BitVec spec.mantissaBitsWithoutImplicit) : unpackSign (packComponents spec s e m) = s.toBitVec := by
  ext i hi
  have hi0 : i = 0 := by omega
  subst hi0
  delta unpackSign packComponents
  simp [BitVec.getLsbD_append, BitVec.getElem_append]

theorem ofBitVec_toBitVec (s : Sign) : Sign.ofBitVec s.toBitVec = s := by
  cases s <;> rfl

theorem implicit_toNat {m : Nat} (hlow : 2 ^ 52 ≤ m) (hhigh : m < 2 ^ 53) :
    (1#1 ++ BitVec.ofNat 52 m).toNat = m := by
  have hrest : (BitVec.ofNat 52 m).toNat = m - 2 ^ 52 := by
    rw [BitVec.toNat_ofNat]
    omega
  rw [BitVec.toNat_append, ← Nat.shiftLeft_add_eq_or_of_lt (BitVec.isLt _), hrest, Nat.shiftLeft_eq]
  show 1 * 2 ^ 52 + (m - 2 ^ 52) = m
  omega

theorem unpack_normal {b : BitVec Format.binary64.numBits} (hends : unpackExponent b ≠ -1#_)
    (hzero : unpackExponent b ≠ 0#_) :
    UnpackedFloat.unpack Format.binary64 b =
      assemble (Sign.ofBitVec (unpackSign b)) (1#1 ++ unpackMantissa b).toNat
        ((unpackExponent b).toNat - (Format.binary64.exponentBias + (52 : Nat))) := by
  delta UnpackedFloat.unpack
  rw [if_neg hends, if_neg hzero, finite_eq_assemble]

/-- A number with all 53 bits comes back as it was packed. -/
theorem unpack_pack {s : Sign} {m : Nat} {e : Int} (hlow : 2 ^ 52 ≤ m) (hhigh : m < 2 ^ 53)
    (he : -1074 ≤ e) (he' : e ≤ 900) :
    (Float.Model.pack (assemble s m e)).unpack = assemble s m e := by
  have hbias : Format.binary64.exponentBias = 1023 := by decide
  have hlog : m.log2 + 1 = Format.binary64.mantissaBits := by
    have : m.log2 = 52 := (Nat.log2_eq_iff (by omega)).mpr (by omega)
    rw [this]
    rfl
  have hexponent : (e + Format.binary64.exponentBias + (52 : Nat)).toNat = (e + 1075).toNat := by
    rw [hbias]
    omega
  have hpacked : UnpackedFloat.pack Format.binary64 (assemble s m e) =
      packComponents Format.binary64 s (BitVec.ofNat 11 (e + 1075).toNat) (BitVec.ofNat 52 m) := by
    rw [assemble, dif_neg (by omega)]
    show (if 2 ^ 11 ≤ (e + Format.binary64.exponentBias + (52 : Nat)).toNat + 1 then _
      else if m.log2 + 1 = Format.binary64.mantissaBits then _ else _) = _
    rw [hexponent, if_neg (by omega), if_pos hlog]
  have hfield : (BitVec.ofNat 11 (e + 1075).toNat).toNat = (e + 1075).toNat := by
    rw [BitVec.toNat_ofNat]
    omega
  have hzero : BitVec.ofNat 11 (e + 1075).toNat ≠ 0#11 := by
    intro heq
    have hfieldZero : (e + 1075).toNat = 0 := hfield.symm.trans (congrArg BitVec.toNat heq)
    omega
  show UnpackedFloat.unpack Format.binary64 (UnpackedFloat.pack Format.binary64 (assemble s m e)) = _
  rw [hpacked, unpack_normal, unpackMantissa_packComponents, unpackExponent_packComponents,
    unpackSign_packComponents, ofBitVec_toBitVec, implicit_toNat hlow hhigh, hfield, hbias]
  · congr 1
    omega
  · rw [unpackExponent_packComponents]
    exact ofNat_ne_allOnes (by omega)
  · rw [unpackExponent_packComponents]
    exact hzero

theorem unpack_pack_settle {s : Sign} {m : Nat} {e : Int} (hlow : 2 ^ 52 ≤ m) (hhigh : m ≤ 2 ^ 53)
    (he : -1074 ≤ e) (he' : e < 900) : (Float.Model.pack (settle s m e)).unpack = settle s m e := by
  unfold settle
  split
  · exact unpack_pack (Nat.le_refl _) (by decide) (by omega) (by omega)
  · exact unpack_pack hlow (by omega) he (by omega)

/-! ## Whole numbers -/

theorem log2_mul_two_pow {n : Nat} (hn : n ≠ 0) (k : Nat) : (n * 2 ^ k).log2 = n.log2 + k := by
  have hpos : n * 2 ^ k ≠ 0 := Nat.mul_ne_zero hn (Nat.pos_iff_ne_zero.mp (Nat.two_pow_pos k))
  refine (Nat.log2_eq_iff hpos).mpr ⟨?_, ?_⟩
  · rw [Nat.pow_add]
    exact Nat.mul_le_mul_right _ (Nat.log2_self_le hn)
  · rw [Nat.add_right_comm, Nat.pow_add]
    exact Nat.mul_lt_mul_of_pos_right Nat.lt_log2_self (Nat.two_pow_pos k)

theorem log2_scaled {n : Nat} (hn : n ≠ 0) : (n * 2 ^ 53).log2 = 52 + (n.log2 + 1) := by
  rw [log2_mul_two_pow hn]
  omega

theorem nearest_scaled {n : Nat} (hn : n ≠ 0) :
    2 ^ 52 ≤ nearest (n * 2 ^ 53) (n.log2 + 1) ∧ nearest (n * 2 ^ 53) (n.log2 + 1) ≤ 2 ^ 53 :=
  nearest_normal (log2_scaled hn) (Nat.mul_ne_zero hn (by decide))

/-- The double of a whole number: it has the highest 53 bits of the number, rounded. -/
def whole (s : Sign) (n : Nat) : UnpackedFloat :=
  settle s (nearest (n * 2 ^ 53) (n.log2 + 1)) (n.log2 - 52)

theorem log2_filled {n : Nat} (hn : n ≠ 0) (hlog : n.log2 ≤ 52) : (n * 2 ^ (52 - n.log2)).log2 = 52 := by
  rw [log2_mul_two_pow hn]
  omega

theorem filled_bounds {n : Nat} (hn : n ≠ 0) (hlog : n.log2 ≤ 52) :
    2 ^ 52 ≤ n * 2 ^ (52 - n.log2) ∧ n * 2 ^ (52 - n.log2) < 2 ^ 53 := by
  have hpos : n * 2 ^ (52 - n.log2) ≠ 0 := Nat.mul_ne_zero hn (Nat.pos_iff_ne_zero.mp (Nat.two_pow_pos _))
  exact (Nat.log2_eq_iff hpos).mp (log2_filled hn hlog)

/-- A number of at most 53 bits is not rounded. -/
theorem whole_exact (s : Sign) {n : Nat} (hn : n ≠ 0) (hlog : n.log2 ≤ 52) :
    whole s n = assemble s (n * 2 ^ (52 - n.log2)) (n.log2 - 52) := by
  have hsplit : n * 2 ^ 53 = n * 2 ^ (52 - n.log2) * 2 ^ (n.log2 + 1) := by
    rw [Nat.mul_assoc, ← Nat.pow_add]
    congr 2
    omega
  rw [whole, hsplit, nearest_mul, settle, if_neg (Nat.ne_of_lt (filled_bounds hn hlog).2)]

theorem ofScientific_eq {n : Nat} (hn : n ≠ 0) :
    UnpackedFloat.ofScientific Format.binary64 n 0 = whole .positive n := by
  have hmantissa : Format.binary64.mantissaBits = 53 := by decide
  have hshifted : (n <<< Format.binary64.mantissaBits) * 10 ^ (0 : Int).toNat = n * 2 ^ 53 := by
    rw [hmantissa, Nat.shiftLeft_eq]
    exact Nat.mul_one _
  have hexponent : -((53 : Nat) : Int) + 0 + (n.log2 + 1 : Nat) = n.log2 - 52 := by omega
  rw [ofScientific_whole hn, hshifted, hmantissa,
    roundWithAccuracy_settle _ (Nat.mul_ne_zero hn (by decide)) (log2_scaled hn) (by omega), hexponent]
  rfl

/-- A number that fits 53 bits is shifted up to all of them. -/
theorem ofNat_eq {n : Nat} (hn : n ≠ 0) (hlog : n.log2 ≤ 52) :
    UnpackedFloat.ofNat Format.binary64 n = whole .positive n := by
  have hmantissa : (Format.binary64.mantissaBits : Int) = 53 := by decide
  have hmin : Format.binary64.minExponent = -1074 := by decide
  have htarget : Format.binary64.targetExponent (totalExponent n 0) = n.log2 - 52 := by
    rw [Format.targetExponent, totalExponent, hmin, hmantissa]
    omega
  have hround : UnpackedFloat.ofNat Format.binary64 n = UnpackedFloat.round Format.binary64 .positive n 0 := by
    have hcompare : compare (n : Int) 0 = .gt := Int.compare_eq_gt.mpr (by omega)
    rw [UnpackedFloat.ofNat, UnpackedFloat.ofInt, UnpackedFloat.normalize, hcompare]
    rfl
  have hamount : ((0 : Int) - (n.log2 - 52)).toNat = 52 - n.log2 := by omega
  have hexponent : (0 : Int) - (52 - n.log2 : Nat) = n.log2 - 52 := by omega
  obtain ⟨hlow, hhigh⟩ := filled_bounds hn hlog
  have hbits : (n * 2 ^ (52 - n.log2)).log2 = 52 + 0 := log2_filled hn hlog
  rw [hround, UnpackedFloat.round, htarget]
  simp only [decreaseExponent, hamount, Nat.shiftLeft_eq, hexponent]
  rw [roundWithAccuracy_settle _ (by omega) hbits (by omega), nearest_zero, Int.natCast_zero, Int.add_zero, settle,
    if_neg (Nat.ne_of_lt hhigh), whole_exact _ hn hlog]

theorem whole_unpack {n : Nat} (s : Sign) (hn : n ≠ 0) (hhigh : n < 2 ^ 64) :
    (Float.Model.pack (whole s n)).unpack = whole s n := by
  have hlog : n.log2 < 64 := (Nat.log2_lt hn).mpr hhigh
  obtain ⟨hlow, hfull⟩ := nearest_scaled hn
  exact unpack_pack_settle hlow hfull (by omega) (by omega)

/-- One as a double, and the power of ten by which a whole number is scaled. -/
theorem unpack_one : (Float.ofBits 0x3FF0000000000000).toModel.unpack = assemble .positive (2 ^ 52) (-52) := by
  rfl

theorem mul_one_eq {m : Nat} {e : Int} (hlow : 2 ^ 52 ≤ m) (hhigh : m < 2 ^ 53) (he : -1074 ≤ e) :
    UnpackedFloat.mul Format.binary64 (assemble .positive m e) (assemble .positive (2 ^ 52) (-52)) =
      assemble .positive m e := by
  have hm : m ≠ 0 := by omega
  have hbits : (m * 2 ^ 52).log2 = 52 + 52 := by
    rw [log2_mul_two_pow hm, (Nat.log2_eq_iff hm).mpr ⟨hlow, hhigh⟩]
  have hexponent : e + -52 + ((52 : Nat) : Int) = e := by omega
  have hmul : UnpackedFloat.mul Format.binary64 (assemble .positive m e) (assemble .positive (2 ^ 52) (-52)) =
      roundWithAccuracy Format.binary64 .positive (m * 2 ^ 52) (e + -52) .exact := by
    rw [← finite_eq_assemble _ _ (Nat.pos_iff_ne_zero.mpr hm), ← finite_eq_assemble _ _ (by decide)]
    rfl
  rw [hmul, roundWithAccuracy_settle _ (Nat.mul_ne_zero hm (by decide)) hbits (by omega), nearest_mul, hexponent,
    settle, if_neg (Nat.ne_of_lt hhigh)]

/-- A number that fits a double is converted as an integer of 64 bits, and then scaled by one. -/
theorem unpack_ofNat_exact {n : Nat} (hn : n ≠ 0) (hfits : n < 2 ^ 53) :
    (Float.ofNat n).toModel.unpack = whole .positive n := by
  have hofNat : Float.ofNat n = n.toUInt64.toFloat * Float.ofBits 0x3FF0000000000000 :=
    dif_pos ⟨hfits, Nat.zero_le 22⟩
  have hhigh : n < 2 ^ 64 := Nat.lt_trans hfits (by decide)
  have hlog : n.log2 ≤ 52 := Nat.le_of_lt_succ ((Nat.log2_lt hn).mpr hfits)
  have hcast : n.toUInt64.toNat = n := Nat.mod_eq_of_lt hhigh
  have hconverted : n.toUInt64.toFloat.toModel.unpack = whole .positive n := by
    show (Float.Model.pack (UnpackedFloat.ofNat Format.binary64 n.toUInt64.toNat)).unpack = _
    rw [hcast, ofNat_eq hn hlog]
    exact whole_unpack _ hn hhigh
  obtain ⟨hlow, hlt⟩ := filled_bounds hn hlog
  rw [hofNat]
  show (Float.Model.pack (UnpackedFloat.mul Format.binary64 n.toUInt64.toFloat.toModel.unpack
    (Float.ofBits 0x3FF0000000000000).toModel.unpack)).unpack = _
  rw [hconverted, unpack_one, whole_exact _ hn hlog, mul_one_eq hlow hlt (by omega), ← whole_exact _ hn hlog]
  exact whole_unpack _ hn hhigh

theorem unpack_ofNat {n : Nat} (hn : n ≠ 0) (hhigh : n < 2 ^ 64) :
    (Float.ofNat n).toModel.unpack = whole .positive n := by
  by_cases hfits : n < 2 ^ 53
  · exact unpack_ofNat_exact hn hfits
  · have hofNat : Float.ofNat n = Float.ofModel (Float.Model.pack (UnpackedFloat.ofScientific Format.binary64 n 0)) :=
      dif_neg fun h => hfits h.1
    rw [hofNat, ofScientific_eq hn]
    exact whole_unpack _ hn hhigh

theorem neg_assemble (m : Nat) (e : Int) : (assemble .positive m e).neg = assemble .negative m e := by
  rw [assemble, assemble]
  by_cases h : m = 0
  · rw [dif_pos h, dif_pos h]
    rfl
  · rw [dif_neg h, dif_neg h]
    rfl

theorem neg_settle (m : Nat) (e : Int) : (settle .positive m e).neg = settle .negative m e := by
  rw [settle, settle]
  by_cases h : m = 2 ^ 53
  · rw [if_pos h, if_pos h, neg_assemble]
  · rw [if_neg h, if_neg h, neg_assemble]

/-! ## Order -/

/-- The rank of `settle .positive m e`. -/
def settledRank (m : Nat) (e : Int) : Rank :=
  if m = 2 ^ 53 then ⟨1, e + 1, 2 ^ 52⟩ else ⟨1, e, m⟩

theorem modelRank?_assemble {m : Nat} (hm : m ≠ 0) (e : Int) :
    modelRank? (assemble .positive m e) = some ⟨1, e, m⟩ := by
  rw [assemble, dif_neg hm]
  rfl

theorem modelRank?_settle {m : Nat} (hm : m ≠ 0) (e : Int) :
    modelRank? (settle .positive m e) = some (settledRank m e) := by
  rw [settle, settledRank]
  by_cases h : m = 2 ^ 53
  · rw [if_pos h, if_pos h]
    exact modelRank?_assemble (by decide) (e + 1)
  · rw [if_neg h, if_neg h, modelRank?_assemble hm]

theorem settledRank_isLE {m m' : Nat} {e e' : Int} (hm : m ≤ 2 ^ 53) (hm' : 2 ^ 52 ≤ m' ∧ m' ≤ 2 ^ 53)
    (h : e < e' ∨ e = e' ∧ m ≤ m') : ((settledRank m e).order (settledRank m' e')).isLE = true := by
  rw [Rank.isLE_iff]
  unfold settledRank
  split <;> split <;> dsimp only <;> omega

/-- The rank of the double of a whole number that is not zero. -/
def wholeRank (n : Nat) : Rank :=
  settledRank (nearest (n * 2 ^ 53) (n.log2 + 1)) (n.log2 - 52)

/-- Of two numbers, the larger one has more bits or as many; then both are rounded at the same place. -/
theorem wholeRank_isLE {m n : Nat} (hm : m ≠ 0) (h : m ≤ n) :
    ((wholeRank m).order (wholeRank n)).isLE = true := by
  have hn : n ≠ 0 := by omega
  have hlog : m.log2 ≤ n.log2 := (Nat.le_log2 hn).mpr (Nat.le_trans (Nat.log2_self_le hm) h)
  refine settledRank_isLE (nearest_scaled hm).2 (nearest_scaled hn) ?_
  rcases Nat.lt_or_eq_of_le hlog with hlt | heq
  · exact .inl (by omega)
  · refine .inr ⟨by rw [heq], ?_⟩
    rw [heq]
    exact nearest_mono _ (Nat.mul_le_mul_right _ h)

theorem wholeRank_level (n : Nat) : (wholeRank n).level = 1 := by
  unfold wholeRank settledRank
  split <;> rfl

/-- The rank of the double of an integer. -/
def intRank (n : Int) : Rank :=
  if n < 0 then (wholeRank n.natAbs).neg else if n = 0 then ⟨0, 0, 0⟩ else wholeRank n.natAbs

theorem rank?_zero : rank? (Float.ofInt 0) = some ⟨0, 0, 0⟩ := by
  rfl

theorem rank?_ofNat {n : Nat} (hn : n ≠ 0) (hhigh : n < 2 ^ 64) : rank? (Float.ofNat n) = some (wholeRank n) := by
  have hpos : nearest (n * 2 ^ 53) (n.log2 + 1) ≠ 0 := by
    have := (nearest_scaled hn).1
    omega
  rw [rank?, unpack_ofNat hn hhigh]
  exact modelRank?_settle hpos _

theorem rank?_neg_ofNat {n : Nat} (hn : n ≠ 0) (hhigh : n < 2 ^ 64) :
    rank? (Float.neg (Float.ofNat n)) = some (wholeRank n).neg := by
  have hunpack : (Float.neg (Float.ofNat n)).toModel.unpack = (Float.ofNat n).toModel.unpack.neg := by
    show (Float.Model.pack (Float.ofNat n).toModel.unpack.neg).unpack = _
    rw [unpack_ofNat hn hhigh, whole, neg_settle]
    exact whole_unpack .negative hn hhigh
  have hrank : modelRank? (Float.ofNat n).toModel.unpack = some (wholeRank n) := rank?_ofNat hn hhigh
  rw [rank?, hunpack, modelRank?_neg, hrank]
  rfl

theorem rank?_ofInt {n : Int} (hlow : -2 ^ 64 < n) (hhigh : n < 2 ^ 64) :
    rank? (Float.ofInt n) = some (intRank n) := by
  unfold intRank
  split_ifs with hneg hzero
  · obtain ⟨k, rfl⟩ := Int.exists_eq_neg_ofNat (Int.le_of_lt hneg)
    obtain ⟨k, rfl⟩ := Nat.exists_eq_succ_of_ne_zero (n := k) (by omega)
    exact rank?_neg_ofNat (by omega) (by omega)
  · rw [hzero]
    exact rank?_zero
  · obtain ⟨k, rfl⟩ := Int.eq_ofNat_of_zero_le (Int.not_lt.mp hneg)
    exact rank?_ofNat (by omega) (by omega)

theorem intRank_level (n : Int) : (intRank n).level = if n < 0 then -1 else if n = 0 then 0 else 1 := by
  unfold intRank
  split_ifs
  · exact congrArg Int.neg (wholeRank_level _)
  · rfl
  · exact wholeRank_level _

theorem intRank_isLE {a b : Int} (h : a ≤ b) : ((intRank a).order (intRank b)).isLE = true := by
  by_cases hb : b < 0
  · have ha : a < 0 := by omega
    rw [intRank, intRank, if_pos ha, if_pos hb]
    exact Rank.neg_isLE_iff.mpr (wholeRank_isLE (by omega) (by omega))
  by_cases ha : 0 < a
  · rw [intRank, intRank, if_neg (by omega), if_neg (by omega), if_neg (by omega), if_neg (by omega)]
    exact wholeRank_isLE (by omega) (by omega)
  -- With zero between the two numbers or at one of them, the levels decide, or both are zero.
  by_cases hzero : a = b
  · rw [hzero, Rank.isLE_iff]
    omega
  · rw [Rank.isLE_iff, intRank_level, intRank_level]
    left
    split_ifs <;> omega

/-- Rounding keeps the order of integers. -/
theorem ofInt_mono {a b : Int} (h : a ≤ b) (ha : -2 ^ 64 < a) (hb : b < 2 ^ 64) : Float.ofInt a ≤ Float.ofInt b :=
  le_iff_rank.mpr ⟨_, _, rank?_ofInt ha (by omega), rank?_ofInt (by omega) hb, intRank_isLE h⟩

end TableQuery.Double
