import TableQuery.Row

/- Equality of doubles, values and rows is symmetric and transitive, but not reflexive: a row that holds a
   NaN equals no row, not even itself. Doubles are equal where they are both infinite with one sign, both
   zero, or both finite with the same sign, exponent and significand (`compare_eq_iff`). -/
namespace TableQuery

open Float.Model

/-- What a double is compared by. -/
inductive Mark where
  | infinite (sign : UnpackedFloat.Sign)
  | zero
  | finite (sign : UnpackedFloat.Sign) (exponent : Int) (significand : Nat)

/-- A NaN has nothing to be compared by, and zeros are compared without their signs. -/
def mark? : UnpackedFloat → Option Mark
  | .notANumber => none
  | .infinity s => some (.infinite s)
  | .zero _ => some .zero
  | .finite s m e _ => some (.finite s e m)

theorem compare_finite_iff {e e' : Int} {m m' : Nat} :
    (compare e e').then (compare m m') = .eq ↔ e = e' ∧ m = m' := by
  rw [Ordering.then_eq_eq, Std.compare_eq_iff_eq, Std.compare_eq_iff_eq]

theorem mark?_finite_iff {s : UnpackedFloat.Sign} {e e' : Int} {m m' : Nat} {hm : 0 < m} {hm' : 0 < m'} :
    mark? (.finite s m e hm) = mark? (.finite s m' e' hm') ∧ mark? (.finite s m e hm) ≠ none ↔
      e = e' ∧ m = m' := by
  constructor
  · rintro ⟨⟨⟩, _⟩
    exact ⟨rfl, rfl⟩
  · rintro ⟨rfl, rfl⟩
    exact ⟨rfl, nofun⟩

/-- Doubles are equal where there is the same to compare them by. -/
theorem compare_eq_iff (a b : UnpackedFloat) :
    a.compare b = some .eq ↔ mark? a = mark? b ∧ mark? a ≠ none := by
  rcases a with ⟨_ | _⟩ | _ | _ | ⟨_ | _, m, e, hm⟩ <;>
  rcases b with ⟨_ | _⟩ | _ | _ | ⟨_ | _, m', e', hm'⟩
  case finite.negative.finite.negative =>
    rw [mark?_finite_iff, ← compare_finite_iff, ← Ordering.swap_eq_eq]
    exact Option.some_inj
  case finite.positive.finite.positive =>
    rw [mark?_finite_iff, ← compare_finite_iff]
    exact Option.some_inj
  -- Nothing is left to compare: the kinds and signs are the same, or one is a NaN, or they differ.
  all_goals
    first
    | exact ⟨fun _ => ⟨rfl, nofun⟩, fun _ => rfl⟩
    | exact ⟨nofun, fun h => absurd rfl h.2⟩
    | exact ⟨nofun, fun h => nomatch h.1⟩

theorem float_beq_iff {x y : Float} :
    (x == y) = true ↔ mark? x.toModel.unpack = mark? y.toModel.unpack ∧ mark? x.toModel.unpack ≠ none := by
  show (x.toModel.unpack.compare y.toModel.unpack == some Ordering.eq) = true ↔ _
  rw [← compare_eq_iff, beq_iff_eq]

instance instPartialEquivBEqFloat : PartialEquivBEq Float where
  symm h := by
    obtain ⟨heq, hne⟩ := float_beq_iff.mp h
    exact float_beq_iff.mpr ⟨heq.symm, heq ▸ hne⟩
  trans h h' := by
    obtain ⟨heq, hne⟩ := float_beq_iff.mp h
    exact float_beq_iff.mpr ⟨heq.trans (float_beq_iff.mp h').1, hne⟩

namespace Value

/-- Values are equal as constants where they are identical and no doubles, or are equal doubles. -/
theorem beq_iff {a b : Value} :
    (a == b) = true ↔ (a = b ∧ ∀ x, a ≠ double x) ∨ ∃ x y, a = double x ∧ b = double y ∧ (x == y) = true := by
  show beq a b = true ↔ _
  cases a <;> cases b <;> simp [beq]

instance : PartialEquivBEq Value where
  symm h := by
    rcases beq_iff.mp h with ⟨rfl, hd⟩ | ⟨x, y, rfl, rfl, hxy⟩
    · exact h
    · exact beq_iff.mpr (.inr ⟨y, x, rfl, rfl, BEq.symm hxy⟩)
  trans h h' := by
    -- If one pair is identical, the other is what is to be shown. Otherwise all three are doubles.
    rcases beq_iff.mp h with ⟨rfl, hd⟩ | ⟨x, y, rfl, rfl, hxy⟩
    · exact h'
    · rcases beq_iff.mp h' with ⟨rfl, hd⟩ | ⟨_, z, heq, rfl, hyz⟩
      · exact h
      · cases heq
        exact beq_iff.mpr (.inr ⟨x, z, rfl, rfl, BEq.trans hxy hyz⟩)

end Value

section

variable {α : Type} [BEq α] [PartialEquivBEq α]

theorem list_beq_symm : ∀ {as bs : List α}, (as == bs) = true → (bs == as) = true
  | [], [], h => h
  | [], _ :: _, h => by cases h
  | _ :: _, [], h => by cases h
  | a :: as, b :: bs, h => by
    rw [List.cons_beq_cons, Bool.and_eq_true] at h ⊢
    exact ⟨BEq.symm h.1, list_beq_symm h.2⟩

theorem list_beq_trans : ∀ {as bs cs : List α}, (as == bs) = true → (bs == cs) = true → (as == cs) = true
  | [], [], _, _, h' => h'
  | [], _ :: _, _, h, _ => by cases h
  | _ :: _, [], _, h, _ => by cases h
  | _ :: _, _ :: _, [], _, h' => by cases h'
  | a :: as, b :: bs, c :: cs, h, h' => by
    rw [List.cons_beq_cons, Bool.and_eq_true] at h h' ⊢
    exact ⟨BEq.trans h.1 h'.1, list_beq_trans h.2 h'.2⟩

end

theorem Row.beq_iff {a b : Row} : (a == b) = true ↔ a.columns = b.columns ∧ (a.values == b.values) = true := by
  show Row.beq a b = true ↔ _
  rw [Row.beq, Bool.and_eq_true, beq_iff_eq]

instance : PartialEquivBEq Row where
  symm h := by
    obtain ⟨hc, hv⟩ := Row.beq_iff.mp h
    exact Row.beq_iff.mpr ⟨hc.symm, list_beq_symm hv⟩
  trans h h' := by
    obtain ⟨hc, hv⟩ := Row.beq_iff.mp h
    obtain ⟨hc', hv'⟩ := Row.beq_iff.mp h'
    exact Row.beq_iff.mpr ⟨hc.trans hc', list_beq_trans hv hv'⟩

end TableQuery
