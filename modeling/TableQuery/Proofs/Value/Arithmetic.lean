import TableQuery.Memory.Eval
import TableQuery.Proofs.Value.Integer

/- Arithmetic on integers of both widths against that on the integers. An operator gives the exact result, truncated
   toward zero, if there is one and it fits, and null otherwise (`integer_arithmetic_exact`): 64 bits for the
   operators with two operands, whatever the width of these, and the width of the operand for its opposite. So the
   opposite of the least integer of 32 bits is null. The remainder of the least one of 64 bits by -1 is null too, as
   the quotient does not fit (`overflow_though_result_fits`). -/
namespace TableQuery

namespace Value

/-- The bound of the integers that have as many bits as the value. -/
def bound : Value → Int
  | int _ => 2 ^ 31
  | _ => 2 ^ 63

/-- What an operator makes of two integers, truncated toward zero; nothing where the divisor is zero. -/
def exactResult (op : Operator) (m n : Int) : Option Int :=
  match op with
  | .add => some (m + n)
  | .sub => some (m - n)
  | .mul => some (m * n)
  | .div => if n = 0 then none else some (m.tdiv n)
  | .rem => if n = 0 then none else some (m.tmod n)
  | _ => none

/-- The value is the integer that is the result, if there is one within the range, and null otherwise. -/
structure ExactOrNull (bound : Int) (v : Value) (result : Option Int) : Prop where
  exact : ∀ r, result = some r → Fits bound r → v.toInt? = some r
  null_iff : v = .null ↔ ¬∃ r, result = some r ∧ Fits bound r

variable {v w : Value} {m n : Int}

/-- The quotient of integers of 64 bits fits, but for that of the least one by -1. -/
theorem fits_tdiv (hm : Fits (2 ^ 63) m) (hn : n ≠ 0) (h : ¬(m = -2 ^ 63 ∧ n = -1)) : Fits (2 ^ 63) (m.tdiv n) := by
  obtain ⟨hlow, hhigh⟩ := hm
  by_cases hone : n.natAbs = 1
  · obtain rfl | rfl : n = 1 ∨ n = -1 := by omega
    · rw [Int.tdiv_one]
      exact ⟨hlow, hhigh⟩
    · have hne : m ≠ -2 ^ 63 := fun hm => h ⟨hm, rfl⟩
      rw [Int.tdiv_neg, Int.tdiv_one]
      constructor <;> omega
  -- A divisor that is larger halves the quotient.
  · have hhalf : (m.tdiv n).natAbs ≤ m.natAbs / 2 := by
      rw [Int.natAbs_tdiv]
      exact Nat.div_le_div_left (by omega) Nat.two_pos
    constructor <;> omega

/-! ## Operators -/

theorem exactOrNull_ite {b : Int} (hv : Fits b n → v.toInt? = some n) :
    ExactOrNull b ((if Fits b n then some v else none).getD .null) (some n) := by
  by_cases hn : Fits b n
  · rw [if_pos hn, Option.getD_some]
    refine ⟨?_, ?_, fun hno => absurd ⟨n, rfl, hn⟩ hno⟩
    · rintro _ ⟨⟩ _
      exact hv hn
    · rintro rfl
      cases hv hn
  · rw [if_neg hn, Option.getD_none]
    have hno : ¬∃ r, some n = some r ∧ Fits b r := by
      rintro ⟨_, ⟨⟩, hr⟩
      exact hn hr
    exact ⟨fun r hr hfits => absurd ⟨r, hr, hfits⟩ hno, fun _ => hno, fun _ => rfl⟩

theorem exactOrNull_ofInt32? (n : Int) : ExactOrNull (2 ^ 31) ((ofInt32? n).getD .null) (some n) := by
  rw [ofInt32?_eq]
  exact exactOrNull_ite fun hn => congrArg some (Int32.toInt_ofInt_of_le hn.1 hn.2)

theorem exactOrNull_ofInt64? (n : Int) : ExactOrNull (2 ^ 63) ((ofInt64? n).getD .null) (some n) := by
  rw [ofInt64?_eq]
  exact exactOrNull_ite fun hn => congrArg some (Int64.toInt_ofInt_of_le hn.1 hn.2)

theorem exactOrNull_null : ExactOrNull (2 ^ 63) .null none :=
  ⟨nofun, fun _ => by simp, fun _ => rfl⟩

theorem intArithmetic_exact {op : Operator} (hop : op ∈ [Operator.add, .sub, .mul, .div, .rem]) (hm : Fits (2 ^ 63) m)
    (hrem : ¬(op = .rem ∧ m = -2 ^ 63 ∧ n = -1)) :
    ExactOrNull (2 ^ 63) ((intArithmetic? op m n).getD .null) (exactResult op m n) := by
  simp only [List.mem_cons, List.not_mem_nil, or_false] at hop
  rcases hop with rfl | rfl | rfl | rfl | rfl
  · exact exactOrNull_ofInt64? (m + n)
  · exact exactOrNull_ofInt64? (m - n)
  · exact exactOrNull_ofInt64? (m * n)
  · simp only [intArithmetic?, exactResult]
    split
    · exact exactOrNull_null
    · exact exactOrNull_ofInt64? (m.tdiv n)
  · simp only [intArithmetic?, exactResult]
    split
    · exact exactOrNull_null
    · next hn =>
      have hquotient : Fits (2 ^ 63) (m.tdiv n) := fits_tdiv hm hn fun h => hrem ⟨rfl, h⟩
      rw [ofInt64?_eq (m.tdiv n), if_pos hquotient, Option.bind_some]
      exact exactOrNull_ofInt64? (m.tmod n)

theorem applyOperator_arithmetic {op : Operator} (hop : op ∈ [Operator.add, .sub, .mul, .div, .rem])
    (hm : v.toInt? = some m) (hn : w.toInt? = some n) :
    applyOperator op v [w] = (intArithmetic? op m n).getD .null := by
  have harith : arithmetic? op v w = intArithmetic? op m n := by rw [arithmetic?, hm, hn]
  simp only [List.mem_cons, List.not_mem_nil, or_false] at hop
  rcases hop with rfl | rfl | rfl | rfl | rfl <;> exact congrArg (Option.getD · .null) harith

/-- The opposite has the width of the integer. -/
theorem negate_exact (hm : v.toInt? = some m) : ExactOrNull v.bound v.negate (some (-m)) := by
  cases v with
  | int a =>
    cases hm
    exact exactOrNull_ofInt32? (-a.toInt)
  | long a =>
    cases hm
    exact exactOrNull_ofInt64? (-a.toInt)
  | _ => cases hm

end Value

namespace Memory

open Value

/-- Arithmetic on two integers of any width gives the exact result, truncated toward zero, wherever there is one that
fits 64 bits, and null otherwise; only the remainder of the least integer by -1 is left out here. The opposite of an
integer is exact wherever it fits the width of that integer, and null otherwise. -/
theorem integer_arithmetic_exact (scope : Scope) (x y : Expr) (v w : Value) (m n : Int)
    (hx : eval x scope = .ok v) (hy : eval y scope = .ok w) (hm : v.toInt? = some m) (hn : w.toInt? = some n) :
    (∀ op ∈ [Operator.add, .sub, .mul, .div, .rem], ¬(op = .rem ∧ m = -2 ^ 63 ∧ n = -1) →
      ∃ u, eval (.app op x [y]) scope = .ok u ∧ ExactOrNull (2 ^ 63) u (exactResult op m n)) ∧
    ∃ u, eval (.app .neg x []) scope = .ok u ∧ ExactOrNull v.bound u (some (-m)) := by
  constructor
  · intro op hop hrem
    have heval : eval (.app op x [y]) scope = .ok (applyOperator op v [w]) := by
      have hscalar : op.isAggregate = false := by
        simp only [List.mem_cons, List.not_mem_nil, or_false] at hop
        rcases hop with rfl | rfl | rfl | rfl | rfl <;> rfl
      simp only [eval, hscalar, Bool.false_eq_true, if_false, hx, evalAll, hy]
      rfl
    refine ⟨_, heval, ?_⟩
    rw [applyOperator_arithmetic hop hm hn]
    exact intArithmetic_exact hop (fits_of_toInt? hm) hrem
  · refine ⟨v.negate, ?_, negate_exact hm⟩
    simp only [eval, Operator.isAggregate, Bool.false_eq_true, if_false, hx, evalAll]
    rfl

/-- The least integer, of 64 bits, and of 32 bits. -/
def least : Row :=
  ⟨["long", "int"], [.long Int64.minValue, .int Int32.minValue]⟩

/-- The quotient of the two is exact, and the opposite of either does not fit. -/
theorem integer_arithmetic_exact_least :
    let long : Expr := .path (.single "long")
    let int : Expr := .path (.single "int")
    eval long (.row least) = .ok (.long Int64.minValue) ∧ eval int (.row least) = .ok (.int Int32.minValue) ∧
    (∃ u, eval (.app .div long [int]) (.row least) = .ok u ∧
      ExactOrNull (2 ^ 63) u (exactResult .div (-2 ^ 63) (-2 ^ 31)) ∧ u = .long 4294967296) ∧
    (∃ u, eval (.app .neg long []) (.row least) = .ok u ∧ ExactOrNull (2 ^ 63) u (some (2 ^ 63)) ∧ u = .null) ∧
    ∃ u, eval (.app .neg int []) (.row least) = .ok u ∧ ExactOrNull (2 ^ 31) u (some (2 ^ 31)) ∧ u = .null := by
  intro long int
  have hlong : eval long (.row least) = .ok (.long Int64.minValue) := rfl
  have hint : eval int (.row least) = .ok (.int Int32.minValue) := rfl
  have hexact := integer_arithmetic_exact (.row least) long int _ _ (-2 ^ 63) (-2 ^ 31) hlong hint rfl rfl
  have hexact' := integer_arithmetic_exact (.row least) int long _ _ (-2 ^ 31) (-2 ^ 63) hint hlong rfl rfl
  obtain ⟨u, hu, hquotient⟩ := hexact.1 .div (by decide) nofun
  obtain ⟨u', hu', hopposite⟩ := hexact.2
  obtain ⟨u'', hu'', hopposite'⟩ := hexact'.2
  exact ⟨hlong, hint, ⟨u, hu, hquotient, (Except.ok.inj hu).symm⟩, ⟨u', hu', hopposite, (Except.ok.inj hu').symm⟩,
    u'', hu'', hopposite', (Except.ok.inj hu'').symm⟩

/-- The remainder by -1 is 0, and the opposite of the least integer of 32 bits fits 64 bits, but both are null. -/
theorem overflow_though_result_fits :
    let remainder : Expr := .app .rem (.path (.single "long")) [.const (.int (-1))]
    let opposite : Expr := .app .neg (.path (.single "int")) []
    eval remainder (.row least) = .ok .null ∧ ¬ExactOrNull (2 ^ 63) .null (exactResult .rem (-2 ^ 63) (-1)) ∧
    eval opposite (.row least) = .ok .null ∧ ¬ExactOrNull (2 ^ 63) .null (some (-(-2 ^ 31))) := by
  refine ⟨rfl, fun h => ?_, rfl, fun h => ?_⟩
  · have hzero := h.exact 0 (by decide) (by decide)
    cases hzero
  · have hopposite := h.exact (2 ^ 31) rfl (by decide)
    cases hopposite

end Memory

end TableQuery
