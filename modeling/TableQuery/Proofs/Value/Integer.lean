import Mathlib.Algebra.Order.Ring.Int
import TableQuery.Value.Basic

/- Integers that have as many bits as the values of a width, with a sign. -/
namespace TableQuery.Value

/-- The integer is within a signed range. -/
def Fits (bound n : Int) : Prop :=
  -bound ≤ n ∧ n < bound

instance (bound n : Int) : Decidable (Fits bound n) :=
  inferInstanceAs (Decidable (_ ∧ _))

variable {v : Value} {n : Int}

theorem ofInt32?_eq (n : Int) : ofInt32? n = if Fits (2 ^ 31) n then some (int (Int32.ofInt n)) else none := by
  rw [ofInt32?, Int32.toInt_minValue, Int32.toInt_maxValue]
  exact if_congr (and_congr_right fun _ => Int.le_sub_one_iff) rfl rfl

theorem ofInt64?_eq (n : Int) : ofInt64? n = if Fits (2 ^ 63) n then some (long (Int64.ofInt n)) else none := by
  rw [ofInt64?, Int64.toInt_minValue, Int64.toInt_maxValue]
  exact if_congr (and_congr_right fun _ => Int.le_sub_one_iff) rfl rfl

theorem toInt?_of_ofInt32? (h : ofInt32? n = some v) : v.toInt? = some n := by
  rw [ofInt32?_eq, Option.ite_none_right_eq_some] at h
  obtain ⟨hn, ⟨⟩⟩ := h
  rw [toInt?, Int32.toInt_ofInt_of_le hn.1 hn.2]

theorem toInt?_of_ofInt64? (h : ofInt64? n = some v) : v.toInt? = some n := by
  rw [ofInt64?_eq, Option.ite_none_right_eq_some] at h
  obtain ⟨hn, ⟨⟩⟩ := h
  rw [toInt?, Int64.toInt_ofInt_of_le hn.1 hn.2]

theorem fits_of_toInt? (h : v.toInt? = some n) : Fits (2 ^ 63) n := by
  cases v with
  | int a =>
    cases h
    have hlow := a.le_toInt
    have hhigh := a.toInt_lt
    constructor <;> omega
  | long a =>
    cases h
    exact ⟨a.le_toInt, a.toInt_lt⟩
  | _ => cases h

end TableQuery.Value
