import TableQuery.Memory.Aggregate
import TableQuery.Proofs.Number.Rounding
import TableQuery.Proofs.Value.Equality

/- The order of values. Values that compare are of one kind, or are both numbers (`compared_iff`), and those that
   compare to a third one compare (`Compared.trans`). Within a kind the order is a total preorder. Among numbers
   it is one but for a double that is equal to several integers, which are not equal to one another: the double
   of an integer keeps its order (`Double.ofInt_mono`), but not its difference from the next one. -/
namespace TableQuery

/-! ## The orders of the kinds -/

namespace Value

theorem textOrder_eq (a b : String) : textOrder a b = compare a b :=
  rfl

theorem bytesOrder_eq : ∀ as bs : List UInt8, bytesOrder as bs = compare as bs
  | [], [] => rfl
  | [], _ :: _ => rfl
  | _ :: _, [] => rfl
  | a :: as, b :: bs => by
    rw [bytesOrder, bytesOrder_eq as bs, List.compare_cons_cons]

end Value

instance : Std.TransCmp Timestamp.order :=
  inferInstanceAs (Std.TransCmp (compareLex (compareOn Timestamp.seconds) (compareOn Timestamp.nanos)))

instance : Std.TransCmp Uuid.order :=
  inferInstanceAs (Std.TransCmp (compareOn fun u : Uuid => u.bits.toNat))

theorem Timestamp.order_eq_iff {a b : Timestamp} : a.order b = .eq ↔ a = b := by
  rw [Timestamp.order, Ordering.then_eq_eq, Std.compare_eq_iff_eq, Std.compare_eq_iff_eq]
  cases a
  cases b
  simp

theorem Uuid.order_eq_iff {a b : Uuid} : a.order b = .eq ↔ a = b := by
  rw [Uuid.order, Std.compare_eq_iff_eq, BitVec.toNat_inj]
  cases a
  cases b
  simp

/-! ## Numbers -/

/-- A number, an integer or a double. -/
inductive Number where
  | whole (n : Int)
  | double (x : Float)

namespace Number

def toDouble : Number → Float
  | whole n => Float.ofInt n
  | double x => x

def order? : Number → Number → Option Ordering
  | whole a, whole b => some (compare a b)
  | a, b => Double.order a.toDouble b.toDouble

/-- Integers are compared exactly, and others as doubles. -/
def le : Number → Number → Prop
  | whole a, whole b => a ≤ b
  | a, b => a.toDouble ≤ b.toDouble

/-- An integer of 64 bits, or any double. -/
def Fits : Number → Prop
  | whole n => -2 ^ 64 < n ∧ n < 2 ^ 64
  | double _ => True

theorem order?_swap (a b : Number) : order? b a = (order? a b).map Ordering.swap := by
  cases a <;> cases b
  case whole.whole a b => exact congrArg some Std.OrientedCmp.eq_swap
  all_goals exact Double.order_swap _ _

theorem le_iff {a b : Number} : le a b ↔ ∃ o, order? a b = some o ∧ o.isLE = true := by
  cases a <;> cases b
  case whole.whole a b => simp [le, order?, Int.isLE_compare]
  all_goals exact Double.le_iff

theorem toDouble_le {a b : Number} (ha : a.Fits) (hb : b.Fits) (h : le a b) : a.toDouble ≤ b.toDouble := by
  cases a <;> cases b
  case whole.whole a b => exact Double.ofInt_mono h ha.1 hb.2
  all_goals exact h

/-- Of three numbers in order the first is at most the last, unless these are integers and the number between
them is a double that is equal to both. -/
theorem le_trans {a b c : Number} (ha : a.Fits) (hb : b.Fits) (hc : c.Fits) (hab : le a b) (hbc : le b c)
    (hexact : ∀ m n, a = whole m → c = whole n → order? a b = some .eq → order? c b = some .eq → m = n) : le a c := by
  have hdoubles : a.toDouble ≤ c.toDouble := Double.le_trans (toDouble_le ha hb hab) (toDouble_le hb hc hbc)
  match a, b, c with
  | double _, _, double _ => exact hdoubles
  | double _, _, whole _ => exact hdoubles
  | whole _, _, double _ => exact hdoubles
  | whole m, whole k, whole n => exact Int.le_trans hab hbc
  | whole m, double x, whole n =>
    by_cases hmn : m ≤ n
    · exact hmn
    -- Otherwise the double of the smaller one is at least `x`, and that of the larger one at most `x`.
    · have hnm : n < m := Int.not_le.mp hmn
      have hback : Float.ofInt n ≤ Float.ofInt m := Double.ofInt_mono (Int.le_of_lt hnm) hc.1 ha.2
      have hm : Double.order (Float.ofInt m) x = some .eq :=
        Double.order_eq_of_le hab (Double.le_trans hbc hback)
      have hn : Double.order (Float.ofInt n) x = some .eq :=
        Double.order_eq_of_le (Double.le_trans hback hab) hbc
      exact absurd (hexact m n rfl rfl hm hn) (by omega)

/-- A number that is in the order of numbers, so no NaN. -/
def Ranked (a : Number) : Prop :=
  ∃ r, Double.rank? a.toDouble = some r

theorem ranked_of_order? {a b : Number} {o : Ordering} (ha : a.Fits) (hb : b.Fits) (h : order? a b = some o) :
    a.Ranked ∧ b.Ranked := by
  cases a <;> cases b
  case whole.whole a b => exact ⟨⟨_, Double.rank?_ofInt ha.1 ha.2⟩, ⟨_, Double.rank?_ofInt hb.1 hb.2⟩⟩
  all_goals exact Double.order_isSome_iff.mp ⟨o, h⟩

theorem order?_of_ranked {a b : Number} (ha : a.Ranked) (hb : b.Ranked) : ∃ o, order? a b = some o := by
  cases a <;> cases b
  case whole.whole a b => exact ⟨_, rfl⟩
  all_goals exact Double.order_isSome_iff.mpr ⟨ha, hb⟩

end Number

/-! ## Values -/

namespace Value

/-- The number that a value is, whichever its kind. -/
def number? : Value → Option Number
  | int n => some (.whole n.toInt)
  | long n => some (.whole n.toInt)
  | double x => some (.double x)
  | _ => none

theorem fits_of_number? {v : Value} {a : Number} (h : v.number? = some a) : a.Fits := by
  cases v with
  | int n =>
    cases h
    have hlow := n.le_toInt
    have hhigh := n.toInt_lt
    constructor <;> omega
  | long n =>
    cases h
    have hlow := n.le_toInt
    have hhigh := n.toInt_lt
    constructor <;> omega
  | double x =>
    cases h
    trivial
  | _ => cases h

theorem toInt?_of_number? {v : Value} {n : Int} (h : v.number? = some (.whole n)) : v.toInt? = some n := by
  cases v <;> cases h <;> rfl

/-- Values that compare, with their order: both are of one kind, or both are numbers. -/
inductive Compared : Value → Value → Ordering → Prop where
  | bool (a b : Bool) : Compared (bool a) (bool b) (compare a b)
  | text (a b : String) : Compared (text a) (text b) (compare a b)
  | bytes (as bs : List UInt8) : Compared (bytes as) (bytes bs) (compare as bs)
  | timestamp (a b : Timestamp) : Compared (timestamp a) (timestamp b) (a.order b)
  | uuid (a b : Uuid) : Compared (uuid a) (uuid b) (a.order b)
  | number {v w : Value} {a b : Number} {o : Ordering} (hv : v.number? = some a) (hw : w.number? = some b)
      (h : a.order? b = some o) : Compared v w o

theorem order?_number {v w : Value} {a b : Number} (hv : v.number? = some a) (hw : w.number? = some b) :
    v.order? w = a.order? b := by
  cases v <;> cases hv <;> cases w <;> cases hw <;> rfl

theorem compared_iff {v w : Value} {o : Ordering} : order? v w = some o ↔ Compared v w o := by
  constructor
  · intro h
    cases v <;> cases w
    case bool.bool a b => cases h; exact .bool a b
    case text.text a b => cases h; exact .text a b
    case bytes.bytes as bs =>
      cases h
      rw [bytesOrder_eq]
      exact .bytes as bs
    case timestamp.timestamp a b => cases h; exact .timestamp a b
    case uuid.uuid a b => cases h; exact .uuid a b
    all_goals
      first
      | exact .number rfl rfl h
      | cases h
  · intro h
    cases h with
    | bool | text | timestamp | uuid => rfl
    | bytes as bs => exact congrArg some (bytesOrder_eq as bs)
    | number hv hw h => rw [order?_number hv hw, h]

theorem Compared.swap {v w : Value} {o : Ordering} (h : Compared v w o) : Compared w v o.swap := by
  cases h with
  | bool a b =>
    rw [← Std.OrientedCmp.eq_swap]
    exact .bool b a
  | text a b =>
    rw [← Std.OrientedCmp.eq_swap]
    exact .text b a
  | bytes as bs =>
    rw [← Std.OrientedCmp.eq_swap]
    exact .bytes bs as
  | timestamp a b =>
    rw [← Std.OrientedCmp.eq_swap]
    exact .timestamp b a
  | uuid a b =>
    rw [← Std.OrientedCmp.eq_swap]
    exact .uuid b a
  | number hv hw h =>
    refine .number hw hv ?_
    rw [Number.order?_swap, h]
    rfl

theorem order?_swap (v w : Value) : order? w v = (order? v w).map Ordering.swap := by
  cases h : order? v w with
  | some o => exact compared_iff.mpr (compared_iff.mp h).swap
  | none =>
    cases h' : order? w v with
    | none => rfl
    | some o =>
      have := compared_iff.mpr (compared_iff.mp h').swap
      rw [h] at this
      cases this

theorem ne_null_of_order? {v w : Value} {o : Ordering} (h : order? v w = some o) : v ≠ null ∧ w ≠ null := by
  constructor
  · rintro rfl
    cases h
  · rintro rfl
    cases v <;> cases h

/-- Integers that are equal to one value are the same; they need not be where this value is a double. -/
def Exact (u v w : Value) : Prop :=
  u.toInt?.isSome → w.toInt?.isSome → order? u v = some .eq → order? w v = some .eq → u.toInt? = w.toInt?

instance (u v w : Value) : Decidable (Exact u v w) :=
  inferInstanceAs (Decidable (_ → _ → _ → _ → _))

/-- Values that compare to a third one compare, and their order is that of three. -/
theorem Compared.trans {u v w : Value} {o o' : Ordering} (h : Compared u v o) (h' : Compared v w o') :
    ∃ p, Compared u w p ∧ (Exact u v w → o.isLE = true → o'.isLE = true → p.isLE = true) := by
  cases h with
  | bool a b =>
    cases h' with
    | bool _ c => exact ⟨_, .bool a c, fun _ => Std.TransCmp.isLE_trans⟩
    | number hv => cases hv
  | text a b =>
    cases h' with
    | text _ c => exact ⟨_, .text a c, fun _ => Std.TransCmp.isLE_trans⟩
    | number hv => cases hv
  | bytes as bs =>
    cases h' with
    | bytes _ cs => exact ⟨_, .bytes as cs, fun _ => Std.TransCmp.isLE_trans⟩
    | number hv => cases hv
  | timestamp a b =>
    cases h' with
    | timestamp _ c => exact ⟨_, .timestamp a c, fun _ => Std.TransCmp.isLE_trans⟩
    | number hv => cases hv
  | uuid a b =>
    cases h' with
    | uuid _ c => exact ⟨_, .uuid a c, fun _ => Std.TransCmp.isLE_trans⟩
    | number hv => cases hv
  | @number u v a b o hu hv h =>
    cases h' with
    | @number v w b' c o' hv' hw h' =>
      cases hv.symm.trans hv'
      have ha := fits_of_number? hu
      have hb := fits_of_number? hv
      have hc := fits_of_number? hw
      obtain ⟨p, hp⟩ := Number.order?_of_ranked (Number.ranked_of_order? ha hb h).1 (Number.ranked_of_order? hb hc h').2
      refine ⟨p, .number hu hw hp, fun hexact ho ho' => ?_⟩
      have hab : Number.le a b := Number.le_iff.mpr ⟨o, h, ho⟩
      have hbc : Number.le b c := Number.le_iff.mpr ⟨o', h', ho'⟩
      have hac : Number.le a c := by
        refine Number.le_trans ha hb hc hab hbc fun m n hm hn heq heq' => ?_
        have hm' : u.toInt? = some m := toInt?_of_number? (hm ▸ hu)
        have hn' : w.toInt? = some n := toInt?_of_number? (hn ▸ hw)
        rw [← order?_number hu hv] at heq
        rw [← order?_number hw hv] at heq'
        have hsame := hexact (by rw [hm']; rfl) (by rw [hn']; rfl) heq heq'
        rw [hm', hn'] at hsame
        exact Option.some_inj.mp hsame
      obtain ⟨p', hp', hle⟩ := Number.le_iff.mp hac
      cases hp.symm.trans hp'
      exact hle
    | _ => cases hv

end Value

end TableQuery
