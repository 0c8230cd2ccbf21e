import TableQuery.Memory.Query
import TableQuery.Proofs.Expr.Membership
import TableQuery.Sql.Query

/- Membership in a list against the equalities with its members. The values of a list are taken one by one
   (`isAmong_cons`), so that the membership is the disjunction of the equalities, whatever is null among them
   (`isAmong_eq_equalsAny`). A list without members is the exception, if what is looked for is null: the
   disjunction of nothing is false, but the membership stays open. In SQL it is written as `1 = 0`, and its
   opposite as `1 = 1`, which holds of that null as well (`membership_is_disjunction`). -/
namespace TableQuery

namespace Value

/-- The truth of `v = a₁ OR … OR v = aₙ`. -/
def equalsAny (v : Value) : List Value → Truth
  | [] => .no
  | a :: as => (Truth.ofValue (applyOperator .eq v [a])).or (equalsAny v as)

theorem ofValue_eq (v a : Value) : Truth.ofValue (applyOperator .eq v [a]) = equals v a :=
  Truth.ofValue_toValue (equals v a)

theorem equals_of_isNull {v a : Value} (h : v.isNull = true ∨ a.isNull = true) : equals v a = .unknown := by
  rw [equals, compareWith, if_pos (by simpa using h)]

/-- What does not compare is not equal; only nulls leave it open. -/
theorem equals_of_not_isNull {v a : Value} (hv : v.isNull = false) (ha : a.isNull = false) :
    equals v a = .ofBool ((order? v a).any (· == .eq)) := by
  rw [equals, compareWith, if_neg (by simp [hv, ha])]

theorem isAmong_nil {v : Value} (hv : v.isNull = false) : v.isAmong [] = .no := by
  simp [isAmong, hv]

theorem isAmong_single {v : Value} (hv : v.isNull = false) (a : Value) : v.isAmong [a] = equals v a := by
  cases ha : a.isNull with
  | true => simp [isAmong, hv, ha, equals_of_isNull (.inr ha)]
  | false =>
    have heq := equals_of_not_isNull hv ha
    cases hsame : (order? v a).any (· == .eq) with
    | true =>
      rw [hsame, Truth.ofBool] at heq
      simp [isAmong, hv, heq]
    | false =>
      rw [hsame, Truth.ofBool] at heq
      simp [isAmong, hv, ha, heq]

theorem isAmong_cons {v : Value} (hv : v.isNull = false) (a : Value) (as : List Value) :
    v.isAmong (a :: as) = (equals v a).or (v.isAmong as) := by
  have happend := isAmong_append v [a] as
  rw [isAmong_single hv, List.singleton_append] at happend
  exact happend

/-- Null equals nothing, and it is open whether it does. -/
theorem equalsAny_of_isNull {v : Value} (hv : v.isNull = true) {vs : List Value} (hvs : vs ≠ []) :
    equalsAny v vs = .unknown := by
  induction vs with
  | nil => exact absurd rfl hvs
  | cons a as ih =>
    rw [equalsAny, ofValue_eq, equals_of_isNull (.inl hv)]
    cases as with
    | nil => rfl
    | cons b bs =>
      rw [ih (List.cons_ne_nil b bs)]
      rfl

theorem isAmong_eq_equalsAny {v : Value} {vs : List Value} (h : v.isNull = false ∨ vs ≠ []) :
    v.isAmong vs = equalsAny v vs := by
  cases hv : v.isNull with
  | true =>
    have hvs : vs ≠ [] := by simpa [hv] using h
    rw [equalsAny_of_isNull hv hvs, isAmong, if_pos hv]
  | false =>
    clear h
    induction vs with
    | nil => exact isAmong_nil hv
    | cons a as ih => rw [isAmong_cons hv, equalsAny, ofValue_eq, ih]

/-- Membership is the disjunction, but for null and a list without members. -/
theorem isAmong_eq_iff {v : Value} {vs : List Value} :
    v.isAmong vs = equalsAny v vs ↔ v.isNull = false ∨ vs ≠ [] := by
  constructor
  · intro h
    cases hv : v.isNull with
    | false => exact .inl rfl
    | true =>
      have hopen : v.isAmong vs = .unknown := by rw [isAmong, if_pos hv]
      refine .inr ?_
      intro hvs
      rw [hopen, hvs] at h
      cases h
  · exact isAmong_eq_equalsAny

end Value

namespace Truth

theorem toValue_inj {t u : Truth} : t.toValue = u.toValue ↔ t = u := by
  cases t <;> cases u <;> simp [toValue]

theorem not_inj {t u : Truth} : t.not = u.not ↔ t = u := by
  cases t <;> cases u <;> simp [Truth.not]

end Truth

namespace Memory

/-- `1 = 1`, or `1 = 0`. -/
def constantly (b : Bool) : Expr :=
  .app .eq (.const (.int 1)) [.const (.int (if b then 1 else 0))]

theorem satisfies_constantly (b : Bool) (scope : Scope) : satisfies (constantly b) scope = .ok b := by
  cases b <;> rfl

/-- A list without members is written as a comparison of two numbers. -/
theorem text_emptyList (d : Dialect) (x : Expr) :
    Sql.renderExpr d (.app .isIn x []) = Sql.renderExpr d (constantly false) ∧
      Sql.renderExpr d (.app .isNotIn x []) = Sql.renderExpr d (constantly true) := by
  cases d <;> exact ⟨rfl, rfl⟩

theorem satisfies_emptyList {x : Expr} {scope : Scope} {v : Value} (hx : eval x scope = .ok v) :
    satisfies (.app .isIn x []) scope = .ok false ∧ satisfies (.app .isNotIn x []) scope = .ok !v.isNull := by
  simp only [satisfies, eval, evalAll, Operator.isAggregate, Bool.false_eq_true, if_false, hx, bind, Except.bind,
    Except.map, Value.applyOperator]
  cases hv : v.isNull with
  | true => simp [Value.isAmong, hv, Truth.not, Truth.toValue, Value.holds, Truth.ofValue]
  | false => simp [Value.isAmong_nil hv, Truth.not, Truth.toValue, Value.holds, Truth.ofValue, Truth.ofBool]

theorem applyOperator_emptyList {v : Value} (hv : v.isNull = true) :
    Value.applyOperator .isIn v [] = .null ∧ Value.applyOperator .isNotIn v [] = .null := by
  simp [Value.applyOperator, Value.isAmong, hv, Truth.not, Truth.toValue]

/-- Membership in a list is the disjunction of the equalities with its members, in three-valued truth, and NOT IN
has the opposite truth, for just those values and lists that are not null and empty: whether null is among no values
stays open.

So the condition `x IN ()` holds of the rows of which its translation to SQL holds, which is that of `1 = 0`, and
`x NOT IN ()` of those rows of which its translation holds, that of `1 = 1`, on which `x` is not null. -/
theorem membership_is_disjunction (d : Dialect) (x : Expr) (scope : Scope) (v : Value) (vs : List Value) :
    (Value.applyOperator .isIn v vs = (Value.equalsAny v vs).toValue ↔ v.isNull = false ∨ vs ≠ []) ∧
    (Value.applyOperator .isNotIn v vs = (Value.equalsAny v vs).not.toValue ↔ v.isNull = false ∨ vs ≠ []) ∧
    (v.isNull = true → Value.applyOperator .isIn v [] = .null ∧ Value.applyOperator .isNotIn v [] = .null) ∧
    Sql.renderExpr d (.app .isIn x []) = Sql.renderExpr d (constantly false) ∧
    Sql.renderExpr d (.app .isNotIn x []) = Sql.renderExpr d (constantly true) ∧
    (eval x scope = .ok v →
      satisfies (.app .isIn x []) scope = satisfies (constantly false) scope ∧
      satisfies (.app .isNotIn x []) scope = (satisfies (constantly true) scope).map fun b => b && !v.isNull) := by
  obtain ⟨hisIn, hisNotIn⟩ := text_emptyList d x
  refine ⟨?_, ?_, applyOperator_emptyList, hisIn, hisNotIn, ?_⟩
  · exact Truth.toValue_inj.trans Value.isAmong_eq_iff
  · exact Truth.toValue_inj.trans (Truth.not_inj.trans Value.isAmong_eq_iff)
  · intro hx
    rw [satisfies_constantly, satisfies_constantly]
    exact satisfies_emptyList hx

/-- `3 IN (NULL, 3.0)`, and the age of a person in no list at all. -/
theorem membership_is_disjunction_ages :
    Value.applyOperator .isIn (.int 3) [.null, .double 3] = .bool true ∧
    eval (.path (.single "age")) (.row ⟨["age"], [.int 20]⟩) = .ok (.int 20) ∧
    satisfies (.app .isNotIn (.path (.single "age")) []) (.row ⟨["age"], [.int 20]⟩) = .ok true ∧
    Value.null.isNull = true ∧ Value.applyOperator .isNotIn .null [] = .null := by
  have hmembers : [Value.null, .double 3] ≠ [] := List.cons_ne_nil _ _
  have hage : eval (.path (.single "age")) (.row ⟨["age"], [.int 20]⟩) = .ok (.int 20) := rfl
  have hnull : Value.null.isNull = true := rfl
  refine ⟨?_, hage, ?_, hnull, ?_⟩
  · rw [(membership_is_disjunction .sqlite .tru (.group []) (.int 3) _).1.mpr (.inr hmembers)]
    rfl
  · rw [((membership_is_disjunction .sqlite (.path (.single "age")) _ _ []).2.2.2.2.2 hage).2, satisfies_constantly]
    rfl
  · exact ((membership_is_disjunction .sqlite .tru (.group []) .null []).2.2.1 hnull).2

/-- People with their ages, of which one is not known. -/
def knownAndUnknown : Tables :=
  [("people", [⟨["name", "age"], [.text "ann", .int 20]⟩, ⟨["name", "age"], [.text "bob", .null]⟩])]

/-- The people whose age is in no list at all. -/
def ofNoAge : Query :=
  (Query.ofTable "people").withFilter (.app .isNotIn (.path (.single "age")) [])

/-- Null is not NOT IN a list without members, where the disjunction of no equalities is false: a condition that
is written as `1 = 1` leaves out a row. -/
theorem null_left_out_of_empty_list :
    ¬ (∀ (v : Value) (vs : List Value), Value.applyOperator .isNotIn v vs = (Value.equalsAny v vs).not.toValue) ∧
    evaluate knownAndUnknown ofNoAge = .ok [⟨["name", "age"], [.text "ann", .int 20]⟩] ∧
    (Sql.render .sqlite ofNoAge).map Sql.Statement.sql = .ok "SELECT * FROM \"people\" WHERE 1 = 1" := by
  refine ⟨?_, rfl, rfl⟩
  intro h
  have hnull : Value.null = .bool true := h .null []
  cases hnull

end Memory

end TableQuery
