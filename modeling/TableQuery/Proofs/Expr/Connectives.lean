import TableQuery.Memory.Eval
import TableQuery.Proofs.Steps

/- What conditions built by the constructors of expressions mean. A condition is evaluated operand by
   operand, in the order in which they are written, and its truth is read off the value:

     1. `eval_operate_connective`: AND and OR fold their connective over the operand and all arguments,
        whether or not the operand has taken the arguments in.
     2. `truth_and`, `truth_or`: two conditions joined are joined in truth, with the constant true left
        out or not.
     3. `truth_not`: the opposite condition has the opposite truth, with a double negation taken back
        or not. -/
namespace TableQuery

namespace Truth

@[simp] theorem ofValue_toValue (t : Truth) : ofValue t.toValue = t := by
  cases t <;> rfl

@[simp] theorem not_not (t : Truth) : t.not.not = t := by
  cases t <;> rfl

@[simp] theorem yes_and (t : Truth) : Truth.and yes t = t := by
  cases t <;> rfl

@[simp] theorem and_yes (t : Truth) : t.and yes = t := by
  cases t <;> rfl

@[simp] theorem or_no (t : Truth) : t.or no = t := by
  cases t <;> rfl

theorem and_assoc (a b c : Truth) : (a.and b).and c = a.and (b.and c) := by
  cases a <;> cases b <;> cases c <;> rfl

theorem or_assoc (a b c : Truth) : (a.or b).or c = a.or (b.or c) := by
  cases a <;> cases b <;> cases c <;> rfl

end Truth

/-- The connective that AND and OR fold over their operands. -/
def Operator.connective? : Operator → Option (Truth → Truth → Truth)
  | .and => some .and
  | .or => some .or
  | _ => none

namespace Memory

/-- Two readings joined by a connective; the first that fails decides. -/
def join (f : Truth → Truth → Truth) (a b : Except Failure Truth) : Except Failure Truth := do
  let x ← a
  let y ← b
  .ok (f x y)

@[simp] theorem join_ok (f : Truth → Truth → Truth) (x y : Truth) : join f (.ok x) (.ok y) = .ok (f x y) := rfl

theorem join_assoc {f : Truth → Truth → Truth} (hf : ∀ x y z, f (f x y) z = f x (f y z))
    (a b c : Except Failure Truth) : join f (join f a b) c = join f a (join f b c) := by
  cases a with
  | error _ => rfl
  | ok x =>
    cases b with
    | error _ => rfl
    | ok y =>
      cases c with
      | error _ => rfl
      | ok z => simp only [join_ok, hf]

theorem neutral_join {f : Truth → Truth → Truth} {t : Truth} (hf : ∀ x, f t x = x) (a : Except Failure Truth) :
    join f (.ok t) a = a := by
  cases a with
  | error _ => rfl
  | ok x => simp only [join_ok, hf]

theorem join_neutral {f : Truth → Truth → Truth} {t : Truth} (hf : ∀ x, f x t = x) (a : Except Failure Truth) :
    join f a (.ok t) = a := by
  cases a with
  | error _ => rfl
  | ok x => simp only [join_ok, hf]

/-- The truth of a condition in a scope. -/
def truth (e : Expr) (scope : Scope) : Except Failure Truth :=
  (eval e scope).map Truth.ofValue

theorem evalAll_append (xs ys : List Expr) (scope : Scope) :
    evalAll (xs ++ ys) scope =
      (evalAll xs scope).bind fun vs => (evalAll ys scope).bind fun ws => .ok (vs ++ ws) := by
  induction xs with
  | nil => cases h : evalAll ys scope <;> simp [evalAll, h, Except.bind]
  | cons x xs ih =>
    simp only [List.cons_append, evalAll, ih]
    cases eval x scope with
    | error _ => rfl
    | ok v =>
      cases evalAll xs scope with
      | error _ => rfl
      | ok vs => cases evalAll ys scope <;> rfl

/-- There is a value for each expression. -/
theorem evalAll_length {es : List Expr} {scope : Scope} {vs : List Value} (h : evalAll es scope = .ok vs) :
    vs.length = es.length := by
  induction es generalizing vs with
  | nil =>
    unfold evalAll at h
    cases h
    rfl
  | cons e es ih =>
    unfold evalAll at h
    obtain ⟨v, _, htail⟩ := bind_ok.mp h
    obtain ⟨vs', hvs, heq⟩ := bind_ok.mp htail
    cases heq
    simp only [List.length_cons, ih hvs]

/-- An operator that folds no rows is applied to the values of its operand and its arguments. -/
theorem eval_scalar {op : Operator} (hop : op.isAggregate = false) {x : Expr} {args : List Expr} {scope : Scope}
    {v : Value} {vs : List Value} (hx : eval x scope = .ok v) (hargs : evalAll args scope = .ok vs) :
    eval (.app op x args) scope = .ok (Value.applyOperator op v vs) := by
  simp only [eval, hop, Bool.false_eq_true, if_false, hx, hargs]
  rfl

/-- An operator that folds a connective does so over the values of its operand and its arguments. -/
theorem applyOperator_connective {op : Operator} {f : Truth → Truth → Truth} (h : op.connective? = some f)
    (v : Value) (vs : List Value) :
    Value.applyOperator op v vs = (vs.foldl (fun t a => f t (Truth.ofValue a)) (Truth.ofValue v)).toValue := by
  cases op <;> simp [Operator.connective?] at h <;> subst h <;> rfl

/-- A connective folded over the truth of an operand and of arguments, evaluated in order. -/
def evalFold (f : Truth → Truth → Truth) (x : Expr) (args : List Expr) (scope : Scope) : Except Failure Value := do
  let v ← eval x scope
  let vs ← evalAll args scope
  .ok (vs.foldl (fun t a => f t (Truth.ofValue a)) (Truth.ofValue v)).toValue

theorem eval_connective {op : Operator} {f : Truth → Truth → Truth} (h : op.connective? = some f) (x : Expr)
    (args : List Expr) (scope : Scope) :
    eval (.app op x args) scope = evalFold f x args scope := by
  have hop : op.isAggregate = false := by cases op <;> simp [Operator.connective?] at h <;> rfl
  simp only [eval, hop, Bool.false_eq_true, if_false, applyOperator_connective h, evalFold]

/-- AND and OR fold their connective over operand and arguments in order, also where the operand applies
the same operator and takes the arguments in. -/
theorem eval_operate_connective {op : Operator} {f : Truth → Truth → Truth} (h : op.connective? = some f)
    (x : Expr) (args : List Expr) (scope : Scope) :
    eval (x.operate op args) scope = evalFold f x args scope := by
  have hne : op ≠ .not := by rintro rfl; simp [Operator.connective?] at h
  have hmulti : op.isMultivalued = true := by
    cases op <;> simp [Operator.connective?] at h <;> rfl
  cases x with
  | const v =>
    rw [← eval_connective h]
    cases op <;> rfl
  | path p =>
    rw [← eval_connective h]
    cases op <;> rfl
  | app inner y ys =>
    have hoperate : (Expr.app inner y ys).operate op args =
        if inner = op then .app op y (ys ++ args) else .app op (.app inner y ys) args := by
      unfold Expr.operate
      split
      · contradiction
      · next heq => cases heq; simp only [hmulti, true_and]
      · next hall _ => exact (hall _ _ _ rfl).elim
    rw [hoperate]
    split
    -- The operand takes the arguments in: one fold goes on where the other has ended.
    · next heq =>
      subst heq
      rw [eval_connective h]
      simp only [evalFold, eval_connective h, evalAll_append]
      cases eval y scope with
      | error _ => rfl
      | ok v =>
        cases evalAll ys scope with
        | error _ => rfl
        | ok vs =>
          cases evalAll args scope with
          | error _ => rfl
          | ok ws => simp [Except.bind, bind, List.foldl_append]
    · rw [eval_connective h]

theorem truth_operate_connective {op : Operator} {f : Truth → Truth → Truth} (h : op.connective? = some f)
    (x y : Expr) (scope : Scope) :
    truth (x.operate op [y]) scope = join f (truth x scope) (truth y scope) := by
  simp only [truth, eval_operate_connective h, evalFold, evalAll, join]
  cases eval x scope with
  | error _ => rfl
  | ok v =>
    cases eval y scope with
    | error _ => rfl
    | ok w => simp [bind, Except.bind, Except.map]

theorem isTrue_iff {e : Expr} : e.isTrue = true ↔ e = .tru := by
  constructor
  · intro h
    unfold Expr.isTrue at h
    split at h
    · rfl
    · contradiction
  · rintro rfl; rfl

theorem truth_tru (scope : Scope) : truth .tru scope = .ok .yes := rfl

theorem truth_and (x y : Expr) (scope : Scope) :
    truth (x.and y) scope = join Truth.and (truth x scope) (truth y scope) := by
  unfold Expr.and
  split
  · next hx => rw [isTrue_iff.mp hx, truth_tru, neutral_join Truth.yes_and]
  · split
    · next hy => rw [isTrue_iff.mp hy, truth_tru, join_neutral Truth.and_yes]
    · exact truth_operate_connective rfl x y scope

theorem truth_or (x y : Expr) (scope : Scope) :
    truth (x.or y) scope = join Truth.or (truth x scope) (truth y scope) :=
  truth_operate_connective rfl x y scope

theorem truth_app_not (x : Expr) (scope : Scope) :
    truth (.app .not x []) scope = (truth x scope).map Truth.not := by
  simp only [truth, eval, evalAll, Operator.isAggregate, Bool.false_eq_true, if_false]
  cases eval x scope with
  | error _ => rfl
  | ok v => simp [bind, Except.bind, Except.map, Value.applyOperator]

/-- The opposite of an expression: what it negates, if it is a negation, and its negation otherwise. -/
theorem not_cases (x : Expr) : (∃ y, x = .app .not y [] ∧ x.not = y) ∨ x.not = .app .not x [] := by
  unfold Expr.not Expr.operate
  split
  · exact .inl ⟨_, rfl, rfl⟩
  · exact .inr rfl
  · exact .inr rfl

theorem truth_not (x : Expr) (scope : Scope) : truth x.not scope = (truth x scope).map Truth.not := by
  rcases not_cases x with ⟨y, hx, hnot⟩ | hnot
  · rw [hnot, hx, truth_app_not]
    cases truth y scope with
    | error _ => rfl
    | ok t => simp [Except.map]
  · rw [hnot, truth_app_not]

end Memory

end TableQuery
