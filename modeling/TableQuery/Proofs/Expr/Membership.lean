import TableQuery.Proofs.Expr.Connectives

/- Applying an operator by the constructor keeps the meaning of the plain application, whatever becomes of the
   operand: an operation that takes the arguments in, a negation that is taken back, or an operand below the new
   operator (`operate_keeps_meaning`). For AND, OR and NOT this is what the connectives say; a list of members
   that takes further ones in is a disjunction of two memberships (`truth_isIn_append`), also where a member or
   what is looked for is null. -/
namespace TableQuery

/-- Among the values of two lists is what is among those of one or among those of the other. A null in either
list leaves the membership open, unless an equal value stands in one of them. -/
theorem Value.isAmong_append (v : Value) (vs ws : List Value) :
    v.isAmong (vs ++ ws) = (v.isAmong vs).or (v.isAmong ws) := by
  unfold isAmong
  rw [List.any_append, List.any_append]
  cases v.isNull
  · cases vs.any fun w => equals v w == .yes <;> cases ws.any fun w => equals v w == .yes <;>
      cases vs.any isNull <;> cases ws.any isNull <;> rfl
  · rfl

namespace Memory

theorem truth_isIn (x : Expr) (args : List Expr) (scope : Scope) :
    truth (.app .isIn x args) scope =
      (eval x scope).bind fun v => (evalAll args scope).map fun vs => v.isAmong vs := by
  simp only [truth, eval, Operator.isAggregate, Bool.false_eq_true, if_false]
  cases eval x scope with
  | error f => rfl
  | ok v =>
    cases evalAll args scope with
    | error f => rfl
    | ok vs => simp [bind, Except.bind, Except.map, Value.applyOperator]

theorem truth_isIn_append (x : Expr) (args more : List Expr) (scope : Scope) :
    truth (.app .isIn x (args ++ more)) scope =
      join Truth.or (truth (.app .isIn x args) scope) (truth (.app .isIn x more) scope) := by
  simp only [truth_isIn, evalAll_append]
  cases eval x scope with
  | error f => rfl
  | ok v =>
    cases evalAll args scope with
    | error f => rfl
    | ok vs =>
      cases evalAll more scope with
      | error f => rfl
      | ok ws => simp [Except.bind, Except.map, Value.isAmong_append]

/-- A reading fails exactly where the evaluation does. -/
theorem truth_error_iff {x : Expr} {scope : Scope} {f : Failure} :
    truth x scope = .error f ↔ eval x scope = .error f := by
  unfold truth
  cases eval x scope with
  | error g => exact ⟨fun h => congrArg _ (Except.error.inj h), fun h => congrArg _ (Except.error.inj h)⟩
  | ok v => exact ⟨nofun, nofun⟩

theorem eval_not_error_iff {x : Expr} {scope : Scope} {f : Failure} :
    eval (x.operate .not []) scope = .error f ↔ eval x scope = .error f := by
  have hnot : truth (x.operate .not []) scope = (truth x scope).map Truth.not := truth_not x scope
  rw [← truth_error_iff, hnot, ← truth_error_iff]
  cases truth x scope with
  | error g => rfl
  | ok t => exact ⟨nofun, nofun⟩

/-- What the constructor of operations makes of an operand and arguments. AND and OR evaluate the operand and then
the arguments in order, and fold their connective over all of them, up to the first failure. NOT has the opposite
truth, and fails exactly where the operand does. IN over `y IN l` has the truth of `y IN l OR y IN args`. -/
theorem operate_keeps_meaning (scope : Scope) (x : Expr) (args : List Expr) :
    eval (x.operate .and args) scope = evalFold Truth.and x args scope ∧
    eval (x.operate .or args) scope = evalFold Truth.or x args scope ∧
    truth (x.operate .not []) scope = (truth x scope).map Truth.not ∧
    (∀ f, eval (x.operate .not []) scope = .error f ↔ eval x scope = .error f) ∧
    ∀ (y : Expr) (l : List Expr), truth ((Expr.app .isIn y l).operate .isIn args) scope =
      join Truth.or (truth (.app .isIn y l) scope) (truth (.app .isIn y args) scope) := by
  refine ⟨?_, ?_, ?_, ?_, ?_⟩
  · exact eval_operate_connective rfl x args scope
  · exact eval_operate_connective rfl x args scope
  · exact truth_not x scope
  · intro f
    exact eval_not_error_iff
  · intro y l
    exact truth_isIn_append y l args scope

/-- `5 IN (NULL)` is open, and stays so until an equal number is added. -/
example : truth ((Expr.app .isIn (.const (.int 5)) [.const .null]).operate .isIn [.const (.double 5)]) (.row .empty) =
    .ok .yes := by
  rfl

end Memory

end TableQuery
