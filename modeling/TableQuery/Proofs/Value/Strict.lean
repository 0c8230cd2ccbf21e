import TableQuery.Proofs.Expr.Connectives

/- Operators that make null of null. A null operand makes the result null under each of them
   (`applyOperator_null_operand`), and so does a null among the arguments (`applyOperator_null_argument`). Only SUBSTR
   reads a null among its arguments as one that is not given: the text begins with its first character then, and does
   not end before its last (`substring_null_start`, `substring_null_length`). -/
namespace TableQuery

/-- The operators that are to make null of null, with the numbers of arguments that they take. -/
def Operator.isStrictOn : Operator → Nat → Bool
  | .not, n | .neg, n | .lower, n | .upper, n | .trim, n | .length, n => n == 0
  | .eq, n | .ne, n | .gt, n | .ge, n | .lt, n | .le, n | .like, n | .notLike, n => n == 1
  | .add, n | .sub, n | .mul, n | .div, n | .rem, n => n == 1
  | .substring, n => n == 1 || n == 2
  | .concat, _ => true
  | _, _ => false

namespace Value

variable {op : Operator} {v : Value} {args rest : List Value}

/-! ## Nulls under one operator -/

theorem compareWith_null (accept : Ordering → Bool) (v : Value) : compareWith accept v .null = .unknown := by
  rw [compareWith, isNull, Bool.or_true, if_pos rfl]

theorem matchesLike_null (v : Value) : matchesLike v .null = .unknown := by
  rw [matchesLike]
  cases v.asText? <;> rfl

theorem arithmetic?_null (op : Operator) (v : Value) : arithmetic? op v .null = none := by
  rw [arithmetic?]
  cases v.toInt? <;> cases v.toDouble? <;> rfl

theorem concat_null (h : .null ∈ args) : concat args = .null := by
  have hnone : args.mapM asText? = none := by
    induction args with
    | nil => cases h
    | cons v args ih =>
      rw [List.mapM_cons]
      rcases List.mem_cons.mp h with rfl | h
      · rfl
      · rw [ih h]
        cases v.asText? <;> rfl
  rw [concat, hnone]

/-- A start that is null counts as the first character. -/
theorem substring_null_start (v : Value) (rest : List Value) :
    applyOperator .substring v (.null :: rest) = applyOperator .substring v (.int 1 :: rest) := by
  cases rest <;> rfl

/-- A length that is null counts as none. -/
theorem substring_null_length (v start : Value) :
    applyOperator .substring v [start, .null] = applyOperator .substring v [start] :=
  rfl

/-! ## Nulls under any operator -/

theorem applyOperator_null_operand (h : op.isStrictOn args.length) : applyOperator op .null args = .null := by
  cases op
  case and | or | isNull | isNotNull | coalesce => cases h
  all_goals rfl

theorem applyOperator_null_argument (h : op.isStrictOn args.length) (hop : op ≠ .substring) (hnull : .null ∈ args) :
    applyOperator op v args = .null := by
  by_cases hconcat : op = .concat
  · rw [hconcat]
    exact concat_null (List.mem_cons_of_mem v hnull)
  -- All others take at most one argument, which is the null then.
  · have hlength : args.length ≤ 1 := by
      cases op <;> simp_all [Operator.isStrictOn]
    obtain rfl : args = [.null] := by
      match args, hlength, hnull with
      | [_], _, hnull => rw [List.mem_singleton.mp hnull]
    cases op
    case concat => exact absurd rfl hconcat
    case substring => exact absurd rfl hop
    case eq | gt | ge | lt | le => exact congrArg Truth.toValue (compareWith_null _ v)
    case ne => exact congrArg (Truth.toValue ∘ Truth.not) (compareWith_null _ v)
    case like => exact congrArg Truth.toValue (matchesLike_null v)
    case notLike => exact congrArg (Truth.toValue ∘ Truth.not) (matchesLike_null v)
    case add | sub | mul | div | rem => exact congrArg (Option.getD · .null) (arithmetic?_null _ v)
    all_goals cases h

end Value

namespace Memory

variable {scope : Scope}

/-- Whatever else SUBSTR is applied to, a start that is null counts as 1. -/
theorem eval_substring_null_start {start : Expr} (h : eval start scope = .ok .null) (x : Expr) (rest : List Expr) :
    eval (.app .substring x (start :: rest)) scope = eval (.app .substring x (.const (.int 1) :: rest)) scope := by
  simp only [eval, evalAll, Operator.isAggregate, Bool.false_eq_true, if_false, h]
  cases eval x scope with
  | error f => rfl
  | ok v =>
    cases evalAll rest scope with
    | error f => rfl
    | ok vs => exact congrArg Except.ok (Value.substring_null_start v vs)

/-- A length that is null is as none at all. -/
theorem eval_substring_null_length {length : Expr} (h : eval length scope = .ok .null) (x start : Expr) :
    eval (.app .substring x [start, length]) scope = eval (.app .substring x [start]) scope := by
  simp only [eval, evalAll, Operator.isAggregate, Bool.false_eq_true, if_false, h]
  cases eval x scope with
  | error f => rfl
  | ok v =>
    cases eval start scope with
    | error f => rfl
    | ok s => exact congrArg Except.ok (Value.substring_null_length v s)

/-- A strict operator on its proper number of arguments gives null where its operand is null, or one of the arguments
of any other than SUBSTR. SUBSTR takes a start that is null for 1, and a length that is null for none. -/
theorem null_propagates (scope : Scope) (op : Operator) (x : Expr) (args : List Expr) (v : Value) (vs : List Value)
    (hop : op.isStrictOn args.length) (hx : eval x scope = .ok v) (hargs : evalAll args scope = .ok vs) :
    (v = .null ∨ (op ≠ .substring ∧ .null ∈ vs) → eval (.app op x args) scope = .ok .null) ∧
    (∀ (start : Expr) (rest : List Expr), eval start scope = .ok .null →
      eval (.app .substring x (start :: rest)) scope = eval (.app .substring x (.const (.int 1) :: rest)) scope) ∧
    ∀ start length : Expr, eval length scope = .ok .null →
      eval (.app .substring x [start, length]) scope = eval (.app .substring x [start]) scope := by
  have hscalar : op.isAggregate = false := by
    cases op
    case count | sum | avg | min | max => cases hop
    all_goals rfl
  have hstrict : op.isStrictOn vs.length := by rwa [evalAll_length hargs]
  refine ⟨?_, fun _ rest h => eval_substring_null_start h x rest, fun start _ h => eval_substring_null_length h x start⟩
  rw [eval_scalar hscalar hx hargs]
  rintro (rfl | ⟨hsubstring, hnull⟩)
  · rw [Value.applyOperator_null_operand hstrict]
  · rw [Value.applyOperator_null_argument hstrict hsubstring hnull]

/-- A name that is known, and a number and a name that are not. -/
def halfKnown : Row :=
  ⟨["name", "nick", "from"], [.text "anna", .null, .null]⟩

/-- The texts of both names, and the part of the unknown one, are null; that of the known one is not. -/
theorem null_propagates_names :
    let name : Expr := .path (.single "name")
    let nick : Expr := .path (.single "nick")
    let start : Expr := .path (.single "from")
    eval name (.row halfKnown) = .ok (.text "anna") ∧ evalAll [nick, name] (.row halfKnown) = .ok [.null, .text "anna"] ∧
    eval (.app .concat name [nick, name]) (.row halfKnown) = .ok .null ∧
    eval (.app .substring nick [.const (.int 2)]) (.row halfKnown) = .ok .null ∧
    eval (.app .substring name [start]) (.row halfKnown) = .ok (.text "anna") := by
  intro name nick start
  have hname : eval name (.row halfKnown) = .ok (.text "anna") := rfl
  have hnick : eval nick (.row halfKnown) = .ok .null := rfl
  have hboth : evalAll [nick, name] (.row halfKnown) = .ok [.null, .text "anna"] := rfl
  have hconcat := null_propagates (.row halfKnown) .concat name [nick, name] _ _ rfl hname hboth
  have hpart := null_propagates (.row halfKnown) .substring nick [.const (.int 2)] _ [.int 2] rfl hnick rfl
  refine ⟨hname, hboth, hconcat.1 (.inr ⟨nofun, List.mem_cons_self⟩), hpart.1 (.inl rfl), ?_⟩
  rw [hconcat.2.1 start [] rfl]
  rfl

/-- Of `SUBSTR(name, from)` and `SUBSTR(name, 2, from)`, with a start and a length that are null, neither is null. -/
theorem substring_of_unknown_part :
    ¬ (∀ (op : Operator) (v : Value) (vs : List Value), op.isStrictOn vs.length → .null ∈ v :: vs →
      Value.applyOperator op v vs = .null) ∧
    eval (.app .substring (.path (.single "name")) [.path (.single "from")]) (.row halfKnown) = .ok (.text "anna") ∧
    eval (.app .substring (.path (.single "name")) [.const (.int 2), .path (.single "from")]) (.row halfKnown) =
      .ok (.text "nna") := by
  refine ⟨fun h => ?_, rfl, rfl⟩
  have hnull := h .substring (.text "anna") [.null] rfl (by simp)
  cases hnull

end Memory

end TableQuery
