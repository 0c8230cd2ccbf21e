import TableQuery.Proofs.Expr.Connectives

/- Expressions made by the constructors are in normal form: nowhere is a plain negation negated, and no AND, OR
   or IN is applied to an operation of its own kind.

     1. `Constructed.normal`: every constructor keeps the normal form, whatever it takes back or takes in.
     2. `Normal.rebuild_eq`: an expression in normal form, made anew from its leaves up, is the same.
     3. `Normal.not_not`: its opposite has the expression itself as opposite. -/
namespace TableQuery.Expr

/-- What the constructors of expressions give, in any number of steps. -/
inductive Constructed : Expr → Prop where
  | const (v : Value) : Constructed (.const v)
  | path (p : FieldPath) : Constructed (.path p)
  | operate {x : Expr} {args : List Expr} (hx : Constructed x) (op : Operator) (hargs : ∀ y ∈ args, Constructed y) :
    Constructed (x.operate op args)
  | and {x y : Expr} (hx : Constructed x) (hy : Constructed y) : Constructed (x.and y)
  | or {x y : Expr} (hx : Constructed x) (hy : Constructed y) : Constructed (x.or y)
  | not {x : Expr} (hx : Constructed x) : Constructed x.not

/-- The operator can stay above the operand: it neither takes back a negation nor takes in an operation of
its own kind. -/
structure Settled (op : Operator) (x : Expr) : Prop where
  noDoubleNegation : op = .not → ∀ y, x ≠ app .not y []
  flat : op.isMultivalued → x.operator? ≠ some op

/-- All operators in the expression can stay above their operands. -/
inductive Normal : Expr → Prop where
  | const (v : Value) : Normal (.const v)
  | path (p : FieldPath) : Normal (.path p)
  | app {op : Operator} {x : Expr} {args : List Expr} (hsettled : Settled op x) (hx : Normal x)
    (hargs : ∀ y ∈ args, Normal y) : Normal (.app op x args)

mutual

/-- The expression made anew by the constructors, from the leaves up. -/
def rebuild : Expr → Expr
  | const v => const v
  | path p => path p
  | app op x args => (rebuild x).operate op (rebuildArgs args)

def rebuildArgs : List Expr → List Expr
  | [] => []
  | x :: xs => rebuild x :: rebuildArgs xs

end

/-! ## Applying an operator -/

/-- An operator takes back a plain negation, takes the arguments into an operation of its own kind, or stays
above its operand. -/
theorem operate_cases (x : Expr) (op : Operator) (args : List Expr) :
    (∃ y, op = .not ∧ x = app .not y [] ∧ x.operate op args = y) ∨
    (∃ y ys, op.isMultivalued ∧ x = app op y ys ∧ x.operate op args = app op y (ys ++ args)) ∨
    Settled op x ∧ x.operate op args = app op x args := by
  unfold operate
  split
  · exact .inl ⟨_, rfl, rfl, rfl⟩
  · next inner y ys hnot =>
    split
    · next h =>
      obtain ⟨hmulti, rfl⟩ := h
      exact .inr (.inl ⟨y, ys, hmulti, rfl, rfl⟩)
    · next h =>
      refine .inr (.inr ⟨⟨?_, ?_⟩, rfl⟩)
      · rintro rfl z hz
        cases hz
        exact hnot rfl rfl rfl
      · intro hmulti hop
        exact h ⟨hmulti, Option.some_inj.mp hop⟩
  · next happ _ =>
    refine .inr (.inr ⟨⟨fun _ z hz => happ _ _ _ hz, fun _ hop => ?_⟩, rfl⟩)
    cases x with
    | const v => cases hop
    | path p => cases hop
    | app inner y ys => exact happ _ _ _ rfl

theorem operate_of_settled {op : Operator} {x : Expr} (h : Settled op x) (args : List Expr) :
    x.operate op args = app op x args := by
  rcases operate_cases x op args with ⟨y, hop, hx, _⟩ | ⟨y, ys, hmulti, hx, _⟩ | ⟨_, heq⟩
  · exact absurd hx (h.noDoubleNegation hop y)
  · exact absurd (by rw [hx]; rfl) (h.flat hmulti)
  · exact heq

/-! ## The constructors keep the normal form -/

theorem Normal.operate {x : Expr} {args : List Expr} (hx : Normal x) (op : Operator) (hargs : ∀ y ∈ args, Normal y) :
    Normal (x.operate op args) := by
  rcases operate_cases x op args with ⟨y, _, rfl, heq⟩ | ⟨y, ys, _, rfl, heq⟩ | ⟨hsettled, heq⟩
  · rw [heq]
    cases hx with
    | app _ hy _ => exact hy
  · rw [heq]
    cases hx with
    | app hsettled hy hys =>
      refine .app hsettled hy fun z hz => ?_
      rcases List.mem_append.mp hz with hz | hz
      · exact hys z hz
      · exact hargs z hz
  · rw [heq]
    exact .app hsettled hx hargs

theorem Normal.and {x y : Expr} (hx : Normal x) (hy : Normal y) : Normal (x.and y) := by
  unfold Expr.and
  split
  · exact hy
  · split
    · exact hx
    · exact hx.operate .and (List.forall_mem_singleton.mpr hy)

theorem Constructed.normal {e : Expr} (h : Constructed e) : Normal e := by
  induction h with
  | const v => exact .const v
  | path p => exact .path p
  | operate _ op _ hx hargs => exact hx.operate op hargs
  | and _ _ hx hy => exact hx.and hy
  | or _ _ hx hy => exact hx.operate .or (List.forall_mem_singleton.mpr hy)
  | not _ hx => exact hx.operate .not (fun _ h => nomatch h)

/-! ## What is in normal form stays as it is -/

theorem rebuildArgs_eq_self {es : List Expr} (h : ∀ e ∈ es, e.rebuild = e) : rebuildArgs es = es := by
  induction es with
  | nil => rfl
  | cons e es ih =>
    obtain ⟨he, hes⟩ := List.forall_mem_cons.mp h
    rw [rebuildArgs, he, ih hes]

theorem Normal.rebuild_eq {e : Expr} (h : Normal e) : e.rebuild = e := by
  induction h with
  | const v => rfl
  | path p => rfl
  | app hsettled _ _ hx hargs => rw [rebuild, hx, rebuildArgs_eq_self hargs, operate_of_settled hsettled]

theorem Normal.not_not {e : Expr} (h : Normal e) : e.not.not = e := by
  rcases Memory.not_cases e with ⟨y, rfl, hnot⟩ | hnot
  -- The first negation takes back a plain one, whose operand is no plain negation.
  · cases h with
    | app hsettled _ _ => rw [hnot, Expr.not, operate_of_settled hsettled]
  · rw [hnot]
    rfl

end TableQuery.Expr
