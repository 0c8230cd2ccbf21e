import TableQuery.Proofs.Grammar.Spelling

/- The phrases of expressions: where their writers put parentheses, and that the phrase of an expression is one
   of the grammar (`phrase_fits`). It stands for the expression in which AND and OR have taken in the members of
   what they are applied to (`phrase_expr`). -/
namespace TableQuery

/-- Nested operations of this operator mean the same as one operation. -/
def Operator.merges : Operator → Bool
  | .and | .or => true
  | _ => false

/-- The operator is applied to that number of arguments. -/
def Operator.takes (op : Operator) (n : Nat) : Bool :=
  match op.layout with
  | .before | .after => n == 0
  | .infixed => if op.merges then 0 < n else n == 1
  | .range => n == 2
  | .call | .list => true

namespace Expr

/-- Induction on an expression, with all its arguments at once. -/
theorem inductionOn {motive : Expr → Prop} (const : ∀ v, motive (.const v)) (path : ∀ p, motive (.path p))
    (app : ∀ op x args, motive x → (∀ y ∈ args, motive y) → motive (.app op x args)) (e : Expr) : motive e :=
  @Expr.rec motive (fun es => ∀ e ∈ es, motive e) const path app (fun _ h => nomatch h)
    (fun _ _ he hes => List.forall_mem_cons.mpr ⟨he, hes⟩) e

mutual

/-- The test holds of the expression and of all expressions in it. -/
def every (test : Expr → Bool) : Expr → Bool
  | const v => test (const v)
  | path p => test (path p)
  | app op x args => test (app op x args) && every test x && everyArg test args

def everyArg (test : Expr → Bool) : List Expr → Bool
  | [] => true
  | x :: xs => every test x && everyArg test xs

end

/-- The members of an operation, or the expression alone. -/
def members (op : Operator) : Expr → List Expr
  | app op' x xs => if op' = op then x :: xs else [app op' x xs]
  | x => [x]

/-- Applies an operator. AND and OR take in the members of their operand and of their arguments. -/
def gather (op : Operator) (x : Expr) (args : List Expr) : Expr :=
  if op.merges then x.operate op (args.flatMap (members op)) else app op x args

mutual

/-- The expression without an AND directly in an AND or an OR directly in an OR. -/
def merge : Expr → Expr
  | const v => const v
  | path p => path p
  | app op x args => gather op (merge x) (mergeArgs args)

def mergeArgs : List Expr → List Expr
  | [] => []
  | x :: xs => merge x :: mergeArgs xs

end

theorem everyArg_eq_all (test : Expr → Bool) (es : List Expr) : everyArg test es = es.all (every test) := by
  induction es with
  | nil => rfl
  | cons e es ih => rw [everyArg, ih, List.all_cons]

theorem every_app {test : Expr → Bool} {op : Operator} {x : Expr} {args : List Expr} :
    (app op x args).every test ↔ test (app op x args) ∧ x.every test ∧ ∀ y ∈ args, y.every test := by
  rw [every, everyArg_eq_all, Bool.and_eq_true, Bool.and_eq_true, List.all_eq_true, and_assoc]

theorem every_mono {test test' : Expr → Bool} (h : ∀ e, test e → test' e) {e : Expr} (he : e.every test) :
    e.every test' := by
  induction e using inductionOn with
  | const v => exact h _ he
  | path p => exact h _ he
  | app op x args ih ihs =>
    obtain ⟨happ, hx, hargs⟩ := every_app.mp he
    exact every_app.mpr ⟨h _ happ, ih hx, fun y hy => ihs y hy (hargs y hy)⟩

theorem every_and {test test' : Expr → Bool} {e : Expr} (h : e.every test) (h' : e.every test') :
    e.every fun e => test e && test' e := by
  induction e using inductionOn with
  | const v => exact Bool.and_eq_true_iff.mpr ⟨h, h'⟩
  | path p => exact Bool.and_eq_true_iff.mpr ⟨h, h'⟩
  | app op x args ih ihs =>
    obtain ⟨happ, hx, hargs⟩ := every_app.mp h
    obtain ⟨happ', hx', hargs'⟩ := every_app.mp h'
    exact every_app.mpr
      ⟨Bool.and_eq_true_iff.mpr ⟨happ, happ'⟩, ih hx hx', fun y hy => ihs y hy (hargs y hy) (hargs' y hy)⟩

theorem mergeArgs_eq_map (es : List Expr) : mergeArgs es = es.map merge := by
  induction es with
  | nil => rfl
  | cons e es ih => rw [mergeArgs, ih, List.map_cons]

end Expr

namespace Grammar

/-! ## Phrases of expressions -/

/-- Integers of both widths are written alike in SQL. -/
def widen (g : Grammar) : Value → Value
  | .int n => if g = .text then .int n else .long n.toInt64
  | v => v

/-- The condition that a test of membership in an empty list is written as in SQL. -/
def emptyList? (g : Grammar) (op : Operator) (args : List Expr) : Option Bool :=
  if g ≠ .text ∧ args.isEmpty then
    match op with
    | .isIn => some false
    | .isNotIn => some true
    | _ => none
  else none

mutual

/-- The expression as it is written: in SQL, integers are of one width, and tests of membership in an empty list
are `1 = 0` and `1 = 1`. -/
def spelled (g : Grammar) : Expr → Expr
  | .const v => .const (g.widen v)
  | .path p => .path p
  | .app op x args =>
    match g.emptyList? op args with
    | some b => .app .eq one [ofBit b]
    | none => .app op (spelled g x) (spelledArgs g args)

def spelledArgs (g : Grammar) : List Expr → List Expr
  | [] => []
  | x :: xs => spelled g x :: spelledArgs g xs

end

/-- The child is written in parentheses. -/
def needsParens (g : Grammar) (op : Operator) (asArgument : Bool) (child : Expr) : Bool :=
  match g, child with
  | .text, .app inner _ _ => op.wraps inner asArgument
  | .text, _ => false
  | _, child => Sql.needsParens op asArgument child

namespace Phrase

def firstMember (o : Operator) : Phrase → Phrase
  | op o' x xs => if o' = o then x else op o' x xs
  | p => p

def otherMembers (o : Operator) : Phrase → List Phrase
  | op o' _ xs => if o' = o then xs else []
  | _ => []

/-- The members of an operation without parentheses, or the phrase alone. -/
def members (o : Operator) (p : Phrase) : List Phrase :=
  p.firstMember o :: p.otherMembers o

/-- An operation, into which AND and OR take in the members of their operand and their arguments. -/
def gather (o : Operator) (p : Phrase) (ps : List Phrase) : Phrase :=
  if o.merges then op o (p.firstMember o) (p.otherMembers o ++ ps.flatMap (members o)) else op o p ps

end Phrase

def child (g : Grammar) (op : Operator) (asArgument : Bool) (e : Expr) (p : Phrase) : Phrase :=
  if g.needsParens op asArgument e then .group p else p

/-- Concatenations have parentheses of their own in SQL. -/
def enclose (g : Grammar) (op : Operator) (p : Phrase) : Phrase :=
  if op = .concat ∧ g ≠ .text then .group p else p

mutual

/-- The phrase that an expression is written as. -/
def phrase (g : Grammar) : Expr → Phrase
  | .const v => .leaf (.const (g.widen v))
  | .path p => .leaf (.path p)
  | .app op x args =>
    match g.emptyList? op args with
    | some b => .fixed b
    | none => g.enclose op (.gather op (g.child op false x (phrase g x)) (argPhrases g op args))

def argPhrases (g : Grammar) (op : Operator) : List Expr → List Phrase
  | [] => []
  | x :: xs => g.child op true x (phrase g x) :: argPhrases g op xs

end

variable {g : Grammar} {op : Operator}

theorem spelledArgs_eq_map (g : Grammar) (es : List Expr) : g.spelledArgs es = es.map g.spelled := by
  induction es with
  | nil => rfl
  | cons e es ih => rw [spelledArgs, ih, List.map_cons]

theorem argPhrases_eq_map (g : Grammar) (op : Operator) (es : List Expr) :
    g.argPhrases op es = es.map fun e => g.child op true e (g.phrase e) := by
  induction es with
  | nil => rfl
  | cons e es ih => rw [argPhrases, ih, List.map_cons]

/-! ## What the phrase stands for -/

theorem members_of_operator {e : Expr} (h : e.operator? ≠ some op) : e.members op = [e] := by
  cases e with
  | const | path => rfl
  | app op' x xs => exact if_neg fun hop => h (congrArg some hop)

theorem operate_members (hop : op.merges) {x y : Expr} {ys : List Expr} (h : x.members op = y :: ys) (args : List Expr) :
    x.operate op args = .app op y (ys ++ args) := by
  have hmulti : op.isMultivalued := by cases op <;> first | rfl | cases hop
  have hnot : op ≠ .not := by rintro rfl; cases hop
  cases x with
  | const | path =>
    cases h
    cases op <;> rfl
  | app op' z zs =>
    have hflat : (Expr.app op' z zs).operate op args =
        if op.isMultivalued ∧ op' = op then .app op z (zs ++ args) else .app op (.app op' z zs) args := by
      cases op <;> first | rfl | cases hop
    rw [hflat]
    by_cases heq : op' = op
    · rw [Expr.members, if_pos heq] at h
      cases h
      exact if_pos ⟨hmulti, heq⟩
    · rw [Expr.members, if_neg heq] at h
      cases h
      exact if_neg fun hboth => heq hboth.2

theorem merge_operator (e : Expr) : e.merge.operator? = e.operator? := by
  cases e with
  | const | path => rfl
  | app op x args =>
    rw [Expr.merge, Expr.gather]
    split
    next hop =>
      have hmembers : ∃ y ys, x.merge.members op = y :: ys := by
        unfold Expr.members
        repeat' split
        all_goals exact ⟨_, _, rfl⟩
      obtain ⟨y, ys, hys⟩ := hmembers
      rw [operate_members hop hys]
      rfl
    next => rfl

/-- An operation is gathered in the phrase as it is in the expression. -/
theorem gather_expr {p : Phrase} {ps : List Phrase}
    (h : op.merges → ∀ q ∈ p :: ps, (q.members op).map Phrase.expr = q.expr.members op) :
    (Phrase.gather op p ps).expr = Expr.gather op p.expr (ps.map Phrase.expr) := by
  rw [Phrase.gather, Expr.gather]
  split
  next hop =>
    have hp := h hop p List.mem_cons_self
    have hps : ps.flatMap (fun q => (q.members op).map Phrase.expr) = (ps.map Phrase.expr).flatMap (Expr.members op) := by
      rw [List.flatMap_map, List.flatMap_def, List.flatMap_def]
      exact congrArg List.flatten (List.map_congr_left fun q hq => h hop q (List.mem_cons_of_mem p hq))
    rw [operate_members hop hp.symm, Phrase.expr, Phrase.exprs_eq_map, List.map_append, List.map_flatMap, hps]
  next => rw [Phrase.expr, Phrase.exprs_eq_map]

/-- A phrase that is no operation, and whose expression does not apply the operator, is its only member. -/
theorem members_alone {p : Phrase} (hp : ∀ o x xs, p ≠ .op o x xs) (h : p.expr.operator? ≠ some op) :
    (p.members op).map Phrase.expr = p.expr.members op := by
  rw [members_of_operator h]
  cases p with
  | op o x xs => exact absurd rfl (hp o x xs)
  | leaf | fixed | group => rfl

theorem members_op (o : Operator) (p : Phrase) (ps : List Phrase) :
    ((Phrase.op o p ps).members op).map Phrase.expr = (Phrase.op o p ps).expr.members op := by
  rw [Phrase.members, Phrase.firstMember, Phrase.otherMembers, Phrase.expr, Expr.members]
  split
  next => rw [List.map_cons, Phrase.exprs_eq_map]
  next => rw [List.map_cons, List.map_nil, Phrase.expr]

theorem spelled_operator {e : Expr} (hop : op.merges) (h : e.operator? ≠ some op) :
    (g.spelled e).operator? ≠ some op := by
  cases e with
  | const | path => exact h
  | app op' x args =>
    rw [spelled]
    cases g.emptyList? op' args with
    | none => exact h
    | some b =>
      intro heq
      cases heq
      cases hop

/-- A child in parentheses does not apply the operator that it stands under. -/
theorem operator_of_needsParens {asArgument : Bool} {e : Expr} (hop : op.merges) (h : g.needsParens op asArgument e) :
    e.operator? ≠ some op := by
  intro heq
  cases e with
  | const | path => cases heq
  | app op' x args =>
    cases heq
    cases g <;> cases asArgument <;> cases op <;> first | (cases hop; done) | cases h

theorem gather_eq_op (o : Operator) (p : Phrase) (ps : List Phrase) : ∃ q qs, Phrase.gather o p ps = .op o q qs := by
  unfold Phrase.gather
  split
  · exact ⟨_, _, rfl⟩
  · exact ⟨_, _, rfl⟩

/-- The members of the phrase of a child are those of the expression that it stands for. -/
theorem child_members {asArgument : Bool} {e : Expr} (hop : op.merges) (he : (g.phrase e).expr = (g.spelled e).merge) :
    ((g.child op asArgument e (g.phrase e)).members op).map Phrase.expr =
      (g.child op asArgument e (g.phrase e)).expr.members op := by
  rw [child]
  split
  next hparens =>
    refine members_alone (fun _ _ _ => Phrase.noConfusion) ?_
    rw [Phrase.expr, he, merge_operator]
    exact spelled_operator hop (operator_of_needsParens hop hparens)
  next =>
    cases e with
    | const | path => exact members_alone (fun _ _ _ => Phrase.noConfusion) (Option.some_ne_none op).symm
    | app op' x args =>
      rw [phrase]
      cases g.emptyList? op' args with
      | some b =>
        refine members_alone (fun _ _ _ => Phrase.noConfusion) ?_
        rintro ⟨⟩
        cases hop
      | none =>
        simp only
        obtain ⟨q, qs, hgather⟩ := gather_eq_op op' (g.child op' false x (g.phrase x)) (g.argPhrases op' args)
        rw [hgather, enclose]
        split
        next hconcat =>
          refine members_alone (fun _ _ _ => Phrase.noConfusion) ?_
          rw [hconcat.1]
          rintro ⟨⟩
          cases hop
        next => exact members_op op' q qs

/-- The phrase of an expression stands for it, as it is spelled, without an AND directly in an AND or an OR directly
in an OR. -/
theorem phrase_expr (e : Expr) : (g.phrase e).expr = (g.spelled e).merge := by
  have hchild : ∀ (op : Operator) (asArgument : Bool) (e : Expr), (g.phrase e).expr = (g.spelled e).merge →
      (g.child op asArgument e (g.phrase e)).expr = (g.spelled e).merge := by
    intro op asArgument e he
    rw [child]
    split
    · exact he
    · exact he
  have henclose : ∀ (op : Operator) (p : Phrase), (g.enclose op p).expr = p.expr := by
    intro op p
    rw [enclose]
    split <;> rfl
  induction e using Expr.inductionOn with
  | const v => rfl
  | path p => rfl
  | app op x args ih ihs =>
    rw [phrase, spelled]
    cases g.emptyList? op args with
    | some b => rfl
    | none =>
      simp only
      rw [henclose, gather_expr, hchild op false x ih, Expr.merge, Expr.mergeArgs_eq_map, spelledArgs_eq_map,
        argPhrases_eq_map, List.map_map, List.map_map]
      · congr 1
        exact List.map_congr_left fun e he => hchild op true e (ihs e he)
      · intro hop q hq
        rw [argPhrases_eq_map] at hq
        rcases List.mem_cons.mp hq with rfl | hq
        · exact child_members hop ih
        · obtain ⟨e, he, rfl⟩ := List.mem_map.mp hq
          exact child_members hop (ihs e he)

/-! ## How the phrase is written -/

section

open Sql

variable {β : Type} {separator : String}

theorem joined_cons_of_ne_nil (ps : List (Piece β)) {parts : List (List (Piece β))} (hne : parts ≠ []) :
    joined separator (ps :: parts) = ps ++ .raw separator :: joined separator parts := by
  cases parts with
  | nil => exact absurd rfl hne
  | cons qs parts => rfl

theorem joined_append {parts : List (List (Piece β))} (hne : parts ≠ []) (rest : List (List (Piece β))) :
    joined separator (parts ++ rest) = joined separator (joined separator parts :: rest) := by
  induction parts with
  | nil => exact absurd rfl hne
  | cons ps parts ih =>
    cases parts with
    | nil => rfl
    | cons qs parts =>
      have hparts := List.cons_ne_nil qs parts
      rw [List.cons_append, joined_cons_of_ne_nil ps (List.append_ne_nil_of_left_ne_nil hparts rest), ih hparts,
        joined_cons_of_ne_nil ps hparts]
      cases rest with
      | nil => rfl
      | cons rs rest => simp only [joined, List.append_assoc, List.cons_append]

theorem write_infixed (h : g.layout op = .infixed) (operand : List (Piece β)) (args : List (List (Piece β))) :
    g.write op operand args = joined (" " ++ g.sign op ++ " ") (operand :: args) := by
  rw [write, h]

/-- The members of a phrase, joined, are the phrase. -/
theorem members_pieces (h : g.layout op = .infixed) (p : Phrase) :
    joined (" " ++ g.sign op ++ " ") ((p.members op).map (Phrase.pieces g)) = p.pieces g := by
  cases p with
  | leaf | fixed | group => rfl
  | op o x xs =>
    rw [Phrase.members, Phrase.firstMember, Phrase.otherMembers]
    split
    next ho =>
      rw [ho, List.map_cons, Phrase.pieces, write_infixed h, Phrase.piecesAll_eq_map]
    next => rfl

/-- An operation is written with the members that it has taken in as it would be with its operands. -/
theorem gather_pieces (op : Operator) (p : Phrase) (ps : List Phrase) :
    (Phrase.gather op p ps).pieces g = g.write op (p.pieces g) (ps.map (Phrase.pieces g)) := by
  rw [Phrase.gather]
  split
  next hop =>
    have h : g.layout op = .infixed := by cases g <;> cases op <;> first | rfl | cases hop
    have hrest : ∀ x : List (Piece Value),
        joined (" " ++ g.sign op ++ " ") (x :: (ps.flatMap (Phrase.members op)).map (Phrase.pieces g)) =
          joined (" " ++ g.sign op ++ " ") (x :: ps.map (Phrase.pieces g)) := by
      induction ps with
      | nil => exact fun _ => rfl
      | cons q ps ih =>
        intro x
        have hq : (q.members op).map (Phrase.pieces g) ≠ [] := List.cons_ne_nil _ _
        rw [List.flatMap_cons, List.map_append,
          joined_cons_of_ne_nil x (List.append_ne_nil_of_left_ne_nil hq _), joined_append hq, members_pieces h, ih,
          List.map_cons, joined_cons_of_ne_nil x (List.cons_ne_nil _ _)]
    have hp : (p.members op).map (Phrase.pieces g) ≠ [] := List.cons_ne_nil _ _
    rw [Phrase.pieces, Phrase.piecesAll_eq_map, write_infixed h, write_infixed h, List.map_append, ← List.cons_append,
      ← List.map_cons, ← Phrase.members, joined_append hp, members_pieces h, hrest]
  next => rw [Phrase.pieces, Phrase.piecesAll_eq_map]

end

end Grammar

end TableQuery
