import Mathlib.Data.List.Forall2
import TableQuery.Proofs.Filter.Reading
import TableQuery.Proofs.Query.Clauses

/- A builder means what was written. The steps made on a builder and the reading of the same steps go
   side by side (`Follows`), and at every point the conditions of the query have the truth that the
   reading gives them, in every scope and with the same first failure.

   What carries this is that no condition of a chain is the constant true, nor turns into it when it is
   negated (`Expr.Ordinary`): a group is dropped when `or` closes it only if it is that constant, and such
   a group holds everywhere. Criteria are ordinary, and conjunction, disjunction and opposite keep it so. -/
namespace TableQuery

namespace Expr

/-- The constant true under one or more negations, which negating takes back to the constant. -/
def negatesTrue : Expr → Bool
  | app .not x [] => x.isTrue || x.negatesTrue
  | _ => false

/-- A condition that is neither the constant true nor a negation of it. -/
structure Ordinary (e : Expr) : Prop where
  notTrue : e.isTrue = false
  notNegated : e.negatesTrue = false

theorem ordinary_app {op : Operator} (h : op ≠ .not) (x : Expr) (args : List Expr) : Ordinary (app op x args) := by
  constructor
  · rfl
  · unfold negatesTrue
    split
    · next heq => cases heq; contradiction
    · rfl

theorem operate_eq_app {op : Operator} (h : op ≠ .not) (x : Expr) (args : List Expr) :
    ∃ y ys, x.operate op args = app op y ys := by
  unfold operate
  split
  · contradiction
  · split
    · exact ⟨_, _, rfl⟩
    · exact ⟨_, _, rfl⟩
  · exact ⟨_, _, rfl⟩

theorem ordinary_operate {op : Operator} (h : op ≠ .not) (x : Expr) (args : List Expr) :
    Ordinary (x.operate op args) := by
  obtain ⟨y, ys, hy⟩ := operate_eq_app h x args
  rw [hy]
  exact ordinary_app h y ys

theorem Ordinary.and {y : Expr} (hy : Ordinary y) (x : Expr) : Ordinary (x.and y) := by
  unfold Expr.and
  split
  · exact hy
  · rw [hy.notTrue]
    exact ordinary_operate (by decide) x [y]

theorem ordinary_or (x y : Expr) : Ordinary (x.or y) :=
  ordinary_operate (by decide) x [y]

theorem Ordinary.not {x : Expr} (h : Ordinary x) : Ordinary x.not := by
  rcases Memory.not_cases x with ⟨y, rfl, hnot⟩ | hnot
  -- A negation is taken back. What it negates is ordinary, since the constant true would be found there.
  · rw [hnot]
    have hy := h.notNegated
    simp only [negatesTrue, Bool.or_eq_false_iff] at hy
    exact ⟨hy.1, hy.2⟩
  · rw [hnot]
    exact ⟨rfl, by simp only [negatesTrue, h.notTrue, h.notNegated, Bool.or_self]⟩

end Expr

/-- What a completed criterion leaves is an application of its test. -/
theorem Criterion.ordinary_condition (c : Criterion) : c.condition.Ordinary := by
  unfold condition
  cases c.test <;> exact Expr.ordinary_operate (by decide) _ _

/-! ## Chains and their groups -/

/-- The expression is an ordinary condition with the truth of the formula in every scope. -/
structure Says (e : Expr) (f : Formula) : Prop where
  ordinary : e.Ordinary
  truth_eq : ∀ scope, Memory.truth e scope = f.meaning scope

theorem Criterion.says (c : Criterion) : Says c.condition (.given c.condition) :=
  ⟨c.ordinary_condition, fun _ => rfl⟩

/-- Closed groups and open group of a chain say what the groups of formulas do. -/
inductive ChainSays (c : Chain) : List (List Formula) → Prop where
  | mk {before : List (List Formula)} {last : List Formula}
      (closed : List.Forall₂ (fun e g => Says e (.all g)) c.closed before)
      (opened : Says c.openGroup (.all last)) : ChainSays c (before ++ [last])

/-- The chain that a step goes on from: the groups may still be missing, where there is no filter. -/
inductive Continues (c : Chain) : List (List Formula) → Prop where
  | absent (closed : c.closed = []) (opened : c.openGroup = .tru) : Continues c []
  | present {gs : List (List Formula)} (h : ChainSays c gs) : Continues c gs

theorem chainSays_start {e : Expr} {f : Formula} (h : Says e f) : ChainSays (.start e) [[f]] :=
  @ChainSays.mk _ [] _ .nil
    ⟨h.ordinary, fun scope => by rw [Formula.meaning_all_singleton]; exact h.truth_eq scope⟩

theorem Continues.and {c : Chain} {gs : List (List Formula)} (h : Continues c gs) {e : Expr} {f : Formula}
    (he : Says e f) : ChainSays (c.and e) (Formula.extendLast gs f) := by
  cases h with
  | absent closed opened =>
    have hc : c.and e = .start e := by simp only [Chain.and, Chain.start, closed, opened]
    rw [hc]
    exact chainSays_start he
  | present h =>
    obtain ⟨closed, opened⟩ := h
    rw [Formula.extendLast_append]
    refine .mk closed ⟨he.ordinary.and _, fun scope => ?_⟩
    calc Memory.truth (c.openGroup.and e) scope
        = Memory.join Truth.and (Memory.truth c.openGroup scope) (Memory.truth e scope) := Memory.truth_and _ _ _
      _ = _ := by rw [opened.truth_eq, he.truth_eq, Formula.meaning_all_append]

theorem Continues.or {c : Chain} {gs : List (List Formula)} (h : Continues c gs) {e : Expr} {f : Formula}
    (he : Says e f) : ChainSays (c.or e) (gs ++ [[f]]) := by
  have hopen : Says (c.or e).openGroup (.all [f]) :=
    ⟨he.ordinary, fun scope => by rw [Formula.meaning_all_singleton]; exact he.truth_eq scope⟩
  cases h with
  | absent closed opened =>
    refine @ChainSays.mk _ [] _ ?_ hopen
    simp only [Chain.or, opened, closed]
    exact .nil
  | present h =>
    obtain ⟨closed, opened⟩ := h
    refine .mk ?_ hopen
    -- The open group is ordinary, so that it is closed and not dropped.
    simp only [Chain.or, opened.ordinary.notTrue, Bool.false_eq_true, if_false]
    exact List.rel_append closed (.cons opened .nil)

/-- The disjunction of an expression with those of the groups that follow. -/
theorem truth_disjunction {es : List Expr} {gs : List (List Formula)}
    (h : List.Forall₂ (fun e g => Says e (.all g)) es gs) (e : Expr) (scope : Memory.Scope) :
    Memory.truth (Chain.disjunction e es) scope =
      Memory.join Truth.or (Memory.truth e scope) (Formula.meaningAny scope (gs.map .all)) := by
  induction h generalizing e with
  | nil => exact (Memory.join_neutral Truth.or_no _).symm
  | @cons x g es gs hx _ ih =>
    calc Memory.truth (Chain.disjunction (e.or x) es) scope
        = Memory.join Truth.or (Memory.truth (e.or x) scope) (Formula.meaningAny scope (gs.map .all)) := ih _
      _ = _ := by
        rw [Memory.truth_or, hx.truth_eq, Memory.join_assoc Truth.or_assoc]
        rfl

theorem ordinary_disjunction (e : Expr) (es : List Expr) (x : Expr) :
    (Chain.disjunction e (es ++ [x])).Ordinary := by
  simp only [Chain.disjunction, List.foldl_append, List.foldl_cons, List.foldl_nil]
  exact Expr.ordinary_or _ x

/-- The one condition that a chain stands for is the disjunction of its groups. -/
theorem ChainSays.merge {c : Chain} {gs : List (List Formula)} (h : ChainSays c gs) :
    Says c.merge (.ofGroups gs) := by
  obtain ⟨closed, opened⟩ := h
  cases closed' : c.closed with
  -- Without closed groups, the chain stands for its open group as it is.
  | nil =>
    rw [closed'] at closed
    cases closed
    have hm : c.merge = c.openGroup := by simp only [Chain.merge, closed']
    rw [hm]
    refine ⟨opened.ordinary, fun scope => ?_⟩
    simp only [opened.truth_eq, Formula.ofGroups, Formula.meaning, Formula.meaningAny, List.nil_append, List.map_cons,
      List.map_nil, Memory.join_neutral Truth.or_no]
  | cons e es =>
    rw [closed'] at closed
    obtain ⟨g, gs', hg, hgs, rfl⟩ := List.forall₂_cons_left_iff.mp closed
    have hm : c.merge = Chain.disjunction e (es ++ [c.openGroup]) := by simp only [Chain.merge, closed']
    rw [hm]
    refine ⟨ordinary_disjunction _ _ _, fun scope => ?_⟩
    rw [truth_disjunction (List.rel_append hgs (.cons opened .nil)) e scope, hg.truth_eq]
    rfl

theorem ChainSays.merge_single {c : Chain} {f : Formula} (h : ChainSays c [[f]]) : Says c.merge f :=
  ⟨h.merge.ordinary, fun scope => by rw [h.merge.truth_eq, Formula.meaning_ofGroups_singleton]⟩

/-- Negating a chain leaves one group, which is the opposite of all that it said. -/
theorem Says.negate {c : Chain} {f : Formula} (h : Says c.merge f) : ChainSays c.negate [[.opposite f]] := by
  refine chainSays_start ⟨h.ordinary.not, fun scope => ?_⟩
  rw [Memory.truth_not, h.truth_eq]
  rfl

/-- The calls of a sentence succeed, and the predicate says what is written. -/
theorem Sentence.says (p : Sentence) : ∃ q, p.predicate = .ok q ∧ ChainSays q.chain p.groups := by
  -- On the calls as they are written, the outermost last. A predicate in a predicate has its own.
  induction p with
  | start c =>
    refine ⟨_, c.complete_eq _ rfl, ?_⟩
    exact chainSays_start c.says
  | and p c ih =>
    obtain ⟨q, hq, h⟩ := ih
    refine ⟨⟨q.chain.and c.condition⟩, ?_, (Continues.present h).and c.says⟩
    simp only [predicate, hq]
    exact c.complete_eq _ rfl
  | or p c ih =>
    obtain ⟨q, hq, h⟩ := ih
    refine ⟨⟨q.chain.or c.condition⟩, ?_, (Continues.present h).or c.says⟩
    simp only [predicate, hq]
    exact c.complete_eq _ rfl
  | andWhere p p' ih ih' =>
    obtain ⟨q, hq, h⟩ := ih
    obtain ⟨q', hq', h'⟩ := ih'
    refine ⟨q.andWhere q', ?_, (Continues.present h).and h'.merge⟩
    simp only [predicate, hq, hq']
    rfl
  | orWhere p p' ih ih' =>
    obtain ⟨q, hq, h⟩ := ih
    obtain ⟨q', hq', h'⟩ := ih'
    refine ⟨q.orWhere q', ?_, (Continues.present h).or h'.merge⟩
    simp only [predicate, hq, hq']
    rfl
  | not p ih =>
    obtain ⟨q, hq, h⟩ := ih
    refine ⟨q.not, ?_, h.merge.negate⟩
    simp only [predicate, hq]
    rfl

/-! ## Builders and readings -/

/-- What the filter of a query says: nothing where it is the constant true. -/
def FilterSays (e : Expr) : Option Formula → Prop
  | none => e = .tru
  | some f => Says e f

/-- The conditions of a query say what is settled. -/
structure QuerySays (q : Query) (settled : ConditionClause → Option Formula) : Prop where
  filter : FilterSays q.clauses.filter (settled .filter)
  having : ∀ scope, Memory.truth q.clauses.having scope = ((settled .having).getD (.all [])).meaning scope

theorem FilterSays.truth_eq {e : Expr} {f : Option Formula} (h : FilterSays e f) (scope : Memory.Scope) :
    Memory.truth e scope = (f.getD (.all [])).meaning scope := by
  cases f with
  | none => rw [show e = .tru from h]; rfl
  | some f => exact Says.truth_eq h scope

theorem QuerySays.andFilter {q : Query} {settled : ConditionClause → Option Formula} (h : QuerySays q settled)
    {e : Expr} {f : Formula} (he : Says e f) :
    QuerySays (q.andFilter e) (Reading.put settled .filter (some (Formula.conjoin (settled .filter) f))) := by
  constructor
  · simp only [Query.andFilter, Query.clauses_update, Reading.put, if_true]
    refine ⟨he.ordinary.and _, fun scope => ?_⟩
    rw [Memory.truth_and, h.filter.truth_eq, he.truth_eq, Formula.meaning_conjoin]
  · intro scope
    simp only [Query.andFilter, Query.clauses_update]
    exact h.having scope

theorem QuerySays.andHaving {q : Query} {settled : ConditionClause → Option Formula} (h : QuerySays q settled)
    {e : Expr} {f : Formula} (he : Says e f) :
    QuerySays (q.andHaving e) (Reading.put settled .having (some (Formula.conjoin (settled .having) f))) := by
  constructor
  · simp only [Query.andHaving, Query.clauses_update]
    exact h.filter
  · intro scope
    simp only [Query.andHaving, Query.clauses_update, Reading.put, if_true, Option.getD_some]
    rw [Memory.truth_and, h.having, he.truth_eq, Formula.meaning_conjoin]

/-- A builder has the conditions of a reading. A negated filter is an open chain of the builder and is
settled in the reading. -/
inductive Follows : Builder → Reading → Prop where
  | settled {q : Query} {s : ConditionClause → Option Formula} (h : QuerySays q s) : Follows ⟨q, none⟩ ⟨s, none⟩
  | opened {q : Query} {s : ConditionClause → Option Formula} {k : ConditionClause} {c : Chain}
      {gs : List (List Formula)} (h : QuerySays q s) (hc : ChainSays c gs) :
      Follows ⟨q, some ⟨k, c⟩⟩ ⟨s, some ⟨k, gs⟩⟩
  | opposed {q : Query} {s : ConditionClause → Option Formula} {c : Chain} {f : Formula}
      (h : QuerySays q (Reading.put s .filter none)) (hs : s .filter = some f) (hc : ChainSays c [[f]]) :
      Follows ⟨q, some ⟨.filter, c⟩⟩ ⟨s, none⟩

/-- With the open chain taken in, the conditions of the query say what the reading settles. -/
theorem Follows.query {b : Builder} {r : Reading} (h : Follows b r) : QuerySays b.query r.settle := by
  cases h with
  | settled h => exact h
  | @opened q s k c gs h hc =>
    cases k with
    | filter => exact h.andFilter hc.merge
    | having => exact h.andHaving hc.merge
  | @opposed q s c f h hs hc =>
    -- The query has no filter but the chain, and the reading has what that says as its filter.
    have hq := h.andFilter hc.merge_single
    refine ⟨?_, hq.having⟩
    rw [show Reading.settle ⟨s, none⟩ .filter = some f from hs]
    exact hq.filter

/-- What a step goes on from: the query without its open chain, and that chain. -/
theorem Follows.continuation {b : Builder} {r : Reading} (h : Follows b r) :
    QuerySays b.continuation.1 r.resume.1 ∧ b.continuation.2.clause = r.resume.2.clause ∧
      Continues b.continuation.2.chain r.resume.2.groups := by
  cases h with
  | @settled q s h =>
    refine ⟨⟨?_, ?_⟩, rfl, ?_⟩
    · simp only [Builder.continuation, Query.withFilter, Query.clauses_update, Reading.resume, Reading.put, if_true]
      rfl
    · intro scope
      simp only [Builder.continuation, Query.withFilter, Query.clauses_update]
      exact h.having scope
    · have hf := h.filter
      simp only [Builder.continuation, Reading.resume]
      cases hs : s .filter with
      | none =>
        rw [hs] at hf
        rw [show q.clauses.filter = .tru from hf]
        exact .absent rfl rfl
      | some f =>
        rw [hs] at hf
        exact .present (chainSays_start hf)
  | opened h hc => exact ⟨h, rfl, .present hc⟩
  | @opposed q s c f h hs hc =>
    refine ⟨h, rfl, .present ?_⟩
    simp only [Reading.resume, hs]
    exact hc

theorem Follows.extend {b : Builder} {r : Reading} (h : Follows b r) {e : Expr} {f : Formula} (he : Says e f) :
    Follows ⟨b.continuation.1, some ⟨b.continuation.2.clause, b.continuation.2.chain.and e⟩⟩ (r.extend f) := by
  obtain ⟨hq, hk, hc⟩ := h.continuation
  rw [hk]
  exact .opened hq (hc.and he)

theorem Follows.branch {b : Builder} {r : Reading} (h : Follows b r) {e : Expr} {f : Formula} (he : Says e f) :
    Follows ⟨b.continuation.1, some ⟨b.continuation.2.clause, b.continuation.2.chain.or e⟩⟩ (r.branch f) := by
  obtain ⟨hq, hk, hc⟩ := h.continuation
  rw [hk]
  exact .opened hq (hc.or he)

theorem put_put (s : ConditionClause → Option Formula) (k : ConditionClause) (f g : Option Formula) :
    Reading.put (Reading.put s k f) k g = Reading.put s k g := by
  funext k'
  simp only [Reading.put]
  split <;> rfl

theorem put_self {s : ConditionClause → Option Formula} {k : ConditionClause} {f : Option Formula} (h : s k = f) :
    Reading.put s k f = s := by
  funext k'
  simp only [Reading.put]
  split
  · next hk => rw [hk, h]
  · rfl

theorem Follows.oppose {b : Builder} {r : Reading} (h : Follows b r) : Follows b.not r.oppose := by
  cases h with
  | @settled q s h =>
    have hrest := (Follows.settled h).continuation.1
    have hf := h.filter
    simp only [Reading.oppose]
    cases hs : s .filter with
    -- There is nothing to turn around: both stay as they are.
    | none =>
      rw [hs] at hf
      have hnot : Builder.not ⟨q, none⟩ = ⟨q, none⟩ := by
        simp only [Builder.not, show q.clauses.filter = .tru from hf, Option.isNone_none, true_and]
        rfl
      rw [hnot, Option.map_none, put_self hs]
      exact .settled h
    | some f =>
      rw [hs] at hf
      have hnot : Builder.not ⟨q, none⟩ =
          ⟨q.withFilter .tru, some ⟨.filter, (Chain.start q.clauses.filter).negate⟩⟩ := by
        simp only [Builder.not, (Says.ordinary hf).notTrue, Bool.false_eq_true, and_false, if_false,
          Builder.continuation]
      rw [hnot]
      refine .opposed (f := .opposite f) ?_ rfl (Says.negate hf)
      rw [put_put]
      exact hrest
  | opened h hc => exact .opened h hc.merge.negate
  | @opposed q s c f h hs hc =>
    simp only [Reading.oppose, hs]
    refine .opposed (f := .opposite f) ?_ rfl hc.merge_single.negate
    rw [put_put]
    exact h

/-- Every step succeeds, and the builder follows the reading of the step. -/
theorem Follows.take {b : Builder} {r : Reading} (h : Follows b r) (step : Step) :
    ∃ b', b.take step = .ok b' ∧ Follows b' (r.take step) := by
  cases step with
  | filter c => exact ⟨_, c.complete_eq _ rfl, .opened h.query (chainSays_start c.says)⟩
  | having c => exact ⟨_, c.complete_eq _ rfl, .opened h.query (chainSays_start c.says)⟩
  | and c => exact ⟨_, c.complete_eq _ rfl, h.extend c.says⟩
  | or c => exact ⟨_, c.complete_eq _ rfl, h.branch c.says⟩
  | andWhere p =>
    obtain ⟨q, hq, hp⟩ := p.says
    exact ⟨b.andWhere q, by rw [Builder.take, hq]; rfl, h.extend hp.merge⟩
  | orWhere p =>
    obtain ⟨q, hq, hp⟩ := p.says
    exact ⟨b.orWhere q, by rw [Builder.take, hq]; rfl, h.branch hp.merge⟩
  | not => exact ⟨b.not, rfl, h.oppose⟩
  | filterBy p =>
    obtain ⟨q, hq, hp⟩ := p.says
    exact ⟨b.filterBy q, by rw [Builder.take, hq]; rfl, .settled (h.query.andFilter hp.merge)⟩

theorem Follows.run (steps : List Step) {b : Builder} {r : Reading} (h : Follows b r) :
    ∃ b', b.run steps = .ok b' ∧ Follows b' (r.run steps) := by
  induction steps generalizing b r with
  | nil => exact ⟨b, rfl, h⟩
  | cons step steps ih =>
    obtain ⟨b', hb', h'⟩ := h.take step
    obtain ⟨b'', hb'', h''⟩ := ih h'
    refine ⟨b'', ?_, h''⟩
    simp only [Builder.run, List.foldlM_cons, hb']
    exact hb''

/-- A builder on a query follows the reading of the query, unless its filter is the constant true under
negations. -/
theorem follows_ofQuery {q : Query} (h : q.clauses.filter.negatesTrue = false) :
    Follows (.ofQuery q) (.ofQuery q) := by
  refine .settled ⟨?_, fun scope => ?_⟩
  · show FilterSays _ (if _ then none else some _)
    split
    · next ht => exact Memory.isTrue_iff.mp ht
    · next ht => exact ⟨⟨Bool.eq_false_iff.mpr ht, h⟩, fun _ => rfl⟩
  · show _ = Formula.meaning scope ((if _ then none else some _ : Option Formula).getD _)
    split
    · next ht => rw [Memory.isTrue_iff.mp ht]; rfl
    · rfl

/-- Chains mean what was written. Any steps on conditions succeed on a builder over any query, and both
conditions of the query that results have, in every scope, the truth of the reading of these steps, with
the same first failure if a part fails to evaluate. The query may have conditions from the start. Only
one kind of filter is excluded, the constant true under negations, since a chain takes it back to the
constant; a new query has none. -/
theorem conditions_read_as_written (q : Query) (h : q.clauses.filter.negatesTrue = false) (steps : List Step) :
    ∃ b, (Builder.ofQuery q).run steps = .ok b ∧ ∀ scope,
      Memory.truth b.query.clauses.filter scope =
          (((Reading.ofQuery q).run steps).condition .filter).meaning scope ∧
      Memory.truth b.query.clauses.having scope =
          (((Reading.ofQuery q).run steps).condition .having).meaning scope := by
  obtain ⟨b, hb, hfollows⟩ := (follows_ofQuery h).run steps
  exact ⟨b, hb, fun scope => ⟨hfollows.query.filter.truth_eq scope, hfollows.query.having scope⟩⟩

/-- `age >= 18`, as written. -/
def atLeast18 : Criterion :=
  ⟨.path (.single "age"), [], .ge (.const (.int 18)), .path (.single "age"), rfl⟩

/-- `LOWER(name) LIKE 'a%'`, as written. -/
def startsWithA : Criterion :=
  ⟨.path (.single "name"), [.lower], .startsWith "a", .app .lower (.path (.single "name")) [], rfl⟩

/-- A filter given from the start, which two steps extend and a third one turns around. -/
theorem conditions_read_as_written_members :
    let q := (Query.ofTable "users").withFilter (.path (.single "member"))
    let steps := [Step.or atLeast18, .andWhere (.start startsWithA), .not]
    q.clauses.filter.negatesTrue = false ∧
      ∃ b, (Builder.ofQuery q).run steps = .ok b ∧ ∀ scope,
        Memory.truth b.query.clauses.filter scope =
            (((Reading.ofQuery q).run steps).condition .filter).meaning scope ∧
        Memory.truth b.query.clauses.having scope =
            (((Reading.ofQuery q).run steps).condition .having).meaning scope :=
  ⟨rfl, conditions_read_as_written _ rfl _⟩

end TableQuery
