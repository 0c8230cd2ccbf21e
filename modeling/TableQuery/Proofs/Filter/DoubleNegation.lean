import TableQuery.Proofs.Expr.NormalForm
import TableQuery.Proofs.Filter.Writing
import TableQuery.Proofs.Query.Clauses
import TableQuery.Proofs.Steps

/- Negating a builder or a predicate twice gives back its conditions. All expressions in a chain, and both
   conditions of a query, are made by the constructors, at any time (`Predicate.Reachable.constructed`,
   `Builder.Reachable.constructed`). So the condition that a chain stands for is in normal form, and its opposite
   has it as opposite, also where the chain is begun from the filter and taken in again. -/
namespace TableQuery

open TableQuery.Expr (Constructed)

namespace Expr

/-- The constructors have made the expression from these parts and from constants. -/
def From (parts : List Expr) (args : List Expr) : Prop :=
  ∀ y ∈ args, y ∈ parts ∨ ∃ v, y = .const v

theorem From.constructed {parts args : List Expr} (h : From parts args) (hparts : ∀ y ∈ parts, y.Constructed) :
    ∀ y ∈ args, y.Constructed := by
  intro y hy
  rcases h y hy with hy | ⟨v, rfl⟩
  · exact hparts y hy
  · exact .const v

theorem Constructed.tru : Constructed .tru :=
  .const _

end Expr

/-! ## What is written -/

/-- The expressions that are given with a shaping. -/
def Shaping.operands : Shaping → List Expr
  | .coalesce e | .add e | .sub e | .mul e | .div e | .rem e | .concat e => [e]
  | _ => []

/-- The expressions that are given with a test. -/
def Test.operands : Test → List Expr
  | .eq e | .ne e | .gt e | .ge e | .lt e | .le e => [e]
  | .between low high => [low, high]
  | .isIn es | .isNotIn es => es
  | _ => []

/-- All expressions that are given with a criterion are made by the constructors. -/
structure Criterion.Constructed (c : Criterion) : Prop where
  origin : c.origin.Constructed
  shapings : ∀ s ∈ c.shapings, ∀ e ∈ s.operands, e.Constructed
  test : ∀ e ∈ c.test.operands, e.Constructed

/-- The predicates that the public calls give. -/
inductive Predicate.Reachable : Predicate → Prop where
  | ofExpr {e : Expr} {p : Predicate} (he : e.Constructed) (h : Predicate.ofExpr e = .ok p) : Reachable p
  | start {c : Criterion} {p : Predicate} (hc : c.Constructed) (h : c.complete (Predicate.start c.origin) = .ok p) :
    Reachable p
  | and {p q : Predicate} {c : Criterion} (hp : Reachable p) (hc : c.Constructed)
    (h : c.complete (p.and c.origin) = .ok q) : Reachable q
  | or {p q : Predicate} {c : Criterion} (hp : Reachable p) (hc : c.Constructed)
    (h : c.complete (p.or c.origin) = .ok q) : Reachable q
  | andWhere {p q : Predicate} (hp : Reachable p) (hq : Reachable q) : Reachable (p.andWhere q)
  | orWhere {p q : Predicate} (hp : Reachable p) (hq : Reachable q) : Reachable (p.orWhere q)
  | not {p : Predicate} (hp : Reachable p) : Reachable p.not

/-- A call on a builder that has nothing to do with conditions. -/
inductive ClauseStep where
  | select (s : Select)
  | selectDistinct (s : Select)
  | groupBy (e : Expr)
  | orderBy (key : SortKey)
  | fetch (f : Field)
  | offset (n : Nat)
  | limit (n : Nat)
  | lock (mode : LockMode)

def Builder.change (b : Builder) : ClauseStep → Builder
  | .select s => b.select s
  | .selectDistinct s => b.selectDistinct s
  | .groupBy e => b.groupBy e
  | .orderBy key => b.orderBy key
  | .fetch f => b.fetch f
  | .offset n => b.offset n
  | .limit n => b.limit n
  | .lock mode => b.lock mode

/-- Both conditions of the query are made by the constructors. -/
structure Query.Constructed (q : Query) : Prop where
  filter : q.clauses.filter.Constructed
  having : q.clauses.having.Constructed

/-- The builders that the public calls give. -/
inductive Builder.Reachable : Builder → Prop where
  | ofQuery {q : Query} (hq : q.Constructed) : Reachable (.ofQuery q)
  | filter {b b' : Builder} {c : Criterion} (hb : Reachable b) (hc : c.Constructed)
    (h : c.complete (b.filter c.origin) = .ok b') : Reachable b'
  | having {b b' : Builder} {c : Criterion} (hb : Reachable b) (hc : c.Constructed)
    (h : c.complete (b.having c.origin) = .ok b') : Reachable b'
  | and {b b' : Builder} {c : Criterion} (hb : Reachable b) (hc : c.Constructed)
    (h : c.complete (b.and c.origin) = .ok b') : Reachable b'
  | or {b b' : Builder} {c : Criterion} (hb : Reachable b) (hc : c.Constructed)
    (h : c.complete (b.or c.origin) = .ok b') : Reachable b'
  | andWhere {b : Builder} {p : Predicate} (hb : Reachable b) (hp : p.Reachable) : Reachable (b.andWhere p)
  | orWhere {b : Builder} {p : Predicate} (hb : Reachable b) (hp : p.Reachable) : Reachable (b.orWhere p)
  | not {b : Builder} (hb : Reachable b) : Reachable b.not
  | filterBy {b : Builder} {p : Predicate} (hb : Reachable b) (hp : p.Reachable) : Reachable (b.filterBy p)
  | change {b : Builder} (hb : Reachable b) (s : ClauseStep) : Reachable (b.change s)

/-! ## Chains -/

namespace Chain

/-- All expressions in the chain are made by the constructors. -/
structure Constructed (c : Chain) : Prop where
  closed : ∀ e ∈ c.closed, e.Constructed
  group : c.group.Constructed
  current : c.current.Constructed

theorem Constructed.start {e : Expr} (he : e.Constructed) : (Chain.start e).Constructed :=
  ⟨nofun, .tru, he⟩

theorem Constructed.withCurrent {c : Chain} (h : c.Constructed) {e : Expr} (he : e.Constructed) :
    Constructed { c with current := e } :=
  ⟨h.closed, h.group, he⟩

theorem Constructed.apply {c : Chain} (h : c.Constructed) (op : Operator) {args : List Expr}
    (hargs : ∀ y ∈ args, y.Constructed) : (c.apply op args).Constructed :=
  h.withCurrent (.operate h.current op hargs)

theorem Constructed.openGroup {c : Chain} (h : c.Constructed) : c.openGroup.Constructed :=
  .and h.group h.current

theorem Constructed.and {c : Chain} (h : c.Constructed) {e : Expr} (he : e.Constructed) : (c.and e).Constructed :=
  ⟨h.closed, h.openGroup, he⟩

theorem Constructed.or {c : Chain} (h : c.Constructed) {e : Expr} (he : e.Constructed) : (c.or e).Constructed := by
  refine ⟨?_, .tru, he⟩
  simp only [Chain.or]
  split
  · exact h.closed
  · intro y hy
    rcases List.mem_append.mp hy with hy | hy
    · exact h.closed y hy
    · rw [List.mem_singleton.mp hy]
      exact h.openGroup

theorem constructed_disjunction {e : Expr} (he : e.Constructed) {es : List Expr} (hes : ∀ y ∈ es, y.Constructed) :
    (disjunction e es).Constructed := by
  unfold disjunction
  induction es generalizing e with
  | nil => exact he
  | cons y es ih =>
    obtain ⟨hy, hes⟩ := List.forall_mem_cons.mp hes
    exact ih (.or he hy) hes

theorem Constructed.merge {c : Chain} (h : c.Constructed) : c.merge.Constructed := by
  unfold Chain.merge
  split
  · exact h.openGroup
  · next e es hclosed =>
    obtain ⟨he, hes⟩ := List.forall_mem_cons.mp (hclosed ▸ h.closed)
    refine constructed_disjunction he fun y hy => ?_
    rcases List.mem_append.mp hy with hy | hy
    · exact hes y hy
    · rw [List.mem_singleton.mp hy]
      exact h.openGroup

theorem merge_start (e : Expr) : (start e).merge = e :=
  rfl

theorem Constructed.negate {c : Chain} (h : c.Constructed) : c.negate.Constructed :=
  .start h.merge.not

/-- A chain negated twice stands for the same condition. -/
theorem Constructed.merge_negate_negate {c : Chain} (h : c.Constructed) : c.negate.negate.merge = c.merge := by
  simp only [Chain.negate, merge_start]
  exact h.merge.normal.not_not

/-- A shaping applies an operator to the current expression, or goes on along its path. -/
theorem shape_cases {c d : Chain} {s : Shaping} (h : c.shape s = .ok d) :
    (∃ op args, Expr.From s.operands args ∧ d = c.apply op args) ∨ ∃ p, d = { c with current := .path p } := by
  cases s with
  | get name =>
    simp only [shape, navigate] at h
    split at h
    · exact .inr ⟨_, (Except.ok.inj h).symm⟩
    · cases h
  | substring start length =>
    refine .inl ⟨_, _, ?_, (Except.ok.inj h).symm⟩
    intro y hy
    simp only [List.mem_cons, List.not_mem_nil, or_false] at hy
    rcases hy with rfl | rfl
    · exact .inr ⟨_, rfl⟩
    · exact .inr ⟨_, rfl⟩
  | _ => exact .inl ⟨_, _, fun y hy => .inl hy, (Except.ok.inj h).symm⟩

theorem test_eq_apply (c : Chain) (t : Test) : ∃ op args, Expr.From t.operands args ∧ c.test t = c.apply op args := by
  cases t with
  | like | notLike | startsWith | endsWith | contains =>
    refine ⟨_, _, fun y hy => .inr ⟨_, List.mem_singleton.mp hy⟩, rfl⟩
  | _ => exact ⟨_, _, fun y hy => .inl hy, rfl⟩

theorem Constructed.shape {c d : Chain} {s : Shaping} (hc : c.Constructed) (hs : ∀ e ∈ s.operands, e.Constructed)
    (h : c.shape s = .ok d) : d.Constructed := by
  rcases shape_cases h with ⟨op, args, hargs, rfl⟩ | ⟨p, rfl⟩
  · exact hc.apply op (hargs.constructed hs)
  · exact hc.withCurrent (.path p)

theorem Constructed.test {c : Chain} (hc : c.Constructed) {t : Test} (ht : ∀ e ∈ t.operands, e.Constructed) :
    (c.test t).Constructed := by
  obtain ⟨op, args, hargs, heq⟩ := test_eq_apply c t
  rw [heq]
  exact hc.apply op (hargs.constructed ht)

theorem Constructed.shapes {ss : List Shaping} (hss : ∀ s ∈ ss, ∀ e ∈ s.operands, e.Constructed) {c d : Chain}
    (hc : c.Constructed) (h : ss.foldlM Chain.shape c = .ok d) : d.Constructed := by
  induction ss generalizing c with
  | nil =>
    cases h
    exact hc
  | cons s ss ih =>
    obtain ⟨hs, hss⟩ := List.forall_mem_cons.mp hss
    obtain ⟨c', hshape, hrest⟩ := bind_ok.mp h
    exact ih hss (hc.shape hs hshape) hrest

end Chain

theorem Criterion.Constructed.condition {c : Criterion} (h : c.Constructed) : c.condition.Constructed := by
  have hshaped : (Chain.start c.shaped).Constructed := Chain.Constructed.shapes h.shapings (.start h.origin) c.shapes
  exact (hshaped.test h.test).current

/-! ## Predicates -/

theorem Predicate.Reachable.constructed {p : Predicate} (h : p.Reachable) : p.chain.Constructed := by
  induction h with
  | @ofExpr e p he h =>
    unfold Predicate.ofExpr at h
    split at h
    · rw [← Except.ok.inj h]
      exact .start he
    · cases h
  | @start c p hc h =>
    rw [c.complete_eq _ rfl] at h
    rw [← Except.ok.inj h]
    exact (Chain.Constructed.start hc.origin).withCurrent hc.condition
  | @and p q c _ hc h hp =>
    rw [c.complete_eq _ rfl] at h
    rw [← Except.ok.inj h]
    exact (hp.and hc.origin).withCurrent hc.condition
  | @or p q c _ hc h hp =>
    rw [c.complete_eq _ rfl] at h
    rw [← Except.ok.inj h]
    exact (hp.or hc.origin).withCurrent hc.condition
  | andWhere _ _ hp hq => exact hp.and hq.merge
  | orWhere _ _ hp hq => exact hp.or hq.merge
  | not _ hp => exact hp.negate

/-! ## Builders -/

namespace Query

theorem Constructed.andFilter {q : Query} (h : q.Constructed) {e : Expr} (he : e.Constructed) :
    (q.andFilter e).Constructed := by
  constructor
  · simp only [Query.andFilter, clauses_update]
    exact .and h.filter he
  · simp only [Query.andFilter, clauses_update]
    exact h.having

theorem Constructed.andHaving {q : Query} (h : q.Constructed) {e : Expr} (he : e.Constructed) :
    (q.andHaving e).Constructed := by
  constructor
  · simp only [Query.andHaving, clauses_update]
    exact h.filter
  · simp only [Query.andHaving, clauses_update]
    exact .and h.having he

end Query

namespace Builder

/-- All conditions in the builder, open or not, are made by the constructors. -/
structure Constructed (b : Builder) : Prop where
  base : b.base.Constructed
  pending : ∀ o ∈ b.pending, o.chain.Constructed

theorem Constructed.opened {base : Query} {clause : ConditionClause} {c : Chain} (hbase : base.Constructed)
    (hc : c.Constructed) : Constructed ⟨base, some ⟨clause, c⟩⟩ :=
  ⟨hbase, fun _ ho => Option.some_inj.mp ho ▸ hc⟩

theorem Constructed.query {b : Builder} (h : b.Constructed) : b.query.Constructed := by
  obtain ⟨base, pending⟩ := b
  cases pending with
  | none => exact h.base
  | some o =>
    have hc := (h.pending o rfl).merge
    obtain ⟨clause, chain⟩ := o
    cases clause with
    | filter => exact h.base.andFilter hc
    | having => exact h.base.andHaving hc

theorem Constructed.continuation {b : Builder} (h : b.Constructed) :
    b.continuation.1.Constructed ∧ b.continuation.2.chain.Constructed := by
  obtain ⟨base, pending⟩ := b
  cases pending with
  | some o => exact ⟨h.base, h.pending o rfl⟩
  | none =>
    refine ⟨⟨?_, ?_⟩, .start h.base.filter⟩
    · simp only [Builder.continuation, Query.withFilter, Query.clauses_update]
      exact .tru
    · simp only [Builder.continuation, Query.withFilter, Query.clauses_update]
      exact h.base.having

/-- Completing a criterion opens the chain of the stage, with its condition in the place of the current one. -/
theorem Constructed.complete {base : Query} {clause : ConditionClause} {chain : Chain} {c : Criterion} {b : Builder}
    (hbase : base.Constructed) (hchain : chain.Constructed) (hc : c.Constructed) (hcurrent : chain.current = c.origin)
    (h : c.complete (stage base clause chain) = .ok b) : b.Constructed := by
  rw [c.complete_eq _ hcurrent] at h
  rw [← Except.ok.inj h]
  exact .opened hbase (hchain.withCurrent hc.condition)

theorem Constructed.not {b : Builder} (h : b.Constructed) : b.not.Constructed := by
  unfold Builder.not
  split
  · exact h
  · exact .opened h.continuation.1 h.continuation.2.negate

/-- Steps on the other clauses leave the conditions and the open chain as they are. -/
theorem change_eq_update (b : Builder) (s : ClauseStep) : ∃ f : Clauses → Clauses, b.change s = b.update (·.update f) ∧
    ∀ c, (f c).filter = c.filter ∧ (f c).having = c.having := by
  cases s <;> exact ⟨_, rfl, fun _ => ⟨rfl, rfl⟩⟩

theorem Constructed.change {b : Builder} (h : b.Constructed) (s : ClauseStep) : (b.change s).Constructed := by
  obtain ⟨f, heq, hf⟩ := change_eq_update b s
  rw [heq]
  refine ⟨⟨?_, ?_⟩, h.pending⟩
  · simp only [Builder.update, Query.clauses_update, (hf _).1]
    exact h.base.filter
  · simp only [Builder.update, Query.clauses_update, (hf _).2]
    exact h.base.having

theorem Reachable.constructed {b : Builder} (h : b.Reachable) : b.Constructed := by
  induction h with
  | ofQuery hq => exact ⟨hq, nofun⟩
  | filter _ hc h hb => exact .complete hb.query (.start hc.origin) hc rfl h
  | having _ hc h hb => exact .complete hb.query (.start hc.origin) hc rfl h
  | and _ hc h hb => exact .complete hb.continuation.1 (hb.continuation.2.and hc.origin) hc rfl h
  | or _ hc h hb => exact .complete hb.continuation.1 (hb.continuation.2.or hc.origin) hc rfl h
  | andWhere _ hp hb => exact .opened hb.continuation.1 (hb.continuation.2.and hp.constructed.merge)
  | orWhere _ hp hb => exact .opened hb.continuation.1 (hb.continuation.2.or hp.constructed.merge)
  | not _ hb => exact hb.not
  | filterBy _ hp hb => exact ⟨hb.query.andFilter hp.constructed.merge, nofun⟩
  | change _ s hb => exact hb.change s

/-! ## Twice negated -/

/-- The query of a builder is the query of its continuation, with the chain there opened. -/
theorem query_continuation (b : Builder) : query ⟨b.continuation.1, some b.continuation.2⟩ = b.query := by
  obtain ⟨base, pending⟩ := b
  cases pending with
  | some o => rfl
  | none => cases base <;> rfl

theorem query_of_merge_eq {base : Query} {clause : ConditionClause} {c d : Chain} (h : c.merge = d.merge) :
    query ⟨base, some ⟨clause, c⟩⟩ = query ⟨base, some ⟨clause, d⟩⟩ := by
  cases clause with
  | filter => simp only [query, h]
  | having => simp only [query, h]

theorem Constructed.not_not_query {b : Builder} (h : b.Constructed) : b.not.not.query = b.query := by
  by_cases hb : b.pending.isNone ∧ b.base.clauses.filter.isTrue
  -- There is nothing to negate.
  · have hnot : b.not = b := by rw [Builder.not, if_pos hb]
    rw [hnot, hnot]
  · have hnot : b.not = ⟨b.continuation.1, some ⟨b.continuation.2.clause, b.continuation.2.chain.negate⟩⟩ := by
      rw [Builder.not, if_neg hb]
    calc b.not.not.query
        = Builder.query ⟨b.continuation.1, some ⟨b.continuation.2.clause, b.continuation.2.chain.negate.negate⟩⟩ := by
          rw [hnot]
          rfl
      _ = Builder.query ⟨b.continuation.1, some b.continuation.2⟩ := query_of_merge_eq h.continuation.2.merge_negate_negate
      _ = b.query := query_continuation b

end Builder

/-- What the constructors give is in normal form: nowhere in it is a plain negation negated, nor AND, OR or IN
applied to an operation of its own kind. So it is the same when it is made anew from its leaves up and when it is
negated twice, and predicates and builders have the same conditions when they are negated twice. -/
theorem constructed_in_normal_form :
    (∀ e : Expr, e.Constructed → e.Normal ∧ e.rebuild = e ∧ e.not.not = e) ∧
    (∀ p : Predicate, p.Reachable → p.not.not.build = p.build) ∧
    ∀ b : Builder, b.Reachable → b.not.not.query = b.query := by
  refine ⟨fun e he => ?_, fun p hp => ?_, fun b hb => ?_⟩
  · have hnormal := he.normal
    exact ⟨hnormal, hnormal.rebuild_eq, hnormal.not_not⟩
  · exact hp.constructed.merge_negate_negate
  · exact hb.constructed.not_not_query

/-- `NOT archived` -/
def notArchived : Expr :=
  (Expr.path (.single "archived")).not

/-- A predicate of a negation, put into the filter of a builder that is paged afterwards. -/
theorem constructed_in_normal_form_archive :
    let p : Predicate := ⟨.start notArchived⟩
    let b := ((Builder.ofQuery (.ofTable "notes")).orWhere p).change (.limit 5)
    (notArchived.Constructed ∧ notArchived.Normal ∧ notArchived.rebuild = notArchived ∧
      notArchived.not.not = notArchived) ∧
    (p.Reachable ∧ p.not.not.build = p.build) ∧ b.Reachable ∧ b.not.not.query = b.query := by
  have he : notArchived.Constructed := .not (.path _)
  have hp : Predicate.Reachable ⟨.start notArchived⟩ := .ofExpr he rfl
  have hb := Builder.Reachable.change (.orWhere (.ofQuery (q := .ofTable "notes") ⟨.const _, .const _⟩) hp) (.limit 5)
  obtain ⟨hexpr, hpredicate, hbuilder⟩ := constructed_in_normal_form
  exact ⟨⟨he, hexpr _ he⟩, ⟨hp, hpredicate _ hp⟩, hb, hbuilder _ hb⟩

end TableQuery
