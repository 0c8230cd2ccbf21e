import TableQuery.Builder.Basic

/- Conditions as they are written. A criterion is an expression, what shapes it and the test that
   completes it; a sentence is a predicate as the sequence of calls that builds it; a step is a call on a
   builder. `Builder.run` makes the calls one after the other.

   `Criterion.complete_eq`: completing a criterion on a stage replaces the current condition of its
   chain by the condition of the criterion, and nothing else. -/
namespace TableQuery

/-- A criterion as it is written. Its shapings apply, one after the other, to the expression it starts
from. -/
structure Criterion where
  origin : Expr
  shapings : List Shaping
  test : Test
  shaped : Expr
  shapes : shapings.foldlM Chain.shape (.start origin) = .ok (.start shaped)

namespace Criterion

/-- The condition that the test makes of the shaped expression. -/
def condition (c : Criterion) : Expr :=
  ((Chain.start c.shaped).test c.test).current

def complete {α : Type} (c : Criterion) (s : Stage α) : Except Failure α := do
  let s ← c.shapings.foldlM Stage.shape s
  .ok (s.test c.test)

end Criterion

/-- A predicate as it is written. -/
inductive Sentence where
  | start (c : Criterion)
  | and (p : Sentence) (c : Criterion)
  | or (p : Sentence) (c : Criterion)
  | andWhere (p q : Sentence)
  | orWhere (p q : Sentence)
  | not (p : Sentence)

def Sentence.predicate : Sentence → Except Failure Predicate
  | start c => c.complete (Predicate.start c.origin)
  | and p c => do
    let p ← p.predicate
    c.complete (p.and c.origin)
  | or p c => do
    let p ← p.predicate
    c.complete (p.or c.origin)
  | andWhere p q => do
    let p ← p.predicate
    let q ← q.predicate
    .ok (p.andWhere q)
  | orWhere p q => do
    let p ← p.predicate
    let q ← q.predicate
    .ok (p.orWhere q)
  | not p => do
    let p ← p.predicate
    .ok p.not

/-- A call on a builder that has to do with conditions. -/
inductive Step where
  | filter (c : Criterion)
  | having (c : Criterion)
  | and (c : Criterion)
  | or (c : Criterion)
  | andWhere (p : Sentence)
  | orWhere (p : Sentence)
  | not
  | filterBy (p : Sentence)

namespace Builder

def take (b : Builder) : Step → Except Failure Builder
  | .filter c => c.complete (b.filter c.origin)
  | .having c => c.complete (b.having c.origin)
  | .and c => c.complete (b.and c.origin)
  | .or c => c.complete (b.or c.origin)
  | .andWhere p => p.predicate.map b.andWhere
  | .orWhere p => p.predicate.map b.orWhere
  | .not => .ok b.not
  | .filterBy p => p.predicate.map b.filterBy

/-- Makes the calls, each on what the one before it has given. -/
def run (b : Builder) (steps : List Step) : Except Failure Builder :=
  steps.foldlM take b

end Builder

/-! ## Shaping sees the current expression only -/

namespace Chain

/-- Shaping a chain shapes its current expression and leaves the rest as it is. -/
theorem shape_eq (c : Chain) (s : Shaping) :
    c.shape s = ((Chain.start c.current).shape s).map fun d => { c with current := d.current } := by
  cases s <;> try rfl
  simp only [shape, navigate, start]
  cases c.current <;> rfl

/-- What shaping gives of a chain that has just begun has just begun, too. -/
theorem shape_start {e : Expr} {s : Shaping} {d : Chain} (h : (Chain.start e).shape s = .ok d) :
    d = .start d.current := by
  cases s <;> simp only [shape, apply, start, Except.ok.injEq] at h <;> try (subst h; rfl)
  unfold navigate at h
  split at h
  · simp only [Except.ok.injEq] at h; subst h; rfl
  · cases h

theorem test_eq (c : Chain) (t : Test) :
    c.test t = { c with current := ((Chain.start c.current).test t).current } := by
  cases t <;> rfl

end Chain

namespace Stage

variable {α : Type}

/-- A run of shapings that takes a chain from `e` to `e'` does so on every stage whose current expression
is `e`. -/
theorem foldlM_shape (ss : List Shaping) : ∀ (s : Stage α) (e e' : Expr), s.chain.current = e →
    ss.foldlM Chain.shape (.start e) = .ok (.start e') →
    ss.foldlM shape s = .ok ⟨{ s.chain with current := e' }, s.resume⟩ := by
  -- On the shapings, for any stage whose current expression is the one that is shaped.
  induction ss with
  | nil =>
    rintro ⟨⟨closed, group, current⟩, resume⟩ e e' rfl h
    cases h
    rfl
  | cons sh ss ih =>
    intro s e e' hs h
    simp only [List.foldlM_cons] at h ⊢
    cases hd : (Chain.start e).shape sh with
    | error f => rw [hd] at h; cases h
    | ok d =>
      rw [hd] at h
      have hstart := Chain.shape_start hd
      have hshape : s.shape sh = .ok ⟨{ s.chain with current := d.current }, s.resume⟩ := by
        rw [shape, Chain.shape_eq, hs, hd]; rfl
      rw [hshape]
      exact ih _ d.current e' rfl (by rw [← hstart]; exact h)

end Stage

/-- Completing a criterion puts its condition in the place of the current expression. -/
theorem Criterion.complete_eq {α : Type} (c : Criterion) (s : Stage α) (h : s.chain.current = c.origin) :
    c.complete s = .ok (s.resume { s.chain with current := c.condition }) := by
  unfold complete
  rw [Stage.foldlM_shape c.shapings s c.origin c.shaped h c.shapes]
  show Except.ok (s.resume (Chain.test _ _)) = _
  rw [Chain.test_eq]
  rfl

end TableQuery
