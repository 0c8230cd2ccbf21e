import TableQuery.Proofs.Filter.DoubleNegation

/- Calls on a builder, in any order. Each call belongs to one part of the query: the conditions, which the calls
   on chains build up together, or one of the other clauses.

     1. `chainCall_after`: a call on chains does the same whatever has been given for the other clauses, and keeps
        what has, although it moves the filter between the query and the open chain or makes the builder anew.
     2. `change_eq_after`: a call on another clause does what `Clauses.after` says of it.
     3. `calls_eq`: so all calls on the other clauses can be made at once, after all calls on chains. -/
namespace TableQuery

/-- A call that has to do with conditions. -/
inductive ChainCall where
  | filter (c : Criterion)
  | having (c : Criterion)
  | and (c : Criterion)
  | or (c : Criterion)
  | andWhere (p : Predicate)
  | orWhere (p : Predicate)
  | not
  | filterBy (p : Predicate)
  /-- Makes a new builder on the query, with the open chain taken in. -/
  | settle

/-- A call on a builder. -/
inductive BuilderCall where
  | chain (c : ChainCall)
  | clause (s : ClauseStep)

namespace Builder

def chainCall (b : Builder) : ChainCall → Except Failure Builder
  | .filter c => c.complete (b.filter c.origin)
  | .having c => c.complete (b.having c.origin)
  | .and c => c.complete (b.and c.origin)
  | .or c => c.complete (b.or c.origin)
  | .andWhere p => .ok (b.andWhere p)
  | .orWhere p => .ok (b.orWhere p)
  | .not => .ok b.not
  | .filterBy p => .ok (b.filterBy p)
  | .settle => .ok (.ofQuery b.query)

def call (b : Builder) : BuilderCall → Except Failure Builder
  | .chain c => b.chainCall c
  | .clause s => .ok (b.change s)

/-- Makes the calls, each on what the one before it has given. -/
def calls (b : Builder) (cs : List BuilderCall) : Except Failure Builder :=
  cs.foldlM call b

end Builder

/-! ## Parts -/

/-- What a call has to do with. -/
inductive QueryPart where
  | conditions
  | select
  | groupBy
  | orderBy
  | fetch
  | offset
  | limit
  | lock
  deriving DecidableEq

namespace BuilderCall

def part : BuilderCall → QueryPart
  | chain _ => .conditions
  | clause (.select _) | clause (.selectDistinct _) => .select
  | clause (.groupBy _) => .groupBy
  | clause (.orderBy _) => .orderBy
  | clause (.fetch _) => .fetch
  | clause (.offset _) => .offset
  | clause (.limit _) => .limit
  | clause (.lock _) => .lock

def selected? : BuilderCall → Option Select
  | clause (.select s) => some s
  | clause (.selectDistinct s) => some s.asDistinct
  | _ => none

def groupKey? : BuilderCall → Option Expr
  | clause (.groupBy e) => some e
  | _ => none

def sortKey? : BuilderCall → Option SortKey
  | clause (.orderBy key) => some key
  | _ => none

def fetched? : BuilderCall → Option FieldPath
  | clause (.fetch f) => some f.path
  | _ => none

def offset? : BuilderCall → Option Nat
  | clause (.offset n) => some n
  | _ => none

def limit? : BuilderCall → Option Nat
  | clause (.limit n) => some n
  | _ => none

def lock? : BuilderCall → Option LockMode
  | clause (.lock mode) => some mode
  | _ => none

/-- What the last of the calls has given, if one of them has given something. -/
def last? {α : Type} (given? : BuilderCall → Option α) (cs : List BuilderCall) : Option α :=
  (cs.filterMap given?).getLast?

end BuilderCall

namespace FieldPath

/-- The first path of each identity. -/
def firsts : List FieldPath → List FieldPath
  | [] => []
  | p :: ps => p :: (firsts ps).filter fun q => q.identity ≠ p.identity

/-- The paths `fs`, and after them the first of each identity in `ps` that is not among them. -/
def addFirsts (fs ps : List FieldPath) : List FieldPath :=
  fs ++ (firsts ps).filter fun p => p.identity ∉ fs.map identity

end FieldPath

/-- The clauses with what the calls give: the last value of those that hold one, and in order what is grouped
and sorted by and what is fetched for the first time. The conditions stay as they are. -/
def Clauses.after (cs : List BuilderCall) (c : Clauses) : Clauses :=
  { c with
    select := (BuilderCall.last? BuilderCall.selected? cs).getD c.select
    groupBy := c.groupBy ++ cs.filterMap BuilderCall.groupKey?
    orderBy := c.orderBy ++ cs.filterMap BuilderCall.sortKey?
    fetch := FieldPath.addFirsts c.fetch (cs.filterMap BuilderCall.fetched?)
    offset := (BuilderCall.last? BuilderCall.offset? cs).or c.offset
    limit := (BuilderCall.last? BuilderCall.limit? cs).or c.limit
    lock := (BuilderCall.last? BuilderCall.lock? cs).getD c.lock }

/-- The builder with what the calls give for the clauses other than the conditions. -/
def Builder.after (cs : List BuilderCall) (b : Builder) : Builder :=
  b.update fun q => q.update (Clauses.after cs)

/-! ## Chains beside the other clauses -/

namespace Builder

theorem query_after (cs : List BuilderCall) (b : Builder) : (b.after cs).query = b.query.update (Clauses.after cs) := by
  obtain ⟨base, pending⟩ := b
  cases pending with
  | none => rfl
  | some o =>
    obtain ⟨clause, chain⟩ := o
    cases clause <;> cases base <;> rfl

theorem continuation_after (cs : List BuilderCall) (b : Builder) :
    (b.after cs).continuation = (b.continuation.1.update (Clauses.after cs), b.continuation.2) := by
  obtain ⟨base, pending⟩ := b
  cases pending with
  | none => cases base <;> rfl
  | some o => rfl

theorem not_after (cs : List BuilderCall) (b : Builder) : (b.after cs).not = b.not.after cs := by
  have hfilter : (b.after cs).base.clauses.filter = b.base.clauses.filter := by
    simp only [after, update, Query.clauses_update]
    rfl
  unfold Builder.not
  rw [hfilter]
  by_cases hb : b.pending.isNone ∧ b.base.clauses.filter.isTrue
  · rw [if_pos hb]
    exact if_pos hb
  · rw [if_neg hb, continuation_after]
    exact if_neg hb

/-- A call on chains does the same whatever the other clauses are, and leaves them as they are. -/
theorem chainCall_after (cs : List BuilderCall) (b : Builder) (c : ChainCall) :
    (b.after cs).chainCall c = (b.chainCall c).map (after cs) := by
  cases c with
  | filter c =>
    simp only [chainCall, filter, query_after]
    rw [c.complete_eq _ rfl, c.complete_eq _ rfl]
    rfl
  | having c =>
    simp only [chainCall, having, query_after]
    rw [c.complete_eq _ rfl, c.complete_eq _ rfl]
    rfl
  | and c =>
    simp only [chainCall, Builder.and, continuation_after]
    rw [c.complete_eq _ rfl, c.complete_eq _ rfl]
    rfl
  | or c =>
    simp only [chainCall, Builder.or, continuation_after]
    rw [c.complete_eq _ rfl, c.complete_eq _ rfl]
    rfl
  | andWhere p =>
    simp only [chainCall, andWhere, continuation_after]
    rfl
  | orWhere p =>
    simp only [chainCall, orWhere, continuation_after]
    rfl
  | not =>
    simp only [chainCall, not_after]
    rfl
  | filterBy p =>
    simp only [chainCall, filterBy, query_after]
    cases b.query <;> rfl
  | settle =>
    simp only [chainCall, query_after]
    rfl

end Builder

/-! ## The other clauses -/

namespace BuilderCall

variable {α : Type}

/-- What the last call has given, or else what was given before by the first one. -/
theorem last?_cons (given? : BuilderCall → Option α) (c : BuilderCall) (cs : List BuilderCall) :
    last? given? (c :: cs) = (last? given? cs).or (last? given? [c]) := by
  unfold last?
  cases h : given? c with
  | none =>
    rw [List.filterMap_cons_none h, List.filterMap_cons_none h, List.filterMap_nil, List.getLast?_nil, Option.or_none]
  | some a =>
    rw [List.filterMap_cons_some h, List.filterMap_cons_some h, List.getLast?_cons]
    cases (cs.filterMap given?).getLast? <;> rfl

theorem filterMap_cons_eq (given? : BuilderCall → Option α) (c : BuilderCall) (cs : List BuilderCall) :
    (c :: cs).filterMap given? = [c].filterMap given? ++ cs.filterMap given? := by
  rw [← List.filterMap_append, List.singleton_append]

end BuilderCall

namespace FieldPath

theorem contains_iff {fs : List FieldPath} {p : FieldPath} :
    fs.contains p = true ↔ p.identity ∈ fs.map identity := by
  rw [List.contains_iff_exists_mem_beq, List.mem_map]
  constructor
  · rintro ⟨q, hq, h⟩
    exact ⟨q, hq, (eq_of_beq (show (p.identity == q.identity) = true from h)).symm⟩
  · rintro ⟨q, hq, h⟩
    have hpq : (p.identity == q.identity) = true := beq_iff_eq.mpr h.symm
    exact ⟨q, hq, hpq⟩

theorem addFirsts_nil (fs : List FieldPath) : addFirsts fs [] = fs :=
  List.append_nil fs

/-- A path that is there already changes nothing about what is new among the later ones. -/
theorem addFirsts_cons_of_mem {fs : List FieldPath} {p : FieldPath} (h : p.identity ∈ fs.map identity)
    (ps : List FieldPath) : addFirsts fs (p :: ps) = addFirsts fs ps := by
  unfold addFirsts
  rw [firsts, List.filter_cons_of_neg (by simpa using h), List.filter_filter]
  refine congrArg _ (List.filter_congr fun q _ => ?_)
  by_cases hq : q.identity ∈ fs.map identity
  · simp [hq]
  · have hne : q.identity ≠ p.identity := fun heq => hq (heq ▸ h)
    simp [hne]

/-- A new path is taken, and what is new among the later ones is so beside it. -/
theorem addFirsts_cons_of_not_mem {fs : List FieldPath} {p : FieldPath} (h : p.identity ∉ fs.map identity)
    (ps : List FieldPath) : addFirsts fs (p :: ps) = addFirsts (fs ++ [p]) ps := by
  unfold addFirsts
  rw [firsts, List.filter_cons_of_pos (by simpa using h), List.filter_filter, List.append_cons]
  refine congrArg _ (List.filter_congr fun q _ => ?_)
  simp only [List.map_append, List.map_cons, List.map_nil, List.mem_append, List.mem_singleton, not_or, Bool.decide_and]

/-- Adding a single path is what the query does with it. -/
theorem addFirsts_single (fs : List FieldPath) (p : FieldPath) :
    addFirsts fs [p] = if fs.contains p then fs else fs ++ [p] := by
  by_cases h : p.identity ∈ fs.map identity
  · rw [if_pos (contains_iff.mpr h), addFirsts_cons_of_mem h, addFirsts_nil]
  · rw [if_neg (mt contains_iff.mp h), addFirsts_cons_of_not_mem h, addFirsts_nil]

theorem addFirsts_cons (fs : List FieldPath) (p : FieldPath) (ps : List FieldPath) :
    addFirsts fs (p :: ps) = addFirsts (addFirsts fs [p]) ps := by
  by_cases h : p.identity ∈ fs.map identity
  · rw [addFirsts_cons_of_mem h, addFirsts_cons_of_mem h, addFirsts_nil]
  · rw [addFirsts_cons_of_not_mem h, addFirsts_cons_of_not_mem h, addFirsts_nil]

theorem addFirsts_given (fs : List FieldPath) (c : BuilderCall) (cs : List BuilderCall) :
    addFirsts fs ((c :: cs).filterMap BuilderCall.fetched?) =
      addFirsts (addFirsts fs ([c].filterMap BuilderCall.fetched?)) (cs.filterMap BuilderCall.fetched?) := by
  cases h : BuilderCall.fetched? c with
  | none => rw [List.filterMap_cons_none h, List.filterMap_cons_none h, List.filterMap_nil, addFirsts_nil]
  | some p => rw [List.filterMap_cons_some h, List.filterMap_cons_some h, List.filterMap_nil, addFirsts_cons]

end FieldPath

theorem Clauses.after_cons (call : BuilderCall) (cs : List BuilderCall) (c : Clauses) :
    c.after (call :: cs) = (c.after [call]).after cs := by
  simp only [after, Clauses.mk.injEq, true_and]
  refine ⟨?_, ?_, ?_, ?_, ?_, ?_, ?_⟩
  · rw [BuilderCall.last?_cons, Option.getD_or]
  · rw [BuilderCall.filterMap_cons_eq, List.append_assoc]
  · rw [BuilderCall.filterMap_cons_eq, List.append_assoc]
  · exact FieldPath.addFirsts_given _ _ _
  · rw [BuilderCall.last?_cons, Option.or_assoc]
  · rw [BuilderCall.last?_cons, Option.or_assoc]
  · rw [BuilderCall.last?_cons, Option.getD_or]

theorem Clauses.after_nil (c : Clauses) : c.after [] = c := by
  simp [after, BuilderCall.last?, FieldPath.addFirsts_nil]

/-- What a single call gives is what its step does to the clauses. -/
theorem Builder.change_eq_after (b : Builder) (s : ClauseStep) : b.change s = b.after [.clause s] := by
  have of_clauses : ∀ f : Clauses → Clauses, (∀ c, f c = c.after [.clause s]) →
      b.update (fun q => q.update f) = b.after [.clause s] := by
    intro f hf
    exact congrArg (fun g : Clauses → Clauses => b.update fun q => q.update g) (funext hf)
  cases s <;> refine of_clauses _ fun c => ?_ <;>
    simp [Clauses.after, BuilderCall.last?, BuilderCall.selected?, BuilderCall.groupKey?, BuilderCall.sortKey?,
      BuilderCall.fetched?, BuilderCall.offset?, BuilderCall.limit?, BuilderCall.lock?, List.filterMap_cons,
      FieldPath.addFirsts_nil, FieldPath.addFirsts_single]

/-! ## Sequences of calls -/

namespace Builder

theorem after_nil (b : Builder) : b.after [] = b := by
  obtain ⟨base, pending⟩ := b
  cases base <;> simp [after, update, Query.update, Clauses.after_nil]

theorem after_cons (c : BuilderCall) (cs : List BuilderCall) (b : Builder) :
    b.after (c :: cs) = (b.after [c]).after cs := by
  have hclauses : Clauses.after (c :: cs) = Clauses.after cs ∘ Clauses.after [c] :=
    funext fun d => d.after_cons c cs
  simp only [after, update, Query.update_update, hclauses]

theorem chainCall_ok (b : Builder) (c : ChainCall) : ∃ b', b.chainCall c = .ok b' := by
  cases c with
  | filter c => exact ⟨_, c.complete_eq _ rfl⟩
  | having c => exact ⟨_, c.complete_eq _ rfl⟩
  | and c => exact ⟨_, c.complete_eq _ rfl⟩
  | or c => exact ⟨_, c.complete_eq _ rfl⟩
  | _ => exact ⟨_, rfl⟩

theorem calls_ok (b : Builder) (cs : List BuilderCall) : ∃ b', b.calls cs = .ok b' := by
  induction cs generalizing b with
  | nil => exact ⟨b, rfl⟩
  | cons c cs ih =>
    have hcall : ∃ b', b.call c = .ok b' := by
      cases c with
      | chain c => exact b.chainCall_ok c
      | clause s => exact ⟨b.change s, rfl⟩
    obtain ⟨b', hb'⟩ := hcall
    obtain ⟨b'', hb''⟩ := ih b'
    exact ⟨b'', bind_ok.mpr ⟨b', hb', hb''⟩⟩

end Builder

/-- The calls on chains. -/
def BuilderCall.onChains (cs : List BuilderCall) : List BuilderCall :=
  cs.filter fun c => c.part = .conditions

theorem BuilderCall.onChains_clause (s : ClauseStep) (cs : List BuilderCall) :
    onChains (.clause s :: cs) = onChains cs := by
  cases s <;> rfl

namespace Builder

/-- Calls on chains do the same after calls on other clauses as without them. -/
theorem calls_after (ds cs : List BuilderCall) (b : Builder) :
    (b.after ds).calls (BuilderCall.onChains cs) = (b.calls (BuilderCall.onChains cs)).map (after ds) := by
  induction cs generalizing b with
  | nil => rfl
  | cons c cs ih =>
    cases c with
    | clause s =>
      rw [BuilderCall.onChains_clause]
      exact ih b
    | chain c =>
      show ((b.after ds).chainCall c >>= fun b => b.calls (BuilderCall.onChains cs)) =
        (b.chainCall c >>= fun b => b.calls (BuilderCall.onChains cs)).map (after ds)
      rw [chainCall_after]
      obtain ⟨b', hb'⟩ := b.chainCall_ok c
      rw [hb']
      exact ih b'

/-- The calls on the other clauses can be made after all the calls on chains, at once. -/
theorem calls_eq (cs : List BuilderCall) (b : Builder) :
    b.calls cs = (b.calls (BuilderCall.onChains cs)).map (after cs) := by
  induction cs generalizing b with
  | nil => exact congrArg Except.ok b.after_nil.symm
  | cons c cs ih =>
    cases c with
    | chain c =>
      obtain ⟨b', hb'⟩ := b.chainCall_ok c
      calc b.calls (.chain c :: cs)
          = b'.calls cs := by
            show (b.chainCall c >>= fun b => b.calls cs) = _
            rw [hb']
            rfl
        _ = (b'.calls (BuilderCall.onChains cs)).map (after cs) := ih b'
        _ = (b.calls (BuilderCall.onChains (.chain c :: cs))).map (after (.chain c :: cs)) := by
            show _ = (b.chainCall c >>= fun b => b.calls (BuilderCall.onChains cs)).map _
            rw [hb']
            rfl
    | clause s =>
      have hcomp : after (.clause s :: cs) = after cs ∘ after [.clause s] := funext (after_cons _ cs)
      calc b.calls (.clause s :: cs)
          = (b.after [.clause s]).calls cs := by rw [← change_eq_after]; rfl
        _ = ((b.after [.clause s]).calls (BuilderCall.onChains cs)).map (after cs) := ih _
        _ = ((b.calls (BuilderCall.onChains cs)).map (after [.clause s])).map (after cs) := by rw [calls_after]
        _ = (b.calls (BuilderCall.onChains (.clause s :: cs))).map (after (.clause s :: cs)) := by
            rw [BuilderCall.onChains_clause, hcomp]
            cases b.calls (BuilderCall.onChains cs) <;> rfl

end Builder

end TableQuery
