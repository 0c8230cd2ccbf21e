import TableQuery.Proofs.Builder.Calls

/- Sequences of calls on a builder that differ only in how the calls on its parts are interleaved
   (`BuilderCall.Interleaved`). They give the same builder (`calls_independent`): what is given for a clause is found
   among the calls on it (`given_eq`), and the calls on chains change nothing but the conditions
   (`beside_calls`). -/
namespace TableQuery

namespace BuilderCall

/-- Two sequences have the same calls on each part in the same order, however these are interleaved. -/
def Interleaved (cs cs' : List BuilderCall) : Prop :=
  ∀ part : QueryPart, cs.filter (fun c => c.part = part) = cs'.filter (fun c => c.part = part)

/-- What a call gives for a clause, it gives as a call on that clause. -/
theorem part_of_given (c : BuilderCall) :
    (c.selected?.isSome → c.part = .select) ∧ (c.groupKey?.isSome → c.part = .groupBy) ∧
    (c.sortKey?.isSome → c.part = .orderBy) ∧ (c.fetched?.isSome → c.part = .fetch) ∧
    (c.offset?.isSome → c.part = .offset) ∧ (c.limit?.isSome → c.part = .limit) ∧
    (c.lock?.isSome → c.part = .lock) := by
  cases c with
  | chain c => exact ⟨nofun, nofun, nofun, nofun, nofun, nofun, nofun⟩
  | clause s => cases s <;> simp [selected?, groupKey?, sortKey?, fetched?, offset?, limit?, lock?, part]

/-- What is given for a part is the same in all sequences with the same calls on it. -/
theorem given_eq {α : Type} {given? : BuilderCall → Option α} {part : QueryPart}
    (hpart : ∀ c : BuilderCall, (given? c).isSome → c.part = part) {cs cs' : List BuilderCall}
    (h : Interleaved cs cs') : cs.filterMap given? = cs'.filterMap given? := by
  have hfilter (ds : List BuilderCall) :
      (ds.filter fun c => c.part = part).filterMap given? = ds.filterMap given? := by
    rw [List.filterMap_filter]
    refine congrArg (fun given? => ds.filterMap given?) (funext fun c => ?_)
    by_cases hc : c.part = part
    · simp only [hc, decide_true, if_true]
    · have hnone : given? c = none := Option.not_isSome_iff_eq_none.mp (mt (hpart c) hc)
      simp only [hc, decide_false, Bool.false_eq_true, if_false, hnone]
  rw [← hfilter cs, h part, hfilter cs']

theorem Interleaved.after_eq {cs cs' : List BuilderCall} (h : Interleaved cs cs') :
    Clauses.after cs = Clauses.after cs' := by
  have hselect := given_eq (fun c => (part_of_given c).1) h
  have hgroup := given_eq (fun c => (part_of_given c).2.1) h
  have horder := given_eq (fun c => (part_of_given c).2.2.1) h
  have hfetch := given_eq (fun c => (part_of_given c).2.2.2.1) h
  have hoffset := given_eq (fun c => (part_of_given c).2.2.2.2.1) h
  have hlimit := given_eq (fun c => (part_of_given c).2.2.2.2.2.1) h
  have hlock := given_eq (fun c => (part_of_given c).2.2.2.2.2.2) h
  funext c
  simp only [Clauses.after, last?, hselect, hgroup, horder, hfetch, hoffset, hlimit, hlock]

end BuilderCall

/-! ## What chains leave alone -/

/-- The query is the other one up to its conditions. -/
def Query.Beside (q q' : Query) : Prop :=
  ∃ filter having : Expr, q' = q.update fun c => { c with filter := filter, having := having }

namespace Query.Beside

theorem refl (q : Query) : q.Beside q := by
  refine ⟨q.clauses.filter, q.clauses.having, ?_⟩
  cases q <;> rfl

theorem trans {q₁ q₂ q₃ : Query} (h : q₁.Beside q₂) (h' : q₂.Beside q₃) : q₁.Beside q₃ := by
  obtain ⟨_, _, rfl⟩ := h
  obtain ⟨filter, having, rfl⟩ := h'
  exact ⟨filter, having, update_update _ _ _⟩

theorem withFilter (q : Query) (e : Expr) : q.Beside (q.withFilter e) := by
  refine ⟨e, q.clauses.having, ?_⟩
  cases q <;> rfl

theorem withHaving (q : Query) (e : Expr) : q.Beside (q.withHaving e) := by
  refine ⟨q.clauses.filter, e, ?_⟩
  cases q <;> rfl

theorem andFilter (q : Query) (e : Expr) : q.Beside (q.andFilter e) := by
  have h : q.andFilter e = q.withFilter (q.clauses.filter.and e) := by cases q <;> rfl
  exact h ▸ withFilter q _

theorem andHaving (q : Query) (e : Expr) : q.Beside (q.andHaving e) := by
  have h : q.andHaving e = q.withHaving (q.clauses.having.and e) := by cases q <;> rfl
  exact h ▸ withHaving q _

theorem eq_update {q q' : Query} (h : q.Beside q') :
    q' = q.update fun c => { c with filter := q'.clauses.filter, having := q'.clauses.having } := by
  obtain ⟨filter, having, rfl⟩ := h
  simp only [clauses_update]

end Query.Beside

namespace Builder

theorem beside_query (b : Builder) : b.base.Beside b.query := by
  obtain ⟨base, pending⟩ := b
  cases pending with
  | none => exact .refl base
  | some o =>
    obtain ⟨clause, chain⟩ := o
    cases clause with
    | filter => exact .andFilter base _
    | having => exact .andHaving base _

theorem beside_continuation (b : Builder) : b.base.Beside b.continuation.1 := by
  obtain ⟨base, pending⟩ := b
  cases pending with
  | none => exact .withFilter base _
  | some o => exact .refl base

theorem beside_complete {q base : Query} {clause : ConditionClause} {chain : Chain} {c : Criterion} {b' : Builder}
    (hbase : q.Beside base) (hcurrent : chain.current = c.origin)
    (h : c.complete (stage base clause chain) = .ok b') : q.Beside b'.base := by
  rw [c.complete_eq _ hcurrent] at h
  rw [← Except.ok.inj h]
  exact hbase

/-- A call on chains takes the open chain into a condition, or the filter into a chain, and does nothing else. -/
theorem beside_chainCall {b b' : Builder} {c : ChainCall} (h : b.chainCall c = .ok b') : b.base.Beside b'.base := by
  cases c with
  | filter c => exact beside_complete b.beside_query rfl h
  | having c => exact beside_complete b.beside_query rfl h
  | and c => exact beside_complete b.beside_continuation rfl h
  | or c => exact beside_complete b.beside_continuation rfl h
  | andWhere p => exact Except.ok.inj h ▸ b.beside_continuation
  | orWhere p => exact Except.ok.inj h ▸ b.beside_continuation
  | not =>
    have hb' : b.not = b' := Except.ok.inj h
    unfold Builder.not at hb'
    split at hb'
    · exact hb' ▸ .refl b.base
    · exact hb' ▸ b.beside_continuation
  | filterBy p => exact Except.ok.inj h ▸ b.beside_query.trans (.andFilter _ _)
  | settle => exact Except.ok.inj h ▸ b.beside_query

theorem beside_calls {b b' : Builder} {cs : List BuilderCall} (h : b.calls (BuilderCall.onChains cs) = .ok b') :
    b.base.Beside b'.base := by
  induction cs generalizing b with
  | nil => exact Except.ok.inj h ▸ .refl b.base
  | cons c cs ih =>
    cases c with
    | clause s =>
      rw [BuilderCall.onChains_clause] at h
      exact ih h
    | chain c =>
      obtain ⟨b₁, hb₁, hrest⟩ := bind_ok.mp h
      exact (beside_chainCall hb₁).trans (ih hrest)

end Builder

/-- Calls on a builder that are interleaved in another way give the same builder, and so the same query. Its
conditions are what the calls on chains make of those of the builder when they are made alone. Its other clauses
are those of the builder with what the calls on each of them have given: the last value for selection, offset,
limit and lock, the given expressions in order for groups and order, and for the fetches the first path of each
identity. What it reads is unchanged. -/
theorem calls_independent (b : Builder) (cs cs' : List BuilderCall) (h : BuilderCall.Interleaved cs cs') :
    ∃ chains b', b.calls (BuilderCall.onChains cs) = .ok chains ∧ b.calls cs = .ok b' ∧ b.calls cs' = .ok b' ∧
      b'.query = b.base.update fun c =>
        { c.after cs with filter := chains.query.clauses.filter, having := chains.query.clauses.having } := by
  obtain ⟨chains, hchains⟩ := b.calls_ok (BuilderCall.onChains cs)
  have hother : b.calls (BuilderCall.onChains cs') = .ok chains := by
    rw [← hchains]
    exact congrArg b.calls (h .conditions).symm
  have hafter : Builder.after cs' chains = Builder.after cs chains := by
    unfold Builder.after
    rw [h.after_eq]
  refine ⟨chains, chains.after cs, hchains, ?_, ?_, ?_⟩
  · rw [Builder.calls_eq, hchains]
    rfl
  · rw [Builder.calls_eq, hother, ← hafter]
    rfl
  · have hbeside : b.base.Beside chains.query := (Builder.beside_calls hchains).trans chains.beside_query
    rw [Builder.query_after, hbeside.eq_update, Query.update_update]
    simp only [Query.clauses_update]
    rfl

/-- `score > 90`, as written. -/
def highScore : Criterion :=
  ⟨.path (.single "score"), [], .gt (.const (.int 90)), .path (.single "score"), rfl⟩

/-- `city IS NULL`, as written. -/
def withoutCity : Criterion :=
  ⟨.path (.single "city"), [], .isNull, .path (.single "city"), rfl⟩

/-- A chain that stays open while the query is sorted and paged, and is negated in the end. -/
def pagedWithin : List BuilderCall :=
  [.chain (.filter highScore), .clause (.limit 5), .clause (.fetch ⟨"company"⟩), .chain (.or withoutCity),
    .clause (.orderBy ⟨.path (.single "name"), .asc⟩), .clause (.limit 10), .clause (.fetch ⟨"company"⟩),
    .chain .not]

/-- The same calls, those on each clause together. -/
def pagedFirst : List BuilderCall :=
  [.clause (.limit 5), .clause (.limit 10), .clause (.orderBy ⟨.path (.single "name"), .asc⟩),
    .clause (.fetch ⟨"company"⟩), .clause (.fetch ⟨"company"⟩), .chain (.filter highScore), .chain (.or withoutCity),
    .chain .not]

theorem calls_independent_users :
    let b := Builder.ofQuery (.ofTable "users")
    BuilderCall.Interleaved pagedWithin pagedFirst ∧
    ∃ chains b', b.calls (BuilderCall.onChains pagedWithin) = .ok chains ∧ b.calls pagedWithin = .ok b' ∧
      b.calls pagedFirst = .ok b' ∧ b'.query = b.base.update fun c =>
        { c.after pagedWithin with filter := chains.query.clauses.filter, having := chains.query.clauses.having } := by
  have h : BuilderCall.Interleaved pagedWithin pagedFirst := by
    intro part
    cases part <;> rfl
  exact ⟨h, calls_independent _ _ _ h⟩

end TableQuery
