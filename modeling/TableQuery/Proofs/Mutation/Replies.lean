import Mathlib.Data.List.Forall2
import TableQuery.Connection.Script
import TableQuery.Proofs.Mutation.Concurrent

/- What an update leaves behind, by the replies of the connection. If every batch comes back with a count of
   one for each of its records, all batches have been sent and the records have the next versions. Otherwise
   nothing is sent after the first batch that comes back in another way, the records are as they were, and
   that reply decides the failure (`update_all_or_nothing`). -/
namespace TableQuery

variable {σ : Type}

/-! ## Connections that are watched -/

/-- The state of a connection, with the calls that have been made on it. -/
structure Traced (σ : Type) where
  state : σ
  sent : List Call

/-- The same run, after which the call is among those that have been made. -/
def Run.traced {α : Type} (call : Call) (x : Run σ α) : Run (Traced σ) α :=
  ExceptT.mk fun t => ((x.start t.state).1, ⟨(x.start t.state).2, t.sent ++ [call]⟩)

namespace Connection

/-- The connection with a list of the calls that are made on it. -/
def traced (c : Connection σ) : Connection (Traced σ) where
  dialect := c.dialect
  inTransaction := c.inTransaction
  query sql params := (c.query sql params).traced (.query sql params)
  executeBatch sql batch := (c.executeBatch sql batch).traced (.batch sql batch)
  fetchBatch sql batch := (c.fetchBatch sql batch).traced (.batch sql batch)

/-- The replies to a statement that is sent with these batches, one after the other. -/
def replies (c : Connection σ) (sql : String) : List (List (List Value)) → σ → List (Except Failure (List Nat))
  | [], _ => []
  | batch :: rest, s =>
    let (reply, s) := (c.executeBatch sql batch).start s
    reply :: c.replies sql rest s

theorem executeBatch_traced (c : Connection σ) (sql : String) (batch : List (List Value)) (t : Traced σ) :
    (c.traced.executeBatch sql batch).start t =
      (((c.executeBatch sql batch).start t.state).1,
        ⟨((c.executeBatch sql batch).start t.state).2, t.sent ++ [.batch sql batch]⟩) := rfl

theorem fetchBatch_traced (c : Connection σ) (sql : String) (batch : List (List Value)) (t : Traced σ) :
    (c.traced.fetchBatch sql batch).start t =
      (((c.fetchBatch sql batch).start t.state).1,
        ⟨((c.fetchBatch sql batch).start t.state).2, t.sent ++ [.batch sql batch]⟩) := rfl

end Connection

namespace Mutation

section

variable {ε ρ : Type} {m : Mapping ε} {id : Column ε} {versioned : Bool}

/-! ## The check of the counts -/

/-- What a count says that is not one: no row, or none with that version, or too many. -/
def countFailure (table : String) (id : Value) (versioned : Bool) (n : Nat) : Failure :=
  if n = 0 then if versioned then .staleVersion table id else .rowMissing table id else .rowsMatched table id n

/-- The failure that comes of a reply to a batch with these records: that of the connection, or that the
number of counts is wrong, or what the first record says whose count is not one. -/
def Blames (m : Mapping ε) (id : Column ε) (versioned : Bool) (es : List ε) (reply : Except Failure (List Nat))
    (f : Failure) : Prop :=
  match reply with
  | .error g => f = g
  | .ok counts =>
    if counts.length ≠ es.length then f = .statementCounts es.length m.table counts.length
    else ∃ (j : Nat) (e : ε) (n : Nat), es[j]? = some e ∧ counts[j]? = some n ∧ n ≠ 1 ∧
      (∀ i < j, counts[i]? = some 1) ∧ f = countFailure m.table (id.get e) versioned n

theorem checkCount_error (table : String) (v : Value) {n : Nat} (hn : n ≠ 1) :
    checkCount table v versioned n = .error (countFailure table v versioned n) := by
  rw [checkCount, countFailure, if_neg hn]
  split <;> rfl

theorem checkEach_ones (es : List ε) : checkEach m id versioned es (List.replicate es.length 1) = .ok () := by
  induction es with
  | nil => rfl
  | cons e es ih => exact ih

/-- Counts that are not all one: the first that is not decides. -/
theorem checkEach_error {es : List ε} {counts : List Nat} (hlen : counts.length = es.length)
    (hne : counts ≠ List.replicate es.length 1) :
    ∃ (j : Nat) (e : ε) (n : Nat),
      checkEach m id versioned es counts = .error (countFailure m.table (id.get e) versioned n) ∧
      es[j]? = some e ∧ counts[j]? = some n ∧ n ≠ 1 ∧ ∀ i < j, counts[i]? = some 1 := by
  induction es generalizing counts with
  | nil => exact absurd (List.length_eq_zero_iff.mp hlen) hne
  | cons e es ih =>
    cases counts with
    | nil => cases hlen
    | cons n counts =>
      by_cases hn : n = 1
      · subst hn
        have hrest : counts ≠ List.replicate es.length 1 := fun h => hne (by rw [h]; rfl)
        obtain ⟨j, e', n, hcheck, he, hcount, hne, hbefore⟩ := ih (Nat.succ.inj hlen) hrest
        refine ⟨j + 1, e', n, hcheck, he, hcount, hne, ?_⟩
        intro i hi
        cases i with
        | zero => rfl
        | succ i => exact hbefore i (Nat.lt_of_succ_lt_succ hi)
      · refine ⟨0, e, n, ?_, rfl, rfl, hn, fun i hi => absurd hi (Nat.not_lt_zero i)⟩
        rw [checkEach, checkCount_error _ _ hn]
        rfl

theorem checkCounts_ones (es : List ε) : checkCounts m id versioned es (List.replicate es.length 1) = .ok () := by
  rw [checkCounts, if_neg (not_not.mpr List.length_replicate), checkEach_ones]

theorem checkCounts_error (m : Mapping ε) (id : Column ε) (versioned : Bool) {es : List ε} {counts : List Nat}
    (hne : counts ≠ List.replicate es.length 1) :
    ∃ f, checkCounts m id versioned es counts = .error f ∧ Blames m id versioned es (.ok counts) f := by
  unfold checkCounts Blames
  by_cases hlen : counts.length ≠ es.length
  · simp only [if_pos hlen]
    exact ⟨_, rfl, rfl⟩
  · simp only [if_neg hlen]
    obtain ⟨j, e, n, hcheck, he, hcount, hone, hbefore⟩ := checkEach_error (not_not.mp hlen) hne
    exact ⟨_, hcheck, j, e, n, he, hcount, hone, hbefore, rfl⟩

/-! ## Sending batches -/

/-- The batch at that place comes back with a count of one for each set of parameters. -/
def Accepted (batches : List (List (List Value))) (replies : List (Except Failure (List Nat))) (k : Nat) : Prop :=
  ∃ batch, batches[k]? = some batch ∧ replies[k]? = some (.ok (List.replicate batch.length 1))

/-- The parameters of batches that hold records with their parameters. -/
def paramsOf (chunks : List (List (ε × List Value))) : List (List (List Value)) :=
  chunks.map (List.map Prod.snd)

variable {c : Connection σ} {sql : String}

/-- A batch that is accepted is followed by the others. -/
theorem sendUpdates_cons_accepted {chunk : List (ε × List Value)} (rest : List (List (ε × List Value))) {t : Traced σ}
    (h : ((c.executeBatch sql (chunk.map Prod.snd)).start t.state).1 =
      .ok (List.replicate (chunk.map Prod.snd).length 1)) :
    (sendUpdates c.traced m id versioned sql (chunk :: rest)).start t =
      (sendUpdates c.traced m id versioned sql rest).start
        ⟨((c.executeBatch sql (chunk.map Prod.snd)).start t.state).2, t.sent ++ [.batch sql (chunk.map Prod.snd)]⟩ := by
  have hcheck : checkCounts m id versioned (chunk.map Prod.fst) (List.replicate (chunk.map Prod.snd).length 1) =
      .ok () := by
    have hlen : (chunk.map Prod.snd).length = (chunk.map Prod.fst).length := by rw [List.length_map, List.length_map]
    rw [hlen, checkCounts_ones]
  rw [sendUpdates, Run.start_bind, Connection.executeBatch_traced, h]
  simp only [Run.start_bind, Run.start_ofExcept, hcheck]

/-- A batch that is not accepted is the last one. -/
theorem sendUpdates_cons_refused (m : Mapping ε) (id : Column ε) (versioned : Bool) {chunk : List (ε × List Value)}
    (rest : List (List (ε × List Value))) {t : Traced σ}
    (h : ((c.executeBatch sql (chunk.map Prod.snd)).start t.state).1 ≠
      .ok (List.replicate (chunk.map Prod.snd).length 1)) :
    ∃ f, (sendUpdates c.traced m id versioned sql (chunk :: rest)).start t =
        (.error f, ⟨((c.executeBatch sql (chunk.map Prod.snd)).start t.state).2,
          t.sent ++ [.batch sql (chunk.map Prod.snd)]⟩) ∧
      Blames m id versioned (chunk.map Prod.fst) ((c.executeBatch sql (chunk.map Prod.snd)).start t.state).1 f := by
  rw [sendUpdates, Run.start_bind, Connection.executeBatch_traced]
  cases hreply : ((c.executeBatch sql (chunk.map Prod.snd)).start t.state).1 with
  | error f => exact ⟨f, rfl, by rw [Blames]⟩
  | ok counts =>
    have hne : counts ≠ List.replicate (chunk.map Prod.fst).length 1 := by
      rintro rfl
      rw [hreply, List.length_map, List.length_map] at h
      exact h rfl
    obtain ⟨f, hcheck, hf⟩ := checkCounts_error m id versioned hne
    exact ⟨f, by simp only [Run.start_bind, Run.start_ofExcept, hcheck], hf⟩

/-- If all batches are accepted, all are sent. -/
theorem sendUpdates_accepted (m : Mapping ε) (id : Column ε) (versioned : Bool)
    (chunks : List (List (ε × List Value))) (t : Traced σ)
    (h : ∀ k < chunks.length, Accepted (paramsOf chunks) (c.replies sql (paramsOf chunks) t.state) k) :
    ∃ s, (sendUpdates c.traced m id versioned sql chunks).start t =
      (.ok (), ⟨s, t.sent ++ (paramsOf chunks).map (.batch sql)⟩) := by
  induction chunks generalizing t with
  | nil =>
    refine ⟨t.state, ?_⟩
    rw [paramsOf, List.map_nil, List.map_nil, List.append_nil]
    rfl
  | cons chunk rest ih =>
    obtain ⟨_, ⟨⟩, hfirst⟩ := h 0 (Nat.zero_lt_succ _)
    have hfirst := Option.some.inj hfirst
    obtain ⟨s, hs⟩ := ih ⟨((c.executeBatch sql (chunk.map Prod.snd)).start t.state).2, _⟩
      fun k hk => h (k + 1) (Nat.succ_lt_succ hk)
    refine ⟨s, ?_⟩
    rw [sendUpdates_cons_accepted rest hfirst, hs, List.append_assoc]
    rfl

/-- The first batch that is not accepted is the last that is sent, and it decides the failure. -/
theorem sendUpdates_refused (m : Mapping ε) (id : Column ε) (versioned : Bool)
    {chunks : List (List (ε × List Value))} {k : Nat} {t : Traced σ} {chunk : List (ε × List Value)}
    (hk : chunks[k]? = some chunk)
    (hbefore : ∀ i < k, Accepted (paramsOf chunks) (c.replies sql (paramsOf chunks) t.state) i)
    (hrefused : ¬ Accepted (paramsOf chunks) (c.replies sql (paramsOf chunks) t.state) k) :
    ∃ f s reply, (c.replies sql (paramsOf chunks) t.state)[k]? = some reply ∧
      (sendUpdates c.traced m id versioned sql chunks).start t =
        (.error f, ⟨s, t.sent ++ ((paramsOf chunks).take (k + 1)).map (.batch sql)⟩) ∧
      Blames m id versioned (chunk.map Prod.fst) reply f := by
  -- On the batches before that one, for any calls before.
  induction k generalizing chunks t with
  | zero =>
    cases chunks with
    | nil => cases hk
    | cons head rest =>
      cases hk
      have hne : ((c.executeBatch sql (chunk.map Prod.snd)).start t.state).1 ≠
          .ok (List.replicate (chunk.map Prod.snd).length 1) :=
        fun h => hrefused ⟨chunk.map Prod.snd, rfl, congrArg some h⟩
      obtain ⟨f, hsent, hf⟩ := sendUpdates_cons_refused m id versioned rest hne
      exact ⟨f, _, _, rfl, hsent, hf⟩
  | succ k ih =>
    cases chunks with
    | nil => cases hk
    | cons head rest =>
      obtain ⟨_, ⟨⟩, hfirst⟩ := hbefore 0 (Nat.zero_lt_succ _)
      have hfirst := Option.some.inj hfirst
      obtain ⟨f, s, reply, hreply, hsent, hf⟩ :=
        ih (t := ⟨((c.executeBatch sql (head.map Prod.snd)).start t.state).2, t.sent ++ [.batch sql (head.map Prod.snd)]⟩)
          hk (fun i hi => hbefore (i + 1) (Nat.succ_lt_succ hi)) hrefused
      refine ⟨f, s, reply, hreply, ?_, hf⟩
      rw [sendUpdates_cons_accepted rest hfirst, hsent, List.append_assoc]
      rfl

/-! ## Updates -/

/-- What stands in the places of an update never fails but for the next version. -/
theorem mem_bindings_updateTemplate {table : String} {columns : List (Column ε)} {v : Option (Versioning ε)}
    {slot : Slot ε} (h : slot ∈ Sql.bindings (updateTemplate table columns id v)) :
    (∃ c, slot = .column c) ∨ ∃ w, v = some w ∧ slot = .nextVersion w := by
  cases v with
  | none =>
    simp only [bindings_unversionedUpdate, List.mem_append, List.mem_map, List.mem_singleton] at h
    rcases h with ⟨c, _, rfl⟩ | h
    · exact .inl ⟨c, rfl⟩
    · exact .inl ⟨id, h⟩
  | some w =>
    simp only [bindings_updateTemplate, List.mem_append, List.mem_map, List.mem_cons, List.not_mem_nil, or_false] at h
    rcases h with (⟨c, _, rfl⟩ | h) | (h | h)
    · exact .inl ⟨c, rfl⟩
    · exact .inr ⟨w, rfl, h⟩
    · exact .inl ⟨id, h⟩
    · exact .inl ⟨w.column, h⟩

/-- Records that have next versions have parameters. -/
theorem params_of_nextVersions (table : String) (columns : List (Column ε)) (id : Column ε)
    {v : Option (Versioning ε)} {es : List ε} {versions : List Value} (h : nextVersions v es = .ok versions) :
    ∃ batch, es.mapM (updateTemplate table columns id v).params = .ok batch := by
  refine mapM_exists fun e he => mapM_exists fun slot hslot => ?_
  rcases mem_bindings_updateTemplate hslot with ⟨c, rfl⟩ | ⟨w, rfl, rfl⟩
  · exact ⟨c.get e, rfl⟩
  · exact mapM_mem h e he

/-- The version column takes each next version and stores it alone: the rest of the record stays. -/
def StoresVersions (w : Versioning ε) (rest : ε → ρ) : Prop :=
  ∀ e current next, w.width.next current = .ok next →
    ∃ e', w.column.set e next = .ok e' ∧ w.column.get e' = next ∧ rest e' = rest e

/-- The record with its next version: one more, and the rest as it was. A record without versions is the
same. -/
def Bumped (v : Option (Versioning ε)) (rest : ε → ρ) (e e' : ε) : Prop :=
  match v with
  | none => e' = e
  | some w => rest e' = rest e ∧
      ∃ n, (w.column.get e).toInt? = some n ∧ w.width.value? (n + 1) = some (w.column.get e')

theorem storeVersions_bumped {v : Option (Versioning ε)} {rest : ε → ρ}
    (hstores : ∀ w, v = some w → StoresVersions w rest) {es : List ε} {versions : List Value}
    (h : nextVersions v es = .ok versions) :
    ∃ es', storeVersions v es versions = (.ok (), es') ∧ List.Forall₂ (Bumped v rest) es es' := by
  cases v with
  | none => exact ⟨es, rfl, List.forall₂_same.mpr fun _ _ => rfl⟩
  | some w =>
    simp only [nextVersions] at h
    simp only [storeVersions]
    induction es generalizing versions with
    | nil => exact ⟨[], rfl, .nil⟩
    | cons e es ih =>
      obtain ⟨next, others, hnext, hothers, rfl⟩ := mapM_cons_ok.mp h
      obtain ⟨n, hn, hvalue⟩ := VersionWidth.next_ok hnext
      obtain ⟨e', hset, hget, hrest⟩ := hstores w rfl e _ next hnext
      obtain ⟨es', hes', hall⟩ := ih hothers
      refine ⟨e' :: es', ?_, .cons ⟨hrest, n, hn, hget ▸ hvalue⟩ hall⟩
      simp only [changeEach, hset, hes']

variable {s : Settings} {v : Option (Versioning ε)} {es : List ε} {versions : List Value}

section

variable {state state' : σ} {batch : List (List Value)} (hprepared : prepareUpdate s c m = .ok (v, id))
  (hversions : nextVersions v es = .ok versions)
  (hbatch : es.mapM (updateTemplate m.table m.columns id v).params = .ok batch)

include hprepared hversions hbatch

/-- An update whose batches have all been sent stores the next versions. -/
theorem update_sent
    (hsent : (sendUpdates c m id v.isSome (Sql.text c.dialect (updateTemplate m.table m.columns id v))
      (chunks s.batchSize (es.zip batch))).start state = (.ok (), state')) :
    update s c m es state = ⟨(storeVersions v es versions).1, (storeVersions v es versions).2, state'⟩ := by
  simp only [update, hprepared, updateColumns, hversions, hbatch, hsent]

/-- An update with a batch that failed leaves the records. -/
theorem update_failed {f : Failure}
    (hsent : (sendUpdates c m id v.isSome (Sql.text c.dialect (updateTemplate m.table m.columns id v))
      (chunks s.batchSize (es.zip batch))).start state = (.error f, state')) :
    update s c m es state = ⟨.error f, es, state'⟩ := by
  simp only [update, hprepared, updateColumns, hversions, hbatch, hsent]

end

/-- An update changes all records or none. With each batch accepted, all batches have been sent in order, and
the records have their next versions. Otherwise the batches up to the first that is not accepted have been
sent, the records are as they were, and the reply to that batch decides the failure. -/
theorem update_all_or_nothing (rest : ε → ρ) (state : σ) (hprepared : prepareUpdate s c m = .ok (v, id))
    (hversions : nextVersions v es = .ok versions) (hstores : ∀ w, v = some w → StoresVersions w rest) :
    let sql := Sql.text c.dialect (updateTemplate m.table m.columns id v)
    let o := update s c.traced m es ⟨state, []⟩
    ∃ batch, es.mapM (updateTemplate m.table m.columns id v).params = .ok batch ∧
      let batches := chunks s.batchSize batch
      let replies := c.replies sql batches state
      ((∀ k < batches.length, Accepted batches replies k) →
        o.result = .ok () ∧ o.state.sent = batches.map (.batch sql) ∧ List.Forall₂ (Bumped v rest) es o.records) ∧
      ∀ k < batches.length, (∀ i < k, Accepted batches replies i) → ¬ Accepted batches replies k →
        o.records = es ∧ o.state.sent = (batches.take (k + 1)).map (.batch sql) ∧
          ∃ f reply, o.result = .error f ∧ replies[k]? = some reply ∧
            Blames m id v.isSome ((es.drop (k * max s.batchSize 1)).take (max s.batchSize 1)) reply f := by
  intro sql o
  obtain ⟨batch, hbatch⟩ := params_of_nextVersions m.table m.columns id hversions
  have hlen : es.length = batch.length := (mapM_length hbatch).symm
  -- The batches that are sent are those of the parameters.
  have hparams : paramsOf (chunks s.batchSize (es.zip batch)) = chunks s.batchSize batch := by
    rw [paramsOf, ← chunks_map, List.map_snd_zip (Nat.le_of_eq hlen.symm)]
  refine ⟨batch, hbatch, fun hall => ?_, fun k hk hbefore hrefused => ?_⟩
  · rw [← hparams] at hall
    obtain ⟨t, hsent⟩ := sendUpdates_accepted m id v.isSome
      (chunks s.batchSize (es.zip batch)) ⟨state, []⟩ fun k hk => hall k (by rwa [paramsOf, List.length_map])
    obtain ⟨es', hstored, hbumped⟩ := storeVersions_bumped hstores hversions
    have ho : o = _ := update_sent (c := c.traced) hprepared hversions hbatch hsent
    rw [ho, hstored, hparams]
    exact ⟨rfl, rfl, hbumped⟩
  · rw [← hparams] at hk hbefore hrefused ⊢
    have hk : k < (chunks s.batchSize (es.zip batch)).length := by rwa [paramsOf, List.length_map] at hk
    obtain ⟨f, t, reply, hreply, hsent, hf⟩ := sendUpdates_refused m id v.isSome
      (t := ⟨state, []⟩) (List.getElem?_eq_getElem hk) hbefore hrefused
    have ho : o = _ := update_failed (c := c.traced) hprepared hversions hbatch hsent
    rw [ho]
    refine ⟨rfl, rfl, f, reply, rfl, hreply, ?_⟩
    rw [chunks_getElem? (List.getElem?_eq_getElem hk), List.map_take, List.map_drop,
      List.map_fst_zip (Nat.le_of_eq hlen)] at hf
    exact hf

end

namespace Note

theorem storesVersions : StoresVersions versioned.version fun n => (n.id, n.body) := by
  intro e current next h
  obtain ⟨n, _, hvalue⟩ := VersionWidth.next_ok h
  simp only [versioned, VersionWidth.value?, Value.ofInt32?, Option.ite_none_right_eq_some, Option.some.injEq] at hvalue
  obtain ⟨_, rfl⟩ := hvalue
  exact ⟨{ e with version := Int32.ofInt (n + 1) }, rfl, rfl, rfl⟩

/-- A connection on which the third statement of an update matches no row. -/
def stale : Script :=
  ⟨[], [.answer [1, 1], .answer [0]], [], 0, []⟩

def three : List Note :=
  [⟨1, "first", 3⟩, ⟨2, "second", 0⟩, ⟨3, "third", 7⟩]

def inPairs : Settings :=
  { Settings.default with batchSize := 2 }

end Note

theorem update_all_or_nothing_stale :
    let o := update Note.inPairs (Script.connection .sqlite true).traced Note.mapping Note.three ⟨Note.stale, []⟩
    prepareUpdate Note.inPairs (Script.connection .sqlite true) Note.mapping =
      .ok (some Note.versioned.version, Note.idColumn) ∧
    nextVersions (some Note.versioned.version) Note.three = .ok [.int 4, .int 1, .int 8] ∧
    StoresVersions Note.versioned.version (fun n => (n.id, n.body)) ∧
    o.records = Note.three ∧ o.state.sent.length = 2 ∧
    o.result = .error (.staleVersion "notes" (.long 3)) := by
  intro o
  have hprepared : prepareUpdate Note.inPairs (Script.connection .sqlite true) Note.mapping =
      .ok (some Note.versioned.version, Note.idColumn) := rfl
  have hversions : nextVersions (some Note.versioned.version) Note.three = .ok [.int 4, .int 1, .int 8] := rfl
  obtain ⟨batch, hbatch, _, hrefused⟩ := update_all_or_nothing (fun n : Note => (n.id, n.body)) Note.stale hprepared
    hversions (fun w hw => Option.some.inj hw ▸ Note.storesVersions)
  cases hbatch
  obtain ⟨hrecords, hsent, _⟩ := hrefused 1 (by decide) (fun i hi => Nat.lt_one_iff.mp hi ▸ ⟨_, rfl, rfl⟩)
    (by rintro ⟨_, ⟨⟩, h⟩; cases h)
  exact ⟨hprepared, hversions, Note.storesVersions, hrecords, congrArg List.length hsent, rfl⟩

end Mutation

end TableQuery
