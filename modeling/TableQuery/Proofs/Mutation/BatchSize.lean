import TableQuery.Proofs.Mutation.Inserting

/- The size of batches does not show. On a connection that takes the sets of parameters one by one, whatever the
   batch that they come in, batches are as one:

     1. `sendUpdates_serial`: the counts of all batches together are checked, up to the first that is wrong.
     2. `sendDeletes_serial`: the counts of all batches together are added up.
     3. `insertChunk_append_ok`, `insertChunks_ok_iff`: batches of inserts go through where one batch of all the
        records does, and they leave the same.

   The batches of a list, of whatever size, hold its items in order (`chunks_flatten`), and so two sizes give the
   same (`batch_size_invisible`). -/
namespace TableQuery

/-- What comes of items that are taken one by one, each in the state that those before it have left. -/
def oneByOne {σ α β : Type} (f : α → σ → β × σ) : List α → σ → List β × σ
  | [], s => ([], s)
  | a :: as, s => ((f a s).1 :: (oneByOne f as (f a s).2).1, (oneByOne f as (f a s).2).2)

section

variable {σ α β : Type} (f : α → σ → β × σ)

theorem oneByOne_length (as : List α) (s : σ) : (oneByOne f as s).1.length = as.length := by
  induction as generalizing s with
  | nil => rfl
  | cons a as ih => simp only [oneByOne, List.length_cons, ih]

theorem oneByOne_append (as bs : List α) (s : σ) :
    oneByOne f (as ++ bs) s =
      ((oneByOne f as s).1 ++ (oneByOne f bs (oneByOne f as s).2).1, (oneByOne f bs (oneByOne f as s).2).2) := by
  induction as generalizing s with
  | nil => rfl
  | cons a as ih => simp only [List.cons_append, oneByOne, ih]

end

/-- The connection takes the sets of parameters of a batch one by one. Each changes the state and is replied to
with a count, or with a single row, by what the sets before it have left, and none fails. -/
structure Serial {σ : Type} (c : Connection σ) where
  count : String → List Value → σ → Nat × σ
  row : String → List Value → σ → Row × σ
  executeBatch_eq : ∀ sql batch s,
    (c.executeBatch sql batch).start s = (.ok (oneByOne (count sql) batch s).1, (oneByOne (count sql) batch s).2)
  fetchBatch_eq : ∀ sql batch s,
    (c.fetchBatch sql batch).start s = (.ok (oneByOne (row sql) batch s).1, (oneByOne (row sql) batch s).2)

namespace Mutation

variable {σ ε β : Type} {c : Connection σ} (k : Serial c) {m : Mapping ε} {v : Option (Versioning ε)}

/-! ## Updates and deletes -/

theorem checkEach_append (m : Mapping ε) (id : Column ε) (versioned : Bool) {es : List ε} {ns : List Nat}
    (h : ns.length = es.length) (es' : List ε) (ns' : List Nat) :
    checkEach m id versioned (es ++ es') (ns ++ ns') =
      (checkEach m id versioned es ns >>= fun _ => checkEach m id versioned es' ns') := by
  induction es generalizing ns with
  | nil =>
    rw [List.length_eq_zero_iff.mp h]
    rfl
  | cons e es ih =>
    cases ns with
    | nil => cases h
    | cons n ns =>
      simp only [List.cons_append, checkEach, ih (Nat.succ.inj h)]
      cases checkCount m.table (id.get e) versioned n <;> rfl

/-- The counts of all batches of updates, together, decide the result. If none is wrong, all have been sent. -/
theorem sendUpdates_serial (m : Mapping ε) (id : Column ε) (versioned : Bool) (sql : String)
    (chunks : List (List (ε × List Value))) (s : σ) :
    let counts := oneByOne (k.count sql) (chunks.flatten.map Prod.snd) s
    let sent := (sendUpdates c m id versioned sql chunks).start s
    sent.1 = checkEach m id versioned (chunks.flatten.map Prod.fst) counts.1 ∧
      (sent.1 = .ok () → sent.2 = counts.2) := by
  induction chunks generalizing s with
  | nil => exact ⟨rfl, fun _ => rfl⟩
  | cons chunk rest ih =>
    intro counts sent
    have hlen : (oneByOne (k.count sql) (chunk.map Prod.snd) s).1.length = (chunk.map Prod.fst).length := by
      rw [oneByOne_length, List.length_map, List.length_map]
    have hsent : sent = (sendUpdates c m id versioned sql (chunk :: rest)).start s := rfl
    rw [sendUpdates, Run.start_bind, k.executeBatch_eq] at hsent
    simp only [Run.start_bind, Run.start_ofExcept, checkCounts, if_neg (not_not.mpr hlen)] at hsent
    have hcounts : counts = oneByOne (k.count sql) (chunk.map Prod.snd ++ rest.flatten.map Prod.snd) s := by
      simp only [counts, List.flatten_cons, List.map_append]
    rw [hsent, hcounts, oneByOne_append, List.flatten_cons, List.map_append, checkEach_append m id versioned hlen]
    cases checkEach m id versioned (chunk.map Prod.fst) (oneByOne (k.count sql) (chunk.map Prod.snd) s).1 with
    | error f =>
      refine ⟨rfl, ?_⟩
      intro hsent
      cases hsent
    | ok _ => exact ih _

theorem sendDeletes_serial (sql : String) (batches : List (List (List Value))) (s : σ) :
    (sendDeletes c sql batches).start s =
      (.ok (oneByOne (k.count sql) batches.flatten s).1.sum, (oneByOne (k.count sql) batches.flatten s).2) := by
  induction batches generalizing s with
  | nil => rfl
  | cons batch rest ih =>
    rw [sendDeletes_cons, Run.start_bind, k.executeBatch_eq]
    simp only [Run.start_bind, ih, List.flatten_cons, oneByOne_append, List.sum_append]
    rfl

/-! ## Inserts -/

variable {es fs rs : List ε} {sql : String} {batch batch' : List (List Value)} {s u : σ}

/-- Changes to two lists of records are made in the first and then in the second. -/
theorem changeEach_append_ok (change : ε → β → Except Failure ε) {bs bs' : List β} (hlen : bs.length = es.length) :
    changeEach change (es ++ fs) (bs ++ bs') = (.ok (), rs) ↔
      ∃ es' fs', changeEach change es bs = (.ok (), es') ∧ changeEach change fs bs' = (.ok (), fs') ∧
        rs = es' ++ fs' := by
  induction es generalizing bs rs with
  | nil =>
    rw [List.length_eq_zero_iff.mp hlen]
    simp [changeEach, eq_comm]
  | cons e es ih =>
    cases bs with
    | nil => cases hlen
    | cons b bs =>
      rw [List.cons_append, List.cons_append, changeEach_cons_ok]
      simp only [changeEach_cons_ok, ih (Nat.succ.inj hlen)]
      constructor
      · intro h
        obtain ⟨e', _, he, ⟨es', fs', hes, hfs, rfl⟩, hrs⟩ := h
        exact ⟨e' :: es', fs', ⟨e', es', he, hes, rfl⟩, hfs, hrs⟩
      · intro h
        obtain ⟨_, fs', ⟨e', es', he, hes, rfl⟩, hfs, hrs⟩ := h
        exact ⟨e', es' ++ fs', he, ⟨es', fs', hes, hfs, rfl⟩, hrs⟩

/-- First versions are stored in each record by itself. -/
theorem startVersions_append_ok : startVersions v (es ++ fs) = (.ok (), rs) ↔
    ∃ es' fs', startVersions v es = (.ok (), es') ∧ startVersions v fs = (.ok (), fs') ∧ rs = es' ++ fs' := by
  cases v with
  | none => simp [startVersions, eq_comm]
  | some w => exact changeEach_append_ok (fun e _ => startVersion w e) rfl

/-- A batch of inserts goes through if each key that has come back can be stored. -/
theorem sendInserts_generated {id : Column ε} (hid : m.generatedId? = some id) (hlen : batch.length = es.length) :
    sendInserts c m sql batch es s = ⟨.ok (), rs, u⟩ ↔
      changeEach (storeKey id) es (oneByOne (k.row sql) batch s).1 = (.ok (), rs) ∧
        (oneByOne (k.row sql) batch s).2 = u := by
  have hkeys : (oneByOne (k.row sql) batch s).1.length = es.length := by rw [oneByOne_length, hlen]
  simp only [sendInserts, hid, k.fetchBatch_eq, if_neg (not_not.mpr hkeys), Outcome.mk.injEq, Prod.ext_iff, and_assoc]

/-- If no keys come back, it goes through if each record was inserted once. -/
theorem sendInserts_assigned (hid : m.generatedId? = none) (hlen : batch.length = es.length) :
    sendInserts c m sql batch es s = ⟨.ok (), rs, u⟩ ↔
      (∀ n ∈ (oneByOne (k.count sql) batch s).1, n = 1) ∧ rs = es ∧ (oneByOne (k.count sql) batch s).2 = u := by
  have hcounts : (oneByOne (k.count sql) batch s).1.length = es.length := by rw [oneByOne_length, hlen]
  simp only [sendInserts, hid, k.executeBatch_eq, hcounts, ne_eq, not_true_eq_false, false_or, List.any_eq_true,
    decide_eq_true_eq]
  split
  next h =>
    obtain ⟨n, hn, hne⟩ := h
    simp only [Outcome.mk.injEq, reduceCtorEq, false_and, false_iff]
    intro hall
    exact hne (hall.1 n hn)
  next h =>
    have hall : ∀ n ∈ (oneByOne (k.count sql) batch s).1, n = 1 := by simpa using h
    simp only [Outcome.mk.injEq, true_and, eq_comm (a := rs)]
    exact ⟨fun h => ⟨hall, h⟩, fun h => h.2⟩

/-- A batch of inserts goes through where the records have parameters, the batch could be sent and the first
versions could be stored. -/
theorem insertChunk_ok_iff : insertChunk c m v es s = ⟨.ok (), rs, u⟩ ↔
    ∃ batch es₁, es.mapM (insertTemplate m v).params = .ok batch ∧
      sendInserts c m (Sql.text c.dialect (insertTemplate m v)) batch es s = ⟨.ok (), es₁, u⟩ ∧
      startVersions v es₁ = (.ok (), rs) := by
  cases hparams : es.mapM (insertTemplate m v).params with
  | error f => simp [insertChunk, hparams]
  | ok batch =>
    simp only [insertChunk, hparams, Except.ok.injEq, exists_and_left, exists_eq_left']
    rcases sendInserts c m (Sql.text c.dialect (insertTemplate m v)) batch es s with ⟨f | _, es₁, t⟩
    · simp
    · simp only [Outcome.mk.injEq, true_and, Prod.ext_iff]
      constructor
      · intro h
        exact ⟨es₁, ⟨rfl, h.2.2⟩, h.1, h.2.1⟩
      · intro h
        obtain ⟨_, ⟨rfl, ht⟩, hresult, hrecords⟩ := h
        exact ⟨hresult, hrecords, ht⟩

section

include k

/-- A batch of inserts in two parts is as the one part and then the other. -/
theorem sendInserts_append_ok (hlen : batch.length = es.length) (hlen' : batch'.length = fs.length) :
    sendInserts c m sql (batch ++ batch') (es ++ fs) s = ⟨.ok (), rs, u⟩ ↔
      ∃ es' fs' t, sendInserts c m sql batch es s = ⟨.ok (), es', t⟩ ∧
        sendInserts c m sql batch' fs t = ⟨.ok (), fs', u⟩ ∧ rs = es' ++ fs' := by
  have hboth : (batch ++ batch').length = (es ++ fs).length := by
    rw [List.length_append, List.length_append, hlen, hlen']
  cases hid : m.generatedId? with
  | some id =>
    have hkeys : (oneByOne (k.row sql) batch s).1.length = es.length := by rw [oneByOne_length, hlen]
    simp only [sendInserts_generated k hid hboth, sendInserts_generated k hid hlen, sendInserts_generated k hid hlen',
      oneByOne_append, changeEach_append_ok _ hkeys]
    constructor
    · intro h
      obtain ⟨⟨es', fs', hes, hfs, hrs⟩, hu⟩ := h
      exact ⟨es', fs', _, ⟨hes, rfl⟩, ⟨hfs, hu⟩, hrs⟩
    · intro h
      obtain ⟨es', fs', _, ⟨hes, rfl⟩, ⟨hfs, hu⟩, hrs⟩ := h
      exact ⟨⟨es', fs', hes, hfs, hrs⟩, hu⟩
  | none =>
    simp only [sendInserts_assigned k hid hboth, sendInserts_assigned k hid hlen, sendInserts_assigned k hid hlen',
      oneByOne_append, List.forall_mem_append]
    constructor
    · intro h
      obtain ⟨⟨hones, hones'⟩, hrs, hu⟩ := h
      exact ⟨es, fs, _, ⟨hones, rfl, rfl⟩, ⟨hones', rfl, hu⟩, hrs⟩
    · intro h
      obtain ⟨_, _, _, ⟨hones, rfl, rfl⟩, ⟨hones', rfl, hu⟩, hrs⟩ := h
      exact ⟨⟨hones, hones'⟩, hrs, hu⟩

theorem insertChunk_append_ok : insertChunk c m v (es ++ fs) s = ⟨.ok (), rs, u⟩ ↔
    ∃ es' fs' t, insertChunk c m v es s = ⟨.ok (), es', t⟩ ∧ insertChunk c m v fs t = ⟨.ok (), fs', u⟩ ∧
      rs = es' ++ fs' := by
  simp only [insertChunk_ok_iff, mapM_append_ok]
  constructor
  · intro h
    obtain ⟨_, _, ⟨batch, batch', hbatch, hbatch', rfl⟩, hsent, hversions⟩ := h
    obtain ⟨es₁, fs₁, t, hes, hfs, rfl⟩ :=
      (sendInserts_append_ok k (mapM_length hbatch) (mapM_length hbatch')).mp hsent
    obtain ⟨es', fs', hes', hfs', hrs⟩ := startVersions_append_ok.mp hversions
    exact ⟨es', fs', t, ⟨batch, es₁, hbatch, hes, hes'⟩, ⟨batch', fs₁, hbatch', hfs, hfs'⟩, hrs⟩
  · intro h
    obtain ⟨es', fs', t, ⟨batch, es₁, hbatch, hes, hes'⟩, ⟨batch', fs₁, hbatch', hfs, hfs'⟩, hrs⟩ := h
    refine ⟨batch ++ batch', es₁ ++ fs₁, ⟨batch, batch', hbatch, hbatch', rfl⟩, ?_, ?_⟩
    · exact (sendInserts_append_ok k (mapM_length hbatch) (mapM_length hbatch')).mpr ⟨es₁, fs₁, t, hes, hfs, rfl⟩
    · exact startVersions_append_ok.mpr ⟨es', fs', hes', hfs', hrs⟩

theorem insertChunk_nil (v : Option (Versioning ε)) (s : σ) : insertChunk c m v [] s = ⟨.ok (), [], s⟩ := by
  refine insertChunk_ok_iff.mpr ⟨[], [], rfl, ?_, ?_⟩
  · cases hid : m.generatedId? with
    | some id => exact (sendInserts_generated k hid rfl).mpr ⟨rfl, rfl⟩
    | none => exact (sendInserts_assigned k hid rfl).mpr ⟨nofun, rfl, rfl⟩
  · cases v <;> rfl

end

include k in
/-- Batches of inserts go through where one batch of all the records does, and they leave the same. -/
theorem insertChunks_ok_iff {chunks : List (List ε)} :
    insertChunks c m v chunks s = ⟨.ok (), rs, u⟩ ↔ insertChunk c m v chunks.flatten s = ⟨.ok (), rs, u⟩ := by
  induction chunks generalizing s rs with
  | nil => rw [List.flatten_nil, insertChunk_nil k, insertChunks]
  | cons es rest ih =>
    rw [List.flatten_cons, insertChunk_append_ok k, insertChunks_cons_ok]
    simp only [ih]

/-! ## Two sizes -/

section

variable (k : Serial c) (s : Settings) (m : Mapping ε) (es : List ε) (state : σ) (n n' : Nat)

include k

/-- An insert that goes through does so with batches of any other size, and leaves the same. -/
theorem insert_of_size (h : (insert { s with batchSize := n } c m es state).result = .ok ()) :
    insert { s with batchSize := n' } c m es state = insert { s with batchSize := n } c m es state := by
  have hprepare : ∀ n, prepareInsert { s with batchSize := n } c m = prepareInsert s c m := fun _ => rfl
  simp only [insert, hprepare] at h ⊢
  cases hprepared : prepareInsert s c m with
  | error f => rfl
  | ok v =>
    simp only [hprepared] at h ⊢
    rcases ho : insertChunks c m v (chunks n es) state with ⟨result, rs, u⟩
    rw [ho] at h
    subst h
    rw [insertChunks_ok_iff k, chunks_flatten] at ho ⊢
    exact ho

/-- An update has the same result with batches of any other size, and leaves the same if it does not fail. A batch
with a wrong count may hold sets of parameters behind it, and so other rows may be written when it fails. -/
theorem updateColumns_of_size (v : Option (Versioning ε)) (id : Column ε) (columns : List (Column ε)) :
    let o := updateColumns { s with batchSize := n } c m v id columns es state
    let o' := updateColumns { s with batchSize := n' } c m v id columns es state
    o'.result = o.result ∧ o'.records = o.records ∧ (o.result = .ok () → o' = o) := by
  cases hversions : nextVersions v es with
  | error f => simp [updateColumns, hversions]
  | ok versions =>
    cases hbatch : es.mapM (updateTemplate m.table columns id v).params with
    | error f => simp [updateColumns, hversions, hbatch]
    | ok batch =>
      let sql := Sql.text c.dialect (updateTemplate m.table columns id v)
      obtain ⟨hresult, hstate⟩ := sendUpdates_serial k m id v.isSome sql (chunks n (es.zip batch)) state
      obtain ⟨hresult', hstate'⟩ := sendUpdates_serial k m id v.isSome sql (chunks n' (es.zip batch)) state
      rw [chunks_flatten] at hresult hstate hresult' hstate'
      -- Both have the result of the one list, and that of the other is forgotten.
      rw [← hresult] at hresult'
      simp only [updateColumns, hversions, hbatch]
      rcases hsent : (sendUpdates c m id v.isSome sql (chunks n (es.zip batch))).start state with ⟨f | _, t⟩
      · rcases hsent' : (sendUpdates c m id v.isSome sql (chunks n' (es.zip batch))).start state with ⟨result, t'⟩
        rw [hsent, hsent'] at hresult'
        simp only at hresult'
        subst hresult'
        refine ⟨rfl, rfl, ?_⟩
        intro hok
        cases hok
      · have heq : (sendUpdates c m id v.isSome sql (chunks n' (es.zip batch))).start state = (.ok (), t) := by
          rw [hsent] at hresult' hstate
          exact Prod.ext hresult' ((hstate' hresult').trans (hstate rfl).symm)
        rw [heq]
        exact ⟨rfl, rfl, fun _ => rfl⟩

theorem update_of_size :
    let o := update { s with batchSize := n } c m es state
    let o' := update { s with batchSize := n' } c m es state
    o'.result = o.result ∧ o'.records = o.records ∧ (o.result = .ok () → o' = o) := by
  have hprepare : ∀ n, prepareUpdate { s with batchSize := n } c m = prepareUpdate s c m := fun _ => rfl
  simp only [update, hprepare]
  rcases prepareUpdate s c m with f | ⟨v, id⟩
  · refine ⟨rfl, rfl, ?_⟩
    intro hok
    cases hok
  · exact updateColumns_of_size k s m es state n n' v id m.columns

theorem delete_of_size :
    (delete { s with batchSize := n' } c m es).start state = (delete { s with batchSize := n } c m es).start state := by
  have hprepare : ∀ n, prepare { s with batchSize := n } c = prepare s c := fun _ => rfl
  simp only [delete, hprepare, Run.start_bind, Run.start_ofExcept]
  cases prepare s c with
  | error f => rfl
  | ok _ =>
    cases m.id with
    | error f => rfl
    | ok id =>
      cases hbatch : es.mapM (deleteTemplate m.table id).params with
      | error f => simp only [hbatch]
      | ok batch => simp only [hbatch, sendDeletes_serial k, chunks_flatten]

end

/-- The size of batches does not show on a connection that takes the sets of parameters one by one:

1. An insert goes through with batches of one size if it does with those of another. The records and the state
   of the connection are then the same.
2. An update has the same result and leaves the same records, also where it fails, and the same state where it
   goes through.
3. A delete has the same result and leaves the same state. -/
theorem batch_size_invisible (k : Serial c) (s : Settings) (m : Mapping ε) (es : List ε) (state : σ) (n n' : Nat) :
    let small := { s with batchSize := n }
    let large := { s with batchSize := n' }
    (((insert small c m es state).result = .ok () ↔ (insert large c m es state).result = .ok ()) ∧
      ((insert small c m es state).result = .ok () → insert large c m es state = insert small c m es state)) ∧
    ((update large c m es state).result = (update small c m es state).result ∧
      (update large c m es state).records = (update small c m es state).records ∧
      ((update small c m es state).result = .ok () → update large c m es state = update small c m es state)) ∧
    (delete large c m es).start state = (delete small c m es).start state := by
  intro small large
  have hinsert := insert_of_size k s m es state
  refine ⟨⟨⟨?_, ?_⟩, hinsert n n'⟩, update_of_size k s m es state n n', delete_of_size k s m es state n n'⟩
  · intro h
    rw [hinsert n n' h]
    exact h
  · intro h
    rw [hinsert n' n h]
    exact h

namespace Draft

/-- A table that takes all sets of parameters of a batch and gives them keys from 1 on. -/
def table : Connection (List (List Value)) where
  dialect := .sqlite
  inTransaction := true
  query _ _ := pure []
  executeBatch _ batch := do
    modify (· ++ batch)
    pure (batch.map fun _ => 1)
  fetchBatch _ batch := do
    let rows ← get
    set (rows ++ batch)
    pure (Script.keyRows (rows.length + 1) batch.length)

def serial : Serial table where
  count _ params rows := (1, rows ++ [params])
  row _ params rows := (⟨["id"], [.long (Int64.ofNat (rows.length + 1))]⟩, rows ++ [params])
  executeBatch_eq sql batch rows := by
    have hstart : (table.executeBatch sql batch).start rows = (.ok (batch.map fun _ => 1), rows ++ batch) := rfl
    rw [hstart]
    induction batch generalizing rows with
    | nil => simp [oneByOne]
    | cons params batch ih =>
      have hrest := ih (rows ++ [params]) rfl
      simp only [Prod.mk.injEq, Except.ok.injEq, List.append_assoc, List.singleton_append] at hrest
      simp only [oneByOne, List.map_cons, hrest.1, ← hrest.2]
  fetchBatch_eq sql batch rows := by
    have hstart : (table.fetchBatch sql batch).start rows =
        (.ok (Script.keyRows (rows.length + 1) batch.length), rows ++ batch) := rfl
    rw [hstart]
    induction batch generalizing rows with
    | nil => simp [oneByOne, Script.keyRows]
    | cons params batch ih =>
      have hrest := ih (rows ++ [params]) rfl
      simp only [Prod.mk.injEq, Except.ok.injEq, List.append_assoc, List.singleton_append, List.length_append,
        List.length_singleton] at hrest
      simp only [oneByOne, List.length_cons, Script.keyRows, hrest.1, ← hrest.2]

end Draft

/-- In batches of two and in batches of no more than one, drafts get the same keys. -/
theorem batch_size_invisible_drafts :
    let o := insert { Settings.default with batchSize := 0 } Draft.table Draft.mapping Draft.two []
    o.result = .ok () ∧ o.records = [⟨some 1, "first", some 0⟩, ⟨some 2, "second", some 0⟩] ∧
      insert { Settings.default with batchSize := 2 } Draft.table Draft.mapping Draft.two [] = o := by
  intro o
  have hok : o.result = .ok () := rfl
  exact ⟨hok, rfl, (batch_size_invisible Draft.serial Settings.default Draft.mapping Draft.two [] 0 2).1.2 hok⟩

end Mutation

end TableQuery
