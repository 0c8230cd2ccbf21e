import Mathlib.Data.List.Forall2
import TableQuery.Connection.Script
import TableQuery.Proofs.Mutation.Parameters

/- What a failed insert leaves in the records. Keys and first versions are stored batch by batch, as the rows come
   back:

     1. `changeEach_ok`, `changeEach_error`: records that are changed one by one, all of them or those before the
        first that refuses.
     2. `insertChunk_cases`: a batch is inserted, each record with the row that came back for it, or its statement
        has failed, or a record has refused what was to be stored in it.
     3. `insertChunks_ok`, `insertChunks_error`: the batches before the one that failed are inserted.

   So the records of these batches keep what was stored in them, while those after the failed one are as they were
   (`failed_insert_records`). -/
namespace TableQuery.Mutation

variable {σ ε β : Type} {m : Mapping ε} {v : Option (Versioning ε)}

/-! ## Changing records one by one -/

section

variable {e : ε} {es rs : List ε} {bs : List β} {f : Failure}

theorem changeEach_cons_ok (change : ε → β → Except Failure ε) {b : β} :
    changeEach change (e :: es) (b :: bs) = (.ok (), rs) ↔
      ∃ e' es', change e b = .ok e' ∧ changeEach change es bs = (.ok (), es') ∧ rs = e' :: es' := by
  rw [changeEach]
  cases change e b with
  | error f => simp
  | ok e' =>
    simp only [Except.ok.injEq, exists_and_left, exists_eq_left', Prod.ext_iff]
    constructor
    · intro h
      exact ⟨_, ⟨h.1, rfl⟩, h.2.symm⟩
    · intro h
      obtain ⟨es', ⟨hresult, hes⟩, hrs⟩ := h
      exact ⟨hresult, by rw [hrs, ← hes]⟩

/-- Each record has been changed by the item at its place. -/
theorem changeEach_ok {change : ε → β → Except Failure ε} (hlen : es.length ≤ bs.length)
    (h : changeEach change es bs = (.ok (), rs)) :
    List.Forall₂ (fun p e' => change p.1 p.2 = .ok e') (es.zip bs) rs := by
  induction es generalizing bs rs with
  | nil =>
    cases h
    exact .nil
  | cons e es ih =>
    cases bs with
    | nil => cases hlen
    | cons b bs =>
      obtain ⟨e', es', he, hes, rfl⟩ := (changeEach_cons_ok change).mp h
      exact .cons he (ih (Nat.le_of_succ_le_succ hlen) hes)

/-- A record has refused its item. Those before it have been changed; it and those after it are as they were. -/
theorem changeEach_error {change : ε → β → Except Failure ε} (h : changeEach change es bs = (.error f, rs)) :
    ∃ ps e es' b bs' done, es = ps.map Prod.fst ++ e :: es' ∧ bs = ps.map Prod.snd ++ b :: bs' ∧
      change e b = .error f ∧ List.Forall₂ (fun p e' => change p.1 p.2 = .ok e') ps done ∧ rs = done ++ e :: es' := by
  induction es generalizing bs rs with
  | nil => cases h
  | cons e es ih =>
    cases bs with
    | nil => cases h
    | cons b bs =>
      rw [changeEach] at h
      cases hb : change e b with
      | error g =>
        rw [hb] at h
        cases h
        exact ⟨[], e, es, b, bs, [], rfl, rfl, hb, .nil, rfl⟩
      | ok e₁ =>
        simp only [hb] at h
        obtain ⟨hresult, rfl⟩ := Prod.mk.inj h
        obtain ⟨ps, x, es', y, bs', done, hes, hbs, hrefused, hdone, hrs⟩ := ih (Prod.ext hresult rfl)
        refine ⟨(e, b) :: ps, x, es', y, bs', e₁ :: done, ?_, ?_, hrefused, .cons hb hdone, ?_⟩
        · rw [hes, List.map_cons, List.cons_append]
        · rw [hbs, List.map_cons, List.cons_append]
        · exact congrArg (List.cons e₁) hrs

/-- What is done to the items beforehand can be done on the way. -/
theorem changeEach_map {γ : Type} (change : ε → γ → Except Failure ε) (g : β → γ) (es : List ε) (bs : List β) :
    changeEach change es (bs.map g) = changeEach (fun e b => change e (g b)) es bs := by
  induction es generalizing bs with
  | nil => rfl
  | cons e es ih =>
    cases bs with
    | nil => rfl
    | cons b bs =>
      rw [List.map_cons, changeEach, changeEach, ih]

theorem changeEach_same (es : List ε) (bs : List β) : changeEach (fun e _ => .ok e) es bs = (.ok (), es) := by
  induction es generalizing bs with
  | nil => rfl
  | cons e es ih =>
    cases bs with
    | nil => rfl
    | cons b bs => rw [changeEach, ih]

end

/-! ## What comes back for a batch -/

/-- The rows that the statement for a batch brings back, one for each record if the database generates the keys. If
it does not, there is one count for each record. Anything else is a failure. -/
def insertReturning (c : Connection σ) (m : Mapping ε) (v : Option (Versioning ε)) (es : List ε) :
    Run σ (List (Option Row)) :=
  let sql := insertText c.dialect m.table (m.insertColumns.map Column.name) (m.generatedId?.map Column.name)
  let batch := es.map fun e => m.insertColumns.map (insertedValue v e)
  match m.generatedId? with
  | some _ => do
    let keys ← c.fetchBatch sql batch
    if keys.length = es.length then pure (keys.map some) else throw (.keyCount es.length m.table keys.length)
  | none => do
    let counts ← c.executeBatch sql batch
    if counts = List.replicate es.length 1 then pure (es.map fun _ => none) else throw (.insertCounts m.table counts)

/-- Stores the key from the row that came back for a record. -/
def storeRow (m : Mapping ε) (e : ε) (row : Option Row) : Except Failure ε :=
  match m.generatedId?, row with
  | some id, some key => storeKey id e key
  | _, _ => .ok e

variable {c : Connection σ} {es rs : List ε} {rows : List (Option Row)} {s t u : σ} {f : Failure}

theorem insertReturning_generated {id : Column ε} (hid : m.generatedId? = some id)
    (h : (insertReturning c m v es).start s = (.ok rows, t)) :
    ∃ keys, (c.fetchBatch (insertText c.dialect m.table (m.insertColumns.map Column.name) (some id.name))
      (es.map fun e => m.insertColumns.map (insertedValue v e))).start s = (.ok keys, t) ∧
        keys.length = es.length ∧ rows = keys.map some := by
  simp only [insertReturning, hid] at h
  obtain ⟨keys, t', hreply, h⟩ := Run.start_bind_ok.mp h
  split at h
  · next hlen =>
    cases h
    exact ⟨keys, hreply, hlen, rfl⟩
  · cases h

theorem insertReturning_length (h : (insertReturning c m v es).start s = (.ok rows, t)) : rows.length = es.length := by
  cases hid : m.generatedId? with
  | some id =>
    obtain ⟨keys, _, hlen, rfl⟩ := insertReturning_generated hid h
    rw [List.length_map, hlen]
  | none =>
    simp only [insertReturning, hid] at h
    obtain ⟨counts, t', _, h⟩ := Run.start_bind_ok.mp h
    split at h
    · cases h
      exact List.length_map _
    · cases h

theorem storeRow_of_none (hid : m.generatedId? = none) : storeRow m = fun e _ => .ok e := by
  funext e row
  simp only [storeRow, hid]

theorem storeRow_of_some {id : Column ε} (hid : m.generatedId? = some id) :
    (fun e key => storeRow m e (some key)) = storeKey id := by
  funext e key
  simp only [storeRow, hid]

theorem counts_ones_iff {n : Nat} {counts : List Nat} :
    counts = List.replicate n 1 ↔ ¬(counts.length ≠ n ∨ counts.any (· ≠ 1)) := by
  simp [List.eq_replicate_iff]

/-- To send a batch is to ask for its rows and to store them. -/
theorem sendInserts_eq (c : Connection σ) (m : Mapping ε) (v : Option (Versioning ε)) (es : List ε) (s : σ) :
    sendInserts c m (Sql.text c.dialect (insertTemplate m v))
        (es.map fun e => m.insertColumns.map (insertedValue v e)) es s =
      match (insertReturning c m v es).start s with
      | (.error f, t) => ⟨.error f, es, t⟩
      | (.ok rows, t) => ⟨(changeEach (storeRow m) es rows).1, (changeEach (storeRow m) es rows).2, t⟩ := by
  rw [text_insertTemplate]
  cases hid : m.generatedId? with
  | some id =>
    simp only [sendInserts, insertReturning, hid, Run.start_bind]
    rcases (c.fetchBatch _ _).start s with ⟨f | keys, t⟩
    · rfl
    · by_cases hlen : keys.length = es.length
      · simp only [if_neg (not_not.mpr hlen), if_pos hlen, Run.start_pure, changeEach_map, storeRow_of_some hid]
      · simp only [if_pos hlen, if_neg hlen, Run.start_throw]
  | none =>
    simp only [sendInserts, insertReturning, hid, Run.start_bind]
    rcases (c.executeBatch _ _).start s with ⟨f | counts, t⟩
    · rfl
    · by_cases hones : counts = List.replicate es.length 1
      · simp only [if_neg (counts_ones_iff.mp hones), if_pos hones, Run.start_pure, storeRow_of_none hid,
          changeEach_same]
      · simp only [if_pos (not_not.mp (mt counts_ones_iff.mpr hones)), if_neg hones, Run.start_throw]

/-! ## What an insert stores -/

/-- The record with the key from the row that came back for it, if the database generates the key. -/
def KeyStored (m : Mapping ε) (p : ε × Option Row) (e' : ε) : Prop :=
  storeRow m p.1 p.2 = .ok e'

/-- The record with the first version, if it has none. -/
def VersionStored (v : Option (Versioning ε)) (e e' : ε) : Prop :=
  match v with
  | some w => startVersion w e = .ok e'
  | none => e' = e

/-- The record with all that an insert stores in it. -/
def Inserted (m : Mapping ε) (v : Option (Versioning ε)) (p : ε × Option Row) (e' : ε) : Prop :=
  ∃ e₁, KeyStored m p e₁ ∧ VersionStored v e₁ e'

/-- A record of a batch has refused what was to be stored in it, for this reason. The first list has the records of
the batch with the rows that came back for them, the second what is left of the records. -/
inductive Refused (m : Mapping ε) (v : Option (Versioning ε)) (f : Failure) :
    List (ε × Option Row) → List ε → Prop where
  /-- It is the key. The records before have theirs; it and those after it are as they were. -/
  | key {before after : List (ε × Option Row)} {e : ε} {row : Option Row} {done : List ε}
      (hrefused : storeRow m e row = .error f) (hdone : List.Forall₂ (KeyStored m) before done) :
      Refused m v f (before ++ (e, row) :: after) (done ++ e :: after.map Prod.fst)
  /-- It is the first version. All records have their keys, and those before have their first versions. -/
  | version {w : Versioning ε} {ps : List (ε × Option Row)} {before after : List ε} {e : ε} {done : List ε}
      (hversioned : v = some w) (hkeys : List.Forall₂ (KeyStored m) ps (before ++ e :: after))
      (hrefused : startVersion w e = .error f) (hdone : List.Forall₂ (VersionStored v) before done) :
      Refused m v f ps (done ++ e :: after)

/-- The insert of a batch has failed. It leaves these records and this state. -/
inductive InsertFailed (c : Connection σ) (m : Mapping ε) (v : Option (Versioning ε)) (f : Failure) (es : List ε)
    (s : σ) : List ε → σ → Prop where
  /-- Its statement has failed, and the records are as they were. -/
  | statement {t : σ} (h : (insertReturning c m v es).start s = (.error f, t)) : InsertFailed c m v f es s es t
  /-- Its statement has brought back a row for each record, and one has refused what was to be stored in it. -/
  | storing {rows : List (Option Row)} {rs : List ε} {t : σ} (h : (insertReturning c m v es).start s = (.ok rows, t))
      (hlen : rows.length = es.length) (hrefused : Refused m v f (es.zip rows) rs) : InsertFailed c m v f es s rs t

theorem startVersions_ok (h : startVersions v es = (.ok (), rs)) : List.Forall₂ (VersionStored v) es rs := by
  cases v with
  | none =>
    cases h
    exact List.forall₂_same.mpr fun _ _ => rfl
  | some w =>
    have hfst : (es.zip es).map Prod.fst = es := List.map_fst_zip (Nat.le_refl _)
    rw [← hfst]
    exact List.forall₂_map_left_iff.mpr (changeEach_ok (Nat.le_refl _) h)

/-- A record has refused its first version, and those before it have theirs. -/
theorem startVersions_error (h : startVersions v es = (.error f, rs)) :
    ∃ w before e after done, v = some w ∧ es = before ++ e :: after ∧ startVersion w e = .error f ∧
      List.Forall₂ (VersionStored v) before done ∧ rs = done ++ e :: after := by
  cases v with
  | none => cases h
  | some w =>
    obtain ⟨ps, e, after, _, _, done, hes, _, hrefused, hdone, hrs⟩ := changeEach_error h
    exact ⟨w, ps.map Prod.fst, e, after, done, rfl, hes, hrefused, List.forall₂_map_left_iff.mpr hdone, hrs⟩

theorem forall₂_comp {α β γ : Type} {R : α → β → Prop} {S : β → γ → Prop} {T : α → γ → Prop}
    (hRS : ∀ {a b c}, R a b → S b c → T a c) {as : List α} {bs : List β} {cs : List γ} (hR : List.Forall₂ R as bs)
    (hS : List.Forall₂ S bs cs) : List.Forall₂ T as cs := by
  induction hR generalizing cs with
  | nil =>
    cases hS
    exact .nil
  | cons hab _ ih =>
    cases hS with
    | cons hbc hrest => exact .cons (hRS hab hbc) (ih hrest)

theorem storeRows_error (hlen : rows.length = es.length) (h : changeEach (storeRow m) es rows = (.error f, rs)) :
    Refused m v f (es.zip rows) rs := by
  obtain ⟨before, e, after, row, others, done, rfl, rfl, hrefused, hdone, rfl⟩ := changeEach_error h
  -- As many rows have come back as there are records, so that there is one for each record behind.
  have hothers : after.length = others.length := by
    simp only [List.length_append, List.length_cons, List.length_map] at hlen
    omega
  have hafter : (after.zip others).map Prod.fst = after := List.map_fst_zip (Nat.le_of_eq hothers)
  have hzip : (before.map Prod.fst ++ e :: after).zip (before.map Prod.snd ++ row :: others) =
      before ++ (e, row) :: after.zip others := by
    rw [List.zip_append (by rw [List.length_map, List.length_map]), List.zip_map', List.map_id', List.zip_cons_cons]
  have hkey : Refused m v f (before ++ (e, row) :: after.zip others) (done ++ e :: (after.zip others).map Prod.fst) :=
    .key hrefused hdone
  rw [hafter] at hkey
  rw [hzip]
  exact hkey

/-- To insert a batch is to ask for its rows, to store the keys, and then to store the first versions. -/
theorem insertChunk_eq (c : Connection σ) (m : Mapping ε) (v : Option (Versioning ε)) (es : List ε) (s : σ) :
    insertChunk c m v es s =
      match (insertReturning c m v es).start s with
      | (.error f, t) => ⟨.error f, es, t⟩
      | (.ok rows, t) =>
        match changeEach (storeRow m) es rows with
        | (.error f, rs) => ⟨.error f, rs, t⟩
        | (.ok (), rs) => ⟨(startVersions v rs).1, (startVersions v rs).2, t⟩ := by
  simp only [insertChunk, funext (params_insertTemplate m v), mapM_total, sendInserts_eq]
  rcases (insertReturning c m v es).start s with ⟨f | rows, t⟩
  · rfl
  · rcases hkeys : changeEach (storeRow m) es rows with ⟨f | _, rs⟩
    · simp only [hkeys]
    · simp only [hkeys]

/-- What the insert of a batch can do: all is stored in each record, or it fails. -/
theorem insertChunk_cases (c : Connection σ) (m : Mapping ε) (v : Option (Versioning ε)) (es : List ε) (s : σ) :
    let o := insertChunk c m v es s
    (o.result = .ok () ∧ ∃ rows, (insertReturning c m v es).start s = (.ok rows, o.state) ∧
      List.Forall₂ (Inserted m v) (es.zip rows) o.records) ∨
    ∃ f, o.result = .error f ∧ InsertFailed c m v f es s o.records o.state := by
  intro o
  rcases hrows : (insertReturning c m v es).start s with ⟨f | rows, t⟩
  · have ho : o = ⟨.error f, es, t⟩ := by simp only [o, insertChunk_eq, hrows]
    rw [ho]
    exact .inr ⟨f, rfl, .statement hrows⟩
  · have hlen := insertReturning_length hrows
    rcases hkeys : changeEach (storeRow m) es rows with ⟨f | _, es₁⟩
    · have ho : o = ⟨.error f, es₁, t⟩ := by simp only [o, insertChunk_eq, hrows, hkeys]
      rw [ho]
      exact .inr ⟨f, rfl, .storing hrows hlen (storeRows_error hlen hkeys)⟩
    · have ho : o = ⟨(startVersions v es₁).1, (startVersions v es₁).2, t⟩ := by
        simp only [o, insertChunk_eq, hrows, hkeys]
      have hstored := changeEach_ok (Nat.le_of_eq hlen.symm) hkeys
      rw [ho]
      rcases hversions : startVersions v es₁ with ⟨f | _, es₂⟩
      · obtain ⟨w, before, e, after, done, hv, rfl, hrefused, hdone, rfl⟩ := startVersions_error hversions
        exact .inr ⟨f, rfl, .storing hrows hlen (.version hv hstored hrefused hdone)⟩
      · exact .inl ⟨rfl, rows, rfl, forall₂_comp (fun hkey hversion => ⟨_, hkey, hversion⟩) hstored
          (startVersions_ok hversions)⟩

/-! ## Inserts -/

theorem insertChunks_cons_ok {rest : List (List ε)} : insertChunks c m v (es :: rest) s = ⟨.ok (), rs, u⟩ ↔
    ∃ es' fs' t, insertChunk c m v es s = ⟨.ok (), es', t⟩ ∧ insertChunks c m v rest t = ⟨.ok (), fs', u⟩ ∧
      rs = es' ++ fs' := by
  rw [insertChunks]
  rcases insertChunk c m v es s with ⟨f | _, es₁, t⟩
  · simp
  · simp only [Outcome.mk.injEq, true_and]
    constructor
    · intro h
      obtain ⟨hresult, hrecords, hstate⟩ := h
      refine ⟨es₁, (insertChunks c m v rest t).records, t, ⟨rfl, rfl⟩, ?_, hrecords.symm⟩
      rw [← hresult, ← hstate]
    · intro h
      obtain ⟨_, fs', _, ⟨rfl, rfl⟩, hrest, hrs⟩ := h
      rw [hrest]
      exact ⟨rfl, hrs.symm, rfl⟩

/-- The batches bring back a row for each record. -/
theorem insertReturning_flatten_length {chunks : List (List ε)} {rows : List (List (Option Row))}
    (h : (chunks.mapM (insertReturning c m v)).start s = (.ok rows, u)) :
    rows.flatten.length = chunks.flatten.length := by
  induction chunks generalizing s rows with
  | nil =>
    cases h
    rfl
  | cons es rest ih =>
    obtain ⟨first, others, t, hfirst, hothers, rfl⟩ := Run.start_mapM_cons_ok.mp h
    rw [List.flatten_cons, List.flatten_cons, List.length_append, List.length_append, insertReturning_length hfirst,
      ih hothers]

/-- Batches that go through: each record is inserted with the row that came back for it. -/
theorem insertChunks_ok {chunks : List (List ε)} (h : insertChunks c m v chunks s = ⟨.ok (), rs, u⟩) :
    ∃ rows, (chunks.mapM (insertReturning c m v)).start s = (.ok rows, u) ∧
      List.Forall₂ (Inserted m v) (chunks.flatten.zip rows.flatten) rs := by
  induction chunks generalizing s rs with
  | nil =>
    cases h
    exact ⟨[], rfl, .nil⟩
  | cons es rest ih =>
    obtain ⟨es', fs', t, hfirst, hrest, rfl⟩ := insertChunks_cons_ok.mp h
    obtain ⟨others, hothers, hinserted⟩ := ih hrest
    rcases insertChunk_cases c m v es s with ⟨_, rows, hrows, hkeyed⟩ | ⟨f, hfailed, _⟩
    · rw [hfirst] at hrows hkeyed
      refine ⟨rows :: others, Run.start_mapM_cons_ok.mpr ⟨rows, others, t, hrows, hothers, rfl⟩, ?_⟩
      rw [List.flatten_cons, List.flatten_cons, List.zip_append (insertReturning_length hrows).symm]
      exact List.rel_append hkeyed hinserted
    · rw [hfirst] at hfailed
      cases hfailed

/-- Batches up to the first that fails: the records of those before it are inserted, and those of the others are as
they were. Its statement is the last that has been sent. -/
theorem insertChunks_error {chunks : List (List ε)} (h : (insertChunks c m v chunks s).result = .error f) :
    let o := insertChunks c m v chunks s
    ∃ k chunk rows t done part, chunks[k]? = some chunk ∧
      ((chunks.take k).mapM (insertReturning c m v)).start s = (.ok rows, t) ∧
      List.Forall₂ (Inserted m v) ((chunks.take k).flatten.zip rows.flatten) done ∧
      InsertFailed c m v f chunk t part o.state ∧ o.records = done ++ part ++ (chunks.drop (k + 1)).flatten := by
  induction chunks generalizing s with
  | nil => cases h
  | cons es rest ih =>
    rw [insertChunks] at h ⊢
    rcases insertChunk_cases c m v es s with ⟨hok, rows, hrows, hinserted⟩ | ⟨g, herror, hfailed⟩
    · simp only [hok] at h ⊢
      obtain ⟨k, chunk, others, t, done, part, hk, hothers, hdone, hpart, hrecords⟩ := ih h
      refine ⟨k + 1, chunk, rows :: others, t, (insertChunk c m v es s).records ++ done, part, hk, ?_, ?_, hpart, ?_⟩
      · exact Run.start_mapM_cons_ok.mpr ⟨rows, others, _, hrows, hothers, rfl⟩
      · rw [List.take_succ_cons, List.flatten_cons, List.flatten_cons,
          List.zip_append (insertReturning_length hrows).symm]
        exact List.rel_append hinserted hdone
      · rw [hrecords, List.drop_succ_cons, List.append_assoc, List.append_assoc, List.append_assoc]
    · simp only [herror] at h ⊢
      cases h
      exact ⟨0, es, [], s, [], _, rfl, rfl, .nil, hfailed, rfl⟩

/-- A failed insert. Unless it was refused before the first statement, there is a batch that failed:

1. The statements of the batches before it have brought back rows, and their records are inserted, each with the row
   at its place.
2. Its statement is the last that has been sent. It has failed with that failure, and the records of the batch are as
   they were, or one of them has refused with it what was to be stored.
3. The records of the batches after it are as they were.

So nothing has changed if all the records go into one batch, unless one of them has refused something. -/
theorem failed_insert_records {s : Settings} {state : σ} (h : (insert s c m es state).result = .error f) :
    let n := max s.batchSize 1
    let o := insert s c m es state
    (prepareInsert s c m = .error f ∧ o.records = es ∧ o.state = state) ∨
    ∃ v k rows t done part, prepareInsert s c m = .ok v ∧ k * n < es.length ∧
      (((chunks s.batchSize es).take k).mapM (insertReturning c m v)).start state = (.ok rows, t) ∧
      rows.flatten.length = k * n ∧ List.Forall₂ (Inserted m v) ((es.take (k * n)).zip rows.flatten) done ∧
      InsertFailed c m v f ((es.drop (k * n)).take n) t part o.state ∧
      o.records = done ++ part ++ es.drop ((k + 1) * n) ∧
      (es.length ≤ n → o.records = es ∨ ∃ rows, (insertReturning c m v es).start state = (.ok rows, o.state) ∧
        Refused m v f (es.zip rows) o.records) := by
  intro n o
  cases hprepared : prepareInsert s c m with
  | error g =>
    have ho : o = ⟨.error g, es, state⟩ := by simp only [o, insert, hprepared]
    rw [show insert s c m es state = o from rfl, ho] at h
    cases h
    exact .inl ⟨rfl, by rw [ho], by rw [ho]⟩
  | ok v =>
    have ho : o = insertChunks c m v (chunks s.batchSize es) state := by simp only [o, insert, hprepared]
    rw [show insert s c m es state = o from rfl, ho] at h
    obtain ⟨k, chunk, rows, t, done, part, hk, hrows, hdone, hfailed, hrecords⟩ := insertChunks_error h
    have hsize : k * n < es.length := chunks_start_lt hk
    have hlen := insertReturning_flatten_length hrows
    rw [← ho] at hfailed hrecords
    rw [chunks_getElem? hk] at hfailed
    rw [(chunks_split s.batchSize es k).1] at hdone hlen
    rw [List.length_take_of_le (Nat.le_of_lt hsize)] at hlen
    rw [(chunks_split s.batchSize es (k + 1)).2] at hrecords
    refine .inr ⟨v, k, rows, t, done, part, rfl, hsize, hrows, hlen, hdone, hfailed, hrecords, fun hone => ?_⟩
    -- In one batch, there is nothing before it and nothing after it.
    obtain rfl : k = 0 := by
      apply Nat.eq_zero_of_not_pos
      intro hpos
      have hle := Nat.le_mul_of_pos_left n hpos
      omega
    cases hrows
    rw [Nat.zero_mul, List.take_zero, List.zip_nil_left, List.forall₂_nil_left_iff] at hdone
    rw [Nat.zero_mul, List.drop_zero, List.take_of_length_le hone] at hfailed
    rw [hdone, Nat.zero_add, Nat.one_mul, List.drop_of_length_le hone, List.append_nil, List.nil_append] at hrecords
    cases hfailed with
    | statement _ => exact .inl hrecords
    | storing hrows _ hrefused =>
      rw [← hrecords] at hrefused
      exact .inr ⟨_, hrows, hrefused⟩

/-- A record to which the database gives a key, and the insert a first version. -/
structure Draft where
  id : Option Int64
  title : String
  version : Option Int32
  deriving DecidableEq

namespace Draft

def idColumn : Column Draft where
  property := ⟨"id", "Draft", .optional .long⟩
  get d := d.id.elim .null .long
  set d v :=
    match v with
    | .long n => .ok { d with id := some n }
    | _ => .error (.decode "key is not an integer")

def titleColumn : Column Draft :=
  ⟨⟨"title", "Draft", .text⟩, fun d => .text d.title, fun d _ => .ok d⟩

def versionColumn : Column Draft where
  property := ⟨"version", "Draft", .optional .int⟩
  get d := d.version.elim .null .int
  set d v :=
    match v with
    | .int n => .ok { d with version := some n }
    | _ => .error (.decode "version is not an integer")

def mapping : Mapping Draft :=
  ((Mapping.ofTable "drafts").withIdentity idColumn true).withColumn titleColumn |>.withVersion versionColumn

def two : List Draft :=
  [⟨none, "first", none⟩, ⟨none, "second", none⟩]

def singly : Settings :=
  { Settings.default with batchSize := 1 }

/-- A connection that gives one key and is then closed. -/
def interrupted : Script :=
  ⟨[], [], [.usual, .failure "closed"], 101, []⟩

end Draft

/-- A failed insert need not leave the records: the first holds the key of a row that is then taken back. -/
theorem insert_leaves_key :
    let o := insert Draft.singly (Script.connection .sqlite true) Draft.mapping Draft.two Draft.interrupted
    o.result = .error (.execution "closed") ∧
      o.records = [⟨some 101, "first", some 0⟩, ⟨none, "second", none⟩] ∧ o.records ≠ Draft.two := by
  intro o
  exact ⟨rfl, rfl, by decide⟩

theorem failed_insert_records_interrupted :
    let c := Script.connection .sqlite true
    let o := insert Draft.singly c Draft.mapping Draft.two Draft.interrupted
    o.result = .error (.execution "closed") ∧ ∃ v k rows t done part, k < 2 ∧
      (((chunks 1 Draft.two).take k).mapM (insertReturning c Draft.mapping v)).start Draft.interrupted = (.ok rows, t) ∧
      rows.flatten.length = k ∧ List.Forall₂ (Inserted Draft.mapping v) ((Draft.two.take k).zip rows.flatten) done ∧
      InsertFailed c Draft.mapping v (.execution "closed") ((Draft.two.drop k).take 1) t part o.state ∧
      o.records = done ++ part ++ Draft.two.drop (k + 1) := by
  intro c o
  have hfailed : o.result = .error (.execution "closed") := rfl
  have hsize : max Draft.singly.batchSize 1 = 1 := rfl
  rcases failed_insert_records hfailed with
    ⟨hprepared, _⟩ | ⟨v, k, rows, t, done, part, _, hk, hrows, hlen, hdone, hbatch, hrecords, _⟩
  · cases hprepared
  · rw [hsize, Nat.mul_one] at hk hlen hdone hbatch
    rw [hsize, Nat.mul_one] at hrecords
    exact ⟨hfailed, v, k, rows, t, done, part, hk, hrows, hlen, hdone, hbatch, hrecords⟩

end TableQuery.Mutation
