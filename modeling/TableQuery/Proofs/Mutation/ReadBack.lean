import TableQuery.Proofs.Mutation.Refusals

/- What a successful insert leaves in the records. The parameters are taken from the records before anything is
   stored in them, and keys and first versions are then stored batch by batch. If columns are read as they were set
   and do not disturb each other (`Mapping.Lawful`), both agree:

     1. `completed_of_inserted`: a record has its first version, and nothing but its key and its version has changed.
     2. `insertedValue_of_completed`: what was taken for a column is what is read from it afterwards.
     3. `keyReplies_of_returning`, `keyed_of_inserted`: the identities are the keys that came back, in order.

   So the records are as they were sent, whatever the size of batches (`insert_reads_back`). -/
namespace TableQuery

variable {σ ε : Type}

/-- The columns have names of their own, are read as they were set, and leave each other alone. -/
structure Mapping.Lawful (m : Mapping ε) : Prop where
  distinct : (m.allColumns.map Column.name).Nodup
  get_set : ∀ c ∈ m.allColumns, ∀ e v e', c.set e v = .ok e' → c.get e' = v
  get_set_ne : ∀ c ∈ m.allColumns, ∀ d ∈ m.allColumns, c.name ≠ d.name →
    ∀ e v e', c.set e v = .ok e' → d.get e' = d.get e

/-- The rows that come back from a statement that is sent with these batches, one after the other. -/
def Connection.keyReplies (c : Connection σ) (sql : String) :
    List (List (List Value)) → σ → List (Except Failure (List Row))
  | [], _ => []
  | batch :: rest, s =>
    let (reply, s) := (c.fetchBatch sql batch).start s
    reply :: c.keyReplies sql rest s

namespace Mapping

variable {m : Mapping ε} {id c d : Column ε}

/-- What an insert does not write is the key that comes back. -/
theorem allColumns_eq (m : Mapping ε) : m.allColumns = m.generatedId?.toList ++ m.insertColumns := by
  unfold allColumns insertColumns generatedId? assignedId?
  rcases m.identity with _ | ⟨c, _ | _⟩
  · simp
  · simp
  · simp

theorem insertColumns_subset (h : c ∈ m.insertColumns) : c ∈ m.allColumns := by
  rw [allColumns_eq]
  exact List.mem_append_right _ h

theorem Lawful.eq_of_name (hm : m.Lawful) (hc : c ∈ m.allColumns) (hd : d ∈ m.allColumns) (h : c.name = d.name) :
    c = d :=
  List.inj_on_of_nodup_map hm.distinct hc hd h

theorem Lawful.generatedId_ne (hm : m.Lawful) (hid : m.generatedId? = some id) (h : c ∈ m.insertColumns) :
    id.name ≠ c.name := by
  have hdistinct := hm.distinct
  rw [allColumns_eq, hid, Option.toList_some, List.singleton_append, List.map_cons, List.nodup_cons] at hdistinct
  intro hname
  apply hdistinct.1
  rw [hname]
  exact List.mem_map_of_mem h

end Mapping

namespace Mutation

variable {β γ : Type} {c : Connection σ} {m : Mapping ε} {v : Option (Versioning ε)} {id col : Column ε}
  {e e' : ε} {es rs : List ε} {sql : String} {batch : List (List Value)} {s u : σ}

/-! ## Records -/

theorem version_inserted {w : Versioning ε} (h : m.versioning = .ok (some w)) : w.column ∈ m.insertColumns := by
  simp [Mapping.insertColumns, versioning_column h]

/-- The record after an insert: it has a version, and every column but this and a generated identity is as it was. -/
structure Completed (m : Mapping ε) (v : Option (Versioning ε)) (e e' : ε) : Prop where
  version : ∀ w, v = some w →
    w.column.get e' = if (w.column.get e).isNull then w.width.initial else w.column.get e
  others : ∀ c ∈ m.allColumns, (∀ id, m.generatedId? = some id → id.name ≠ c.name) →
    (∀ w, v = some w → w.column.name ≠ c.name) → c.get e' = c.get e

theorem get_of_storeKey (hm : m.Lawful) (hid : m.generatedId? = some id) (e : ε) (key : Row) (e' : ε)
    (h : storeKey id e key = .ok e') : some (id.get e') = key.values.head? := by
  unfold storeKey at h
  split at h
  · next value hvalue => rw [hvalue, hm.get_set id (generatedId_mem hid) e value e' h]
  · cases h

/-- A key that is stored changes no other column. -/
theorem get_of_keyStored (hm : m.Lawful) {row : Option Row} (h : KeyStored m (e, row) e') (hcol : col ∈ m.allColumns)
    (hne : ∀ id, m.generatedId? = some id → id.name ≠ col.name) : col.get e' = col.get e := by
  simp only [KeyStored, storeRow] at h
  split at h
  · next id key hid =>
    unfold storeKey at h
    split at h
    · exact hm.get_set_ne id (generatedId_mem hid) col hcol (hne id hid) e _ e' h
    · cases h
  · cases h
    rfl

theorem version_of_startVersion (hm : m.Lawful) {w : Versioning ε} (hv : m.versioning = .ok (some w))
    (h : startVersion w e = .ok e') :
    w.column.get e' = if (w.column.get e).isNull then w.width.initial else w.column.get e := by
  unfold startVersion at h
  split at h
  · next hnull => rw [if_pos hnull, hm.get_set w.column (version_mem hv) e _ e' h]
  · next hvalue =>
    rw [if_neg hvalue]
    cases h
    rfl

/-- A first version that is stored changes no other column. -/
theorem get_of_versionStored (hm : m.Lawful) (hv : m.versioning = .ok v) (h : VersionStored v e e')
    (hcol : col ∈ m.allColumns) (hne : ∀ w, v = some w → w.column.name ≠ col.name) : col.get e' = col.get e := by
  cases v with
  | none => rw [show e' = e from h]
  | some w =>
    replace h : startVersion w e = .ok e' := h
    unfold startVersion at h
    split at h
    · exact hm.get_set_ne w.column (version_mem hv) col hcol (hne w rfl) e _ e' h
    · cases h
      rfl

/-- A record with its key and its first version is complete. -/
theorem completed_of_inserted (hm : m.Lawful) (hv : m.versioning = .ok v) {row : Option Row}
    (h : Inserted m v (e, row) e') : Completed m v e e' := by
  obtain ⟨e₁, hkey, hversion⟩ := h
  constructor
  · intro w hw
    subst hw
    -- The key has left the version as it was.
    have hkept : w.column.get e₁ = w.column.get e :=
      get_of_keyStored hm hkey (version_mem hv) fun id hid => hm.generatedId_ne hid (version_inserted hv)
    rw [version_of_startVersion hm hv hversion, hkept]
  · intro col hcol hid hw
    rw [get_of_versionStored hm hv hversion hcol hw, get_of_keyStored hm hkey hcol hid]

/-- What an insert takes for a column before is what is read from it afterwards. -/
theorem insertedValue_of_completed (hm : m.Lawful) (hv : m.versioning = .ok v) (h : Completed m v e e')
    (hcol : col ∈ m.insertColumns) : insertedValue v e col = col.get e' := by
  have hid : ∀ id, m.generatedId? = some id → id.name ≠ col.name := fun id hid => hm.generatedId_ne hid hcol
  have hmem := Mapping.insertColumns_subset hcol
  cases v with
  | none => exact (h.others col hmem hid nofun).symm
  | some w =>
    by_cases hname : col.name = w.column.name
    · obtain rfl : col = w.column := hm.eq_of_name hmem (version_mem hv) hname
      simp only [insertedValue, true_and]
      exact (h.version w rfl).symm
    · simp only [insertedValue, hname, false_and, if_false]
      refine (h.others col hmem hid ?_).symm
      intro w' hw'
      cases hw'
      exact Ne.symm hname

/-- The sets of parameters are the columns of the records as they are afterwards. -/
theorem sets_of_completed (hm : m.Lawful) (hv : m.versioning = .ok v) (h : List.Forall₂ (Completed m v) es rs) :
    (es.map fun e => m.insertColumns.map (insertedValue v e)) = rs.map fun e => m.insertColumns.map (·.get e) := by
  induction h with
  | nil => rfl
  | cons hcompleted _ ih =>
    rw [List.map_cons, List.map_cons, ih]
    congr 1
    apply List.map_congr_left
    intro col hcol
    exact insertedValue_of_completed hm hv hcompleted hcol

/-! ## Keys -/

/-- The identities are the first values of the rows. -/
def Keyed (id : Column ε) (keys : List Row) (es : List ε) : Prop :=
  (es.map fun e => some (id.get e)) = keys.map fun key => key.values.head?

/-- The identity of a record that has been inserted is the first value of its row. -/
theorem get_of_inserted (hm : m.Lawful) (hid : m.generatedId? = some id) (hv : m.versioning = .ok v) {key : Row}
    (h : Inserted m v (e, some key) e') : some (id.get e') = key.values.head? := by
  obtain ⟨e₁, hkey, hversion⟩ := h
  have hstored : storeKey id e key = .ok e₁ := by
    rw [← storeRow_of_some hid]
    exact hkey
  have hne : ∀ w, v = some w → w.column.name ≠ id.name := by
    intro w hw
    subst hw
    exact Ne.symm (hm.generatedId_ne hid (version_inserted hv))
  rw [get_of_versionStored hm hv hversion (generatedId_mem hid) hne]
  exact get_of_storeKey hm hid e key e₁ hstored

theorem keyed_of_inserted (hm : m.Lawful) (hid : m.generatedId? = some id) (hv : m.versioning = .ok v)
    {keys : List Row} (hlen : keys.length = es.length)
    (h : List.Forall₂ (Inserted m v) (es.zip (keys.map some)) rs) : Keyed id keys rs := by
  rw [List.zip_map_right, List.forall₂_map_left_iff] at h
  have hread : List.Forall₂ (fun p e' => p.2.values.head? = some (id.get e')) (es.zip keys) rs :=
    h.imp fun _ _ hinserted => (get_of_inserted hm hid hv hinserted).symm
  have hsnd : (es.zip keys).map Prod.snd = keys := List.map_snd_zip (Nat.le_of_eq hlen)
  rw [Keyed, ← hsnd, List.map_map, eq_comm, ← List.forall₂_eq_eq_eq, List.forall₂_map_left_iff,
    List.forall₂_map_right_iff]
  exact hread

/-- If the database generates the keys, what the batches bring back are the replies to them. -/
theorem keyReplies_of_returning (hid : m.generatedId? = some id) {chunks : List (List ε)}
    {rows : List (List (Option Row))} (h : (chunks.mapM (insertReturning c m v)).start s = (.ok rows, u)) :
    ∃ keys : List (List Row), rows.flatten = keys.flatten.map some ∧
      c.keyReplies (insertText c.dialect m.table (m.insertColumns.map Column.name) (some id.name))
        (chunks.map (List.map fun e => m.insertColumns.map (insertedValue v e))) s = keys.map .ok := by
  induction chunks generalizing s rows with
  | nil =>
    cases h
    exact ⟨[], rfl, rfl⟩
  | cons es rest ih =>
    obtain ⟨first, others, t, hfirst, hothers, rfl⟩ := Run.start_mapM_cons_ok.mp h
    obtain ⟨keys, hreply, _, rfl⟩ := insertReturning_generated hid hfirst
    obtain ⟨keys', hrows, hreplies⟩ := ih hothers
    refine ⟨keys :: keys', ?_, ?_⟩
    · rw [List.flatten_cons, List.flatten_cons, hrows, List.map_append]
    · rw [List.map_cons, Connection.keyReplies, hreply, List.map_cons]
      exact congrArg _ hreplies

/-! ## Inserts -/

theorem keyReplies_traced (c : Connection σ) (sql : String) (batches : List (List (List Value))) (t : Traced σ) :
    c.traced.keyReplies sql batches t = c.keyReplies sql batches t.state := by
  induction batches generalizing t with
  | nil => rfl
  | cons batch rest ih => simp only [Connection.keyReplies, Connection.fetchBatch_traced, ih]

/-- After an insert that succeeds, the sets of parameters that have been sent are the inserted columns as they are
now read from the records, batch after batch. Null versions have become first ones and identities that the database
generates are the first values of the rows that came back, each in its place. No other column has changed. -/
theorem insert_reads_back (hm : m.Lawful) (s : Settings) (c : Connection σ) (es : List ε) (state : σ)
    (h : (insert s c.traced m es ⟨state, []⟩).result = .ok ()) :
    let o := insert s c.traced m es ⟨state, []⟩
    let sql := insertText c.dialect m.table (m.insertColumns.map Column.name) (m.generatedId?.map Column.name)
    let batches := chunks s.batchSize (o.records.map fun e => m.insertColumns.map (·.get e))
    ∃ v, m.versioning = .ok v ∧ List.Forall₂ (Completed m v) es o.records ∧ o.state.sent = batches.map (.batch sql) ∧
      ∀ id, m.generatedId? = some id → ∃ keys : List (List Row),
        c.keyReplies sql batches state = keys.map .ok ∧ Keyed id keys.flatten o.records := by
  intro o sql batches
  have hprepare : prepareInsert s c.traced m = prepareInsert s c m := rfl
  cases hprepared : prepareInsert s c m with
  | error f =>
    simp only [insert, hprepare, hprepared] at h
    cases h
  | ok v =>
    have hv := prepareInsert_versioning hprepared
    have ho : insertChunks c.traced m v (chunks s.batchSize es) ⟨state, []⟩ = o := by
      simp only [o, insert, hprepare, hprepared]
    have hok : insertChunks c.traced m v (chunks s.batchSize es) ⟨state, []⟩ = ⟨.ok (), o.records, o.state⟩ := by
      rw [ho, ← h]
    obtain ⟨rows, hrows, hinserted⟩ := insertChunks_ok hok
    have hlen := insertReturning_flatten_length hrows
    rw [chunks_flatten] at hinserted hlen
    have hcompleted : List.Forall₂ (Completed m v) es o.records := by
      have hfst : (es.zip rows.flatten).map Prod.fst = es := List.map_fst_zip (Nat.le_of_eq hlen.symm)
      rw [← hfst]
      exact List.forall₂_map_left_iff.mpr (hinserted.imp fun _ _ => completed_of_inserted hm hv)
    -- The parameters were taken before, and are read afterwards.
    have hbatches : (chunks s.batchSize es).map (List.map fun e => m.insertColumns.map (insertedValue v e)) =
        batches := by
      rw [← chunks_map, sets_of_completed hm hv hcompleted]
    refine ⟨v, hv, hcompleted, ?_, ?_⟩
    · have hsent := (insertChunks_sent (c := c) m v (chunks s.batchSize es) ⟨state, []⟩).sent
      rw [text_insertTemplate, hbatches, hok] at hsent
      exact hsent.complete () rfl
    · intro id hid
      obtain ⟨keys, hkeys, hreplies⟩ := keyReplies_of_returning hid hrows
      rw [hkeys] at hinserted hlen
      rw [List.length_map] at hlen
      rw [keyReplies_traced, hbatches] at hreplies
      refine ⟨keys, ?_, keyed_of_inserted hm hid hv hlen hinserted⟩
      simp only [sql, hid]
      exact hreplies

namespace Draft

def storedTitle : Column Draft where
  property := ⟨"title", "Draft", .text⟩
  get d := .text d.title
  set d v :=
    match v with
    | .text title => .ok { d with title }
    | _ => .error (.decode "title is not a text")

/-- The mapping of drafts, whose titles can be stored as well. -/
def stored : Mapping Draft :=
  ((Mapping.ofTable "drafts").withIdentity idColumn true).withColumn storedTitle |>.withVersion versionColumn

/-- One without a version and one with it. -/
def mixed : List Draft :=
  [⟨none, "first", none⟩, ⟨none, "second", some 4⟩]

theorem idColumn_set {d d' : Draft} {v : Value} (h : idColumn.set d v = .ok d') :
    ∃ n, v = .long n ∧ d' = { d with id := some n } := by
  cases v with
  | long n => exact ⟨n, rfl, (Except.ok.inj h).symm⟩
  | _ => cases h

theorem storedTitle_set {d d' : Draft} {v : Value} (h : storedTitle.set d v = .ok d') :
    ∃ title, v = .text title ∧ d' = { d with title } := by
  cases v with
  | text title => exact ⟨title, rfl, (Except.ok.inj h).symm⟩
  | _ => cases h

theorem versionColumn_set {d d' : Draft} {v : Value} (h : versionColumn.set d v = .ok d') :
    ∃ n, v = .int n ∧ d' = { d with version := some n } := by
  cases v with
  | int n => exact ⟨n, rfl, (Except.ok.inj h).symm⟩
  | _ => cases h

theorem stored_columns : stored.allColumns = [idColumn, storedTitle, versionColumn] := rfl

theorem stored_lawful : stored.Lawful := by
  constructor
  · decide
  · rw [stored_columns]
    simp only [List.mem_cons, List.not_mem_nil, or_false, forall_eq_or_imp, forall_eq]
    refine ⟨?_, ?_, ?_⟩
    · intro d v d' h
      obtain ⟨n, rfl, rfl⟩ := idColumn_set h
      rfl
    · intro d v d' h
      obtain ⟨title, rfl, rfl⟩ := storedTitle_set h
      rfl
    · intro d v d' h
      obtain ⟨n, rfl, rfl⟩ := versionColumn_set h
      rfl
  · intro c hc c' hc' hne d v d' h
    rw [stored_columns] at hc hc'
    simp only [List.mem_cons, List.not_mem_nil, or_false] at hc hc'
    rcases hc with rfl | rfl | rfl
    · obtain ⟨n, rfl, rfl⟩ := idColumn_set h
      rcases hc' with rfl | rfl | rfl
      · exact absurd rfl hne
      · rfl
      · rfl
    · obtain ⟨title, rfl, rfl⟩ := storedTitle_set h
      rcases hc' with rfl | rfl | rfl
      · rfl
      · exact absurd rfl hne
      · rfl
    · obtain ⟨n, rfl, rfl⟩ := versionColumn_set h
      rcases hc' with rfl | rfl | rfl
      · rfl
      · rfl
      · exact absurd rfl hne

end Draft

/-- Two batches of one record each, whose keys are 101 and 102. -/
theorem insert_reads_back_mixed :
    let c := Script.connection .sqlite true
    let o := insert Draft.singly c.traced Draft.stored Draft.mixed ⟨⟨[], [], [], 101, []⟩, []⟩
    let sql := insertText .sqlite "drafts" ["title", "version"] (some "id")
    let batches := chunks 1 (o.records.map fun d => [Draft.storedTitle.get d, Draft.versionColumn.get d])
    o.records = [⟨some 101, "first", some 0⟩, ⟨some 102, "second", some 4⟩] ∧
      o.state.sent = batches.map (.batch sql) ∧
      ∃ keys : List (List Row), c.keyReplies sql batches ⟨[], [], [], 101, []⟩ = keys.map .ok ∧
        Keyed Draft.idColumn keys.flatten o.records := by
  intro c o sql batches
  have hok : o.result = .ok () := rfl
  obtain ⟨_, _, _, hsent, hkeys⟩ := insert_reads_back Draft.stored_lawful Draft.singly c Draft.mixed _ hok
  exact ⟨rfl, hsent, hkeys Draft.idColumn rfl⟩

end Mutation

end TableQuery
