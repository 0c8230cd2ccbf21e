import TableQuery.Proofs.Mutation.Inserting

/- Refusals of writes. The checks of the connection and of the mapping, and those of the versions of an update, come
   before the first statement:

     1. `prepareUpdate_refuses`, `nextVersions_refuses`: what the checks of an update say is a refusal.
     2. `insertChunk_late`, `sendUpdates_late`, `sendDeletes_late` and their like: what comes of sending statements
        and of storing values is none, as long as connections and setters fail for reasons of their own.

   So a write that is refused has sent nothing and has left the records as they were (`refused_before_sending`),
   wherever in the list the record stands that has no next version. -/
namespace TableQuery

/-! ## Failures -/

/-- The kinds of failures that refuse a write. -/
def FailureKind.refuses : FailureKind → Bool
  | transactionRequired | configuration | unsupported | illegalState => true
  | _ => false

/-- The kinds of failures that connections raise when they run a statement, and setters when they store a value. -/
def FailureKind.ofRunning : FailureKind → Bool
  | execution | decode => true
  | _ => false

/-- A version has no next one. -/
def Failure.ofVersion : Failure → Bool
  | versionNull | versionNotInteger _ | versionOverflow _ => true
  | _ => false

/-- The failure refuses a write, by its kind or for the version of a record. -/
def Failure.refuses (f : Failure) : Bool :=
  f.kind.refuses || f.ofVersion

theorem Failure.refuses_of_ofVersion {f : Failure} (h : f.ofVersion = true) : f.refuses = true := by
  rw [refuses, h, Bool.or_true]

theorem Failure.not_refuses_of_running {f : Failure} (h : f.kind.ofRunning = true) : f.refuses = false := by
  cases f <;> first | rfl | cases h

/-- The connection fails only in running a statement. -/
structure Connection.FailsInRunning {σ : Type} (c : Connection σ) : Prop where
  executeBatch : ∀ {sql batch s f t}, (c.executeBatch sql batch).start s = (.error f, t) → f.kind.ofRunning = true
  fetchBatch : ∀ {sql batch s f t}, (c.fetchBatch sql batch).start s = (.error f, t) → f.kind.ofRunning = true

theorem Connection.FailsInRunning.traced {σ : Type} {c : Connection σ} (hc : c.FailsInRunning) :
    c.traced.FailsInRunning where
  executeBatch h := hc.executeBatch (Prod.ext (Prod.mk.inj h).1 rfl)
  fetchBatch h := hc.fetchBatch (Prod.ext (Prod.mk.inj h).1 rfl)

/-- A script fails only where a reply says so. -/
theorem Script.failsInRunning (d : Dialect) (inTransaction : Bool) :
    (Script.connection d inTransaction).FailsInRunning where
  executeBatch {sql batch s f t} h := by
    obtain ⟨queries, executions, fetches, nextKey, log⟩ := s
    rcases executions with _ | ⟨_ | message | _, _⟩ <;> cases h
    rfl
  fetchBatch {sql batch s f t} h := by
    obtain ⟨queries, executions, fetches, nextKey, log⟩ := s
    rcases fetches with _ | ⟨_ | message | _, _⟩ <;> cases h
    rfl

/-- The columns of a mapping, with its identity and its version. -/
def Mapping.allColumns {ε : Type} (m : Mapping ε) : List (Column ε) :=
  (m.identity.map Identity.column).toList ++ m.columns ++ m.version.toList

/-- Setters fail only in storing a value. -/
def Mapping.FailsInStoring {ε : Type} (m : Mapping ε) : Prop :=
  ∀ c ∈ m.allColumns, ∀ e v f, c.set e v = .error f → f.kind.ofRunning = true

/-! ## Versions -/

namespace VersionWidth

/-- Versions are integers of 32 or 64 bits, or null. A column of any other type is refused by the name of the type. -/
theorem ofProperty_error_iff {p : Property} {f : Failure} :
    ofProperty p = .error f ↔
      p.type ∉ [.int, .optional .int, .long, .optional .long] ∧ f = .versionType p.name p.type.label := by
  unfold ofProperty
  split
  · next hint => simp [hint]
  · next hnull => simp [hnull]
  · next hlong => simp [hlong]
  · next hlongNull => simp [hlongNull]
  · next hint hnull hlong hlongNull =>
    have hother : p.type ∉ [.int, .optional .int, .long, .optional .long] := by
      simp only [List.mem_cons, List.not_mem_nil, or_false, not_or]
      exact ⟨hint, hnull, hlong, hlongNull⟩
    simp [hother, eq_comm]

/-- The last version of a width. -/
def last : VersionWidth → Int
  | int => Int32.maxValue.toInt
  | long => Int64.maxValue.toInt

/-- The version is null, or no integer, or the last one of its width. -/
def Exhausted (w : VersionWidth) (v : Value) : Prop :=
  v.isNull = true ∨ v.toInt? = none ∨ v.toInt? = some w.last

theorem value?_last (w : VersionWidth) : w.value? (w.last + 1) = none := by
  cases w <;> decide

theorem Exhausted.next_ne_ok {w : VersionWidth} {v : Value} (h : w.Exhausted v) (next : Value) :
    w.next v ≠ .ok next := by
  intro hnext
  obtain ⟨n, hn, hvalue⟩ := next_ok hnext
  rcases h with hnull | hnone | hlast
  · rw [VersionWidth.next, if_pos hnull] at hnext
    cases hnext
  · rw [hnone] at hn
    cases hn
  · rw [hlast] at hn
    cases hn
    rw [value?_last] at hvalue
    cases hvalue

theorem next_error {w : VersionWidth} {v : Value} {f : Failure} (h : w.next v = .error f) : f.ofVersion = true := by
  unfold VersionWidth.next at h
  split at h
  · cases h
    rfl
  · split at h
    · cases h
      rfl
    · split at h
      · cases h
      · cases h
        rfl

end VersionWidth

namespace Mutation

variable {σ ε α β : Type} {s : Settings} {c : Connection σ} {m : Mapping ε} {v : Option (Versioning ε)}
  {id : Column ε} {es : List ε} {state t : σ} {f : Failure}

/-! ## The checks -/

theorem prepare_refuses (h : prepare s c = .error f) : f.refuses = true := by
  unfold prepare at h
  split at h
  · cases h
    rfl
  · split at h
    · cases h
      rfl
    · cases h

theorem versioning_refuses (h : m.versioning = .error f) : f.refuses = true := by
  unfold Mapping.versioning at h
  split at h
  · cases h
  · obtain ⟨_, rfl⟩ := VersionWidth.ofProperty_error_iff.mp (map_error.mp h)
    rfl

theorem id_refuses (h : m.id = .error f) : f.refuses = true := by
  unfold Mapping.id at h
  split at h
  · cases h
  · cases h
    rfl

theorem prepareUpdate_refuses (h : prepareUpdate s c m = .error f) : f.refuses = true := by
  rcases bind_error.mp h with h | ⟨_, _, h⟩
  · exact prepare_refuses h
  · rcases bind_error.mp h with h | ⟨v, _, h⟩
    · exact versioning_refuses h
    · rcases bind_error.mp h with h | ⟨id, _, h⟩
      · exact id_refuses h
      · cases h

theorem nextVersions_refuses (h : nextVersions v es = .error f) : f.refuses = true := by
  cases v with
  | none => cases h
  | some w =>
    obtain ⟨e, _, he⟩ := mapM_error h
    exact Failure.refuses_of_ofVersion (VersionWidth.next_error he)

/-! ## Columns that are written to -/

theorem versioning_column {w : Versioning ε} (h : m.versioning = .ok (some w)) : m.version = some w.column := by
  unfold Mapping.versioning at h
  split at h
  · cases h
  · obtain ⟨width, _, hw⟩ := map_ok.mp h
    cases hw
    assumption

theorem version_mem {w : Versioning ε} (h : m.versioning = .ok (some w)) : w.column ∈ m.allColumns := by
  simp [Mapping.allColumns, versioning_column h]

theorem generatedId_mem (h : m.generatedId? = some id) : id ∈ m.allColumns := by
  unfold Mapping.generatedId? at h
  split at h
  · next c hidentity =>
    cases h
    simp [Mapping.allColumns, hidentity]
  · cases h

/-! ## What comes later -/

theorem insertReturning_late (hc : c.FailsInRunning) (h : (insertReturning c m v es).start state = (.error f, t)) :
    f.refuses = false := by
  unfold insertReturning at h
  cases hid : m.generatedId? with
  | some id =>
    simp only [hid] at h
    rcases Run.start_bind_error.mp h with hsent | ⟨keys, u, _, hchecked⟩
    · exact Failure.not_refuses_of_running (hc.fetchBatch hsent)
    · split at hchecked
      · cases hchecked
      · cases hchecked
        rfl
  | none =>
    simp only [hid] at h
    rcases Run.start_bind_error.mp h with hsent | ⟨counts, u, _, hchecked⟩
    · exact Failure.not_refuses_of_running (hc.executeBatch hsent)
    · split at hchecked
      · cases hchecked
      · cases hchecked
        rfl

theorem storeRow_late (hm : m.FailsInStoring) {e : ε} {row : Option Row} (h : storeRow m e row = .error f) :
    f.refuses = false := by
  unfold storeRow at h
  split at h
  · next id key hid =>
    unfold storeKey at h
    split at h
    · exact Failure.not_refuses_of_running (hm id (generatedId_mem hid) e _ f h)
    · cases h
      rfl
  · cases h

theorem startVersion_late (hm : m.FailsInStoring) {w : Versioning ε} (hv : m.versioning = .ok (some w)) {e : ε}
    (h : startVersion w e = .error f) : f.refuses = false := by
  unfold startVersion at h
  split at h
  · exact Failure.not_refuses_of_running (hm w.column (version_mem hv) e _ f h)
  · cases h

theorem Refused.late (hm : m.FailsInStoring) (hv : m.versioning = .ok v) {ps : List (ε × Option Row)} {rs : List ε}
    (h : Refused m v f ps rs) : f.refuses = false := by
  cases h with
  | key hrefused _ => exact storeRow_late hm hrefused
  | version hversioned _ hrefused _ =>
    subst hversioned
    exact startVersion_late hm hv hrefused

theorem InsertFailed.late (hc : c.FailsInRunning) (hm : m.FailsInStoring) (hv : m.versioning = .ok v) {rs : List ε}
    (h : InsertFailed c m v f es state rs t) : f.refuses = false := by
  cases h with
  | statement hrows => exact insertReturning_late hc hrows
  | storing _ _ hrefused => exact hrefused.late hm hv

theorem insertChunk_late (hc : c.FailsInRunning) (hm : m.FailsInStoring) (hv : m.versioning = .ok v)
    (h : (insertChunk c m v es state).result = .error f) : f.refuses = false := by
  rcases insertChunk_cases c m v es state with ⟨hok, _⟩ | ⟨g, herror, hfailed⟩
  · rw [hok] at h
    cases h
  · rw [herror] at h
    cases h
    exact hfailed.late hc hm hv

theorem insertChunks_late (hc : c.FailsInRunning) (hm : m.FailsInStoring) (hv : m.versioning = .ok v)
    {chunks : List (List ε)} (h : (insertChunks c m v chunks state).result = .error f) : f.refuses = false := by
  induction chunks generalizing state with
  | nil => cases h
  | cons es rest ih =>
    rw [insertChunks] at h
    cases hfirst : (insertChunk c m v es state).result with
    | error g =>
      simp only [hfirst] at h
      cases h
      exact insertChunk_late hc hm hv hfirst
    | ok _ =>
      simp only [hfirst] at h
      exact ih h

theorem checkCounts_late {versioned : Bool} {counts : List Nat}
    (h : checkCounts m id versioned es counts = .error f) : f.refuses = false := by
  by_cases hones : counts = List.replicate es.length 1
  · rw [hones, checkCounts_ones] at h
    cases h
  · obtain ⟨g, hcheck, hblamed⟩ := checkCounts_error m id versioned hones
    rw [hcheck] at h
    cases h
    simp only [Blames] at hblamed
    split at hblamed
    · rw [hblamed]
      rfl
    · obtain ⟨_, e, n, _, _, _, _, rfl⟩ := hblamed
      unfold countFailure
      split
      · split <;> rfl
      · rfl

theorem sendUpdates_late (hc : c.FailsInRunning) {versioned : Bool} {sql : String}
    {chunks : List (List (ε × List Value))}
    (h : (sendUpdates c m id versioned sql chunks).start state = (.error f, t)) : f.refuses = false := by
  induction chunks generalizing state t with
  | nil => cases h
  | cons chunk rest ih =>
    rcases Run.start_bind_error.mp h with hsent | ⟨counts, u, _, h⟩
    · exact Failure.not_refuses_of_running (hc.executeBatch hsent)
    · rcases Run.start_bind_error.mp h with hchecked | ⟨_, _, _, hrest⟩
      · rw [Run.start_ofExcept] at hchecked
        exact checkCounts_late (Prod.mk.inj hchecked).1
      · exact ih hrest

theorem storeVersions_late (hm : m.FailsInStoring) (hv : m.versioning = .ok v) {versions : List Value}
    (h : (storeVersions v es versions).1 = .error f) : f.refuses = false := by
  cases v with
  | none => cases h
  | some w =>
    obtain ⟨_, e, _, version, _, _, _, _, hstored, _⟩ := changeEach_error (Prod.ext h rfl)
    exact Failure.not_refuses_of_running (hm w.column (version_mem hv) e version f hstored)

theorem sendDeletes_late (hc : c.FailsInRunning) {sql : String} {batches : List (List (List Value))}
    (h : (sendDeletes c sql batches).start state = (.error f, t)) : f.refuses = false := by
  induction batches generalizing state t with
  | nil => cases h
  | cons batch rest ih =>
    rw [sendDeletes_cons] at h
    rcases Run.start_bind_error.mp h with hsent | ⟨counts, u, _, h⟩
    · exact Failure.not_refuses_of_running (hc.executeBatch hsent)
    · rcases Run.start_bind_error.mp h with hrest | ⟨_, _, _, htotal⟩
      · exact ih hrest
      · cases htotal

/-! ## Writes -/

/-- A write that is refused leaves the records and the state as they were. -/
def RefusedFirst (o : Outcome σ ε α) (es : List ε) (state : σ) : Prop :=
  ∀ f, o.result = .error f → f.refuses = true → o.records = es ∧ o.state = state

theorem refusedFirst_of_late {o : Outcome σ ε α} (h : ∀ f, o.result = .error f → f.refuses = false) :
    RefusedFirst o es state := by
  intro f hresult hrefuses
  rw [h f hresult] at hrefuses
  cases hrefuses

theorem prepareInsert_versioning (h : prepareInsert s c m = .ok v) : m.versioning = .ok v := by
  obtain ⟨_, _, h⟩ := bind_ok.mp h
  obtain ⟨w, hw, h⟩ := bind_ok.mp h
  split at h
  · cases h
  · rw [hw, h]

theorem prepareUpdate_versioning (h : prepareUpdate s c m = .ok (v, id)) : m.versioning = .ok v := by
  obtain ⟨_, _, h⟩ := bind_ok.mp h
  obtain ⟨w, hw, h⟩ := bind_ok.mp h
  obtain ⟨_, _, h⟩ := bind_ok.mp h
  cases h
  exact hw

theorem insert_refusedFirst (hc : c.FailsInRunning) (hm : m.FailsInStoring) (s : Settings) (es : List ε) (state : σ) :
    RefusedFirst (insert s c m es state) es state := by
  unfold insert
  cases hprepared : prepareInsert s c m with
  | error f => exact fun _ _ _ => ⟨rfl, rfl⟩
  | ok v =>
    apply refusedFirst_of_late
    intro f hresult
    exact insertChunks_late hc hm (prepareInsert_versioning hprepared) hresult

theorem updateColumns_refusedFirst (hc : c.FailsInRunning) (hm : m.FailsInStoring) (hv : m.versioning = .ok v)
    (s : Settings) (id : Column ε) (columns : List (Column ε)) (es : List ε) (state : σ) :
    RefusedFirst (updateColumns s c m v id columns es state) es state := by
  unfold updateColumns
  cases hversions : nextVersions v es with
  | error f => exact fun _ _ _ => ⟨rfl, rfl⟩
  | ok versions =>
    obtain ⟨batch, hbatch⟩ := params_of_nextVersions m.table columns id hversions
    simp only [hbatch]
    split
    · next g u hsent =>
      apply refusedFirst_of_late
      intro f hresult
      cases hresult
      exact sendUpdates_late hc hsent
    · apply refusedFirst_of_late
      intro f hresult
      exact storeVersions_late hm hv hresult

theorem update_refusedFirst (hc : c.FailsInRunning) (hm : m.FailsInStoring) (s : Settings) (es : List ε) (state : σ) :
    RefusedFirst (update s c m es state) es state := by
  unfold update
  cases hprepared : prepareUpdate s c m with
  | error f => exact fun _ _ _ => ⟨rfl, rfl⟩
  | ok p => exact updateColumns_refusedFirst hc hm (prepareUpdate_versioning hprepared) s p.2 m.columns es state

theorem updateKnown_refusedFirst (hc : c.FailsInRunning) (hm : m.FailsInStoring) (s : Settings) (e : ε) (state : σ) :
    RefusedFirst (updateKnown s c m e state) [e] state := by
  unfold updateKnown
  cases hprepared : prepareUpdate s c m with
  | error f => exact fun _ _ _ => ⟨rfl, rfl⟩
  | ok p =>
    simp only
    split
    · exact fun _ _ _ => ⟨rfl, rfl⟩
    · split
      · exact fun _ _ _ => ⟨rfl, rfl⟩
      · intro f hresult
        have hfailed := map_error.mp hresult
        rw [← updateColumns_single s] at hfailed ⊢
        exact updateColumns_refusedFirst hc hm (prepareUpdate_versioning hprepared) s p.2 _ [e] state f hfailed

/-- A delete that is refused has not used the connection. -/
theorem delete_refusedFirst (hc : c.FailsInRunning) (s : Settings) (m : Mapping ε) (es : List ε)
    (h : (delete s c m es).start state = (.error f, t)) (hrefuses : f.refuses = true) : t = state := by
  simp only [delete, Run.start_bind, Run.start_ofExcept] at h
  cases hprepared : prepare s c with
  | error g =>
    rw [hprepared] at h
    cases h
    rfl
  | ok _ =>
    rw [hprepared] at h
    cases hid : m.id with
    | error g =>
      rw [hid] at h
      cases h
      rfl
    | ok id =>
      simp only [hid, funext (params_deleteTemplate m.table id), mapM_total] at h
      rw [sendDeletes_late hc h] at hrefuses
      cases hrefuses

/-- An update of records one of which has no next version is refused, and nothing has been sent. -/
theorem update_exhausted {w : Versioning ε} (hv : m.versioning = .ok (some w)) {e : ε} (he : e ∈ es)
    (hversion : w.width.Exhausted (w.column.get e)) (s : Settings) (c : Connection σ) (state : σ) :
    ∃ f, f.refuses = true ∧ update s c m es state = ⟨.error f, es, state⟩ := by
  unfold update
  cases hprepared : prepareUpdate s c m with
  | error f => exact ⟨f, prepareUpdate_refuses hprepared, rfl⟩
  | ok p =>
    have hsame : p.1 = some w := Except.ok.inj ((prepareUpdate_versioning hprepared).symm.trans hv)
    cases hversions : nextVersions p.1 es with
    | error f => exact ⟨f, nextVersions_refuses hversions, by simp only [updateColumns, hversions]⟩
    | ok versions =>
      rw [hsame] at hversions
      obtain ⟨next, hnext⟩ := mapM_mem hversions e he
      exact absurd hnext (hversion.next_ne_ok next)

/-- Writes are refused before the first statement, if connections and setters fail for reasons of their own:

1. An insert, an update, a partial update or a delete that is refused has sent nothing and has left the records as
   they were.
2. So has an update of records one of which has a version that is null, is no integer or is the last of its width,
   wherever that record stands. It is always refused.
3. Without a transaction, all of them are refused for that. -/
theorem refused_before_sending (hc : c.FailsInRunning) (hm : m.FailsInStoring) (s : Settings) (es : List ε) (e : ε)
    (state : σ) :
    let opened : Traced σ := ⟨state, []⟩
    let inserted := insert s c.traced m es opened
    let updated := update s c.traced m es opened
    let known := updateKnown s c.traced m e opened
    let deleted := (delete s c.traced m es).start opened
    (RefusedFirst inserted es opened ∧ RefusedFirst updated es opened ∧ RefusedFirst known [e] opened ∧
      ∀ f, deleted.1 = .error f → f.refuses = true → deleted.2 = opened) ∧
    (∀ w, m.versioning = .ok (some w) → (∃ e ∈ es, w.width.Exhausted (w.column.get e)) →
      ∃ f, f.refuses = true ∧ updated = ⟨.error f, es, opened⟩) ∧
    (c.inTransaction = false → inserted.result = .error .transactionRequired ∧
      updated.result = .error .transactionRequired ∧ known.result = .error .transactionRequired ∧
      deleted.1 = .error .transactionRequired) := by
  intro opened inserted updated known deleted
  refine ⟨⟨insert_refusedFirst hc.traced hm s es opened, update_refusedFirst hc.traced hm s es opened,
    updateKnown_refusedFirst hc.traced hm s e opened, ?_⟩, ?_, ?_⟩
  · intro f hresult hrefuses
    exact delete_refusedFirst hc.traced s m es (Prod.ext hresult rfl) hrefuses
  · intro w hv hexhausted
    obtain ⟨e, he, hversion⟩ := hexhausted
    exact update_exhausted hv he hversion s c.traced opened
  · intro hauto
    have hprepared : prepare s c.traced = .error .transactionRequired := by
      have hopen : c.traced.inTransaction = false := hauto
      rw [prepare, hopen]
      rfl
    have hinsert : prepareInsert s c.traced m = .error .transactionRequired := by
      rw [prepareInsert, hprepared]
      rfl
    have hupdate : prepareUpdate s c.traced m = .error .transactionRequired := by
      rw [prepareUpdate, hprepared]
      rfl
    refine ⟨?_, ?_, ?_, ?_⟩
    · simp only [inserted, insert, hinsert]
    · simp only [updated, update, hupdate]
    · simp only [known, updateKnown, hupdate]
    · simp only [deleted, delete, hprepared, Run.start_bind, Run.start_ofExcept]

namespace Note

/-- Notes of which the last has the last version. -/
def worn : List Note :=
  [⟨1, "first", 3⟩, ⟨2, "second", 0⟩, ⟨3, "third", Int32.maxValue⟩]

theorem failsInStoring : mapping.FailsInStoring := by
  intro col hcol n v f hset
  simp only [Mapping.allColumns, mapping, Mapping.withVersion, Mapping.withColumn, Mapping.withIdentity,
    Mapping.ofTable, Option.map_some, Option.toList_some, List.nil_append, List.cons_append, List.mem_cons,
    List.not_mem_nil, or_false] at hcol
  rcases hcol with rfl | rfl | rfl
  · cases hset
  · cases hset
  · simp only [versionColumn] at hset
    split at hset
    · cases hset
    · cases hset
      rfl

end Note

theorem refused_before_sending_worn :
    let c := Script.connection .sqlite true
    let opened : Traced Script := ⟨Note.stale, []⟩
    let o := update Note.inPairs c.traced Note.mapping Note.worn opened
    c.FailsInRunning ∧ Note.mapping.FailsInStoring ∧ o.result = .error (.versionOverflow 2147483647) ∧
      o.records = Note.worn ∧ o.state.sent = [] := by
  intro c opened o
  have hc : c.FailsInRunning := Script.failsInRunning .sqlite true
  have hm : Note.mapping.FailsInStoring := Note.failsInStoring
  have hresult : o.result = .error (.versionOverflow 2147483647) := rfl
  have hexhausted : VersionWidth.int.Exhausted (.int Int32.maxValue) := .inr (.inr rfl)
  obtain ⟨_, hupdate, _⟩ := refused_before_sending hc hm Note.inPairs Note.worn ⟨1, "first", 3⟩ Note.stale
  have hthird : ⟨3, "third", Int32.maxValue⟩ ∈ Note.worn := by simp [Note.worn]
  obtain ⟨f, _, ho⟩ := hupdate Note.versioned.version rfl ⟨_, hthird, hexhausted⟩
  refine ⟨hc, hm, hresult, ?_, ?_⟩
  · exact congrArg Outcome.records ho
  · exact congrArg (fun o => o.state.sent) ho

end Mutation

end TableQuery
