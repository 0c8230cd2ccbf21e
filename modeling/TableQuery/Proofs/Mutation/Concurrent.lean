import Mathlib.Logic.Function.Basic
import Mathlib.Logic.Relation
import TableQuery.Proofs.Mutation.Ledger

/- No update is lost. Clients read rows into records, edit them and ask for updates, in any order. A call
   that fails is rolled back, and one that does not is committed.

   What carries this are two facts about every state that the clients can reach. The committed writes to
   each row are in order (`Ledger`), and no client has a record with a later version than that of its row
   (`Copy`), so that no list that is committed has two records of one row. -/
namespace TableQuery.Mutation

section

variable {σ ε ι κ : Type} {m : Mapping ε} {V : Versioned m} {db : Database σ ι} {t₀ t : StoredTable ι}
  {start : ι → Int} {written : List ε}

/-! ## Copies of rows -/

/-- The record has the identity of a row, and a version that the row has or has had. -/
def Copy (V : Versioned m) (db : Database σ ι) (t₀ : StoredTable ι) (start : ι → Int) (written : List ε) (e : ε) :
    Prop :=
  ∃ i n, V.Names db t₀ e i ∧ V.version? e = some n ∧ n ≤ start i + (V.writes db t₀ i written).length

theorem Copy.append {e : ε} (h : Copy V db t₀ start written e) (es : List ε) :
    Copy V db t₀ start (written ++ es) e := by
  obtain ⟨i, n, hnames, hversion, hle⟩ := h
  refine ⟨i, n, hnames, hversion, ?_⟩
  rw [Versioned.writes_append, List.length_append]
  omega

/-- An edit changes neither the identity nor the version. -/
theorem Copy.edit {e e' : ε} (h : Copy V db t₀ start written e) (hid : V.id.get e' = V.id.get e)
    (hversion : V.version.column.get e' = V.version.column.get e) : Copy V db t₀ start written e' := by
  obtain ⟨i, n, hnames, hn, hle⟩ := h
  refine ⟨i, n, ?_, ?_, hle⟩
  · rw [Versioned.Names, hid]
    exact hnames
  · rw [Versioned.version?, hversion]
    exact hn

/-- A record that was written carried a version before that of its row. -/
theorem Ledger.version_lt (h : Ledger V db t₀ start t written) {e : ε} (he : e ∈ written) {i : ι}
    (hnames : V.Names db t₀ e i) {n : Int} (hn : V.version? e = some n) :
    n < start i + (V.writes db t₀ i written).length := by
  have hmem : e ∈ V.writes db t₀ i written := List.mem_filter.mpr ⟨he, decide_eq_true hnames⟩
  have hversion : some n ∈ (V.writes db t₀ i written).map V.version? := List.mem_map.mpr ⟨e, hmem, hn⟩
  rw [h.carried] at hversion
  obtain ⟨k, hk, heq⟩ := List.mem_map.mp hversion
  have hlt := List.mem_range.mp hk
  have hkn := Option.some.inj heq
  omega

/-- Records that are written after others carry the versions that follow. -/
theorem Ledger.carried_after {es : List ε} (h : Ledger V db t₀ start t written) {t' : StoredTable ι}
    (h' : Ledger V db t₀ start t' (written ++ es)) (i : ι) :
    (V.writes db t₀ i es).map V.version? = (List.range (V.writes db t₀ i es).length).map fun k : Nat =>
      some (start i + ((V.writes db t₀ i written).length + k : Nat)) := by
  have hall := h'.carried i
  rw [Versioned.writes_append, List.map_append, List.length_append, List.range_add, List.map_append, List.map_map,
    ← h.carried i] at hall
  exact List.append_cancel_left hall

/-- Copies that are written together are of different rows, and each carries the version that its row has
before. -/
theorem Ledger.version_eq {es : List ε} (h : Ledger V db t₀ start t written) {t' : StoredTable ι}
    (h' : Ledger V db t₀ start t' (written ++ es)) (hids : V.UniqueIds db t₀)
    (hcopies : ∀ e ∈ es, Copy V db t₀ start written e) {e : ε} (he : e ∈ es) {i : ι} (hnames : V.Names db t₀ e i)
    {n : Int} (hn : V.version? e = some n) :
    n + 1 = start i + (V.writes db t₀ i (written ++ es)).length := by
  have hcarried := h.carried_after h' i
  have hbound : ∀ e₁ ∈ V.writes db t₀ i es, ∀ n₁, V.version? e₁ = some n₁ →
      n₁ ≤ start i + (V.writes db t₀ i written).length := by
    intro e₁ he₁ n₁ hn₁
    obtain ⟨hmem, hname⟩ := List.mem_filter.mp he₁
    obtain ⟨j, k, hj, hk, hle⟩ := hcopies e₁ hmem
    obtain rfl : j = i := hids _ j i hj (of_decide_eq_true hname)
    obtain rfl : k = n₁ := Option.some.inj (hk.symm.trans hn₁)
    exact hle
  -- A second record of the row would carry a version after the one that the row has.
  have hsingle : (V.writes db t₀ i es).length ≤ 1 := by
    apply Nat.le_of_not_lt
    intro htwo
    have hmem : some (start i + ((V.writes db t₀ i written).length + 1 : Nat)) ∈
        (V.writes db t₀ i es).map V.version? := by
      rw [hcarried]
      exact List.mem_map.mpr ⟨1, List.mem_range.mpr htwo, rfl⟩
    obtain ⟨e₁, he₁, hversion⟩ := List.mem_map.mp hmem
    have hle := hbound e₁ he₁ _ hversion
    omega
  have hmem : some n ∈ (V.writes db t₀ i es).map V.version? :=
    List.mem_map.mpr ⟨e, List.mem_filter.mpr ⟨he, decide_eq_true hnames⟩, hn⟩
  rw [hcarried] at hmem
  obtain ⟨k, hk, heq⟩ := List.mem_map.mp hmem
  have hlt := List.mem_range.mp hk
  have hkn := Option.some.inj heq
  rw [Versioned.writes_append, List.length_append]
  omega

theorem mem_of_forall₂ {R : ε → ε → Prop} {es es' : List ε} (h : List.Forall₂ R es es') {e' : ε} (he : e' ∈ es') :
    ∃ e ∈ es, R e e' := by
  induction h with
  | nil => cases he
  | cons hr _ ih =>
    rcases List.mem_cons.mp he with rfl | he
    · exact ⟨_, List.mem_cons_self, hr⟩
    · obtain ⟨e, hmem, hr⟩ := ih he
      exact ⟨e, List.mem_cons_of_mem _ hmem, hr⟩

/-- A record that was written and has advanced is a copy of its row. -/
theorem Copy.advance {es : List ε} (h : Ledger V db t₀ start t (written ++ es)) {e e' : ε} (he : e ∈ es)
    (hcopy : Copy V db t₀ start written e) (hadv : V.Advanced e e') : Copy V db t₀ start (written ++ es) e' := by
  obtain ⟨i, n, hnames, hn, _⟩ := hcopy
  obtain ⟨hid, k, hk, hnext⟩ := hadv
  obtain rfl : n = k := Option.some.inj (hn.symm.trans hk)
  refine ⟨i, n + 1, ?_, hnext, h.version_lt (List.mem_append_right _ he) hnames hn⟩
  rw [Versioned.Names, hid]
  exact hnames

/-! ## Clients -/

/-- The database and what its clients have in hand. -/
structure World (σ ε κ : Type) where
  state : σ
  held : κ → List ε
  /-- The records of each call that has been committed, as they were when it was made. -/
  commits : List (List ε)

/-- No client has read anything yet. -/
def World.initial (s : σ) : World σ ε κ :=
  ⟨s, fun _ => [], []⟩

/-- How a transaction ends: with what the call has left in the table, or with what was there before a call
that failed. -/
def Ends (db : Database σ ι) (before : σ) (o : Outcome σ ε Bool) (after : σ) : Prop :=
  match o.result with
  | .ok _ => db.table after = db.table o.state
  | .error _ => db.table after = db.table before

/-- The transaction of a call that does not write leaves the table as it was. -/
theorem Ends.unwritten (V : Versioned m) {s : Settings} {c : Connection σ} {r : Request ε} {before after : σ}
    {o : Outcome σ ε Bool} (hends : Ends db before o after) (ho : r.run s c m before = o)
    (hne : o.result ≠ .ok true) : db.table after = db.table before := by
  unfold Ends at hends
  split at hends
  · next b hb =>
    cases b with
    | true => exact absurd hb hne
    | false => rw [hends, (r.run_unwritten V ho hne).2 hb]
  · exact hends

def commit (commits : List (List ε)) (r : Request ε) (o : Outcome σ ε Bool) : List (List ε) :=
  match o.result with
  | .ok true => commits ++ [r.records]
  | _ => commits

/-- What is known of the database and its table: the clients' updates run on it, its integers stay as they
are, no two rows have one identity, and the versions are integers, from `start` on. -/
structure Hosted (V : Versioned m) (db : Database σ ι) [Fintype ι] (connection : κ → Connection σ) (s₀ : σ)
    (start : ι → Int) : Prop where
  integers : KeepsIntegers db V.version.column.name
  runs : ∀ k, ∀ columns : List (Column ε), columns.Sublist m.columns → db.Runs (connection k) (V.statement columns)
  ids : V.UniqueIds db (db.table s₀)
  versions : ∀ i, V.stored? (db.table s₀) i = some (start i)

/-- What holds in every state that the clients can reach. -/
structure Consistent (V : Versioned m) (db : Database σ ι) (s₀ : σ) (start : ι → Int)
    (w : World σ ε κ) : Prop where
  ledger : Ledger V db (db.table s₀) start (db.table w.state) w.commits.flatten
  copies : ∀ k, ∀ e ∈ w.held k, Copy V db (db.table s₀) start w.commits.flatten e

variable {connection : κ → Connection σ} {s₀ : σ} {w w' : World σ ε κ}

theorem consistent_initial (h : ∀ i, V.stored? (db.table s₀) i = some (start i)) :
    Consistent V db s₀ start (World.initial s₀ : World σ ε κ) where
  ledger := ledger_start h
  copies _ _ he := absurd he List.not_mem_nil

theorem Consistent.read (hw : Consistent V db s₀ start w) {e : ε} {i : ι}
    (hnames : V.Names db (db.table w.state) e i) (hversion : V.version? e = V.stored? (db.table w.state) i) :
    Copy V db (db.table s₀) start w.commits.flatten e :=
  ⟨i, _, hw.ledger.names_iff.mp hnames, hversion.trans (hw.ledger.stored i), le_refl _⟩

/-- After a call that writes, the writes are in order with those of its records at the end. -/
theorem Consistent.ledger_call [Fintype ι] (h : Hosted V db connection s₀ start)
    (hw : Consistent V db s₀ start w) {k : κ}
    {s : Settings} {r : Request ε} {o : Outcome σ ε Bool} (ho : r.run s (connection k) m w.state = o)
    (hok : o.result = .ok true) :
    Ledger V db (db.table s₀) start (db.table o.state) (w.commits.flatten ++ r.records) := by
  obtain ⟨⟨batch, hbatch, hwritten, htable⟩, _⟩ :=
    r.run_written h.integers (h.runs k _ (r.columns_sublist m)) hw.ledger.isSome ho hok
  have hlen : r.records.length = batch.length := (mapM_length hbatch).symm
  have hledger := hw.ledger.run h.ids hwritten
  rw [List.map_snd_zip (Nat.le_of_eq hlen.symm), List.map_fst_zip (Nat.le_of_eq hlen)] at hledger
  rw [htable]
  exact hledger

variable [DecidableEq κ]

/-- What one client does to its records is nothing to the others. -/
theorem copies_update {k : κ} {es : List ε} {held : κ → List ε}
    (hheld : ∀ j, ∀ e ∈ held j, Copy V db t₀ start written e) (hes : ∀ e ∈ es, Copy V db t₀ start written e) :
    ∀ j, ∀ e ∈ Function.update held k es j, Copy V db t₀ start written e := by
  intro j e he
  by_cases hj : j = k
  · subst hj
    rw [Function.update_self] at he
    exact hes e he
  · rw [Function.update_of_ne hj] at he
    exact hheld j e he

/-- What a client can do. -/
inductive Step (V : Versioned m) (db : Database σ ι) (connection : κ → Connection σ) :
    World σ ε κ → World σ ε κ → Prop where
  | read {w : World σ ε κ} (k : κ) (e : ε) (i : ι) :
    V.Names db (db.table w.state) e i → V.version? e = V.stored? (db.table w.state) i →
    Step V db connection w { w with held := Function.update w.held k (e :: w.held k) }
  /-- Edits, copies, drops and rearranges records. Edits change neither identities nor versions. -/
  | edit {w : World σ ε κ} (k : κ) (es : List ε) :
    (∀ e' ∈ es, ∃ e ∈ w.held k,
      V.id.get e' = V.id.get e ∧ V.version.column.get e' = V.version.column.get e) →
    Step V db connection w { w with held := Function.update w.held k es }
  /-- Asks for an update of some of its records, with any settings. -/
  | call {w : World σ ε κ} (k : κ) (s : Settings) (r : Request ε) (before after : List ε) (o : Outcome σ ε Bool)
    (s' : σ) :
    w.held k = before ++ r.records ++ after → r.run s (connection k) m w.state = o → Ends db w.state o s' →
    Step V db connection w
      ⟨s', Function.update w.held k (before ++ o.records ++ after), commit w.commits r o⟩

variable [Fintype ι]

theorem Consistent.call (h : Hosted V db connection s₀ start) (hw : Consistent V db s₀ start w) {k : κ}
    {s : Settings} {r : Request ε} {before after : List ε} {o : Outcome σ ε Bool} {s' : σ}
    (hheld : w.held k = before ++ r.records ++ after) (ho : r.run s (connection k) m w.state = o)
    (hends : Ends db w.state o s') :
    Consistent V db s₀ start
      ⟨s', Function.update w.held k (before ++ o.records ++ after), commit w.commits r o⟩ := by
  by_cases hok : o.result = .ok true
  · have hcommit : (commit w.commits r o).flatten = w.commits.flatten ++ r.records := by
      simp only [commit, hok, List.flatten_append, List.flatten_singleton]
    have htable : db.table s' = db.table o.state := by
      simpa only [Ends, hok] using hends
    obtain ⟨_, hadvanced⟩ := r.run_written h.integers (h.runs k _ (r.columns_sublist m)) hw.ledger.isSome ho hok
    have hledger := hw.ledger_call h ho hok
    have hmem : ∀ e ∈ before ++ r.records ++ after, Copy V db (db.table s₀) start w.commits.flatten e := by
      rw [← hheld]
      exact hw.copies k
    constructor
    · simp only [hcommit, htable]
      exact hledger
    · simp only [hcommit]
      refine copies_update (fun j e he => (hw.copies j e he).append _) fun e he => ?_
      -- The records of the call have advanced with their rows; the others are copies as before.
      rcases List.mem_append.mp he with he | hafter
      · rcases List.mem_append.mp he with hbefore | hrecords
        · exact (hmem e (List.mem_append_left _ (List.mem_append_left _ hbefore))).append _
        · obtain ⟨e₀, he₀, hadv⟩ := mem_of_forall₂ hadvanced hrecords
          have hcopy := hmem e₀ (List.mem_append_left _ (List.mem_append_right _ he₀))
          exact hcopy.advance hledger he₀ hadv
      · exact (hmem e (List.mem_append_right _ hafter)).append _
  · have hrecords : o.records = r.records := (r.run_unwritten V ho hok).1
    have hcommit : commit w.commits r o = w.commits := by
      unfold commit
      split
      · next hresult => exact absurd hresult hok
      · rfl
    have htable : db.table s' = db.table w.state := hends.unwritten V ho hok
    constructor
    · simp only [hcommit, htable]
      exact hw.ledger
    · simp only [hcommit, hrecords]
      refine copies_update hw.copies ?_
      rw [← hheld]
      exact hw.copies k

theorem Consistent.step (h : Hosted V db connection s₀ start) (hw : Consistent V db s₀ start w)
    (hs : Step V db connection w w') : Consistent V db s₀ start w' := by
  cases hs with
  | read k e i hnames hversion =>
    refine ⟨hw.ledger, copies_update hw.copies fun e' he' => ?_⟩
    rcases List.mem_cons.mp he' with rfl | he'
    · exact hw.read hnames hversion
    · exact hw.copies k e' he'
  | edit k es hedit =>
    refine ⟨hw.ledger, copies_update hw.copies fun e' he' => ?_⟩
    obtain ⟨e, he, hid, hversion⟩ := hedit e' he'
    exact (hw.copies k e he).edit hid hversion
  | call k s r before after o s' hheld ho hends => exact hw.call h hheld ho hends

theorem consistent_reachable (h : Hosted V db connection s₀ start)
    (hw : Relation.ReflTransGen (Step V db connection) (World.initial s₀) w) : Consistent V db s₀ start w := by
  induction hw with
  | refl => exact consistent_initial h.versions
  | tail _ hs ih => exact ih.step h hs

/-! ## Main results -/

/-- No update is lost. In every state that the clients can reach:

1. The version of a row is the first one plus the number of committed writes to the row.
2. Of the calls that have been committed, no two have written a row in the same version.
3. A call that writes has found, at the moment of each write, the version of the record in the row that it
   names; afterwards the records have the versions of their rows.
4. A call that does not write, be it that it fails, leaves the records and the table as they were. -/
theorem no_lost_updates (h : Hosted V db connection s₀ start)
    (hw : Relation.ReflTransGen (Step V db connection) (World.initial s₀) w) :
    (∀ i, V.stored? (db.table w.state) i =
      some (start i + (V.writes db (db.table s₀) i w.commits.flatten).length)) ∧
    (w.commits.Pairwise fun es es' => ∀ e ∈ es, ∀ e' ∈ es', ∀ i,
      V.Names db (db.table s₀) e i → V.Names db (db.table s₀) e' i → V.version? e ≠ V.version? e') ∧
    (∀ (k : κ) (s : Settings) (r : Request ε), (∀ e ∈ r.records, e ∈ w.held k) →
      ∀ o, r.run s (connection k) m w.state = o → o.result = .ok true →
        (∃ batch, r.records.mapM (updateTemplate m.table (r.columns m) V.id (some V.version)).params = .ok batch ∧
          V.Written db (V.statement (r.columns m)) (db.table w.state) (r.records.zip batch) ∧
          db.table o.state = db.writeAll (V.statement (r.columns m)) (db.table w.state) batch) ∧
        ∀ e ∈ o.records, ∃ i, V.Names db (db.table o.state) e i ∧
          V.version? e = V.stored? (db.table o.state) i) ∧
    ∀ (k : κ) (s : Settings) (r : Request ε) o, r.run s (connection k) m w.state = o → o.result ≠ .ok true →
      o.records = r.records ∧ ∀ s', Ends db w.state o s' → db.table s' = db.table w.state := by
  have hc := consistent_reachable h hw
  refine ⟨hc.ledger.stored, (List.pairwise_flatten.mp hc.ledger.pairwise).2, ?_, fun k s r o ho hne =>
    ⟨(r.run_unwritten V ho hne).1, fun s' hends => hends.unwritten V ho hne⟩⟩
  intro k s r hheld o ho hok
  obtain ⟨hwritten, hadvanced⟩ :=
    r.run_written h.integers (h.runs k _ (r.columns_sublist m)) hc.ledger.isSome ho hok
  refine ⟨hwritten, fun e' he' => ?_⟩
  have hcopies : ∀ e ∈ r.records, Copy V db (db.table s₀) start w.commits.flatten e :=
    fun e he => hc.copies k e (hheld e he)
  have hledger := hc.ledger_call h ho hok
  obtain ⟨e, he, hid, n, hn, hnext⟩ := mem_of_forall₂ hadvanced he'
  obtain ⟨i, _, hnames, _, _⟩ := hcopies e he
  refine ⟨i, ?_, ?_⟩
  · rw [hledger.names_iff, Versioned.Names, hid]
    exact hnames
  · rw [hledger.stored, hnext, hc.ledger.version_eq hledger h.ids hcopies he hnames hn]

end

/-! ## Two clients and one note -/

structure Note where
  id : Int64
  body : String
  version : Int32

namespace Note

def idColumn : Column Note :=
  ⟨⟨"id", "Note", .long⟩, fun n => .long n.id, fun n _ => .ok n⟩

def bodyColumn : Column Note :=
  ⟨⟨"body", "Note", .text⟩, fun n => .text n.body, fun n _ => .ok n⟩

def versionColumn : Column Note :=
  ⟨⟨"version", "Note", .int⟩, fun n => .int n.version, fun n v =>
    match v with
    | .int k => .ok { n with version := k }
    | _ => .error (.decode "version is not an integer")⟩

def mapping : Mapping Note :=
  ((Mapping.ofTable "notes").withIdentity idColumn false).withColumn bodyColumn |>.withVersion versionColumn

def versioned : Versioned mapping where
  id := idColumn
  generated := false
  version := ⟨versionColumn, .int⟩
  identity_eq := rfl
  version_eq := rfl
  width_eq := rfl
  distinct := by decide
  set_version e n v h := by
    have hn := VersionWidth.toInt?_of_value? h
    simp only [VersionWidth.value?, Value.ofInt32?, Option.ite_none_right_eq_some, Option.some.injEq] at h
    obtain ⟨_, rfl⟩ := h
    exact ⟨{ e with version := Int32.ofInt n }, rfl, hn, rfl⟩

/-- A database that compares integers and keeps values as they are. -/
def database : Database (StoredTable (Fin 2)) (Fin 2) :=
  ⟨fun t => t, fun a b => a.toInt?.isSome && a.toInt? == b.toInt?, fun _ v => v⟩

/-- The statements that the clients can send. -/
def statements : List UpdateStatement :=
  [versioned.statement [bodyColumn], versioned.statement []]

def connection : Connection (StoredTable (Fin 2)) where
  dialect := .sqlite
  inTransaction := true
  query _ _ := pure []
  executeBatch sql batch := do
    let t ← get
    match statements.find? fun u => u.text .sqlite == sql with
    | some u => do
      set (database.writeAll u t batch)
      pure (database.counts u t batch)
    | none => throw (.execution "unknown statement")
  fetchBatch _ _ := pure []

/-- Two notes, in their versions 3 and 0. -/
def stored : StoredTable (Fin 2)
  | 0, "id" => .long 1
  | 0, "version" => .int 3
  | 1, "id" => .long 2
  | 1, "version" => .int 0
  | _, _ => .null

def versions (i : Fin 2) : Int :=
  if i = 0 then 3 else 0

def first : Note := ⟨1, "first", 3⟩

def edited : Note := ⟨1, "edited", 3⟩

theorem runs_of_find {u : UpdateStatement}
    (h : statements.find? (fun v => v.text .sqlite == u.text .sqlite) = some u) : database.Runs connection u where
  executed {batch s counts s'} hrun := by
    have hexecuted : (connection.executeBatch (u.text connection.dialect) batch).start s =
        (.ok (database.counts u s batch), database.writeAll u s batch) := by
      simp only [connection]
      rw [h]
      rfl
    rw [hexecuted] at hrun
    obtain ⟨hcounts, rfl⟩ := Prod.mk.inj hrun
    cases hcounts
    exact ⟨rfl, rfl⟩

theorem integers : KeepsIntegers database versioned.version.column.name where
  same_iff {a b m n} ha hb := by
    simp only [database, ha, hb, Option.isSome_some, Bool.true_and, beq_iff_eq, Option.some.injEq]
  kept_eq h := h

theorem unique : versioned.UniqueIds database stored := by
  intro v i j hi hj
  simp only [database, Bool.and_eq_true, beq_iff_eq] at hi hj
  have hij : (stored i "id").toInt? = (stored j "id").toInt? := hi.2.trans hj.2.symm
  match i, j with
  | 0, 0 => rfl
  | 0, 1 => cases hij
  | 1, 0 => cases hij
  | 1, 1 => rfl

theorem hosted : Hosted versioned database (fun _ : Bool => connection) stored versions where
  integers := integers
  runs _ columns h := by
    rcases List.sublist_singleton.mp h with rfl | rfl
    · exact runs_of_find (by rfl)
    · exact runs_of_find (by rfl)
  ids := unique
  versions i := by
    match i with
    | 0 => rfl
    | 1 => rfl

/-- The outcome of the first call, for the edited note. -/
def committed : Outcome (StoredTable (Fin 2)) Note Bool :=
  (Request.all [edited]).run .default connection mapping stored

/-- The outcome of the second call, for the note that the other client has still got. -/
def rejected : Outcome (StoredTable (Fin 2)) Note Bool :=
  (Request.known first).run .default connection mapping committed.state

/-- Both clients have read the first note, and one has edited it, when both ask for an update. -/
def race : World (StoredTable (Fin 2)) Note Bool :=
  ⟨committed.state, fun k => if k then committed.records else rejected.records, [[edited]]⟩

/-- Of the two calls, the first is committed, and the second is rolled back since its version is stale. -/
theorem race_reachable :
    Relation.ReflTransGen (Step versioned database fun _ : Bool => connection) (World.initial stored) race := by
  have hread := Relation.ReflTransGen.refl (r := Step versioned database fun _ : Bool => connection)
    |>.tail (.read (w := World.initial stored) true first 0 rfl rfl)
    |>.tail (.read false first 0 rfl rfl)
  have hedit := hread.tail (.edit true [edited] fun e he => ⟨first, List.mem_cons_self, by
    obtain rfl := List.mem_singleton.mp he
    exact ⟨rfl, rfl⟩⟩)
  have hcall := hedit.tail (.call true .default (.all [edited]) [] [] committed committed.state rfl rfl rfl)
  have hlast := hcall.tail (.call false .default (.known first) [] [] rejected committed.state rfl rfl rfl)
  have hheld : (fun k => if k then committed.records else rejected.records) =
      Function.update (Function.update (Function.update (Function.update (Function.update (fun _ => []) true [first])
        false [first]) true [edited]) true committed.records) false rejected.records := by
    funext k
    cases k <;> rfl
  rw [race, hheld]
  exact hlast

end Note

theorem no_lost_updates_race :
    Hosted Note.versioned Note.database (fun _ : Bool => Note.connection) Note.stored Note.versions ∧
    Relation.ReflTransGen (Step Note.versioned Note.database fun _ : Bool => Note.connection)
      (World.initial Note.stored) Note.race ∧
    Note.versioned.stored? (Note.database.table Note.race.state) 0 = some 4 :=
  ⟨Note.hosted, Note.race_reachable, (no_lost_updates Note.hosted Note.race_reachable).1 0⟩

end TableQuery.Mutation
