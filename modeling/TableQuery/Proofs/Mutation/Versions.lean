import TableQuery.Proofs.Mutation.Batches
import TableQuery.Proofs.Value.Integer

/- Updates under version numbers. An update of a record that matches one row has found the version of the
   record in that row, and leaves the next one there (`write_bump`). So an update of many records that
   comes back without a failure is a run of such writes, one after the other, and the records have the next
   versions afterwards (`updateColumns_ok`); one that fails leaves the records as they were. -/
namespace TableQuery

namespace VersionWidth

variable {w : VersionWidth} {n : Int} {v next : Value}

theorem toInt?_of_value? (h : w.value? n = some v) : v.toInt? = some n := by
  cases w with
  | int => exact Value.toInt?_of_ofInt32? h
  | long => exact Value.toInt?_of_ofInt64? h

/-- A version that has a next one is an integer, and the next one is that of the width after it. -/
theorem next_ok (h : w.next v = .ok next) : ∃ n, v.toInt? = some n ∧ w.value? (n + 1) = some next := by
  unfold VersionWidth.next at h
  split at h
  · cases h
  · split at h
    · cases h
    · next n hn =>
      split at h
      · next x hx =>
        cases h
        obtain ⟨_, _, hnext⟩ := Option.bind_eq_some_iff.mp hx
        exact ⟨n, hn, hnext⟩
      · cases h

end VersionWidth

namespace Mutation

variable {σ ε ι : Type} {m : Mapping ε}

/-! ## Versioned mappings -/

/-- A mapping with a version column. The names of its columns differ, and a version that is stored in a
record is read back from it and leaves its identity as it is. -/
structure Versioned (m : Mapping ε) where
  id : Column ε
  generated : Bool
  version : Versioning ε
  identity_eq : m.identity = some ⟨id, generated⟩
  version_eq : m.version = some version.column
  width_eq : VersionWidth.ofProperty version.column.property = .ok version.width
  distinct : (id.name :: version.column.name :: m.columns.map Column.name).Nodup
  set_version : ∀ (e : ε) {n : Int} {v : Value}, version.width.value? n = some v →
    ∃ e', version.column.set e v = .ok e' ∧ (version.column.get e').toInt? = some n ∧ id.get e' = id.get e

/-- A database compares integers by their values, and the column keeps them. -/
structure KeepsIntegers (db : Database σ ι) (column : String) : Prop where
  same_iff : ∀ {a b : Value} {m n : Int}, a.toInt? = some m → b.toInt? = some n → (db.same a b = true ↔ m = n)
  kept_eq : ∀ {v : Value} {n : Int}, v.toInt? = some n → (db.kept column v).toInt? = some n

namespace Versioned

variable (V : Versioned m)

theorem versioning_eq : m.versioning = .ok (some V.version) := by
  simp only [Mapping.versioning, V.version_eq, V.width_eq, Except.map]

theorem id_eq : m.id = .ok V.id := by
  simp only [Mapping.id, V.identity_eq]

def statement (columns : List (Column ε)) : UpdateStatement :=
  versionedUpdate m.table columns V.id V.version

/-- The parameters of that statement: the values of the columns, the next version, and what the row must
match. -/
def params (columns : List (Column ε)) (e : ε) (next : Value) : List Value :=
  columns.map (·.get e) ++ [next] ++ [V.id.get e, V.version.column.get e]

theorem params_ok_iff (columns : List (Column ε)) (e : ε) (vs : List Value) :
    (updateTemplate m.table columns V.id (some V.version)).params e = .ok vs ↔
      ∃ next, V.version.width.next (V.version.column.get e) = .ok next ∧ vs = V.params columns e next := by
  have hcolumns : (columns.map Slot.column).mapM (Slot.value e) = .ok (columns.map (·.get e)) := by
    rw [List.mapM_map]
    exact mapM_total (fun c : Column ε => c.get e) columns
  have hmatch : [Slot.column V.id, .column V.version.column].mapM (Slot.value e) =
      .ok [V.id.get e, V.version.column.get e] := rfl
  rw [Template.params, bindings_updateTemplate, mapM_append_ok, hmatch]
  constructor
  · rintro ⟨_, _, hset, ⟨⟩, rfl⟩
    obtain ⟨_, _, hvalues, hversion, rfl⟩ := mapM_append_ok.mp hset
    rw [hcolumns] at hvalues
    cases hvalues
    obtain ⟨next, hnext, rfl⟩ := mapM_singleton_ok.mp hversion
    exact ⟨next, hnext, rfl⟩
  · rintro ⟨next, hnext, rfl⟩
    have hversion : [Slot.nextVersion V.version].mapM (Slot.value e) = .ok [next] :=
      mapM_singleton_ok.mpr ⟨next, hnext, rfl⟩
    exact ⟨_, _, mapM_append_ok.mpr ⟨_, _, hcolumns, hversion, rfl⟩, rfl, rfl⟩

/-! ## One write -/

def version? (e : ε) : Option Int :=
  (V.version.column.get e).toInt?

def stored? (t : StoredTable ι) (i : ι) : Option Int :=
  (t i V.version.column.name).toInt?

/-- The record has the identity of the row. -/
def Names (db : Database σ ι) (t : StoredTable ι) (e : ε) (i : ι) : Prop :=
  db.same (t i V.id.name) (V.id.get e) = true

/-- A write of a record to the row that it names, which had the version of the record and gets the next
one. Nothing else changes in other rows, nor any identity. -/
structure Bump (db : Database σ ι) (t : StoredTable ι) (e : ε) (i : ι) (n : Int) (t' : StoredTable ι) : Prop where
  names : V.Names db t e i
  carried : V.version? e = some n
  found : V.stored? t i = some n
  bumped : V.stored? t' i = some (n + 1)
  ids : ∀ j, t' j V.id.name = t j V.id.name
  others : ∀ j, j ≠ i → t' j = t j

variable {V}

theorem tests_params (columns : List (Column ε)) (e : ε) (next : Value) :
    (V.statement columns).tests (V.params columns e next) =
      [(V.id.name, V.id.get e), (V.version.column.name, V.version.column.get e)] := by
  have hdrop : (V.params columns e next).drop (V.statement columns).assigned.length =
      [V.id.get e, V.version.column.get e] := by
    apply List.drop_left'
    simp only [statement, versionedUpdate, List.length_append, List.length_map, List.length_singleton]
  rw [UpdateStatement.tests, hdrop]
  rfl

theorem assignments_params (columns : List (Column ε)) (e : ε) (next : Value) :
    (V.statement columns).assignments (V.params columns e next) =
      (columns.map Column.name).zip (columns.map (·.get e)) ++ [(V.version.column.name, next)] := by
  simp only [UpdateStatement.assignments, statement, versionedUpdate, params, List.append_assoc]
  rw [List.zip_append (by simp only [List.length_map])]
  rfl

theorem holds_params_iff {db : Database σ ι} {columns : List (Column ε)} {e : ε} {next : Value}
    {row : String → Value} :
    db.holds ((V.statement columns).tests (V.params columns e next)) row = true ↔
      db.same (row V.id.name) (V.id.get e) = true ∧
        db.same (row V.version.column.name) (V.version.column.get e) = true := by
  simp only [tests_params, Database.holds, List.all_cons, List.all_nil, Bool.and_true, Bool.and_eq_true]

/-- A column that is not among those that are set is not looked up in them. -/
theorem lookup_zip_of_not_mem {c : String} {names : List String} (h : c ∉ names) (vs : List Value) :
    (names.zip vs).lookup c = none := by
  rw [List.lookup_eq_none_iff]
  intro p hp
  have hmem : p.1 ∈ names := (List.of_mem_zip hp).1
  rw [bne_iff_ne]
  intro heq
  exact h (heq ▸ hmem)

variable {columns : List (Column ε)}

theorem version_not_mem (hcols : columns.Sublist m.columns) : V.version.column.name ∉ columns.map Column.name := by
  have hd := (List.nodup_cons.mp (List.nodup_cons.mp V.distinct).2).1
  exact fun h => hd ((hcols.map Column.name).subset h)

theorem id_not_mem (hcols : columns.Sublist m.columns) : V.id.name ∉ columns.map Column.name := by
  have hd := (List.nodup_cons.mp V.distinct).1
  exact fun h => hd (List.mem_cons_of_mem _ ((hcols.map Column.name).subset h))

theorem id_ne_version : V.id.name ≠ V.version.column.name := by
  have hd := (List.nodup_cons.mp V.distinct).1
  exact fun h => hd (h ▸ List.mem_cons_self)

/-- The version column is set to the next version. -/
theorem assign_version (hcols : columns.Sublist m.columns) (db : Database σ ι) (e : ε) (next : Value)
    (row : String → Value) :
    db.assign ((V.statement columns).assignments (V.params columns e next)) row V.version.column.name =
      db.kept V.version.column.name next := by
  rw [assignments_params, Database.assign, List.lookup_append,
    lookup_zip_of_not_mem (version_not_mem hcols), Option.none_or, List.lookup_cons_self]

/-- The identity is not set. -/
theorem assign_id (hcols : columns.Sublist m.columns) (db : Database σ ι) (e : ε) (next : Value)
    (row : String → Value) :
    db.assign ((V.statement columns).assignments (V.params columns e next)) row V.id.name = row V.id.name := by
  have hne : (V.id.name == V.version.column.name) = false := beq_false_of_ne id_ne_version
  rw [assignments_params, Database.assign, List.lookup_append, lookup_zip_of_not_mem (id_not_mem hcols),
    Option.none_or, List.lookup_cons, hne]
  rfl

/-- A write that matches one row has found the version of the record there. -/
theorem write_bump [Fintype ι] {db : Database σ ι} (hdb : KeepsIntegers db V.version.column.name)
    (hcols : columns.Sublist m.columns) {t : StoredTable ι} (ht : ∀ i, (V.stored? t i).isSome)
    {e : ε} {next : Value}
    (hnext : V.version.width.next (V.version.column.get e) = .ok next)
    (hone : db.matched (V.statement columns) t (V.params columns e next) = 1) :
    ∃ i n, V.Bump db t e i n (db.write (V.statement columns) t (V.params columns e next)) := by
  obtain ⟨i, hi⟩ := db.matched_eq_one_iff.mp hone
  obtain ⟨n, hcarried, hvalue⟩ := VersionWidth.next_ok hnext
  obtain ⟨hnames, hversion⟩ := holds_params_iff.mp ((hi i).mpr rfl)
  -- The row passes the test for the version, and integers that are the same to the database are equal.
  obtain ⟨k, hk⟩ := Option.isSome_iff_exists.mp (ht i)
  have hkn : k = n := (hdb.same_iff hk hcarried).mp hversion
  refine ⟨i, n, hnames, hcarried, hkn ▸ hk, ?_, ?_, ?_⟩
  · rw [stored?, Database.write, if_pos ((hi i).mpr rfl), assign_version hcols]
    exact hdb.kept_eq (VersionWidth.toInt?_of_value? hvalue)
  · intro j
    unfold Database.write
    split
    · exact assign_id hcols db e next (t j)
    · rfl
  · intro j hj
    rw [Database.write, if_neg]
    exact fun h => hj ((hi j).mp h)

/-! ## Many writes -/

theorem Bump.isSome {db : Database σ ι} {t t' : StoredTable ι} {e : ε} {i : ι} {n : Int} (h : V.Bump db t e i n t')
    (ht : ∀ j, (V.stored? t j).isSome) (j : ι) : (V.stored? t' j).isSome := by
  by_cases hj : j = i
  · rw [hj, h.bumped]
    rfl
  · rw [stored?, h.others j hj]
    exact ht j

variable (V)

/-- Records written one after the other, each with the parameters that are sent for it: at the moment of
its write, the row that the record names has the version of the record. -/
inductive Written (db : Database σ ι) (u : UpdateStatement) : StoredTable ι → List (ε × List Value) → Prop where
  | nil (t : StoredTable ι) : Written db u t []
  | cons {t : StoredTable ι} {e : ε} {vs : List Value} {rest : List (ε × List Value)} {i : ι} {n : Int} :
      V.Bump db t e i n (db.write u t vs) → Written db u (db.write u t vs) rest → Written db u t ((e, vs) :: rest)

/-- The record has kept its identity and has the next version. -/
structure Advanced (e e' : ε) : Prop where
  id_eq : V.id.get e' = V.id.get e
  version_eq : ∃ n, V.version? e = some n ∧ V.version? e' = some (n + 1)

variable {V}

/-- Where each set of parameters has matched one row, the records are written one after the other. -/
theorem written_of_counts [Fintype ι] {db : Database σ ι} (hdb : KeepsIntegers db V.version.column.name)
    (hcols : columns.Sublist m.columns) {es : List ε} {batch : List (List Value)}
    (hbatch : es.mapM (updateTemplate m.table columns V.id (some V.version)).params = .ok batch)
    {t : StoredTable ι} (ht : ∀ i, (V.stored? t i).isSome)
    (hcounts : db.counts (V.statement columns) t batch = List.replicate es.length 1) :
    V.Written db (V.statement columns) t (es.zip batch) := by
  -- On the records, for any table; every row keeps an integer as its version all along.
  induction es generalizing batch t with
  | nil => cases hbatch; exact .nil t
  | cons e es ih =>
    obtain ⟨vs, rest, hvs, hrest, rfl⟩ := mapM_cons_ok.mp hbatch
    obtain ⟨next, hnext, rfl⟩ := (V.params_ok_iff columns e vs).mp hvs
    obtain ⟨hone, hcounts⟩ := List.cons.inj hcounts
    obtain ⟨i, n, hbump⟩ := write_bump hdb hcols ht hnext hone
    exact .cons hbump (ih hrest (hbump.isSome ht) hcounts)

/-- Storing the next versions succeeds, and the records have them. -/
theorem storeVersions_ok {es : List ε} {versions : List Value}
    (h : nextVersions (some V.version) es = .ok versions) :
    ∃ es', storeVersions (some V.version) es versions = (.ok (), es') ∧ List.Forall₂ V.Advanced es es' := by
  simp only [nextVersions] at h
  simp only [storeVersions]
  induction es generalizing versions with
  | nil => cases h; exact ⟨[], rfl, .nil⟩
  | cons e es ih =>
    obtain ⟨next, rest, hnext, hrest, rfl⟩ := mapM_cons_ok.mp h
    obtain ⟨n, hn, hvalue⟩ := VersionWidth.next_ok hnext
    obtain ⟨e', hset, hversion, hid⟩ := V.set_version e hvalue
    obtain ⟨es', hes', hall⟩ := ih hrest
    refine ⟨e' :: es', ?_, .cons ⟨hid, n, hn, hversion⟩ hall⟩
    simp only [changeEach, hset, hes']

/-- What an update of columns can do: it fails before it changes a record, or all batches have been sent and
the next versions are stored. -/
theorem updateColumns_cases (s : Settings) (c : Connection σ) (v : Option (Versioning ε)) (id : Column ε)
    (columns : List (Column ε)) (es : List ε) (state : σ) :
    (∃ f s', updateColumns s c m v id columns es state = ⟨.error f, es, s'⟩) ∨
    ∃ versions batch s', nextVersions v es = .ok versions ∧
      es.mapM (updateTemplate m.table columns id v).params = .ok batch ∧
      (sendUpdates c m id v.isSome (Sql.text c.dialect (updateTemplate m.table columns id v))
        (chunks s.batchSize (es.zip batch))).start state = (.ok (), s') ∧
      updateColumns s c m v id columns es state =
        ⟨(storeVersions v es versions).1, (storeVersions v es versions).2, s'⟩ := by
  cases hversions : nextVersions v es with
  | error f => exact .inl ⟨f, state, by simp only [updateColumns, hversions]⟩
  | ok versions =>
    cases hbatch : es.mapM (updateTemplate m.table columns id v).params with
    | error f => exact .inl ⟨f, state, by simp only [updateColumns, hversions, hbatch]⟩
    | ok batch =>
      rcases hsent : (sendUpdates c m id v.isSome (Sql.text c.dialect (updateTemplate m.table columns id v))
        (chunks s.batchSize (es.zip batch))).start state with ⟨f | ⟨⟩, s'⟩
      · exact .inl ⟨f, s', by simp only [updateColumns, hversions, hbatch, hsent]⟩
      · exact .inr ⟨versions, batch, s', rfl, rfl, hsent, by simp only [updateColumns, hversions, hbatch, hsent]⟩

/-- An update without a failure: the records have been written one after the other, and have the next
versions. -/
theorem updateColumns_ok [Fintype ι] {db : Database σ ι} (hdb : KeepsIntegers db V.version.column.name)
    (hcols : columns.Sublist m.columns) {c : Connection σ} (hc : db.Runs c (V.statement columns)) {s : Settings}
    {es : List ε} {state : σ} (ht : ∀ i, (V.stored? (db.table state) i).isSome) {o : Outcome σ ε Unit}
    (ho : updateColumns s c m (some V.version) V.id columns es state = o) (hok : o.result = .ok ()) :
    (∃ batch, es.mapM (updateTemplate m.table columns V.id (some V.version)).params = .ok batch ∧
      V.Written db (V.statement columns) (db.table state) (es.zip batch) ∧
      db.table o.state = db.writeAll (V.statement columns) (db.table state) batch) ∧
    List.Forall₂ V.Advanced es o.records := by
  rcases updateColumns_cases s c (some V.version) V.id columns es state with
    ⟨f, s', h⟩ | ⟨versions, batch, s', hversions, hbatch, hsent, h⟩
  · rw [← ho, h] at hok
    cases hok
  · obtain ⟨es', hstored, hadvanced⟩ := storeVersions_ok hversions
    rw [hstored] at h
    rw [text_updateTemplate] at hsent
    obtain ⟨hcounts, htable⟩ := sendUpdates_ok hc _ hsent
    have hlen : es.length = batch.length := (mapM_length hbatch).symm
    rw [chunks_flatten, List.map_snd_zip (Nat.le_of_eq hlen.symm)] at hcounts htable
    rw [List.length_zip, ← hlen, Nat.min_self] at hcounts
    rw [← ho, h]
    exact ⟨⟨batch, hbatch, written_of_counts hdb hcols hbatch ht hcounts, htable⟩, hadvanced⟩

/-- An update that fails leaves the records as they were. -/
theorem updateColumns_error {c : Connection σ} {s : Settings} {es : List ε} {state : σ} {f : Failure}
    (h : (updateColumns s c m (some V.version) V.id columns es state).result = .error f) :
    (updateColumns s c m (some V.version) V.id columns es state).records = es := by
  rcases updateColumns_cases s c (some V.version) V.id columns es state with
    ⟨f, s', ho⟩ | ⟨versions, batch, s', hversions, _, _, ho⟩
  · rw [ho]
  · obtain ⟨es', hstored, _⟩ := storeVersions_ok hversions
    rw [ho, hstored] at h
    cases h

end Versioned

end Mutation

end TableQuery
