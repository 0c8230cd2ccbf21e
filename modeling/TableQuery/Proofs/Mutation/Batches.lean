import Mathlib.Algebra.GroupWithZero.Nat
import TableQuery.Mutation.Write
import TableQuery.Proofs.Mutation.Database
import TableQuery.Proofs.Steps

/- Updates in batches. The batches of a list hold its items in order (`chunks_flatten`), and batches of
   updates that come back without a failure have been applied as if they were one, each set of parameters
   to exactly one row (`sendUpdates_ok`). A batch of one record is the update of that record alone
   (`updateColumns_single`). -/
namespace TableQuery

namespace Mutation

/-! ## Batches -/

theorem chunksUpTo_flatten {α : Type} {n : Nat} (hn : 0 < n) (fuel : Nat) (as : List α) (h : as.length ≤ fuel) :
    (chunksUpTo n fuel as).flatten = as := by
  induction fuel generalizing as with
  | zero => rw [List.length_eq_zero_iff.mp (Nat.le_zero.mp h)]; rfl
  | succ fuel ih =>
    cases as with
    | nil => rfl
    | cons a as =>
      -- A batch is not empty, so that the rest is shorter.
      have hrest : ((a :: as).drop n).length ≤ fuel := by
        simp only [List.length_drop, List.length_cons] at h ⊢
        omega
      rw [chunksUpTo, List.flatten_cons, ih _ hrest, List.take_append_drop]

theorem chunks_flatten {α : Type} (batchSize : Nat) (as : List α) : (chunks batchSize as).flatten = as :=
  chunksUpTo_flatten (by omega) as.length as (Nat.le_refl _)

theorem chunks_eq_nil_iff {α : Type} {batchSize : Nat} {as : List α} : chunks batchSize as = [] ↔ as = [] := by
  constructor
  · intro h
    rw [← chunks_flatten batchSize as, h]
    rfl
  · rintro rfl
    rfl

theorem chunksUpTo_split {α : Type} {n : Nat} (hn : 0 < n) {fuel : Nat} {as : List α} (h : as.length ≤ fuel) (k : Nat) :
    ((chunksUpTo n fuel as).take k).flatten = as.take (k * n) ∧
      ((chunksUpTo n fuel as).drop k).flatten = as.drop (k * n) := by
  induction k generalizing fuel as with
  | zero =>
    rw [Nat.zero_mul, List.take_zero, List.take_zero, List.drop_zero, List.drop_zero]
    exact ⟨rfl, chunksUpTo_flatten hn fuel as h⟩
  | succ k ih =>
    cases as with
    | nil => cases fuel <;> simp [chunksUpTo]
    | cons a as =>
      cases fuel with
      | zero => cases h
      | succ fuel =>
        have hrest : ((a :: as).drop n).length ≤ fuel := by
          simp only [List.length_drop, List.length_cons] at h ⊢
          omega
        obtain ⟨htake, hdrop⟩ := ih hrest
        rw [chunksUpTo, List.take_succ_cons, List.drop_succ_cons, List.flatten_cons, htake, hdrop, List.drop_drop,
          Nat.succ_mul, Nat.add_comm (k * n), List.take_add]
        exact ⟨rfl, rfl⟩

/-- The first batches hold the first items, and the others the rest. -/
theorem chunks_split {α : Type} (batchSize : Nat) (as : List α) (k : Nat) :
    ((chunks batchSize as).take k).flatten = as.take (k * max batchSize 1) ∧
      ((chunks batchSize as).drop k).flatten = as.drop (k * max batchSize 1) :=
  chunksUpTo_split (by omega) (Nat.le_refl _) k

theorem chunksUpTo_map {α β : Type} (f : α → β) (n fuel : Nat) (as : List α) :
    chunksUpTo n fuel (as.map f) = (chunksUpTo n fuel as).map (List.map f) := by
  induction fuel generalizing as with
  | zero => rfl
  | succ fuel ih =>
    cases as with
    | nil => rfl
    | cons a as =>
      rw [List.map_cons, chunksUpTo, ← List.map_cons, ← List.map_take, ← List.map_drop, ih]
      rfl

/-- What is done to each item does not move it to another batch. -/
theorem chunks_map {α β : Type} (f : α → β) (batchSize : Nat) (as : List α) :
    chunks batchSize (as.map f) = (chunks batchSize as).map (List.map f) := by
  rw [chunks, List.length_map, chunksUpTo_map]
  rfl

theorem chunksUpTo_getElem? {α : Type} {n fuel k : Nat} {as chunk : List α}
    (h : (chunksUpTo n fuel as)[k]? = some chunk) : chunk = (as.drop (k * n)).take n := by
  induction fuel generalizing as k with
  | zero => cases h
  | succ fuel ih =>
    cases as with
    | nil => cases h
    | cons a as =>
      cases k with
      | zero =>
        rw [Nat.zero_mul, List.drop_zero]
        exact (Option.some.inj h).symm
      | succ k =>
        rw [chunksUpTo, List.getElem?_cons_succ] at h
        rw [ih h, List.drop_drop, Nat.succ_mul, Nat.add_comm n]

/-- A batch holds the items from its place on. -/
theorem chunks_getElem? {α : Type} {batchSize k : Nat} {as chunk : List α}
    (h : (chunks batchSize as)[k]? = some chunk) :
    chunk = (as.drop (k * max batchSize 1)).take (max batchSize 1) :=
  chunksUpTo_getElem? h

theorem chunksUpTo_nonempty {α : Type} {n : Nat} (hn : 0 < n) {fuel : Nat} {as chunk : List α}
    (h : chunk ∈ chunksUpTo n fuel as) : chunk ≠ [] := by
  induction fuel generalizing as with
  | zero => cases h
  | succ fuel ih =>
    cases as with
    | nil => cases h
    | cons a as =>
      rcases List.mem_cons.mp h with rfl | h
      · obtain ⟨n, rfl⟩ := Nat.exists_eq_succ_of_ne_zero (Nat.ne_of_gt hn)
        exact List.cons_ne_nil a _
      · exact ih h

/-- No batch is empty, so that it begins before the end of the list. -/
theorem chunks_start_lt {α : Type} {batchSize k : Nat} {as chunk : List α}
    (h : (chunks batchSize as)[k]? = some chunk) : k * max batchSize 1 < as.length := by
  apply Nat.lt_of_not_le
  intro hle
  have hne : chunk ≠ [] := chunksUpTo_nonempty (by omega) (List.mem_of_getElem? h)
  apply hne
  rw [chunks_getElem? h, List.drop_eq_nil_of_le hle, List.take_nil]

variable {σ ε ι : Type} {m : Mapping ε} {id : Column ε}

theorem checkCount_ok {table : String} {v : Value} {versioned : Bool} {n : Nat} {u : Unit}
    (h : checkCount table v versioned n = .ok u) : n = 1 := by
  unfold checkCount at h
  split at h
  · assumption
  · split at h
    · cases h
    · cases h

theorem checkEach_ok {versioned : Bool} {es : List ε} {ns : List Nat} (hlen : ns.length = es.length) {u : Unit}
    (h : checkEach m id versioned es ns = .ok u) : ns = List.replicate es.length 1 := by
  induction es generalizing ns with
  | nil => exact List.length_eq_zero_iff.mp hlen
  | cons e es ih =>
    cases ns with
    | nil => cases hlen
    | cons n ns =>
      obtain ⟨_, hcount, hrest⟩ := bind_ok.mp h
      rw [checkCount_ok hcount, ih (Nat.succ.inj hlen) hrest, List.length_cons, List.replicate_succ]

/-- Counts that pass the check are all one. -/
theorem checkCounts_ok {versioned : Bool} {es : List ε} {ns : List Nat} {u : Unit}
    (h : checkCounts m id versioned es ns = .ok u) : ns = List.replicate es.length 1 := by
  unfold checkCounts at h
  split at h
  · cases h
  · next hlen => exact checkEach_ok (not_not.mp hlen) h

theorem sendDeletes_cons (c : Connection σ) (sql : String) (batch : List (List Value))
    (rest : List (List (List Value))) :
    sendDeletes c sql (batch :: rest) = (do
      let counts ← c.executeBatch sql batch
      let others ← sendDeletes c sql rest
      pure (counts.sum + others)) := rfl

variable [Fintype ι] {db : Database σ ι} {c : Connection σ} {u : UpdateStatement}

/-- Batches without a failure: the sets of parameters have been applied in order, and each has matched one
row. -/
theorem sendUpdates_ok (hdb : db.Runs c u) {versioned : Bool} (batches : List (List (ε × List Value))) {s s' : σ}
    (h : (sendUpdates c m id versioned (u.text c.dialect) batches).start s = (.ok (), s')) :
    db.counts u (db.table s) (batches.flatten.map Prod.snd) = List.replicate batches.flatten.length 1 ∧
      db.table s' = db.writeAll u (db.table s) (batches.flatten.map Prod.snd) := by
  -- On the batches, for any state: the rest goes on from what the first batch leaves.
  induction batches generalizing s with
  | nil => cases h; exact ⟨rfl, rfl⟩
  | cons chunk rest ih =>
    obtain ⟨counts, t, hexecuted, h⟩ := Run.start_bind_ok.mp h
    obtain ⟨_, t', hcheck, hrest⟩ := Run.start_bind_ok.mp h
    rw [Run.start_ofExcept] at hcheck
    obtain ⟨hok, rfl⟩ := Prod.mk.inj hcheck
    obtain ⟨rfl, htable⟩ := hdb.executed hexecuted
    obtain ⟨hcounts, hlast⟩ := ih hrest
    rw [htable] at hcounts hlast
    have hchunk := checkCounts_ok hok
    rw [List.length_map] at hchunk
    rw [List.flatten_cons, List.map_append]
    constructor
    · rw [db.counts_append, hchunk, hcounts, List.length_append, List.replicate_add]
    · rw [db.writeAll_append, hlast]

/-! ## One record -/

/-- The parameters that an update takes from its pieces are those that are put together for one record. -/
theorem params_rowParams (table : String) (columns : List (Column ε)) (id : Column ε) (v : Option (Versioning ε))
    (e : ε) : (updateTemplate table columns id v).params e =
      (nextVersion v e).map fun next => rowParams columns id v next e := by
  have hcolumns : (columns.map Slot.column).mapM (Slot.value e) = .ok (columns.map (·.get e)) :=
    mapM_map_total (f := Slot.value e) (g := Slot.column) (h := (·.get e)) (fun _ => rfl) columns
  cases v with
  | none =>
    rw [Template.params, bindings_unversionedUpdate, List.mapM_append, hcolumns]
    simp [Slot.value, nextVersion, rowParams, bind, Except.bind, Except.map, pure, Except.pure]
  | some w =>
    rw [Template.params, bindings_updateTemplate, List.append_assoc, List.mapM_append, hcolumns]
    cases hnext : w.width.next (w.column.get e) with
    | error f => simp [Slot.value, nextVersion, hnext, bind, Except.bind, Except.map]
    | ok next => simp [Slot.value, nextVersion, rowParams, hnext, bind, Except.bind, Except.map, pure, Except.pure]

theorem nextVersions_single (v : Option (Versioning ε)) (e : ε) :
    nextVersions v [e] = (nextVersion v e).map Option.toList := by
  cases v with
  | none => rfl
  | some w =>
    simp only [nextVersions, nextVersion, List.mapM_cons, List.mapM_nil]
    cases w.width.next (w.column.get e) <;> rfl

theorem chunks_single {α : Type} (batchSize : Nat) (a : α) : chunks batchSize [a] = [[a]] := by
  obtain ⟨n, hn⟩ : ∃ n, max batchSize 1 = n + 1 := ⟨max batchSize 1 - 1, by omega⟩
  simp [chunks, chunksUpTo, hn]

/-- One batch is sent, and its counts are checked. -/
theorem sendUpdates_single (c : Connection σ) (m : Mapping ε) (id : Column ε) (versioned : Bool) (sql : String)
    (e : ε) (params : List Value) (state : σ) :
    (sendUpdates c m id versioned sql [[(e, params)]]).start state =
      match (c.executeBatch sql [params]).start state with
      | (.ok counts, t) => (checkCounts m id versioned [e] counts, t)
      | (.error f, t) => (.error f, t) := by
  simp only [sendUpdates, Run.start_bind, List.map_cons, List.map_nil]
  rcases (c.executeBatch sql [params]).start state with ⟨f | counts, t⟩
  · rfl
  · simp only [Run.start_ofExcept]
    cases checkCounts m id versioned [e] counts <;> rfl

/-- The version that is stored in the one record is its next one. -/
theorem storeVersions_single {v : Option (Versioning ε)} {e : ε} {next : Option Value}
    (h : nextVersion v e = .ok next) :
    storeVersions v [e] next.toList =
      match storeVersion v next e with
      | .ok e' => (.ok (), [e'])
      | .error f => (.error f, [e]) := by
  cases v with
  | none => rfl
  | some w =>
    obtain ⟨version, _, rfl⟩ := map_ok.mp h
    simp only [storeVersions, storeVersion, Option.toList_some, changeEach]
    cases w.column.set e version <;> rfl

/-- An update of many records that is given one is the update of that record alone, whatever the size of batches. -/
theorem updateColumns_single (s : Settings) (c : Connection σ) (m : Mapping ε) (v : Option (Versioning ε))
    (id : Column ε) (columns : List (Column ε)) (e : ε) (state : σ) :
    updateColumns s c m v id columns [e] state = updateRow c m v id columns e state := by
  have hparams : [e].mapM (updateTemplate m.table columns id v).params =
      (nextVersion v e).map fun next => [rowParams columns id v next e] := by
    rw [List.mapM_cons, List.mapM_nil, params_rowParams]
    cases nextVersion v e <;> rfl
  unfold updateColumns updateRow
  simp only [hparams, nextVersions_single]
  cases hnext : nextVersion v e with
  | error f => rfl
  | ok next =>
    simp only [Except.map, List.zip_cons_cons, List.zip_nil_right, chunks_single, sendUpdates_single]
    rcases (c.executeBatch _ [rowParams columns id v next e]).start state with ⟨f | counts, t⟩
    · rfl
    · simp only
      cases checkCounts m id v.isSome [e] counts with
      | error f => rfl
      | ok _ =>
        simp only [storeVersions_single hnext]
        cases storeVersion v next e <;> rfl

end Mutation

end TableQuery
