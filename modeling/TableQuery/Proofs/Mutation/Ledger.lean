import Mathlib.Data.List.Forall2
import TableQuery.Proofs.Mutation.Versions

/- The writes of calls to update records. A call either writes all of its records, each in the version that
   it carried, or none of them that would be kept (`Request.run_written`, `Request.run_unwritten`).

   The writes to a row carry its versions one after the other, from the first one on, and the row has the
   version after the last of them (`Ledger`). -/
namespace TableQuery.Mutation

variable {σ ε ι κ : Type} {m : Mapping ε}

/-! ## Requests -/

/-- An update that a client asks for: of all columns of some records, or of the columns of one record that
are not null. -/
inductive Request (ε : Type) where
  | all (es : List ε)
  | known (e : ε)

namespace Request

def records : Request ε → List ε
  | all es => es
  | known e => [e]

def columns (m : Mapping ε) : Request ε → List (Column ε)
  | all _ => m.columns
  | known e => knownColumns m e

/-- The outcome of the call; its result is whether anything was written. -/
def run (s : Settings) (c : Connection σ) (m : Mapping ε) (r : Request ε) (state : σ) : Outcome σ ε Bool :=
  match r with
  | all es =>
    let o := update s c m es state
    ⟨o.result.map fun _ => true, o.records, o.state⟩
  | known e => updateKnown s c m e state

theorem columns_sublist (m : Mapping ε) (r : Request ε) : (r.columns m).Sublist m.columns := by
  cases r with
  | all es => exact .refl _
  | known e => exact List.filter_sublist

end Request

theorem prepareUpdate_ok (V : Versioned m) {s : Settings} {c : Connection σ} {v : Option (Versioning ε)}
    {id : Column ε} (h : prepareUpdate s c m = .ok (v, id)) : v = some V.version ∧ id = V.id := by
  unfold prepareUpdate at h
  obtain ⟨_, _, h⟩ := bind_ok.mp h
  obtain ⟨v', hv, h⟩ := bind_ok.mp h
  obtain ⟨id', hid, h⟩ := bind_ok.mp h
  rw [V.versioning_eq] at hv
  rw [V.id_eq] at hid
  cases hv
  cases hid
  cases h
  exact ⟨rfl, rfl⟩

/-- What a call can do: nothing is written and the records stay as they were, or the columns of the records
are updated. -/
theorem Request.run_cases (V : Versioned m) (s : Settings) (c : Connection σ) (r : Request ε) (state : σ) :
    (∃ result, r.run s c m state = ⟨result, r.records, state⟩ ∧ result ≠ .ok true) ∨
    ∃ o, updateColumns s c m (some V.version) V.id (r.columns m) r.records state = o ∧
      r.run s c m state = ⟨o.result.map fun _ => true, o.records, o.state⟩ := by
  cases r with
  | all es =>
    cases hp : prepareUpdate s c m with
    | error f => exact .inl ⟨.error f, by simp only [run, update, hp, records, Except.map], nofun⟩
    | ok p =>
      obtain ⟨v, id⟩ := p
      obtain ⟨rfl, rfl⟩ := prepareUpdate_ok V hp
      exact .inr ⟨_, rfl, by simp only [run, update, hp, records, columns]⟩
  | known e =>
    cases hp : prepareUpdate s c m with
    | error f => exact .inl ⟨.error f, by simp only [run, updateKnown, hp, records], nofun⟩
    | ok p =>
      obtain ⟨v, id⟩ := p
      obtain ⟨rfl, rfl⟩ := prepareUpdate_ok V hp
      cases hk : (knownColumns m e).isEmpty with
      | true => exact .inl ⟨.ok false, by simp only [run, updateKnown, hp, hk, if_true, records], nofun⟩
      | false =>
        cases hv : checkVersion m (some V.version) V.id e with
        | error f =>
          refine .inl ⟨.error f, ?_, nofun⟩
          simp only [run, updateKnown, hp, hk, Bool.false_eq_true, if_false, hv, records]
        | ok _ =>
          refine .inr ⟨_, rfl, ?_⟩
          simp only [run, updateKnown, hp, hk, Bool.false_eq_true, if_false, hv, records, columns,
            updateColumns_single]

/-- A call that writes: the records have been written one after the other, each in the version that it
carried, and have the next versions. -/
theorem Request.run_written [Fintype ι] {V : Versioned m} {db : Database σ ι}
    (hdb : KeepsIntegers db V.version.column.name) {s : Settings} {c : Connection σ} {r : Request ε} {state : σ}
    (hc : db.Runs c (V.statement (r.columns m))) (ht : ∀ i, (V.stored? (db.table state) i).isSome)
    {o : Outcome σ ε Bool} (ho : r.run s c m state = o) (hok : o.result = .ok true) :
    (∃ batch, r.records.mapM (updateTemplate m.table (r.columns m) V.id (some V.version)).params = .ok batch ∧
      V.Written db (V.statement (r.columns m)) (db.table state) (r.records.zip batch) ∧
      db.table o.state = db.writeAll (V.statement (r.columns m)) (db.table state) batch) ∧
    List.Forall₂ V.Advanced r.records o.records := by
  rcases Request.run_cases V s c r state with ⟨result, h, hne⟩ | ⟨o', ho', h⟩
  · rw [← ho, h] at hok
    exact absurd hok hne
  · rw [← ho, h] at hok ⊢
    obtain ⟨_, hok', _⟩ := map_ok.mp hok
    exact Versioned.updateColumns_ok hdb (r.columns_sublist m) hc ht ho' hok'

/-- A call that does not write leaves the records as they were, and the state if it does not fail. -/
theorem Request.run_unwritten (V : Versioned m) {s : Settings} {c : Connection σ} {r : Request ε} {state : σ}
    {o : Outcome σ ε Bool} (ho : r.run s c m state = o) (hne : o.result ≠ .ok true) :
    o.records = r.records ∧ (o.result = .ok false → o.state = state) := by
  rcases Request.run_cases V s c r state with ⟨result, h, _⟩ | ⟨o', ho', h⟩
  · rw [← ho, h]
    exact ⟨rfl, fun _ => rfl⟩
  · rw [← ho, h] at hne ⊢
    cases hr : o'.result with
    | ok u => exact absurd (by rw [hr]; rfl) hne
    | error f =>
      subst ho'
      exact ⟨Versioned.updateColumns_error hr, nofun⟩

/-! ## The writes to a row -/

section

variable (V : Versioned m) (db : Database σ ι)

instance (t : StoredTable ι) (e : ε) (i : ι) : Decidable (V.Names db t e i) :=
  inferInstanceAs (Decidable (_ = true))

/-- The records that were written to a row. -/
def Versioned.writes (t : StoredTable ι) (i : ι) (written : List ε) : List ε :=
  written.filter fun e => V.Names db t e i

/-- No value is the identity of two rows. -/
def Versioned.UniqueIds (t : StoredTable ι) : Prop :=
  ∀ (v : Value) (i j : ι), db.same (t i V.id.name) v = true → db.same (t j V.id.name) v = true → i = j

/-- From the table `t₀` with the versions `start`, the records were written and the table is now `t`: the
records of a row carried its versions from the first one on, and the next one is stored. -/
structure Ledger (t₀ : StoredTable ι) (start : ι → Int) (t : StoredTable ι) (written : List ε) : Prop where
  ids : ∀ i, t i V.id.name = t₀ i V.id.name
  carried : ∀ i, (V.writes db t₀ i written).map V.version? =
    (List.range (V.writes db t₀ i written).length).map fun k : Nat => some (start i + (k : Int))
  stored : ∀ i, V.stored? t i = some (start i + (V.writes db t₀ i written).length)

end

variable {V : Versioned m} {db : Database σ ι} {t₀ t t' : StoredTable ι} {start : ι → Int} {written : List ε}

@[simp] theorem Versioned.writes_append (i : ι) (es es' : List ε) :
    V.writes db t₀ i (es ++ es') = V.writes db t₀ i es ++ V.writes db t₀ i es' :=
  List.filter_append es es'

theorem Versioned.writes_of_names {e : ε} {i : ι} (h : V.Names db t₀ e i) : V.writes db t₀ i [e] = [e] := by
  rw [writes, List.filter_singleton, decide_eq_true h, cond_true]

theorem Versioned.writes_of_not_names {e : ε} {i : ι} (h : ¬ V.Names db t₀ e i) : V.writes db t₀ i [e] = [] := by
  rw [writes, List.filter_singleton, decide_eq_false h, cond_false]

theorem Ledger.isSome (h : Ledger V db t₀ start t written) (i : ι) : (V.stored? t i).isSome := by
  rw [h.stored]
  rfl

theorem Ledger.names_iff (h : Ledger V db t₀ start t written) {e : ε} {i : ι} :
    V.Names db t e i ↔ V.Names db t₀ e i := by
  unfold Versioned.Names
  rw [h.ids]

theorem ledger_start (hstart : ∀ i, V.stored? t₀ i = some (start i)) :
    Ledger V db t₀ start t₀ ([] : List ε) where
  ids _ := rfl
  carried _ := rfl
  stored i := by
    rw [hstart]
    exact congrArg some (Int.add_zero _).symm

/-- A write carries the version that comes next in its row. -/
theorem Ledger.bump (hids : V.UniqueIds db t₀) (h : Ledger V db t₀ start t written) {e : ε} {i : ι} {n : Int}
    (hb : V.Bump db t e i n t') : Ledger V db t₀ start t' (written ++ [e]) := by
  have hnames : V.Names db t₀ e i := h.names_iff.mp hb.names
  have hn : n = start i + (V.writes db t₀ i written).length :=
    Option.some.inj (hb.found.symm.trans (h.stored i))
  have hself : V.writes db t₀ i (written ++ [e]) = V.writes db t₀ i written ++ [e] := by
    rw [Versioned.writes_append, Versioned.writes_of_names hnames]
  have hother : ∀ j, j ≠ i → V.writes db t₀ j (written ++ [e]) = V.writes db t₀ j written := by
    intro j hj
    -- The record names no second row.
    have hnot : ¬ V.Names db t₀ e j := fun hname => hj (hids _ j i hname hnames)
    rw [Versioned.writes_append, Versioned.writes_of_not_names hnot, List.append_nil]
  refine ⟨fun j => (hb.ids j).trans (h.ids j), fun j => ?_, fun j => ?_⟩
  · by_cases hj : j = i
    · subst hj
      rw [hself, List.map_append, h.carried, List.length_append, List.length_singleton, List.range_succ,
        List.map_append, List.map_singleton, List.map_singleton, hb.carried, hn]
    · rw [hother j hj]
      exact h.carried j
  · by_cases hj : j = i
    · subst hj
      rw [hself, hb.bumped, hn, List.length_append, List.length_singleton]
      exact congrArg some (by omega)
    · rw [hother j hj, Versioned.stored?, hb.others j hj]
      exact h.stored j

theorem Ledger.run (hids : V.UniqueIds db t₀) {u : UpdateStatement} {pairs : List (ε × List Value)}
    (h : Ledger V db t₀ start t written) (hw : V.Written db u t pairs) :
    Ledger V db t₀ start (db.writeAll u t (pairs.map Prod.snd)) (written ++ pairs.map Prod.fst) := by
  -- On the writes, for any that have been made before.
  induction hw generalizing written with
  | nil t =>
    simp only [List.map_nil, List.append_nil]
    exact h
  | cons hb _ ih =>
    have hrest := ih (h.bump hids hb)
    rw [List.append_assoc] at hrest
    exact hrest

/-- The version that the row had is written to it once. -/
theorem Ledger.pairwise (h : Ledger V db t₀ start t written) :
    written.Pairwise fun e e' => ∀ i, V.Names db t₀ e i → V.Names db t₀ e' i → V.version? e ≠ V.version? e' := by
  have hrow : ∀ i, written.Pairwise fun e e' =>
      V.Names db t₀ e i → V.Names db t₀ e' i → V.version? e ≠ V.version? e' := by
    intro i
    have hnodup : ((V.writes db t₀ i written).map V.version?).Nodup := by
      -- These are the versions from the first one on, and they differ.
      rw [h.carried]
      refine List.Nodup.map ?_ List.nodup_range
      intro a b hab
      have hab := Option.some.inj hab
      omega
    have hpairs := List.pairwise_filter.mp (List.pairwise_map.mp hnodup)
    exact hpairs.imp fun hne hi hi' => hne (decide_eq_true hi) (decide_eq_true hi')
  rw [List.pairwise_iff_getElem]
  intro a b ha hb hab i
  exact List.pairwise_iff_getElem.mp (hrow i) a b ha hb hab

end TableQuery.Mutation
