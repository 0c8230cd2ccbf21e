import TableQuery.Proofs.Mutation.Refusals

/- Partial updates. An update of one record goes its own way to the connection, without batches, but it sends, reports
   and stores what an update of many would for that record (`updateColumns_single`). So a partial update is the full
   update under a mapping that has only the columns which are not null in the record
   (`partial_update_is_full`). -/
namespace TableQuery

/-- The mapping with those columns only that are not null in the record. -/
def Mapping.knownIn {ε : Type} (m : Mapping ε) (e : ε) : Mapping ε :=
  { m with columns := m.columns.filter fun c => !(c.get e).isNull }

namespace Mutation

variable {σ ε : Type} {s : Settings} {c : Connection σ} {m : Mapping ε} {v : Option (Versioning ε)}
  {id : Column ε} {e : ε}

/-- The checks in front of an update do not look at the columns. -/
theorem prepareUpdate_knownIn (s : Settings) (c : Connection σ) (m : Mapping ε) (e : ε) :
    prepareUpdate s c (m.knownIn e) = prepareUpdate s c m := rfl

/-- Counts are blamed on the table and the identity, whatever the columns. -/
theorem checkEach_knownIn (versioned : Bool) (es : List ε) (counts : List Nat) :
    checkEach (m.knownIn e) id versioned es counts = checkEach m id versioned es counts := by
  induction es generalizing counts with
  | nil => rfl
  | cons e' es ih =>
    cases counts with
    | nil => rfl
    | cons n counts =>
      simp only [checkEach, ih]
      rfl

theorem updateRow_knownIn (c : Connection σ) (columns : List (Column ε)) (e' : ε) (state : σ) :
    updateRow c (m.knownIn e) v id columns e' state = updateRow c m v id columns e' state := by
  simp only [updateRow, checkCounts, checkEach_knownIn]
  rfl

theorem knownColumns_isEmpty_iff : (knownColumns m e).isEmpty = true ↔ ∀ c ∈ m.columns, (c.get e).isNull = true := by
  simp [knownColumns]

/-- A record that is not null in the version column passes the check of its version. -/
theorem checkVersion_ok (hv : m.versioning = .ok v) (h : ∀ c, m.version = some c → (c.get e).isNull = false) :
    checkVersion m v id e = .ok () := by
  cases v with
  | none => rfl
  | some w =>
    have hknown := h w.column (versioning_column hv)
    rw [checkVersion, Option.any_some, hknown]
    rfl

/-- A partial update sends what the full update sends for the columns that are not null, and ends like it. -/
theorem updateKnown_eq_update (hcolumns : ∃ c ∈ m.columns, (c.get e).isNull = false)
    (hversion : ∀ c, m.version = some c → (c.get e).isNull = false) (s : Settings) (c : Connection σ) (state : σ) :
    let full := update s c (m.knownIn e) [e] state
    updateKnown s c m e state = ⟨full.result.map fun _ => true, full.records, full.state⟩ := by
  have hsome : ¬ (knownColumns m e).isEmpty = true := by
    rw [knownColumns_isEmpty_iff]
    obtain ⟨c, hc, hknown⟩ := hcolumns
    intro hall
    rw [hall c hc] at hknown
    cases hknown
  simp only [update, updateKnown, prepareUpdate_knownIn]
  cases hprepared : prepareUpdate s c m with
  | error f => rfl
  | ok p =>
    obtain ⟨v, id⟩ := p
    simp only [if_neg hsome, checkVersion_ok (prepareUpdate_versioning hprepared) hversion, updateColumns_single,
      updateRow_knownIn]
    rfl

/-- Without a column that is not null, a partial update does nothing. -/
theorem updateKnown_nothing (hcolumns : ∀ c ∈ m.columns, (c.get e).isNull = true) {p : Option (Versioning ε) × Column ε}
    (hprepared : prepareUpdate s c m = .ok p) (state : σ) : updateKnown s c m e state = ⟨.ok false, [e], state⟩ := by
  have hnone : (knownColumns m e).isEmpty = true := knownColumns_isEmpty_iff.mpr hcolumns
  simp only [updateKnown, hprepared, if_pos hnone]

/-- A partial update is a full update of the columns that are not null:

1. If there is one, and the version is not null either, it sends the statement and the parameters that the full update
   of the record sends under the mapping with these columns alone. It ends with the same failure or goes through like
   it, and leaves the same record and the same state.
2. If there is none, and the checks pass, the result is false. Nothing is sent and nothing changes. -/
theorem partial_update_is_full (s : Settings) (c : Connection σ) (m : Mapping ε) (e : ε) (state : σ) :
    let known := updateKnown s c.traced m e ⟨state, []⟩
    let full := update s c.traced (m.knownIn e) [e] ⟨state, []⟩
    ((∃ c ∈ m.columns, (c.get e).isNull = false) → (∀ c, m.version = some c → (c.get e).isNull = false) →
      known.state.sent = full.state.sent ∧ known.result = full.result.map (fun _ => true) ∧
        known.records = full.records ∧ known.state.state = full.state.state) ∧
    ((∀ c ∈ m.columns, (c.get e).isNull = true) → ∀ p, prepareUpdate s c m = .ok p →
      known.result = .ok false ∧ known.state.sent = [] ∧ known.records = [e] ∧ known.state.state = state) := by
  intro known full
  constructor
  · intro hcolumns hversion
    have hknown : known = ⟨full.result.map fun _ => true, full.records, full.state⟩ :=
      updateKnown_eq_update hcolumns hversion s c.traced ⟨state, []⟩
    rw [hknown]
    exact ⟨rfl, rfl, rfl, rfl⟩
  · intro hcolumns p hprepared
    have hknown : known = ⟨.ok false, [e], ⟨state, []⟩⟩ :=
      updateKnown_nothing (c := c.traced) hcolumns hprepared ⟨state, []⟩
    rw [hknown]
    exact ⟨rfl, rfl, rfl, rfl⟩

/-- A record of which some columns may be unknown. -/
structure Profile where
  id : Int64
  name : Option String
  city : Option String
  version : Option Int32

namespace Profile

def textColumn (name : String) (get : Profile → Option String) : Column Profile :=
  ⟨⟨name, "Profile", .optional .text⟩, fun p => (get p).elim .null .text, fun p _ => .ok p⟩

def versionColumn : Column Profile where
  property := ⟨"version", "Profile", .optional .int⟩
  get p := p.version.elim .null .int
  set p v :=
    match v with
    | .int n => .ok { p with version := some n }
    | _ => .error (.decode "version is not an integer")

def mapping : Mapping Profile where
  table := "profiles"
  identity := some ⟨⟨⟨"id", "Profile", .long⟩, fun p => .long p.id, fun p _ => .ok p⟩, false⟩
  columns := [textColumn "name" Profile.name, textColumn "city" Profile.city]
  version := some versionColumn

/-- Only the name is known. -/
def named : Profile := ⟨7, some "ann", none, some 2⟩

def unknown : Profile := ⟨8, none, none, none⟩

end Profile

theorem partial_update_is_full_named :
    let c := Script.connection .postgres true
    let s := { Settings.default with dialect := .postgres }
    let opened : Traced Script := ⟨⟨[], [], [], 0, []⟩, []⟩
    let known := updateKnown s c.traced Profile.mapping Profile.named opened
    let nothing := updateKnown s c.traced Profile.mapping Profile.unknown opened
    known.state.sent =
        (update s c.traced (Profile.mapping.knownIn Profile.named) [Profile.named] opened).state.sent ∧
      known.state.sent.length = 1 ∧ known.records = [{ Profile.named with version := some 3 }] ∧
      nothing.result = .ok false ∧ nothing.state.sent = [] := by
  intro c s opened known nothing
  have hname : ∃ col ∈ Profile.mapping.columns, (col.get Profile.named).isNull = false :=
    ⟨Profile.textColumn "name" Profile.name, List.mem_cons_self, rfl⟩
  have hversion : ∀ col, Profile.mapping.version = some col → (col.get Profile.named).isNull = false := by
    intro col hcol
    cases hcol
    rfl
  have hnone : ∀ col ∈ Profile.mapping.columns, (col.get Profile.unknown).isNull = true := by
    intro col hcol
    simp only [Profile.mapping, List.mem_cons, List.not_mem_nil, or_false] at hcol
    rcases hcol with rfl | rfl <;> rfl
  obtain ⟨hsent, _, hrecords, _⟩ := (partial_update_is_full s c Profile.mapping Profile.named opened.state).1 hname
    hversion
  obtain ⟨hfalse, hquiet, _⟩ := (partial_update_is_full s c Profile.mapping Profile.unknown opened.state).2 hnone _ rfl
  refine ⟨hsent, ?_, ?_, hfalse, hquiet⟩
  · rw [hsent]
    rfl
  · rw [hrecords]
    rfl

end Mutation

end TableQuery
