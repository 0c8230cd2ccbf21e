import TableQuery.Proofs.Mutation.Partial

/- The columns in the statements of writes, as they are read in the text that is sent:

     1. `namedColumns_insertTemplate`, `assignedColumns_updateTemplate`: an INSERT names the columns that the mapping
        inserts, and an UPDATE sets the columns that it is written for and the version.
     2. `Follows.haveColumns_iff`: what is sent along a plan has columns, unless the plan has parameters for a
        statement without any.
     3. `statements_have_columns`: the statements of inserts and of updates have columns if and only if the mapping
        has something to write, no record is given, or the write is refused. Those of partial updates always do.

   Only partial updates ask whether there is a column left to write. A mapping that has none makes inserts and updates
   send statements without columns (`statements_without_columns`). -/
namespace TableQuery

namespace Mapping

variable {ε : Type} {m : Mapping ε} {v : Option (Versioning ε)}

/-- An insert has something to write: an identity that the records carry, a column or a version. -/
def Insertable (m : Mapping ε) : Prop :=
  m.assignedId?.isSome = true ∨ m.columns ≠ [] ∨ m.version.isSome = true

/-- An update has something to write: a column or a version. -/
def Updatable (m : Mapping ε) : Prop :=
  m.columns ≠ [] ∨ m.version.isSome = true

theorem insertColumns_ne_nil_iff : m.insertColumns ≠ [] ↔ m.Insertable := by
  unfold insertColumns Insertable
  cases m.assignedId? with
  | some id => simp
  | none => cases m.version <;> simp

theorem versioning_isSome (h : m.versioning = .ok v) : v.isSome = m.version.isSome := by
  unfold versioning at h
  split at h
  · next hnone =>
    cases h
    rw [hnone]
    rfl
  · next c hsome =>
    obtain ⟨w, _, rfl⟩ := map_ok.mp h
    rw [hsome]
    rfl

end Mapping

namespace Mutation

variable {σ ε α : Type}

/-! ## Columns of a statement -/

/-- The columns that an INSERT names, in brackets behind the table. -/
def namedColumns (d : Dialect) (sql : String) : List String :=
  Sql.namesBetween d "(" ")" sql

/-- The columns that an UPDATE sets. -/
def assignedColumns (d : Dialect) (sql : String) : List String :=
  Sql.namesBetween d "SET" "WHERE" sql

theorem lacks_names {c : Char} (hc : c ∉ ", ".toList) (names : List String) :
    Sql.Lacks c (Sql.joined ", " (names.map fun n => [(.name n : Sql.Piece (Slot ε))])) := by
  apply Sql.lacks_joined hc
  intro ps hps s hs
  obtain ⟨n, _, rfl⟩ := List.mem_map.mp hps
  cases List.mem_singleton.mp hs

theorem lacks_equations {c : Char} (hc : c ∉ ", ".toList) (heq : c ∉ " = ".toList)
    (pairs : List (Column ε × Slot ε)) :
    Sql.Lacks c (Sql.joined ", " (pairs.map fun p => equation p.1 p.2)) := by
  apply Sql.lacks_joined hc
  intro ps hps s hs
  obtain ⟨p, _, rfl⟩ := List.mem_map.mp hps
  simp only [equation, List.mem_cons, List.not_mem_nil, or_false] at hs
  rcases hs with hs | hs | hs
  · cases hs
  · cases hs
    exact heq
  · cases hs

/-- An INSERT names the columns that the mapping inserts, in order. -/
theorem namedColumns_insertTemplate (d : Dialect) (m : Mapping ε) (v : Option (Versioning ε)) :
    namedColumns d (Sql.text d (insertTemplate m v)) = m.insertColumns.map Column.name := by
  let names : List (Sql.Piece (Slot ε)) := Sql.joined ", " ((m.insertColumns.map Column.name).map fun c => [.name c])
  obtain ⟨rest, hread⟩ : ∃ rest, Sql.read d (Sql.text d (insertTemplate m v)).toList =
      ("INSERT INTO ".toList.map .char ++ [.name m.table.toList, .char ' ']) ++
        ("(".toList.map .char ++ (Sql.partsFrom d 0 names ++ (")".toList.map .char ++ rest))) := by
    rw [Sql.text, Sql.read_textFrom d 0 (clear_insertTemplate m v), insertTemplate_eq]
    simp only [Sql.partsFrom, Sql.partsFrom_append]
    exact ⟨_, rfl⟩
  have hfront : .char '(' ∉ "INSERT INTO ".toList.map Sql.Part.char ++ [.name m.table.toList, .char ' '] := by
    simp
  have hnames : .char ')' ∉ Sql.partsFrom d 0 names :=
    Sql.not_mem_partsFrom (lacks_names (by decide) _) (by cases d <;> decide) (by decide) 0
  calc namedColumns d (Sql.text d (insertTemplate m v))
      = (Sql.partsFrom d 0 names).filterMap Sql.Part.name? := Sql.namesBetween_of_read hread rfl hfront rfl hnames
    _ = Sql.identifiers names := Sql.names_partsFrom d 0 names
    _ = m.insertColumns.map Column.name := identifiers_names _

/-- The parts of an update: what it sets stands between two words. -/
theorem read_updateTemplate (d : Dialect) (table : String) (columns : List (Column ε)) (id : Column ε)
    (v : Option (Versioning ε)) :
    ∃ pairs : List (Column ε × Slot ε),
      pairs.map (fun p => p.1.name) = (updateStatement table columns id v).assigned ∧
      ∃ rest, Sql.read d (Sql.text d (updateTemplate table columns id v)).toList =
        ("UPDATE ".toList.map .char ++ [.name table.toList, .char ' ']) ++
          ("SET".toList.map .char ++ ((.char ' ' ::
            Sql.partsFrom d 0 (Sql.joined ", " (pairs.map fun p => equation p.1 p.2)) ++ [.char ' ']) ++
              ("WHERE".toList.map .char ++ rest))) := by
  rw [Sql.text, Sql.read_textFrom d 0 (clear_updateTemplate table columns id v)]
  cases v with
  | none =>
    refine ⟨columnSlots columns, ?_, ?_⟩
    · rw [columnSlots_names]
      exact (List.append_nil _).symm
    · rw [unversionedUpdate_eq]
      simp only [Sql.partsFrom, Sql.partsFrom_append, List.append_assoc, List.cons_append]
      exact ⟨_, rfl⟩
  | some w =>
    refine ⟨assignedSlots columns w, assignedSlots_names columns w, ?_⟩
    rw [updateTemplate_eq]
    simp only [Sql.partsFrom, Sql.partsFrom_append, List.append_assoc, List.cons_append]
    exact ⟨_, rfl⟩

/-- An UPDATE sets the columns that it is written for, and the version. -/
theorem assignedColumns_updateTemplate (d : Dialect) (table : String) (columns : List (Column ε)) (id : Column ε)
    (v : Option (Versioning ε)) :
    assignedColumns d (Sql.text d (updateTemplate table columns id v)) =
      (updateStatement table columns id v).assigned := by
  obtain ⟨pairs, hpairs, rest, hread⟩ := read_updateTemplate d table columns id v
  let equations : List (Sql.Piece (Slot ε)) := Sql.joined ", " (pairs.map fun p => equation p.1 p.2)
  have hfront : .char 'S' ∉ "UPDATE ".toList.map Sql.Part.char ++ [.name table.toList, .char ' '] := by
    simp
  have hequations : .char 'W' ∉ Sql.partsFrom d 0 equations :=
    Sql.not_mem_partsFrom (lacks_equations (by decide) (by decide) pairs) (by cases d <;> decide) (by decide) 0
  let middle : List Sql.Part := .char ' ' :: Sql.partsFrom d 0 equations ++ [.char ' ']
  have hmiddle : .char 'W' ∉ middle := by
    simp [middle, hequations]
  calc assignedColumns d (Sql.text d (updateTemplate table columns id v))
      = middle.filterMap Sql.Part.name? := Sql.namesBetween_of_read hread rfl hfront rfl hmiddle
    _ = (Sql.partsFrom d 0 equations).filterMap Sql.Part.name? := by
      simp [middle, List.filterMap_cons, Sql.Part.name?]
    _ = Sql.identifiers equations := Sql.names_partsFrom d 0 equations
    _ = pairs.map (fun p => p.1.name) := identifiers_equations ", " pairs
    _ = (updateStatement table columns id v).assigned := hpairs

/-! ## What is sent -/

/-- Each of the calls is a statement with at least one column. -/
def HaveColumns (columnsOf : String → List String) (calls : List Call) : Prop :=
  ∀ call ∈ calls, ∃ sql sets, call = .batch sql sets ∧ columnsOf sql ≠ []

variable {sql : String} {batches : List (List (List Value))} {result : Except Failure α} {calls : List Call}
  {columnsOf : String → List String}

theorem haveColumns_single {sets : List (List Value)} :
    HaveColumns columnsOf [.batch sql sets] ↔ columnsOf sql ≠ [] := by
  simp [HaveColumns]

/-- The first batch is always sent, and all batches are of the same statement. -/
theorem Sent.haveColumns_iff (h : Sent sql batches result calls) :
    HaveColumns columnsOf calls ↔ batches = [] ∨ columnsOf sql ≠ [] := by
  obtain ⟨k, rfl⟩ := h.upTo
  constructor
  · intro hcolumns
    cases batches with
    | nil => exact .inl rfl
    | cons sets rest =>
      obtain ⟨_, _, hcall, hsql⟩ := hcolumns (.batch sql sets) List.mem_cons_self
      cases hcall
      exact .inr hsql
  · intro hsql call hcall
    obtain ⟨sets, hsets, rfl⟩ := List.mem_map.mp hcall
    refine ⟨sql, sets, rfl, hsql.resolve_left ?_⟩
    rintro rfl
    cases hsets

/-- What is sent along a plan has columns, unless there are parameters for a statement without any. -/
theorem Follows.haveColumns_iff {plan : Except Failure Plan} {d : Dialect} {batchSize : Nat}
    (h : Follows plan d batchSize result calls) :
    HaveColumns columnsOf calls ↔ ∀ p, plan = .ok p → p.sets = [] ∨ columnsOf p.sql ≠ [] := by
  cases plan with
  | error f =>
    have hnone : calls = [] := h
    subst hnone
    exact iff_of_true (fun call hcall => absurd hcall List.not_mem_nil) nofun
  | ok p =>
    rw [h.1.haveColumns_iff, chunks_eq_nil_iff]
    exact ⟨fun hp q hq => Except.ok.inj hq ▸ hp, fun hall => hall p rfl⟩

/-! ## Writes -/

variable {m : Mapping ε} {v : Option (Versioning ε)} {id : Column ε} {es : List ε} {e : ε}

theorem insert_haveColumns_iff (s : Settings) (c : Connection σ) (m : Mapping ε) (es : List ε) (state : σ) :
    HaveColumns (namedColumns c.dialect) (insert s c.traced m es ⟨state, []⟩).state.sent ↔
      (∃ f, prepareInsert s c m = .error f) ∨ es = [] ∨ m.Insertable := by
  rw [(insert_follows s c m es state).haveColumns_iff, insertPlan]
  cases prepareInsert s c m with
  | error f =>
    refine iff_of_true ?_ (.inl ⟨f, rfl⟩)
    intro p hp
    cases hp
  | ok v =>
    have hnamed := namedColumns_insertTemplate c.dialect m v
    rw [text_insertTemplate] at hnamed
    simp [bind, Except.bind, hnamed, ← Mapping.insertColumns_ne_nil_iff]

/-- An update sets a column if it is written for one, or if there is a version. -/
theorem assigned_ne_nil_iff (table : String) (columns : List (Column ε)) (id : Column ε) (v : Option (Versioning ε)) :
    (updateStatement table columns id v).assigned ≠ [] ↔ columns ≠ [] ∨ v.isSome = true := by
  cases v <;> simp [updateStatement]

theorem assignedColumns_text (d : Dialect) (table : String) (columns : List (Column ε)) (id : Column ε)
    (v : Option (Versioning ε)) :
    assignedColumns d ((updateStatement table columns id v).text d) = (updateStatement table columns id v).assigned := by
  rw [← text_anyUpdate, assignedColumns_updateTemplate]

/-- A plan has parameters for each record. -/
theorem columnsPlan_ok {d : Dialect} {table : String} {columns : List (Column ε)} {p : Plan}
    (h : columnsPlan d table columns id v es = .ok p) :
    (p.sets = [] ↔ es = []) ∧ assignedColumns d p.sql = (updateStatement table columns id v).assigned := by
  obtain ⟨sets, hsets, rfl⟩ := map_ok.mp h
  constructor
  · rw [← List.length_eq_zero_iff, mapM_length hsets, List.length_eq_zero_iff]
  · exact assignedColumns_text d table columns id v

/-- Without versions, an update of any records has a plan. -/
theorem columnsPlan_unversioned (d : Dialect) (table : String) (columns : List (Column ε)) (id : Column ε)
    (es : List ε) : ∃ p, columnsPlan d table columns id none es = .ok p :=
  ⟨_, map_ok.mpr ⟨_, mapM_total (fun e => columns.map (·.get e) ++ [id.get e]) es, rfl⟩⟩

/-- Along the plan for an update, columns are missing only if there are neither columns nor a version to set. -/
theorem columnsPlan_haveColumns_iff (d : Dialect) (table : String) (columns : List (Column ε)) (id : Column ε)
    (v : Option (Versioning ε)) (es : List ε) :
    (∀ p, columnsPlan d table columns id v es = .ok p → p.sets = [] ∨ assignedColumns d p.sql ≠ []) ↔
      es = [] ∨ columns ≠ [] ∨ v.isSome = true := by
  rw [← assigned_ne_nil_iff table columns id v]
  constructor
  · intro hall
    by_cases hassigned : (updateStatement table columns id v).assigned = []
    · -- There is no version whose next one could be missing, so that the records have a plan.
      have hnone : v = none := by
        by_contra hsome
        exact (assigned_ne_nil_iff table columns id v).mpr (.inr (Option.isSome_iff_ne_none.mpr hsome)) hassigned
      obtain ⟨p, hp⟩ := columnsPlan_unversioned d table columns id es
      rw [← hnone] at hp
      obtain ⟨hsets, hsql⟩ := columnsPlan_ok hp
      rw [← hsets, ← hsql]
      exact hall p hp
    · exact .inr hassigned
  · intro h p hp
    obtain ⟨hsets, hsql⟩ := columnsPlan_ok hp
    rw [hsets, hsql]
    exact h

theorem update_haveColumns_iff (s : Settings) (c : Connection σ) (m : Mapping ε) (es : List ε) (state : σ) :
    HaveColumns (assignedColumns c.dialect) (update s c.traced m es ⟨state, []⟩).state.sent ↔
      (∃ f, prepareUpdate s c m = .error f) ∨ es = [] ∨ m.Updatable := by
  rw [(update_follows s c m es state).haveColumns_iff, updatePlan]
  cases hprepared : prepareUpdate s c m with
  | error f =>
    refine iff_of_true ?_ (.inl ⟨f, rfl⟩)
    intro p hp
    cases hp
  | ok p =>
    obtain ⟨v, id⟩ := p
    have hplan := columnsPlan_haveColumns_iff c.dialect m.table m.columns id v es
    rw [Mapping.versioning_isSome (prepareUpdate_versioning hprepared)] at hplan
    simp only [bind, Except.bind, hplan, Mapping.Updatable, reduceCtorEq, exists_false, false_or]

/-- A partial update is sent only with columns that it is written for. -/
theorem updateKnown_haveColumns (s : Settings) (c : Connection σ) (m : Mapping ε) (e : ε) (state : σ) :
    HaveColumns (assignedColumns c.dialect) (updateKnown s c.traced m e ⟨state, []⟩).state.sent := by
  rw [(updateKnown_follows s c m e state).haveColumns_iff, knownPlan]
  cases prepareUpdate s c m with
  | error f =>
    intro p hp
    cases hp
  | ok p =>
    obtain ⟨v, id⟩ := p
    simp only [bind, Except.bind, columnsPlan_haveColumns_iff]
    by_cases hempty : (m.columns.filter fun c => !(c.get e).isNull).isEmpty = true
    · exact .inl (if_pos hempty)
    · exact .inr (.inl fun hnil => hempty (List.isEmpty_iff.mpr hnil))

/-- A partial update of a record without known values does nothing, unless it is refused. -/
theorem updateKnown_unknown (hcolumns : ∀ col ∈ m.columns, (col.get e).isNull = true) (s : Settings) (c : Connection σ)
    (state : σ) : updateKnown s c m e state = ⟨(prepareUpdate s c m).map fun _ => false, [e], state⟩ := by
  cases hprepared : prepareUpdate s c m with
  | error f => simp only [updateKnown, hprepared, Except.map]
  | ok p => exact updateKnown_nothing hcolumns hprepared state

/-- Which statements have columns:

1. All that an insert sends name one, if and only if the insert is refused, or there is no record, or the mapping has
   an identity that records carry, a column or a version.
2. All that an update sends set one, if and only if the update is refused, or there is no record, or the mapping has a
   column or a version.
3. All that a partial update sends set one. If all columns are null in the record, or there are none, nothing is sent
   and nothing changes: the update is refused, or its result is false. -/
theorem statements_have_columns (s : Settings) (c : Connection σ) (m : Mapping ε) (es : List ε) (e : ε) (state : σ) :
    let opened : Traced σ := ⟨state, []⟩
    let inserted := insert s c.traced m es opened
    let updated := update s c.traced m es opened
    let known := updateKnown s c.traced m e opened
    (HaveColumns (namedColumns c.dialect) inserted.state.sent ↔
      (∃ f, prepareInsert s c m = .error f) ∨ es = [] ∨ m.Insertable) ∧
    (HaveColumns (assignedColumns c.dialect) updated.state.sent ↔
      (∃ f, prepareUpdate s c m = .error f) ∨ es = [] ∨ m.Updatable) ∧
    HaveColumns (assignedColumns c.dialect) known.state.sent ∧
    ((∀ col ∈ m.columns, (col.get e).isNull = true) →
      known = ⟨(prepareUpdate s c m).map fun _ => false, [e], opened⟩) := by
  intro opened inserted updated known
  refine ⟨insert_haveColumns_iff s c m es state, update_haveColumns_iff s c m es state,
    updateKnown_haveColumns s c m e state, ?_⟩
  intro hcolumns
  exact updateKnown_unknown hcolumns s c.traced opened

/-- A record that holds nothing but its key and its version. -/
structure Ticket where
  id : Option Int64
  version : Int32

namespace Ticket

def idColumn : Column Ticket where
  property := ⟨"id", "Ticket", .optional .long⟩
  get t := t.id.elim .null .long
  set t v :=
    match v with
    | .long n => .ok { t with id := some n }
    | _ => .error (.decode "key is not an integer")

def versionColumn : Column Ticket where
  property := ⟨"version", "Ticket", .int⟩
  get t := .int t.version
  set t v :=
    match v with
    | .int n => .ok { t with version := n }
    | _ => .error (.decode "version is not an integer")

/-- The database gives the key, and there is no other column. -/
def keyed : Mapping Ticket :=
  (Mapping.ofTable "tickets").withIdentity idColumn true

def versioned : Mapping Ticket :=
  keyed.withVersion versionColumn

def drawn : Ticket :=
  ⟨some 7, 3⟩

/-- A connection that replies as databases usually do. -/
def usual : Script :=
  ⟨[], [], [], 101, []⟩

end Ticket

/-- A version is enough to insert and to update records, but nothing to update them partly with. -/
theorem statements_have_columns_tickets :
    let c := Script.connection .sqlite true
    let opened : Traced Script := ⟨Ticket.usual, []⟩
    let inserted := insert Settings.default c.traced Ticket.versioned [Ticket.drawn] opened
    let updated := update Settings.default c.traced Ticket.versioned [Ticket.drawn] opened
    let known := updateKnown Settings.default c.traced Ticket.versioned Ticket.drawn opened
    inserted.state.sent.length = 1 ∧ HaveColumns (namedColumns .sqlite) inserted.state.sent ∧
      updated.state.sent.length = 1 ∧ HaveColumns (assignedColumns .sqlite) updated.state.sent ∧
      (∀ col ∈ Ticket.versioned.columns, (col.get Ticket.drawn).isNull = true) ∧
      known = ⟨.ok false, [Ticket.drawn], opened⟩ := by
  intro c opened inserted updated known
  have hnone : ∀ col ∈ Ticket.versioned.columns, (col.get Ticket.drawn).isNull = true := nofun
  obtain ⟨hinserted, hupdated, _, hknown⟩ :=
    statements_have_columns Settings.default c Ticket.versioned [Ticket.drawn] Ticket.drawn Ticket.usual
  exact ⟨rfl, hinserted.mpr (.inr (.inr (.inr (.inr rfl)))), rfl, hupdated.mpr (.inr (.inr (.inr rfl))), hnone,
    hknown hnone⟩

/-- Without a version either, an INSERT that names no column and an UPDATE that sets none are sent. -/
theorem statements_without_columns :
    let c := Script.connection .sqlite true
    let opened : Traced Script := ⟨Ticket.usual, []⟩
    let inserted := insert Settings.default c.traced Ticket.keyed [Ticket.drawn] opened
    let updated := update Settings.default c.traced Ticket.keyed [Ticket.drawn] opened
    inserted.state.sent = [.batch "INSERT INTO \"tickets\" () VALUES () RETURNING \"id\"" [[]]] ∧
      ¬ HaveColumns (namedColumns .sqlite) inserted.state.sent ∧
      updated.state.sent = [.batch "UPDATE \"tickets\" SET  WHERE \"id\" = ?" [[.long 7]]] ∧
      ¬ HaveColumns (assignedColumns .sqlite) updated.state.sent := by
  intro c opened inserted updated
  have hinserted : inserted.state.sent =
      [.batch "INSERT INTO \"tickets\" () VALUES () RETURNING \"id\"" [[]]] := rfl
  have hupdated : updated.state.sent = [.batch "UPDATE \"tickets\" SET  WHERE \"id\" = ?" [[.long 7]]] := rfl
  refine ⟨hinserted, ?_, hupdated, ?_⟩
  · rw [hinserted, haveColumns_single]
    exact not_not.mpr rfl
  · rw [hupdated, haveColumns_single]
    exact not_not.mpr rfl

end Mutation

end TableQuery
