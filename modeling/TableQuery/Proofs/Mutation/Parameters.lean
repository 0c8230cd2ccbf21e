import TableQuery.Proofs.Mutation.Replies
import TableQuery.Proofs.Sql.Reading

/- Statements and their parameters. For each write, a plan says which statement is sent, with which sets of
   parameters, and to which columns these belong. What is sent follows the plan, batch after batch. If the statement
   is read, its identifiers are the columns in the order in which their values stand in a set, and each set has one
   value for each placeholder (`parameters_line_up`).

   The plans do not refer to the pieces of which statements are made. That both have the same text and the same
   parameters is shown for each statement (`text_insertTemplate`, `params_insertTemplate` and their like). -/
namespace TableQuery.Mutation

variable {σ ε α : Type}

/-! ## Plans -/

/-- The columns, and a placeholder for each. A generated key is returned. -/
def insertText (d : Dialect) (table : String) (columns : List String) (returned : Option String) : String :=
  "INSERT INTO " ++ d.quote table ++ " (" ++ ", ".intercalate (columns.map d.quote) ++ ") VALUES (" ++
    ", ".intercalate ((List.range' 1 columns.length).map d.placeholder) ++ ")" ++
    returned.elim "" fun c => " RETURNING " ++ d.quote c

/-- The columns and the version are set, the identity and the version are tested. -/
def updateStatement (table : String) (columns : List (Column ε)) (id : Column ε) (v : Option (Versioning ε)) :
    UpdateStatement :=
  let version := v.toList.map fun v => v.column.name
  ⟨table, columns.map Column.name ++ version, id.name :: version⟩

def deleteText (d : Dialect) (table id : String) : String :=
  "DELETE FROM " ++ d.quote table ++ " WHERE " ++ d.quote id ++ " = " ++ d.placeholder 1

/-- The value of the record in a column, or the first version if it is a null in the version column. -/
def insertedValue (v : Option (Versioning ε)) (e : ε) (c : Column ε) : Value :=
  match v with
  | some w => if c.name = w.column.name ∧ (c.get e).isNull then w.width.initial else c.get e
  | none => c.get e

/-- The values for what an update sets and then for what it tests. -/
def updateValues (columns : List (Column ε)) (id : Column ε) (v : Option (Versioning ε)) (e : ε) :
    Except Failure (List Value) :=
  match v with
  | some w =>
    (w.width.next (w.column.get e)).map fun next => columns.map (·.get e) ++ [next, id.get e, w.column.get e]
  | none => .ok (columns.map (·.get e) ++ [id.get e])

/-- A statement, with the sets of parameters for it. -/
structure Plan where
  sql : String
  table : String
  /-- The columns that the values of a set belong to, in order. -/
  columns : List String
  /-- The columns that come back. -/
  returned : List String
  sets : List (List Value)

def insertPlan (s : Settings) (c : Connection σ) (m : Mapping ε) (es : List ε) : Except Failure Plan := do
  let v ← prepareInsert s c m
  let columns := m.insertColumns.map Column.name
  let returned := m.generatedId?.map Column.name
  .ok ⟨insertText c.dialect m.table columns returned, m.table, columns, returned.toList,
    es.map fun e => m.insertColumns.map (insertedValue v e)⟩

/-- The plan for an update of these columns. -/
def columnsPlan (d : Dialect) (table : String) (columns : List (Column ε)) (id : Column ε)
    (v : Option (Versioning ε)) (es : List ε) : Except Failure Plan :=
  let u := updateStatement table columns id v
  (es.mapM (updateValues columns id v)).map fun sets => ⟨u.text d, table, u.assigned ++ u.tested, [], sets⟩

def updatePlan (s : Settings) (c : Connection σ) (m : Mapping ε) (es : List ε) : Except Failure Plan := do
  let (v, id) ← prepareUpdate s c m
  columnsPlan c.dialect m.table m.columns id v es

/-- Only columns that are not null are set, and nothing is sent if there is none. -/
def knownPlan (s : Settings) (c : Connection σ) (m : Mapping ε) (e : ε) : Except Failure Plan := do
  let (v, id) ← prepareUpdate s c m
  let columns := m.columns.filter fun c => !(c.get e).isNull
  columnsPlan c.dialect m.table columns id v (if columns.isEmpty then [] else [e])

def deletePlan (s : Settings) (c : Connection σ) (m : Mapping ε) (es : List ε) : Except Failure Plan := do
  prepare s c
  let id ← m.id
  .ok ⟨deleteText c.dialect m.table id.name, m.table, [id.name], [], es.map fun e => [id.get e]⟩

/-- The calls send the statement with the batches in order, up to some batch. If the result is no failure, they
send all of them. -/
structure Sent (sql : String) (batches : List (List (List Value))) (result : Except Failure α) (calls : List Call) :
    Prop where
  upTo : ∃ k, calls = (batches.take (k + 1)).map (.batch sql)
  complete : ∀ a, result = .ok a → calls = batches.map (.batch sql)

/-- The identifiers that are read in the statement are the table, the column of each value of a set, and what comes
back. The placeholders are numbered from 1 on, one for each value of a set. -/
structure Plan.Aligned (p : Plan) (d : Dialect) : Prop where
  names : Sql.names d p.sql = p.table :: (p.columns ++ p.returned)
  placeholders : ∀ set ∈ p.sets, set.length = p.columns.length ∧ Sql.placeholders d p.sql = List.range' 1 set.length

/-- What has been sent follows the plan, whose parameters are aligned with the statement. Nothing is sent if there is
no plan. -/
def Follows (plan : Except Failure Plan) (d : Dialect) (batchSize : Nat) (result : Except Failure α)
    (calls : List Call) : Prop :=
  match plan with
  | .error _ => calls = []
  | .ok p => Sent p.sql (chunks batchSize p.sets) result calls ∧ p.Aligned d

/-! ## The text of statements -/

theorem textFrom_names (d : Dialect) (index : Nat) (names : List String) :
    Sql.textFrom d index (Sql.joined ", " (names.map fun c => [(.name c : Sql.Piece (Slot ε))])) =
      ", ".intercalate (names.map d.quote) := by
  rw [Sql.textFrom_joined]
  congr 1
  induction names with
  | nil => rfl
  | cons c names ih => simp [Sql.textsFrom, Sql.textFrom, Sql.bindings, ih]

/-- Placeholders are numbered on from those before them. -/
theorem textFrom_slots (d : Dialect) (index : Nat) (slots : List (Slot ε)) :
    Sql.textFrom d index (Sql.joined ", " (slots.map fun s => [.bound s])) =
      ", ".intercalate ((List.range' (index + 1) slots.length).map d.placeholder) := by
  rw [Sql.textFrom_joined]
  congr 1
  induction slots generalizing index with
  | nil => rfl
  | cons s slots ih =>
    simp [Sql.textsFrom, Sql.textFrom, Sql.bindings, ih, List.range'_succ]

theorem bindings_names (names : List String) :
    Sql.bindings (Sql.joined ", " (names.map fun c => [(.name c : Sql.Piece (Slot ε))])) = [] := by
  simp [Sql.bindings]

theorem bindings_slots (slots : List (Slot ε)) :
    Sql.bindings (Sql.joined ", " (slots.map fun s => [.bound s])) = slots := by
  rw [Sql.bindings_joined, List.map_map, ← List.flatMap_def]
  exact List.flatMap_singleton' slots

/-- The columns of an insert, then their values, then the key that comes back. -/
theorem insertTemplate_eq (m : Mapping ε) (v : Option (Versioning ε)) :
    insertTemplate m v = .raw "INSERT INTO " :: .name m.table :: .raw " (" ::
      (Sql.joined ", " ((m.insertColumns.map Column.name).map fun c => [.name c]) ++ .raw ") VALUES (" ::
        (Sql.joined ", " ((m.insertColumns.map (insertSlot v)).map fun s => [.bound s]) ++ .raw ")" ::
          ((m.generatedId?.map Column.name).toList.flatMap fun c => [.raw " RETURNING ", .name c]))) := by
  simp only [insertTemplate, List.map_map, List.cons_append, List.append_assoc]
  cases m.generatedId? <;> rfl

theorem text_insertTemplate (d : Dialect) (m : Mapping ε) (v : Option (Versioning ε)) :
    Sql.text d (insertTemplate m v) =
      insertText d m.table (m.insertColumns.map Column.name) (m.generatedId?.map Column.name) := by
  rw [insertTemplate_eq]
  unfold insertText
  simp only [Sql.text, Sql.textFrom, Sql.textFrom_append, textFrom_names, textFrom_slots, bindings_names,
    List.length_map, List.length_nil, Nat.add_zero, Nat.zero_add]
  cases m.generatedId? with
  | none => simp [Sql.textFrom, String.append_assoc]
  | some id => simp [Sql.textFrom, String.append_assoc]

theorem bindings_insertTemplate (m : Mapping ε) (v : Option (Versioning ε)) :
    Sql.bindings (insertTemplate m v) = m.insertColumns.map (insertSlot v) := by
  rw [insertTemplate_eq]
  simp only [Sql.bindings, Sql.bindings_append, bindings_names, bindings_slots, List.nil_append]
  cases m.generatedId? <;> exact List.append_nil _

/-- The text of an update is that of its statement, with versions and without. -/
theorem text_anyUpdate (d : Dialect) (table : String) (columns : List (Column ε)) (id : Column ε)
    (v : Option (Versioning ε)) :
    Sql.text d (updateTemplate table columns id v) = (updateStatement table columns id v).text d := by
  cases v with
  | some w => exact text_updateTemplate d table columns id w
  | none =>
    rw [unversionedUpdate_eq]
    simp only [Sql.text, Sql.textFrom, Sql.textFrom_append, textFrom_equations, bindings_equations, textFrom_equation,
      columnSlots_names, columnSlots_slots, UpdateStatement.text, updateStatement, UpdateStatement.equations,
      List.length_map, Nat.zero_add, Option.toList_none, List.map_nil, List.append_nil, String.append_assoc,
      String.intercalate_singleton]

theorem text_deleteTemplate (d : Dialect) (table : String) (id : Column ε) :
    Sql.text d (deleteTemplate table id) = deleteText d table id.name := by
  unfold deleteText
  simp only [deleteTemplate, Sql.text, Sql.textFrom, textFrom_equation, String.append_assoc]

/-! ## The parameters of statements -/

theorem value_insertSlot (v : Option (Versioning ε)) (e : ε) (c : Column ε) :
    (insertSlot v c).value e = .ok (insertedValue v e c) := by
  unfold insertSlot insertedValue
  cases v with
  | none => rfl
  | some w =>
    by_cases hname : c.name = w.column.name
    · simp only [hname, if_true, true_and]
      rfl
    · simp only [hname, if_false, false_and]
      rfl

/-- An insert takes the values of its columns. -/
theorem params_insertTemplate (m : Mapping ε) (v : Option (Versioning ε)) (e : ε) :
    (insertTemplate m v).params e = .ok (m.insertColumns.map (insertedValue v e)) := by
  rw [Template.params, bindings_insertTemplate]
  exact mapM_map_total (value_insertSlot v e) m.insertColumns

/-- An update takes the values of its columns, the next version, the identity and the version. -/
theorem params_updateTemplate (table : String) (columns : List (Column ε)) (id : Column ε) (v : Option (Versioning ε))
    (e : ε) : (updateTemplate table columns id v).params e = updateValues columns id v e := by
  rw [params_rowParams]
  cases v with
  | none => simp [nextVersion, updateValues, rowParams, Except.map]
  | some w =>
    simp only [nextVersion, updateValues]
    cases w.width.next (w.column.get e) <;> simp [rowParams, Except.map]

theorem params_deleteTemplate (table : String) (id : Column ε) (e : ε) :
    (deleteTemplate table id).params e = .ok [id.get e] := rfl

/-! ## Clear statements -/

theorem clear_equation (c : Column ε) (s : Slot ε) : Sql.Clear (equation c s) :=
  Sql.clear_name c.name (by decide) (Sql.clear_raw (by decide) ⟨trivial, trivial⟩)

/-- Columns that are set or tested, with text between them. -/
theorem clear_equations {separator : String} (hs : Sql.Separating separator) (hquiet : Sql.Quiet separator)
    (pairs : List (Column ε × Slot ε)) : Sql.Clear (Sql.joined separator (pairs.map fun p => equation p.1 p.2)) :=
  Sql.clear_joined hs hquiet (List.forall_mem_map.mpr fun p _ => clear_equation p.1 p.2)

theorem clear_insertTemplate (m : Mapping ε) (v : Option (Versioning ε)) : Sql.Clear (insertTemplate m v) := by
  have hreturned : Sql.Clear (.raw ")" :: (m.generatedId?.map Column.name).toList.flatMap fun c =>
      [(.raw " RETURNING " : Sql.Piece (Slot ε)), .name c]) := by
    cases m.generatedId? with
    | none => exact Sql.clear_raw (by decide) trivial
    | some id => exact Sql.clear_raw (by decide) (Sql.clear_raw (by decide) ⟨trivial, trivial⟩)
  have hnames : ∀ ps ∈ (m.insertColumns.map Column.name).map fun c => [(.name c : Sql.Piece (Slot ε))], Sql.Clear ps :=
    List.forall_mem_map.mpr fun c _ => ⟨trivial, trivial⟩
  have hslots : ∀ ps ∈ (m.insertColumns.map (insertSlot v)).map fun s => [.bound s], Sql.Clear ps :=
    List.forall_mem_map.mpr fun s _ => ⟨trivial, trivial⟩
  rw [insertTemplate_eq]
  apply Sql.clear_raw (by decide)
  apply Sql.clear_name m.table (by decide)
  apply Sql.clear_raw (by decide)
  apply Sql.clear_append (Sql.clear_joined (by decide) (by decide) hnames) (by decide)
  apply Sql.clear_raw (by decide)
  exact Sql.clear_append (Sql.clear_joined (by decide) (by decide) hslots) (by decide) hreturned

theorem clear_updateTemplate (table : String) (columns : List (Column ε)) (id : Column ε)
    (v : Option (Versioning ε)) : Sql.Clear (updateTemplate table columns id v) := by
  cases v with
  | none =>
    rw [unversionedUpdate_eq]
    apply Sql.clear_raw (by decide)
    apply Sql.clear_name table (by decide)
    apply Sql.clear_raw (by decide)
    apply Sql.clear_append (clear_equations (by decide) (by decide) (columnSlots columns)) (by decide)
    exact Sql.clear_raw (by decide) (clear_equation id (.column id))
  | some w =>
    rw [updateTemplate_eq]
    apply Sql.clear_raw (by decide)
    apply Sql.clear_name table (by decide)
    apply Sql.clear_raw (by decide)
    apply Sql.clear_append (clear_equations (by decide) (by decide) (assignedSlots columns w)) (by decide)
    exact Sql.clear_raw (by decide) (clear_equations (by decide) (by decide) _)

theorem clear_deleteTemplate (table : String) (id : Column ε) : Sql.Clear (deleteTemplate table id) := by
  apply Sql.clear_raw (by decide)
  apply Sql.clear_name table (by decide)
  exact Sql.clear_raw (by decide) (clear_equation id (.column id))

/-! ## Identifiers of statements -/

theorem identifiers_names (names : List String) :
    Sql.identifiers (Sql.joined ", " (names.map fun c => [(.name c : Sql.Piece (Slot ε))])) = names := by
  rw [Sql.identifiers_joined, List.map_map, ← List.flatMap_def]
  exact List.flatMap_singleton' names

theorem identifiers_slots (slots : List (Slot ε)) :
    Sql.identifiers (Sql.joined ", " (slots.map fun s => [.bound s])) = [] := by
  simp [Sql.identifiers]

theorem identifiers_equation (c : Column ε) (s : Slot ε) : Sql.identifiers (equation c s) = [c.name] := rfl

theorem identifiers_equations (separator : String) (pairs : List (Column ε × Slot ε)) :
    Sql.identifiers (Sql.joined separator (pairs.map fun p => equation p.1 p.2)) = pairs.map fun p => p.1.name := by
  rw [Sql.identifiers_joined, List.map_map, ← List.flatMap_def, List.map_eq_flatMap]
  rfl

theorem identifiers_insertTemplate (m : Mapping ε) (v : Option (Versioning ε)) :
    Sql.identifiers (insertTemplate m v) =
      m.table :: (m.insertColumns.map Column.name ++ (m.generatedId?.map Column.name).toList) := by
  rw [insertTemplate_eq]
  simp only [Sql.identifiers, Sql.identifiers_append, identifiers_names, identifiers_slots, List.nil_append]
  cases m.generatedId? <;> rfl

theorem identifiers_updateTemplate (table : String) (columns : List (Column ε)) (id : Column ε)
    (v : Option (Versioning ε)) :
    let u := updateStatement table columns id v
    Sql.identifiers (updateTemplate table columns id v) = table :: (u.assigned ++ u.tested) := by
  cases v with
  | none =>
    rw [unversionedUpdate_eq]
    simp only [Sql.identifiers, Sql.identifiers_append, identifiers_equations, identifiers_equation,
      columnSlots_names, updateStatement, Option.toList_none, List.map_nil, List.append_nil]
  | some w =>
    rw [updateTemplate_eq]
    simp only [Sql.identifiers, Sql.identifiers_append, identifiers_equations, assignedSlots_names]
    rfl

/-! ## Plans and their statements -/

/-- What is taken from records for a clear statement is aligned with it. -/
theorem aligned_of_clear (d : Dialect) {t : Template ε} (h : Sql.Clear t) {table : String}
    {columns returned : List String} (hnames : Sql.identifiers t = table :: (columns ++ returned))
    (hlength : (Sql.bindings t).length = columns.length) {sets : List (List Value)}
    (hsets : ∀ set ∈ sets, ∃ e, t.params e = .ok set) :
    Plan.Aligned ⟨Sql.text d t, table, columns, returned, sets⟩ d := by
  constructor
  · rw [Sql.names_text d h, hnames]
  · intro set hset
    obtain ⟨e, he⟩ := hsets set hset
    have hvalues := mapM_length he
    rw [Sql.placeholders_text d h, hvalues, hlength]
    exact ⟨rfl, rfl⟩

theorem aligned_insert (d : Dialect) (m : Mapping ε) (v : Option (Versioning ε)) (es : List ε) :
    Plan.Aligned ⟨insertText d m.table (m.insertColumns.map Column.name) (m.generatedId?.map Column.name), m.table,
      m.insertColumns.map Column.name, (m.generatedId?.map Column.name).toList,
      es.map fun e => m.insertColumns.map (insertedValue v e)⟩ d := by
  rw [← text_insertTemplate d m v]
  refine aligned_of_clear d (clear_insertTemplate m v) (identifiers_insertTemplate m v) ?_ ?_
  · rw [bindings_insertTemplate, List.length_map, List.length_map]
  · intro set hset
    obtain ⟨e, _, he⟩ := List.mem_map.mp hset
    exact ⟨e, by rw [params_insertTemplate, he]⟩

theorem aligned_update (d : Dialect) (table : String) (columns : List (Column ε)) (id : Column ε)
    (v : Option (Versioning ε)) {es : List ε} {sets : List (List Value)}
    (h : es.mapM (updateValues columns id v) = .ok sets) :
    let u := updateStatement table columns id v
    Plan.Aligned ⟨u.text d, table, u.assigned ++ u.tested, [], sets⟩ d := by
  intro u
  rw [← text_anyUpdate]
  refine aligned_of_clear d (clear_updateTemplate table columns id v) ?_ ?_ ?_
  · rw [List.append_nil]
    exact identifiers_updateTemplate table columns id v
  · cases v with
    | none => simp [u, bindings_unversionedUpdate, updateStatement]
    | some w => simp [u, bindings_updateTemplate, updateStatement]
  · intro set hset
    obtain ⟨e, _, he⟩ := mapM_result h set hset
    exact ⟨e, by rw [params_updateTemplate, he]⟩

theorem aligned_delete (d : Dialect) (table : String) (id : Column ε) (es : List ε) :
    Plan.Aligned ⟨deleteText d table id.name, table, [id.name], [], es.map fun e => [id.get e]⟩ d := by
  rw [← text_deleteTemplate]
  refine aligned_of_clear d (clear_deleteTemplate table id) rfl rfl ?_
  intro set hset
  obtain ⟨e, _, he⟩ := List.mem_map.mp hset
  exact ⟨e, by rw [params_deleteTemplate, he]⟩

/-! ## What is sent -/

variable {c : Connection σ} {m : Mapping ε} {sql : String}

/-- Success of one result is enough for success of the other. -/
theorem Sent.imp {β : Type} {batches : List (List (List Value))} {result : Except Failure α}
    {result' : Except Failure β} {calls : List Call} (h : Sent sql batches result calls)
    (himp : ∀ b, result' = .ok b → ∃ a, result = .ok a) : Sent sql batches result' calls := by
  refine ⟨h.upTo, ?_⟩
  intro b hb
  obtain ⟨a, ha⟩ := himp b hb
  exact h.complete a ha

/-- Between the two states, the batches are sent. -/
def SentFrom (sql : String) (batches : List (List (List Value))) (t : Traced σ) (result : Except Failure α)
    (t' : Traced σ) : Prop :=
  ∃ calls, t'.sent = t.sent ++ calls ∧ Sent sql batches result calls

namespace SentFrom

variable {batch : List (List Value)} {batches : List (List (List Value))} {result : Except Failure α}
  {t u t' : Traced σ}

theorem nil (result : Except Failure α) (t : Traced σ) : SentFrom sql [] t result t :=
  ⟨[], (List.append_nil _).symm, ⟨0, rfl⟩, fun _ _ => rfl⟩

/-- A write that fails with its first batch. -/
theorem first (batches : List (List (List Value))) (f : Failure) (h : u.sent = t.sent ++ [.batch sql batch]) :
    SentFrom sql (batch :: batches) t (.error f : Except Failure α) u :=
  ⟨_, h, ⟨0, rfl⟩, nofun⟩

/-- A write that goes on behind its first batch. -/
theorem cons (h : u.sent = t.sent ++ [.batch sql batch]) (hrest : SentFrom sql batches u result t') :
    SentFrom sql (batch :: batches) t result t' := by
  obtain ⟨calls, hcalls, ⟨k, hk⟩, hcomplete⟩ := hrest
  refine ⟨.batch sql batch :: calls, ?_, ⟨k + 1, ?_⟩, ?_⟩
  · rw [hcalls, h, List.append_assoc, List.singleton_append]
  · rw [hk, List.take_succ_cons, List.map_cons]
  · intro a ha
    rw [hcomplete a ha, List.map_cons]

theorem imp {β : Type} {result' : Except Failure β} (h : SentFrom sql batches t result t')
    (himp : ∀ b, result' = .ok b → ∃ a, result = .ok a) : SentFrom sql batches t result' t' := by
  obtain ⟨calls, hcalls, hsent⟩ := h
  exact ⟨calls, hcalls, hsent.imp himp⟩

/-- All that has been sent, on a connection that has just been opened. -/
theorem sent {state : σ} (h : SentFrom sql batches ⟨state, []⟩ result t') : Sent sql batches result t'.sent := by
  obtain ⟨calls, hcalls, hsent⟩ := h
  rw [hcalls]
  exact hsent

end SentFrom

/-- A batch of inserts is one call, whatever comes of it. -/
theorem sendInserts_sent (m : Mapping ε) (sql : String) (batch : List (List Value)) (es : List ε) (t : Traced σ) :
    (sendInserts c.traced m sql batch es t).state.sent = t.sent ++ [.batch sql batch] := by
  unfold sendInserts
  cases m.generatedId? with
  | some id =>
    simp only [Connection.fetchBatch_traced]
    cases ((c.fetchBatch sql batch).start t.state).1 with
    | error f => rfl
    | ok keys => simp only; split <;> rfl
  | none =>
    simp only [Connection.executeBatch_traced]
    cases ((c.executeBatch sql batch).start t.state).1 with
    | error f => rfl
    | ok counts => simp only; split <;> rfl

theorem insertChunk_sent (m : Mapping ε) (v : Option (Versioning ε)) (es : List ε) (t : Traced σ) :
    (insertChunk c.traced m v es t).state.sent = t.sent ++ [.batch (Sql.text c.dialect (insertTemplate m v))
      (es.map fun e => m.insertColumns.map (insertedValue v e))] := by
  have hparams : es.mapM (insertTemplate m v).params =
      .ok (es.map fun e => m.insertColumns.map (insertedValue v e)) := by
    rw [funext (params_insertTemplate m v), mapM_total]
  rw [insertChunk, hparams, ← sendInserts_sent m _ _ es t]
  simp only
  split <;> rfl

/-- Batches of inserts are sent up to the first that fails. -/
theorem insertChunks_sent (m : Mapping ε) (v : Option (Versioning ε)) (chunks : List (List ε)) (t : Traced σ) :
    let o := insertChunks c.traced m v chunks t
    let batches := chunks.map (List.map fun e => m.insertColumns.map (insertedValue v e))
    SentFrom (Sql.text c.dialect (insertTemplate m v)) batches t o.result o.state := by
  induction chunks generalizing t with
  | nil => exact .nil _ t
  | cons es rest ih =>
    have hfirst := insertChunk_sent (c := c) m v es t
    rw [insertChunks]
    cases hresult : (insertChunk c.traced m v es t).result with
    | error f => exact .first _ f hfirst
    | ok _ => exact .cons hfirst (ih (insertChunk c.traced m v es t).state)

/-- Batches of updates are sent up to the first that is refused. -/
theorem sendUpdates_sent (m : Mapping ε) (id : Column ε) (versioned : Bool) (sql : String)
    (chunks : List (List (ε × List Value))) (t : Traced σ) :
    let o := (sendUpdates c.traced m id versioned sql chunks).start t
    SentFrom sql (paramsOf chunks) t o.1 o.2 := by
  induction chunks generalizing t with
  | nil => exact .nil _ t
  | cons chunk rest ih =>
    by_cases h : ((c.executeBatch sql (chunk.map Prod.snd)).start t.state).1 =
        .ok (List.replicate (chunk.map Prod.snd).length 1)
    · rw [sendUpdates_cons_accepted rest h]
      exact .cons rfl (ih _)
    · obtain ⟨f, hrefused, _⟩ := sendUpdates_cons_refused m id versioned rest h
      rw [hrefused]
      exact .first _ f rfl

/-- Batches of deletes are sent up to the first that fails. -/
theorem sendDeletes_sent (sql : String) (batches : List (List (List Value))) (t : Traced σ) :
    let o := (sendDeletes c.traced sql batches).start t
    SentFrom sql batches t o.1 o.2 := by
  induction batches generalizing t with
  | nil => exact .nil _ t
  | cons batch rest ih =>
    rw [sendDeletes_cons, Run.start_bind, Connection.executeBatch_traced]
    cases ((c.executeBatch sql batch).start t.state).1 with
    | error f => exact .first _ f rfl
    | ok counts =>
      have hrest := ih ⟨((c.executeBatch sql batch).start t.state).2, t.sent ++ [.batch sql batch]⟩
      simp only [Run.start_bind]
      rcases hrun : (sendDeletes c.traced sql rest).start _ with ⟨result, t'⟩
      rw [hrun] at hrest
      -- There is a sum of all counts if there is one of the others.
      cases result with
      | error f => exact .cons rfl hrest
      | ok n =>
        have hsum : SentFrom sql rest _ (.ok (counts.sum + n)) t' := hrest.imp fun _ _ => ⟨n, rfl⟩
        exact .cons rfl hsum

/-! ## Writes -/

variable {s : Settings} {es : List ε} {state : σ}

theorem Follows.imp {β : Type} {plan : Except Failure Plan} {d : Dialect} {batchSize : Nat} {calls : List Call}
    {result : Except Failure α} {result' : Except Failure β} (h : Follows plan d batchSize result calls)
    (himp : ∀ b, result' = .ok b → ∃ a, result = .ok a) : Follows plan d batchSize result' calls := by
  cases plan with
  | error f => exact h
  | ok p => exact ⟨h.1.imp himp, h.2⟩

/-- Records with parameters have next versions. -/
theorem nextVersions_of_values {columns : List (Column ε)} {id : Column ε} {v : Option (Versioning ε)}
    {sets : List (List Value)} (h : es.mapM (updateValues columns id v) = .ok sets) :
    ∃ versions, nextVersions v es = .ok versions := by
  cases v with
  | none => exact ⟨[], rfl⟩
  | some w =>
    refine mapM_exists fun e he => ?_
    obtain ⟨set, hset⟩ := mapM_mem h e he
    obtain ⟨next, hnext, _⟩ := map_ok.mp hset
    exact ⟨next, hnext⟩

/-- An update follows its plan. It has no plan if a record has no next version. -/
theorem updateColumns_follows (s : Settings) (c : Connection σ) (m : Mapping ε) (v : Option (Versioning ε))
    (id : Column ε) (columns : List (Column ε)) (es : List ε) (state : σ) :
    let o := updateColumns s c.traced m v id columns es ⟨state, []⟩
    Follows (columnsPlan c.dialect m.table columns id v es) c.dialect s.batchSize o.result o.state.sent := by
  intro o
  have hparams := funext (params_updateTemplate m.table columns id v)
  have ho : o = updateColumns s c.traced m v id columns es ⟨state, []⟩ := rfl
  cases hsets : es.mapM (updateValues columns id v) with
  | error f =>
    have hnone : o.state.sent = [] := by
      rw [ho]
      simp only [updateColumns, hparams, hsets]
      cases nextVersions v es <;> rfl
    simp only [columnsPlan, hsets, Except.map, Follows]
    exact hnone
  | ok sets =>
    obtain ⟨versions, hversions⟩ := nextVersions_of_values hsets
    have hbatches : paramsOf (chunks s.batchSize (es.zip sets)) = chunks s.batchSize sets := by
      rw [paramsOf, ← chunks_map, List.map_snd_zip (Nat.le_of_eq (mapM_length hsets))]
    have hsent := sendUpdates_sent (c := c) m id v.isSome ((updateStatement m.table columns id v).text c.dialect)
      (chunks s.batchSize (es.zip sets)) ⟨state, []⟩
    have hdialect : c.traced.dialect = c.dialect := rfl
    simp only [updateColumns, hparams, hversions, hsets, hdialect, text_anyUpdate] at ho
    simp only [columnsPlan, hsets, Except.map, Follows]
    constructor
    · rcases hrun : (sendUpdates c.traced m id v.isSome ((updateStatement m.table columns id v).text c.dialect)
        (chunks s.batchSize (es.zip sets))).start ⟨state, []⟩ with ⟨result, t⟩
      rw [hrun] at ho hsent
      rw [hbatches] at hsent
      rw [ho]
      -- What is stored in the records afterwards is not sent.
      cases result with
      | error f =>
        apply hsent.sent.imp
        intro _ h
        cases h
      | ok _ => exact hsent.sent.imp fun _ _ => ⟨(), rfl⟩
    · exact aligned_update c.dialect m.table columns id v hsets

theorem insert_follows (s : Settings) (c : Connection σ) (m : Mapping ε) (es : List ε) (state : σ) :
    let o := insert s c.traced m es ⟨state, []⟩
    Follows (insertPlan s c m es) c.dialect s.batchSize o.result o.state.sent := by
  have hprepare : prepareInsert s c.traced m = prepareInsert s c m := rfl
  simp only [insert, hprepare, insertPlan]
  cases prepareInsert s c m with
  | error f => rfl
  | ok v =>
    constructor
    · rw [chunks_map, ← text_insertTemplate c.dialect m v]
      exact (insertChunks_sent (c := c) m v (chunks s.batchSize es) ⟨state, []⟩).sent
    · exact aligned_insert c.dialect m v es

theorem update_follows (s : Settings) (c : Connection σ) (m : Mapping ε) (es : List ε) (state : σ) :
    let o := update s c.traced m es ⟨state, []⟩
    Follows (updatePlan s c m es) c.dialect s.batchSize o.result o.state.sent := by
  have hprepare : prepareUpdate s c.traced m = prepareUpdate s c m := rfl
  simp only [update, hprepare, updatePlan]
  rcases prepareUpdate s c m with f | ⟨v, id⟩
  · rfl
  · exact updateColumns_follows s c m v id m.columns es state

/-- A record that the check of the version refuses has no next version. -/
theorem columnsPlan_of_checkVersion {v : Option (Versioning ε)} {id : Column ε} {e : ε} {f : Failure}
    (h : checkVersion m v id e = .error f) (d : Dialect) (columns : List (Column ε)) :
    columnsPlan d m.table columns id v [e] = .error .versionNull := by
  unfold checkVersion at h
  cases v with
  | none => cases h
  | some w =>
    have hnull : (w.column.get e).isNull = true := by
      by_contra hne
      rw [Option.any_some, if_neg hne] at h
      cases h
    have hvalues : updateValues columns id (some w) e = .error .versionNull := by
      rw [updateValues, VersionWidth.next, if_pos hnull]
      rfl
    simp [columnsPlan, hvalues, bind, Except.bind, Except.map]

theorem updateKnown_follows (s : Settings) (c : Connection σ) (m : Mapping ε) (e : ε) (state : σ) :
    let o := updateKnown s c.traced m e ⟨state, []⟩
    Follows (knownPlan s c m e) c.dialect s.batchSize o.result o.state.sent := by
  have hprepare : prepareUpdate s c.traced m = prepareUpdate s c m := rfl
  simp only [updateKnown, hprepare, knownPlan]
  rcases prepareUpdate s c m with f | ⟨v, id⟩
  · rfl
  · have hknown : (m.columns.filter fun c => !(c.get e).isNull) = knownColumns m e := rfl
    simp only [hknown]
    by_cases hempty : (knownColumns m e).isEmpty = true
    · simp only [if_pos hempty]
      have hnone : [].mapM (updateValues (knownColumns m e) id v) = .ok [] := rfl
      exact ⟨(SentFrom.nil (.ok false) (⟨state, []⟩ : Traced σ)).sent,
        aligned_update c.dialect m.table (knownColumns m e) id v hnone⟩
    · simp only [if_neg hempty]
      -- The update of the one record is as it is for many, but for its result.
      have hfollows := updateColumns_follows s c m v id (knownColumns m e) [e] state
      rw [updateColumns_single] at hfollows
      cases hcheck : checkVersion m v id e with
      | error f =>
        have hplan := columnsPlan_of_checkVersion hcheck c.dialect (knownColumns m e)
        simp only [bind, Except.bind, hplan]
        rfl
      | ok _ =>
        refine Follows.imp hfollows fun b hb => ?_
        obtain ⟨u, hu, _⟩ := map_ok.mp hb
        exact ⟨u, hu⟩

theorem delete_follows (s : Settings) (c : Connection σ) (m : Mapping ε) (es : List ε) (state : σ) :
    let o := (delete s c.traced m es).start ⟨state, []⟩
    Follows (deletePlan s c m es) c.dialect s.batchSize o.1 o.2.sent := by
  have hprepare : prepare s c.traced = prepare s c := rfl
  simp only [delete, hprepare, deletePlan, Run.start_bind, Run.start_ofExcept]
  cases prepare s c with
  | error f => rfl
  | ok _ =>
    cases m.id with
    | error f => rfl
    | ok id =>
      have hparams : es.mapM (deleteTemplate m.table id).params = .ok (es.map fun e => [id.get e]) := by
        rw [funext (params_deleteTemplate m.table id), mapM_total]
      simp only [hparams]
      constructor
      · rw [← text_deleteTemplate]
        exact (sendDeletes_sent (c := c) _ (chunks s.batchSize (es.map fun e => [id.get e])) ⟨state, []⟩).sent
      · exact aligned_delete c.dialect m.table id es

/-- Inserts, updates and deletes send the statements of their plans, with the sets of parameters of the records in
order, whatever the connection replies. In each statement, the identifiers that are read behind the table are the
columns of the values of a set, and the placeholders that are read are as many, numbered from 1 on. -/
theorem parameters_line_up (s : Settings) (c : Connection σ) (m : Mapping ε) (es : List ε) (e : ε) (state : σ) :
    let inserted := insert s c.traced m es ⟨state, []⟩
    let updated := update s c.traced m es ⟨state, []⟩
    let known := updateKnown s c.traced m e ⟨state, []⟩
    let deleted := (delete s c.traced m es).start ⟨state, []⟩
    Follows (insertPlan s c m es) c.dialect s.batchSize inserted.result inserted.state.sent ∧
      Follows (updatePlan s c m es) c.dialect s.batchSize updated.result updated.state.sent ∧
      Follows (knownPlan s c m e) c.dialect s.batchSize known.result known.state.sent ∧
      Follows (deletePlan s c m es) c.dialect s.batchSize deleted.1 deleted.2.sent :=
  ⟨insert_follows s c m es state, update_follows s c m es state, updateKnown_follows s c m e state,
    delete_follows s c m es state⟩

end TableQuery.Mutation
