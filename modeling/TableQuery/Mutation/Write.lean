import TableQuery.Connection.Basic
import TableQuery.Mutation.Statement
import TableQuery.Settings

/- Writing records: batched inserts, updates under optimistic locking, and deletes. All of them need an
   open transaction, so that the caller can take back a write that failed on the way. What a write
   changes in the records before it fails stays changed. -/
namespace TableQuery.Mutation

/-- What a write leaves behind: its result, the records and the state of the connection. -/
structure Outcome (σ ε α : Type) where
  result : Except Failure α
  records : List ε
  state : σ

variable {σ ε : Type}

/-- The list cut into parts of `n`, of which the last may be shorter, for at most `fuel` parts. -/
def chunksUpTo {α : Type} (n : Nat) : Nat → List α → List (List α)
  | 0, _ => []
  | _, [] => []
  | fuel + 1, a :: as => (a :: as).take n :: chunksUpTo n fuel ((a :: as).drop n)

/-- The batches of a list; a batch holds at least one. -/
def chunks {α : Type} (batchSize : Nat) (as : List α) : List (List α) :=
  chunksUpTo (max batchSize 1) as.length as

/-- Refuses a connection that has no transaction open or speaks another dialect. -/
def prepare (s : Settings) (c : Connection σ) : Except Failure Unit :=
  if !c.inTransaction then .error .transactionRequired
  else if c.dialect ≠ s.dialect then .error (.writeDialect c.dialect s.dialect)
  else .ok ()

/-- Changes each record by the item at its place, up to the first change that fails. -/
def changeEach {β : Type} (change : ε → β → Except Failure ε) : List ε → List β → Except Failure Unit × List ε
  | e :: es, b :: bs =>
    match change e b with
    | .error f => (.error f, e :: es)
    | .ok e' =>
      let (result, rest) := changeEach change es bs
      (result, e' :: rest)
  | es, _ => (.ok (), es)

/-! ## Insert -/

/-- Stores the key that came back for a record. -/
def storeKey (id : Column ε) (e : ε) (key : Row) : Except Failure ε :=
  match key.values.head? with
  | some v => id.set e v
  | none => .error .keyEmpty

/-- Stores the first version in a record that has none. -/
def startVersion (v : Versioning ε) (e : ε) : Except Failure ε :=
  if (v.column.get e).isNull then v.column.set e v.width.initial else .ok e

/-- Stores the first version in the records that have none, up to the first that refuses it. -/
def startVersions (v : Option (Versioning ε)) (es : List ε) : Except Failure Unit × List ε :=
  match v with
  | some v => changeEach (fun e _ => startVersion v e) es es
  | none => (.ok (), es)

/-- Sends a batch of inserts and stores the keys that come back, if the database generates them. -/
def sendInserts (c : Connection σ) (m : Mapping ε) (sql : String) (batch : List (List Value)) (es : List ε)
    (s : σ) : Outcome σ ε Unit :=
  match m.generatedId? with
  | some id =>
    match (c.fetchBatch sql batch).start s with
    | (.error f, s) => ⟨.error f, es, s⟩
    | (.ok keys, s) =>
      if keys.length ≠ es.length then ⟨.error (.keyCount es.length m.table keys.length), es, s⟩
      else
        let (result, es) := changeEach (storeKey id) es keys
        ⟨result, es, s⟩
  | none =>
    match (c.executeBatch sql batch).start s with
    | (.error f, s) => ⟨.error f, es, s⟩
    | (.ok counts, s) =>
      if counts.length ≠ es.length ∨ counts.any (· ≠ 1) then ⟨.error (.insertCounts m.table counts), es, s⟩
      else ⟨.ok (), es, s⟩

def insertChunk (c : Connection σ) (m : Mapping ε) (v : Option (Versioning ε)) (es : List ε) (s : σ) :
    Outcome σ ε Unit :=
  let template := insertTemplate m v
  match es.mapM template.params with
  | .error f => ⟨.error f, es, s⟩
  | .ok batch =>
    let sent := sendInserts c m (Sql.text c.dialect template) batch es s
    match sent.result with
    | .error _ => sent
    | .ok () =>
      let (result, es) := startVersions v sent.records
      ⟨result, es, sent.state⟩

/-- Inserts one batch after the other, up to the first that fails. -/
def insertChunks (c : Connection σ) (m : Mapping ε) (v : Option (Versioning ε)) :
    List (List ε) → σ → Outcome σ ε Unit
  | [], s => ⟨.ok (), [], s⟩
  | es :: rest, s =>
    let first := insertChunk c m v es s
    match first.result with
    | .error f => ⟨.error f, first.records ++ rest.flatten, first.state⟩
    | .ok () =>
      let others := insertChunks c m v rest first.state
      ⟨others.result, first.records ++ others.records, others.state⟩

def prepareInsert (s : Settings) (c : Connection σ) (m : Mapping ε) : Except Failure (Option (Versioning ε)) := do
  prepare s c
  let v ← m.versioning
  if m.generatedId?.isSome ∧ !s.dialect.supportsReturning then .error (.keysUnsupported m.table s.dialect)
  else .ok v

/-- Inserts records. Keys that the database generates and first versions are stored in them. -/
def insert (s : Settings) (c : Connection σ) (m : Mapping ε) (es : List ε) (state : σ) : Outcome σ ε Unit :=
  match prepareInsert s c m with
  | .error f => ⟨.error f, es, state⟩
  | .ok v => insertChunks c m v (chunks s.batchSize es) state

/-! ## Update -/

/-- What the count of the rows that an update of a record matched says. -/
def checkCount (table : String) (id : Value) (versioned : Bool) (count : Nat) : Except Failure Unit :=
  if count = 1 then .ok ()
  else if count = 0 then .error (if versioned then .staleVersion table id else .rowMissing table id)
  else .error (.rowsMatched table id count)

/-- The first wrong count decides. -/
def checkEach (m : Mapping ε) (id : Column ε) (versioned : Bool) : List ε → List Nat → Except Failure Unit
  | e :: es, n :: ns => do
    checkCount m.table (id.get e) versioned n
    checkEach m id versioned es ns
  | _, _ => .ok ()

/-- There must be one count for each record, and it must be one. -/
def checkCounts (m : Mapping ε) (id : Column ε) (versioned : Bool) (es : List ε) (counts : List Nat) :
    Except Failure Unit :=
  if counts.length ≠ es.length then .error (.statementCounts es.length m.table counts.length)
  else checkEach m id versioned es counts

/-- Sends batches of updates, up to the first whose counts are wrong. -/
def sendUpdates (c : Connection σ) (m : Mapping ε) (id : Column ε) (versioned : Bool) (sql : String) :
    List (List (ε × List Value)) → Run σ Unit
  | [] => pure ()
  | chunk :: rest => do
    let counts ← c.executeBatch sql (chunk.map Prod.snd)
    Run.ofExcept (checkCounts m id versioned (chunk.map Prod.fst) counts)
    sendUpdates c m id versioned sql rest

def prepareUpdate (s : Settings) (c : Connection σ) (m : Mapping ε) :
    Except Failure (Option (Versioning ε) × Column ε) := do
  prepare s c
  let v ← m.versioning
  let id ← m.id
  .ok (v, id)

/-- The next versions of the records; records without versions have none. -/
def nextVersions (v : Option (Versioning ε)) (es : List ε) : Except Failure (List Value) :=
  match v with
  | some v => es.mapM fun e => v.width.next (v.column.get e)
  | none => .ok []

def storeVersions (v : Option (Versioning ε)) (es : List ε) (versions : List Value) :
    Except Failure Unit × List ε :=
  match v with
  | some v => changeEach v.column.set es versions
  | none => (.ok (), es)

/-- Updates the given columns of records, once the checks have passed. -/
def updateColumns (s : Settings) (c : Connection σ) (m : Mapping ε) (v : Option (Versioning ε)) (id : Column ε)
    (columns : List (Column ε)) (es : List ε) (state : σ) : Outcome σ ε Unit :=
  let template := updateTemplate m.table columns id v
  match nextVersions v es, es.mapM template.params with
  | .error f, _ => ⟨.error f, es, state⟩
  | _, .error f => ⟨.error f, es, state⟩
  | .ok versions, .ok batch =>
    let batches := chunks s.batchSize (es.zip batch)
    match (sendUpdates c m id v.isSome (Sql.text c.dialect template) batches).start state with
    | (.error f, state) => ⟨.error f, es, state⟩
    | (.ok (), state) =>
      let (result, es) := storeVersions v es versions
      ⟨result, es, state⟩

/-- Updates all columns of records. Their versions change only after every row has been matched. -/
def update (s : Settings) (c : Connection σ) (m : Mapping ε) (es : List ε) (state : σ) : Outcome σ ε Unit :=
  match prepareUpdate s c m with
  | .error f => ⟨.error f, es, state⟩
  | .ok (v, id) => updateColumns s c m v id m.columns es state

def knownColumns (m : Mapping ε) (e : ε) : List (Column ε) :=
  m.columns.filter fun c => !(c.get e).isNull

/-- Refuses a record without a version in a versioned table. -/
def checkVersion (m : Mapping ε) (v : Option (Versioning ε)) (id : Column ε) (e : ε) : Except Failure Unit :=
  if v.any fun v => (v.column.get e).isNull then .error (.rowVersionNull m.table (id.get e)) else .ok ()

/-- The next version of a record, if it has versions. -/
def nextVersion (v : Option (Versioning ε)) (e : ε) : Except Failure (Option Value) :=
  match v with
  | some v => (v.width.next (v.column.get e)).map some
  | none => .ok none

/-- The parameters for one record: what is set, with the next version, and then what is tested. -/
def rowParams (columns : List (Column ε)) (id : Column ε) (v : Option (Versioning ε)) (next : Option Value) (e : ε) :
    List Value :=
  columns.map (·.get e) ++ next.toList ++ id.get e :: (v.map fun v => v.column.get e).toList

def storeVersion (v : Option (Versioning ε)) (next : Option Value) (e : ε) : Except Failure ε :=
  match v, next with
  | some v, some next => v.column.set e next
  | _, _ => .ok e

/-- Updates columns of one record, with a statement for it alone. -/
def updateRow (c : Connection σ) (m : Mapping ε) (v : Option (Versioning ε)) (id : Column ε)
    (columns : List (Column ε)) (e : ε) (state : σ) : Outcome σ ε Unit :=
  match nextVersion v e with
  | .error f => ⟨.error f, [e], state⟩
  | .ok next =>
    let sql := Sql.text c.dialect (updateTemplate m.table columns id v)
    match (c.executeBatch sql [rowParams columns id v next e]).start state with
    | (.error f, state) => ⟨.error f, [e], state⟩
    | (.ok counts, state) =>
      match checkCounts m id v.isSome [e] counts with
      | .error f => ⟨.error f, [e], state⟩
      | .ok () =>
        match storeVersion v next e with
        | .error f => ⟨.error f, [e], state⟩
        | .ok e => ⟨.ok (), [e], state⟩

/-- Updates the columns that are not null in a record. If all are null, nothing is done and the result is
false. -/
def updateKnown (s : Settings) (c : Connection σ) (m : Mapping ε) (e : ε) (state : σ) : Outcome σ ε Bool :=
  match prepareUpdate s c m with
  | .error f => ⟨.error f, [e], state⟩
  | .ok (v, id) =>
    let columns := knownColumns m e
    if columns.isEmpty then ⟨.ok false, [e], state⟩
    else
      match checkVersion m v id e with
      | .error f => ⟨.error f, [e], state⟩
      | .ok () =>
        let o := updateRow c m v id columns e state
        ⟨o.result.map fun _ => true, o.records, o.state⟩

/-! ## Delete -/

/-- Sends batches of deletes and adds up the counts. -/
def sendDeletes (c : Connection σ) (sql : String) : List (List (List Value)) → Run σ Nat
  | [] => pure 0
  | batch :: rest => do
    let counts ← c.executeBatch sql batch
    let others ← sendDeletes c sql rest
    pure (counts.sum + others)

/-- Deletes records by their identity, whatever their versions, and gives the number of rows removed. The number has
no upper bound, as the counts have none. -/
def delete (s : Settings) (c : Connection σ) (m : Mapping ε) (es : List ε) : Run σ Nat := do
  Run.ofExcept (prepare s c)
  let id ← Run.ofExcept m.id
  let template := deleteTemplate m.table id
  let batch ← Run.ofExcept (es.mapM template.params)
  sendDeletes c (Sql.text c.dialect template) (chunks s.batchSize batch)

end TableQuery.Mutation
