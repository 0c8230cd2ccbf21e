import Mathlib.Data.Fintype.Basic
import Mathlib.Data.Finset.Card
import TableQuery.Connection.Basic
import TableQuery.Mutation.Statement
import TableQuery.Proofs.Sql.Pieces

/- Databases, as far as updates rely on them. An UPDATE statement sets columns of the rows on which its
   tests hold. A database applies a batch to its table parameter set by parameter set, and reports for
   each how many rows matched (`Database.Runs`); how it compares values and in which form its columns keep
   them is its own affair.

   The text of the update that is written for a record is that of such a statement
   (`text_updateTemplate`). -/
namespace TableQuery

/-! ## Statements -/

/-- An UPDATE statement: the columns that it sets and the columns that it tests. Each stands with a
parameter of its own, in this order. -/
structure UpdateStatement where
  table : String
  assigned : List String
  tested : List String

namespace UpdateStatement

/-- The columns with the placeholders that follow the first `index`. -/
def equations (d : Dialect) (index : Nat) : List String → List String
  | [] => []
  | c :: cs => (d.quote c ++ " = " ++ d.placeholder (index + 1)) :: equations d (index + 1) cs

def text (u : UpdateStatement) (d : Dialect) : String :=
  "UPDATE " ++ d.quote u.table ++ " SET " ++ ", ".intercalate (equations d 0 u.assigned) ++
    " WHERE " ++ " AND ".intercalate (equations d u.assigned.length u.tested)

/-- What the columns are set to. -/
def assignments (u : UpdateStatement) (params : List Value) : List (String × Value) :=
  u.assigned.zip params

/-- What the columns must equal. -/
def tests (u : UpdateStatement) (params : List Value) : List (String × Value) :=
  u.tested.zip (params.drop u.assigned.length)

end UpdateStatement

/-! ## Tables -/

/-- A table with the rows `ι`: the value of each column in each row. -/
abbrev StoredTable (ι : Type) := ι → String → Value

structure Database (σ ι : Type) where
  /-- The table that is written to. -/
  table : σ → StoredTable ι
  /-- Two values are equal in a condition. -/
  same : Value → Value → Bool
  /-- The form in which a column keeps a value. -/
  kept : String → Value → Value

namespace Database

variable {σ ι : Type} (db : Database σ ι)

def holds (tests : List (String × Value)) (row : String → Value) : Bool :=
  tests.all fun (c, v) => db.same (row c) v

def assign (assignments : List (String × Value)) (row : String → Value) (c : String) : Value :=
  match assignments.lookup c with
  | some v => db.kept c v
  | none => row c

/-- The statement with one set of parameters. -/
def write (u : UpdateStatement) (t : StoredTable ι) (params : List Value) : StoredTable ι := fun i =>
  if db.holds (u.tests params) (t i) then db.assign (u.assignments params) (t i) else t i

/-- The statement with one set of parameters after the other. -/
def writeAll (u : UpdateStatement) (t : StoredTable ι) (batch : List (List Value)) : StoredTable ι :=
  batch.foldl (db.write u) t

@[simp] theorem writeAll_append (u : UpdateStatement) (t : StoredTable ι) (as bs : List (List Value)) :
    db.writeAll u t (as ++ bs) = db.writeAll u (db.writeAll u t as) bs :=
  List.foldl_append

variable [Fintype ι]

def matched (u : UpdateStatement) (t : StoredTable ι) (params : List Value) : Nat :=
  (Finset.univ.filter fun i => db.holds (u.tests params) (t i) = true).card

/-- The numbers of rows that the statement matches, one set of parameters after the other. -/
def counts (u : UpdateStatement) : StoredTable ι → List (List Value) → List Nat
  | _, [] => []
  | t, params :: batch => db.matched u t params :: counts u (db.write u t params) batch

/-- The connection runs batches of the statement on the table. It may fail; if it does not, it has applied
the sets of parameters in order, and it gives the numbers of rows matched. -/
structure Runs (c : Connection σ) (u : UpdateStatement) : Prop where
  executed : ∀ {batch s counts s'}, (c.executeBatch (u.text c.dialect) batch).start s = (.ok counts, s') →
    counts = db.counts u (db.table s) batch ∧ db.table s' = db.writeAll u (db.table s) batch

theorem counts_append (u : UpdateStatement) (t : StoredTable ι) (as bs : List (List Value)) :
    db.counts u t (as ++ bs) = db.counts u t as ++ db.counts u (db.writeAll u t as) bs := by
  induction as generalizing t with
  | nil => rfl
  | cons params as ih =>
    simp only [List.cons_append, counts, ih]
    rfl

theorem matched_eq_one_iff {u : UpdateStatement} {t : StoredTable ι} {params : List Value} :
    db.matched u t params = 1 ↔ ∃ i, ∀ j, db.holds (u.tests params) (t j) = true ↔ j = i := by
  unfold matched
  rw [Finset.card_eq_one]
  constructor
  · rintro ⟨i, hi⟩
    refine ⟨i, fun j => ?_⟩
    have hj := Finset.ext_iff.mp hi j
    simpa only [Finset.mem_filter, Finset.mem_univ, true_and, Finset.mem_singleton] using hj
  · rintro ⟨i, hi⟩
    refine ⟨i, Finset.ext fun j => ?_⟩
    simpa only [Finset.mem_filter, Finset.mem_univ, true_and, Finset.mem_singleton] using hi j

end Database

/-! ## The text of updates -/

namespace Mutation

variable {ε : Type}

theorem bindings_equation (c : Column ε) (s : Slot ε) : Sql.bindings (equation c s) = [s] := rfl

/-- The parameters of columns that are set or tested come in the order of the columns. -/
theorem bindings_equations (separator : String) (pairs : List (Column ε × Slot ε)) :
    Sql.bindings (Sql.joined separator (pairs.map fun p => equation p.1 p.2)) = pairs.map Prod.snd := by
  rw [Sql.bindings_joined, List.map_map, List.map_eq_flatMap (f := Prod.snd), List.flatMap_def]
  rfl

theorem textFrom_equation (d : Dialect) (index : Nat) (c : Column ε) (s : Slot ε) :
    Sql.textFrom d index (equation c s) = d.quote c.name ++ " = " ++ d.placeholder (index + 1) := by
  simp only [equation, Sql.textFrom, String.append_empty, String.append_assoc]

/-- Columns that are set or tested are written with their placeholders in order. -/
theorem textFrom_equations (d : Dialect) (separator : String) (pairs : List (Column ε × Slot ε)) (index : Nat) :
    Sql.textFrom d index (Sql.joined separator (pairs.map fun p => equation p.1 p.2)) =
      separator.intercalate (UpdateStatement.equations d index (pairs.map fun p => p.1.name)) := by
  rw [Sql.textFrom_joined]
  congr 1
  induction pairs generalizing index with
  | nil => rfl
  | cons p pairs ih =>
    simp only [List.map_cons, Sql.textsFrom, textFrom_equation, bindings_equation, List.length_singleton, ih,
      UpdateStatement.equations]

/-- The statement that updates columns of a record with its identity and its version. -/
def versionedUpdate (table : String) (columns : List (Column ε)) (id : Column ε) (v : Versioning ε) :
    UpdateStatement :=
  ⟨table, columns.map Column.name ++ [v.column.name], [id.name, v.column.name]⟩

/-- What the statement sets, as the update writes it: the columns, and the version. -/
def assignedSlots (columns : List (Column ε)) (v : Versioning ε) : List (Column ε × Slot ε) :=
  columns.map (fun c => (c, .column c)) ++ [(v.column, .nextVersion v)]

theorem assignedSlots_names (columns : List (Column ε)) (v : Versioning ε) :
    (assignedSlots columns v).map (fun p => p.1.name) = columns.map Column.name ++ [v.column.name] := by
  simp only [assignedSlots, List.map_append, List.map_map, List.map_cons, List.map_nil]
  rfl

theorem updateTemplate_eq (table : String) (columns : List (Column ε)) (id : Column ε) (v : Versioning ε) :
    updateTemplate table columns id (some v) = .raw "UPDATE " :: .name table :: .raw " SET " ::
      (Sql.joined ", " ((assignedSlots columns v).map fun p => equation p.1 p.2) ++ .raw " WHERE " ::
        Sql.joined " AND " ([(id, Slot.column id), (v.column, .column v.column)].map fun p => equation p.1 p.2)) := by
  simp only [updateTemplate, assignedSlots, List.map_append, List.map_map, List.map_cons, List.map_nil,
    Option.toList_some, List.cons_append, List.append_assoc, Sql.joined]
  rfl

/-- The text of the update is that of the statement: its placeholders are numbered in one go, through what is
set and what is tested. -/
theorem text_updateTemplate (d : Dialect) (table : String) (columns : List (Column ε)) (id : Column ε)
    (v : Versioning ε) :
    Sql.text d (updateTemplate table columns id (some v)) = (versionedUpdate table columns id v).text d := by
  have hlength : (Sql.bindings (Sql.joined ", " ((assignedSlots columns v).map fun p => equation p.1 p.2))).length =
      (columns.map Column.name ++ [v.column.name]).length := by
    rw [bindings_equations, ← assignedSlots_names, List.length_map, List.length_map]
  rw [updateTemplate_eq]
  simp only [Sql.text, Sql.textFrom, Sql.textFrom_append, textFrom_equations, assignedSlots_names, hlength,
    UpdateStatement.text, versionedUpdate, String.append_assoc, Nat.zero_add]
  rfl

/-- What stands in the places of the update, in order. -/
theorem bindings_updateTemplate (table : String) (columns : List (Column ε)) (id : Column ε) (v : Versioning ε) :
    Sql.bindings (updateTemplate table columns id (some v)) =
      columns.map Slot.column ++ [.nextVersion v] ++ [.column id, .column v.column] := by
  rw [updateTemplate_eq]
  simp only [Sql.bindings, Sql.bindings_append]
  rw [bindings_equations, bindings_equations, assignedSlots, List.map_append, List.map_map]
  rfl

/-- The columns, each with the place of its own value. -/
def columnSlots (columns : List (Column ε)) : List (Column ε × Slot ε) :=
  columns.map fun c => (c, .column c)

theorem columnSlots_names (columns : List (Column ε)) :
    (columnSlots columns).map (fun p => p.1.name) = columns.map Column.name := by
  rw [columnSlots, List.map_map]
  rfl

theorem columnSlots_slots (columns : List (Column ε)) :
    (columnSlots columns).map Prod.snd = columns.map Slot.column := by
  rw [columnSlots, List.map_map]
  rfl

theorem unversionedUpdate_eq (table : String) (columns : List (Column ε)) (id : Column ε) :
    updateTemplate table columns id none = .raw "UPDATE " :: .name table :: .raw " SET " ::
      (Sql.joined ", " ((columnSlots columns).map fun p => equation p.1 p.2) ++
        .raw " WHERE " :: equation id (.column id)) := by
  simp only [updateTemplate, columnSlots, Option.toList_none, List.map_nil, List.append_nil, List.map_map,
    List.cons_append]
  rfl

theorem bindings_unversionedUpdate (table : String) (columns : List (Column ε)) (id : Column ε) :
    Sql.bindings (updateTemplate table columns id none) = columns.map Slot.column ++ [.column id] := by
  rw [unversionedUpdate_eq]
  simp only [Sql.bindings, Sql.bindings_append, bindings_equations, columnSlots_slots, bindings_equation]

end Mutation

end TableQuery
