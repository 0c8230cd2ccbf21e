import TableQuery.Memory.Store
import TableQuery.Proofs.Memory.Counting
import TableQuery.Proofs.Number.Finite
import TableQuery.Proofs.Value.Integer

/- Records inserted into a table are read back from it (`records_read_back`). A record is an object of scalars,
   and every such object is one (`Record.exists_of_object`); its fields are in ascending order of their names.
   Its row has a column for each field, and put together again in the order of the columns, the fields are those
   of the record (`object_of_ascending`).

   On the way each scalar is a value, and it comes back as it went in unless it is a whole number past the
   signed ones of 64 bits. Values have no kind for those, which come back as the nearest double
   (`Json.settled`, `toJson_ofJson`). -/
namespace TableQuery

/-! ## Scalars -/

namespace Json

/-- A scalar of a JSON text: whole numbers are those of 64 bits, with or without a sign, and no double is
infinite. -/
inductive IsScalar : Json → Prop where
  | null : IsScalar .null
  | bool (b : Bool) : IsScalar (.bool b)
  | int {n : Int} (hlow : -2 ^ 63 ≤ n) (hhigh : n < 2 ^ 64) : IsScalar (.int n)
  | real {x : Float} (hx : x.isFinite = true) : IsScalar (.real x)
  | str (s : String) : IsScalar (.str s)

/-- It is no whole number past the signed ones of 64 bits. -/
def FitsLong : Json → Prop
  | .int n => n < 2 ^ 63
  | _ => True

/-- What values make of a scalar. -/
def settled : Json → Json
  | .int n => if n < 2 ^ 63 then .int n else .real (Float.ofInt n)
  | j => j

theorem settled_int_of_large {n : Int} (h : ¬n < 2 ^ 63) : (Json.int n).settled = .real (Float.ofInt n) :=
  if_neg h

/-- Exactly the other scalars are as they were. -/
theorem settled_eq_iff (j : Json) : j.settled = j ↔ j.FitsLong := by
  cases j with
  | int n =>
    by_cases h : n < 2 ^ 63
    · exact iff_of_true (if_pos h) h
    · rw [settled_int_of_large h]
      exact iff_of_false (fun heq => nomatch heq) h
  | _ => exact iff_of_true rfl trivial

theorem IsScalar.settled {j : Json} (h : j.IsScalar) : j.settled.IsScalar := by
  cases h with
  | @int n hlow hhigh =>
    by_cases hn : n < 2 ^ 63
    · rw [(settled_eq_iff (.int n)).mpr hn]
      exact .int hlow hhigh
    · rw [settled_int_of_large hn]
      exact .real (Double.ofInt_isFinite (by omega) hhigh)
  | null => exact .null
  | bool b => exact .bool b
  | real hx => exact .real hx
  | str s => exact .str s

end Json

namespace Value

theorem toJson_long {n : Int} (hlow : -2 ^ 63 ≤ n) (hhigh : n < 2 ^ 63) : (ofJson (.int n)).toJson = .int n := by
  have hfits : Fits (2 ^ 63) n := ⟨hlow, hhigh⟩
  rw [ofJson, ofInt64?_eq, if_pos hfits, Option.getD_some, toJson, Int64.toInt_ofInt_of_le hlow hhigh]

theorem ofJson_large {n : Int} (hlow : ¬n < 2 ^ 63) : ofJson (.int n) = double (Float.ofInt n) := by
  have hfits : ¬Fits (2 ^ 63) n := fun h => hlow h.2
  rw [ofJson, ofInt64?_eq, if_neg hfits, Option.getD_none]

theorem toJson_double {x : Float} (hx : x.isFinite = true) : (double x).toJson = .real x :=
  if_pos hx

/-- A scalar comes back from its value as `settled` says. -/
theorem toJson_ofJson {j : Json} (h : j.IsScalar) : (ofJson j).toJson = j.settled := by
  cases h with
  | @int n hlow hhigh =>
    by_cases hn : n < 2 ^ 63
    · rw [toJson_long hlow hn, (Json.settled_eq_iff (.int n)).mpr hn]
    · rw [ofJson_large hn, toJson_double (Double.ofInt_isFinite (by omega) hhigh), Json.settled_int_of_large hn]
  | real hx => exact toJson_double hx
  | _ => rfl

end Value

/-! ## Objects -/

namespace Json

/-- Fields in strictly ascending order of their names. -/
def Ascending (fields : List (String × Json)) : Prop :=
  fields.Pairwise fun a b => a.1 < b.1

theorem mem_insertField {key : String} {value : Json} {f : String × Json} :
    ∀ {fields : List (String × Json)}, f ∈ insertField key value fields → f = (key, value) ∨ f ∈ fields
  | [], hf => .inl (List.mem_singleton.mp hf)
  | (k, v) :: rest, hf => by
    rw [insertField] at hf
    split at hf
    · exact List.mem_cons.mp hf
    · split at hf
      · exact (List.mem_cons.mp hf).imp_right (List.mem_cons_of_mem _)
      · rcases List.mem_cons.mp hf with rfl | hf
        · exact .inr List.mem_cons_self
        · exact (mem_insertField hf).imp_right (List.mem_cons_of_mem _)

/-- A field is put where its name belongs. -/
theorem Ascending.insertField {fields : List (String × Json)} (h : Ascending fields) (key : String) (value : Json) :
    Ascending (insertField key value fields) := by
  induction fields with
  | nil => exact List.pairwise_singleton _ _
  | cons f rest ih =>
    obtain ⟨k, v⟩ := f
    obtain ⟨hfirst, hrest⟩ := List.pairwise_cons.mp h
    rw [Json.insertField]
    split
    · next hlt =>
      refine List.pairwise_cons.mpr ⟨fun g hg => ?_, h⟩
      rcases List.mem_cons.mp hg with rfl | hg
      · exact hlt
      · exact String.lt_trans hlt (hfirst g hg)
    · next hnlt =>
      split
      · next heq => exact List.pairwise_cons.mpr ⟨heq ▸ hfirst, hrest⟩
      · next hne =>
        have hlt : k < key := Std.lt_of_le_of_ne (String.not_lt.mp hnlt) (Ne.symm hne)
        refine List.pairwise_cons.mpr ⟨fun g hg => ?_, ih hrest⟩
        rcases mem_insertField hg with rfl | hg
        · exact hlt
        · exact hfirst g hg

theorem insertField_last {key : String} {value : Json} :
    ∀ {fields : List (String × Json)}, (∀ f ∈ fields, f.1 < key) →
      insertField key value fields = fields ++ [(key, value)]
  | [], _ => rfl
  | (k, v) :: rest, h => by
    have hk : k < key := h (k, v) List.mem_cons_self
    have hne : key ≠ k := fun heq => String.lt_irrefl key (heq ▸ hk)
    rw [insertField, if_neg (String.lt_asymm hk), if_neg hne,
      insertField_last fun f hf => h f (List.mem_cons_of_mem _ hf)]
    rfl

theorem foldl_insertField (done : List (String × Json)) {rest : List (String × Json)} (h : Ascending (done ++ rest)) :
    rest.foldl (fun acc (k, v) => insertField k v acc) done = done ++ rest := by
  -- On the fields to come. Those that are there already are the smaller ones.
  induction rest generalizing done with
  | nil => rw [List.foldl_nil, List.append_nil]
  | cons f rest ih =>
    have hlast : ∀ g ∈ done, g.1 < f.1 := fun g hg => (List.pairwise_append.mp h).2.2 g hg f List.mem_cons_self
    have hinsert : insertField f.1 f.2 done = done ++ [f] := insertField_last hlast
    rw [List.append_cons] at h ⊢
    exact (congrArg (rest.foldl _) hinsert).trans (ih (done ++ [f]) h)

/-- Fields in ascending order make an object as they are. -/
theorem object_of_ascending {fields : List (String × Json)} (h : Ascending fields) : object fields = .obj fields := by
  rw [object, foldl_insertField [] h, List.nil_append]

end Json

/-! ## Records -/

/-- The fields of a record, each of which is a scalar. -/
structure Record where
  fields : List (String × Json)
  ascending : Json.Ascending fields
  scalars : ∀ f ∈ fields, f.2.IsScalar

namespace Record

def json (r : Record) : Json :=
  .obj r.fields

def empty : Record :=
  ⟨[], List.Pairwise.nil, List.forall_mem_nil _⟩

def insert (r : Record) (key : String) {value : Json} (h : value.IsScalar) : Record where
  fields := Json.insertField key value r.fields
  ascending := r.ascending.insertField key value
  scalars := by
    intro f hf
    rcases Json.mem_insertField hf with rfl | hf
    · exact h
    · exact r.scalars f hf

theorem exists_foldl {fields : List (String × Json)} (h : ∀ f ∈ fields, f.2.IsScalar) (done : Record) :
    ∃ r : Record, r.fields = fields.foldl (fun acc (k, v) => Json.insertField k v acc) done.fields := by
  induction fields generalizing done with
  | nil => exact ⟨done, rfl⟩
  | cons f rest ih =>
    obtain ⟨hf, hrest⟩ := List.forall_mem_cons.mp h
    exact ih hrest (done.insert f.1 hf)

/-- Every object of scalars is a record. -/
theorem exists_of_object {fields : List (String × Json)} (h : ∀ f ∈ fields, f.2.IsScalar) :
    ∃ r : Record, r.json = .object fields := by
  obtain ⟨r, hr⟩ := exists_foldl h empty
  exact ⟨r, congrArg Json.obj hr⟩

/-- The record of what values make of the fields. -/
def settled (r : Record) : Record where
  fields := r.fields.map fun f => (f.1, f.2.settled)
  ascending := by exact List.pairwise_map.mpr r.ascending
  scalars := by
    intro f hf
    obtain ⟨g, hg, rfl⟩ := List.mem_map.mp hf
    exact (r.scalars g hg).settled

theorem settled_json_eq_iff (r : Record) : r.settled.json = r.json ↔ ∀ f ∈ r.fields, f.2.FitsLong := by
  have hmap : r.settled.json = r.json ↔ r.fields.map (fun f => (f.1, f.2.settled)) = r.fields.map id := by
    rw [json, json, settled, Json.obj.injEq, List.map_id]
  rw [hmap, List.map_inj_left]
  refine forall₂_congr fun f _ => ?_
  rw [Prod.ext_iff, ← Json.settled_eq_iff]
  exact and_iff_right rfl

/-- The row of a record. -/
def row (r : Record) : Row :=
  ⟨r.fields.map Prod.fst, r.fields.map fun f => .ofJson f.2⟩

theorem decode_row (r : Record) : r.row.decode .json .entity = .ok r.settled.json := by
  have hfields : (r.row.columns.zip r.row.values).map (fun c => (c.1, c.2.toJson)) = r.settled.fields := by
    rw [row, List.zip_map', List.map_map]
    refine List.map_congr_left fun f hf => ?_
    exact congrArg (f.1, ·) (Value.toJson_ofJson (r.scalars f hf))
  calc r.row.decode .json .entity
      = .ok (.object ((r.row.columns.zip r.row.values).map fun c => (c.1, c.2.toJson))) := rfl
    _ = .ok r.settled.json := by rw [hfields, Json.object_of_ascending r.settled.ascending]; rfl

end Record

/-! ## Tables -/

namespace Memory

theorem rowsOf_addRows (name : String) (rows : List Row) (tables : Tables) :
    rowsOf (addRows name rows tables) name = rowsOf tables name ++ rows := by
  induction tables with
  | nil =>
    simp only [addRows, rowsOf, List.lookup_cons_self, List.lookup_nil, Option.getD_some, Option.getD_none,
      List.nil_append]
  | cons t tables ih =>
    obtain ⟨n, rs⟩ := t
    by_cases hn : n = name
    · subst hn
      simp only [addRows, if_pos, rowsOf, List.lookup_cons_self, Option.getD_some]
    · have hne : (name == n) = false := beq_eq_false_iff_ne.mpr (Ne.symm hn)
      rw [addRows, if_neg hn]
      simpa only [rowsOf, List.lookup_cons, hne] using ih

/-- A query without clauses gives the rows of its table. -/
theorem evaluate_ofTable (tables : Tables) (name : String) :
    evaluate tables (.ofTable name) = .ok (rowsOf tables name) := by
  have hselects : Selects .empty (rowsOf tables name) (rowsOf tables name) (rowsOf tables name) :=
    ⟨keep_tru _, selectRows_entity rfl rfl rfl _⟩
  exact evaluate_ok_iff.mpr ⟨rfl, _, rfl, runClauses_ok_iff.mpr ⟨_, _, hselects, rfl⟩⟩

theorem insertRecords_records (s : Store) (table : String) (records : List Record) :
    s.insertRecords table (records.map Record.json) = .ok (s.insertRows table (records.map Record.row)) := by
  have hrow : ∀ r : Record, Store.rowOfRecord r.json = .ok r.row := fun _ => rfl
  rw [Store.insertRecords, mapM_map_total hrow]
  rfl

/-- Every object of scalars is a record. Records inserted into an empty table are the rows of the table, and
reading these as JSON gives the records in order. Numbers past the signed ones of 64 bits come back as doubles
and all else as it was. -/
theorem records_read_back (s : Store) (table : String) (records : List Record) (hempty : rowsOf s.tables table = []) :
    (∀ fields : List (String × Json), (∀ f ∈ fields, f.2.IsScalar) → ∃ r : Record, r.json = .object fields) ∧
    (∃ s' rows, s.insertRecords table (records.map Record.json) = .ok s' ∧
      evaluate s'.tables (.ofTable table) = .ok rows ∧
      rows.mapM (Row.decode .json .entity) = .ok (records.map fun r => r.settled.json)) ∧
    (∀ r : Record, r.settled.json = r.json ↔ ∀ f ∈ r.fields, f.2.FitsLong) ∧
    ∀ j : Json, j.IsScalar → (Value.ofJson j).toJson = j.settled ∧ (j.settled = j ↔ j.FitsLong) := by
  refine ⟨fun _ => Record.exists_of_object, ⟨_, _, insertRecords_records s table records, evaluate_ofTable _ table, ?_⟩,
    Record.settled_json_eq_iff, fun j hj => ⟨Value.toJson_ofJson hj, j.settled_eq_iff⟩⟩
  have hrows : rowsOf (s.insertRows table (records.map Record.row)).tables table = records.map Record.row := by
    rw [Store.insertRows, rowsOf_addRows, hempty, List.nil_append]
  rw [hrows]
  exact mapM_map_total Record.decode_row records

/-- A record with a scalar of each kind. -/
def draft : Record :=
  ((((Record.empty.insert "title" (.str "first")).insert "tag" .null).insert "open" (.bool true)).insert "score"
    (.real (x := 0.5) (by decide))).insert "id" (.int (n := -7) (by decide) (by decide))

/-- A record whose number is the first past the signed ones of 64 bits. -/
def largeId : Record :=
  Record.empty.insert "id" (.int (n := 9223372036854775808) (by decide) (by decide))

theorem records_read_back_notes :
    let first : Json := .obj [("id", .int (-7)), ("open", .bool true), ("score", .real 0.5), ("tag", .null),
      ("title", .str "first")]
    rowsOf Store.empty.tables "notes" = [] ∧
    (∃ r : Record, r.json = .object [("title", .str "first"), ("open", .bool true)]) ∧
    (∃ s' rows, Store.empty.insertRecords "notes" [first, .obj [("id", .int 9223372036854775808)]] = .ok s' ∧
      evaluate s'.tables (.ofTable "notes") = .ok rows ∧
      rows.mapM (Row.decode .json .entity) =
        .ok [first, .obj [("id", .real (Float.ofInt 9223372036854775808))]]) ∧
    (largeId.settled.json = largeId.json ↔ ∀ f ∈ largeId.fields, f.2.FitsLong) ∧
    (Value.ofJson (.str "first")).toJson = .str "first" := by
  obtain ⟨hobjects, hread, hrecords, hscalars⟩ := records_read_back .empty "notes" [draft, largeId] rfl
  refine ⟨rfl, hobjects _ ?_, hread, hrecords largeId, (hscalars (.str "first") (.str _)).1⟩
  simp only [List.forall_mem_cons]
  exact ⟨.str _, .bool _, List.forall_mem_nil _⟩

/-- The number does not come back from its table. -/
theorem large_id_not_read_back :
    ∃ s' rows, Store.empty.insertRecords "notes" [largeId.json] = .ok s' ∧
      evaluate s'.tables (.ofTable "notes") = .ok rows ∧
      rows.mapM (Row.decode .json .entity) ≠ .ok [largeId.json] := by
  refine ⟨_, _, insertRecords_records .empty "notes" [largeId], evaluate_ofTable _ "notes", ?_⟩
  intro hsame
  obtain ⟨j, hj, heq⟩ := mapM_singleton_ok.mp (show [largeId.row].mapM _ = _ from hsame)
  obtain rfl : largeId.settled.json = j := Except.ok.inj (largeId.decode_row.symm.trans hj)
  have hfits := largeId.settled_json_eq_iff.mp (List.cons.inj heq).1.symm
  exact absurd (hfits _ List.mem_cons_self) (show ¬(9223372036854775808 : Int) < 2 ^ 63 by decide)

end Memory

end TableQuery
