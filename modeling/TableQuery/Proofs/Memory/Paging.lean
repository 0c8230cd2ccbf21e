import Mathlib.Algebra.Group.Nat.Defs
import TableQuery.Builder.Retrieval
import TableQuery.Memory.Store
import TableQuery.Proofs.Memory.Counting

/- Pages, the first row and the only row are views of one list, the rows that a builder gives without its own
   offset and limit. Queries are run on a store, which keeps its tables and records them (`Answers`); the page
   of a query is the page of its rows, before and after they are read (`answers_page`); and the count is the
   number of all rows (`answers_count`). Reading page after page, each begins where the one before it has ended
   (`readsPages_from`). -/
namespace TableQuery

namespace Builder

variable {σ α : Type}

/-- Pages of `limit` rows, read one after the other from `offset` on, up to the first one without a next. -/
inductive ReadsPages (b : Builder) (x : Executor σ) (d : Json.Decoder α) (limit : Nat) :
    Nat → σ → List (Slice α) → σ → Prop where
  | last {offset : Nat} {s s' : σ} {p : Slice α} (h : (b.slice x d offset limit).start s = (.ok p, s'))
    (hlast : p.hasNext = false) : ReadsPages b x d limit offset s [p] s'
  | next {offset : Nat} {s s' s'' : σ} {p : Slice α} {ps : List (Slice α)}
    (h : (b.slice x d offset limit).start s = (.ok p, s')) (hnext : p.hasNext = true)
    (hrest : ReadsPages b x d limit (offset + limit) s' ps s'') : ReadsPages b x d limit offset s (p :: ps) s''

/-- The only one of these rows, if there is one. -/
def onlyOne : List α → Except Failure (Option α)
  | [] => .ok none
  | [a] => .ok (some a)
  | _ => .error (.multipleRows 2)

end Builder

namespace Memory

variable {α β : Type} {tables : Tables}

/-! ## Runs on a store -/

/-- On a store with these tables the run has this result. It leaves the tables as they are, and what it records
comes after what was recorded. -/
def Answers (tables : Tables) (x : Run Store α) (r : Except Failure α) : Prop :=
  ∀ s : Store, s.tables = tables → ∃ log, x.start s = (r, ⟨tables, s.served ++ log⟩)

theorem answers_ofExcept (r : Except Failure α) : Answers tables (Run.ofExcept r) r := by
  rintro s rfl
  exact ⟨[], by rw [Run.start_ofExcept, List.append_nil]⟩

theorem answers_pure (a : α) : Answers tables (pure a) (.ok a) :=
  answers_ofExcept (.ok a)

theorem Answers.bind {x : Run Store α} {r : Except Failure α} {f : α → Run Store β} {g : α → Except Failure β}
    (hx : Answers tables x r) (hf : ∀ a, r = .ok a → Answers tables (f a) (g a)) :
    Answers tables (x >>= f) (r.bind g) := by
  intro s hs
  obtain ⟨log, hrun⟩ := hx s hs
  rw [Run.start_bind, hrun]
  cases r with
  | error e => exact ⟨log, rfl⟩
  | ok a =>
    obtain ⟨log', hrest⟩ := hf a rfl ⟨tables, s.served ++ log⟩ rfl
    rw [List.append_assoc] at hrest
    exact ⟨log ++ log', hrest⟩

theorem Answers.andThen {x : Run Store α} {a : α} {f : α → Run Store β} {r : Except Failure β}
    (hx : Answers tables x (.ok a)) (hf : Answers tables (f a) r) : Answers tables (x >>= f) r :=
  hx.bind (g := fun _ => r) fun _ h => Except.ok.inj h ▸ hf

theorem Answers.start_eq {x : Run Store α} {s : Store} {r : Except Failure α} (h : Answers s.tables x r) :
    (x.start s).1 = r := by
  obtain ⟨_, hrun⟩ := h s rfl
  rw [hrun]

theorem answers_rows (tables : Tables) (q : Query) : Answers tables (executor.rows q) (evaluate tables q) := by
  rintro s rfl
  exact ⟨[q], Run.start_ofExcept _ _⟩

theorem answers_collect (tables : Tables) (d : Json.Decoder α) (q : Query) :
    Answers tables (Builder.collect executor d q)
      ((evaluate tables q).bind fun raw => raw.mapM (Row.decode d q.clauses.select.selection)) :=
  (answers_rows tables q).bind fun _ _ => answers_ofExcept _

/-! ## Pages of a query -/

/-- Without its own offset and limit the query gives these rows, which are read as `rows`. -/
structure Lists (tables : Tables) (d : Json.Decoder α) (q : Query) (raw : List Row) (rows : List α) : Prop where
  evaluates : evaluate tables ((q.withOffset none).withLimit none) = .ok raw
  reads : raw.mapM (Row.decode d q.clauses.select.selection) = .ok rows

variable {d : Json.Decoder α} {q : Query} {b : Builder} {raw : List Row} {rows : List α}

theorem lists_of_start {s : Store} {mode : LockMode}
    (h : ((b.listPage executor d none none mode).start s).1 = .ok rows) :
    ∃ raw, Lists s.tables d b.query raw rows := by
  rw [Builder.listPage, (answers_collect s.tables d (b.query.listQuery none none mode)).start_eq] at h
  obtain ⟨raw, hraw, hrows⟩ := bind_ok.mp h
  refine ⟨raw, ?_, ?_⟩
  · rw [← hraw]
    cases b.query <;> rfl
  · rw [Query.listQuery, Query.clauses_update] at hrows
    exact hrows

theorem evaluate_page (h : evaluate tables ((q.withOffset none).withLimit none) = .ok raw)
    (offset : Option Nat) (n : Nat) (mode : LockMode) :
    evaluate tables (q.listQuery offset (some n) mode) = .ok ((raw.drop (offset.getD 0)).take n) := by
  obtain ⟨hgroups, source, hsource, hrun⟩ := evaluate_ok_iff.mp h
  obtain ⟨kept, selected, ⟨hkeep, hselect⟩, hpage⟩ := runClauses_ok_iff.mp hrun
  simp only [Query.withOffset, Query.withLimit, Query.update_update, Query.clauses_update, Query.source_update,
    Function.comp_apply] at hgroups hsource hkeep hselect hpage
  refine evaluate_ok_iff.mpr ⟨?_, source, ?_, runClauses_ok_iff.mpr ⟨kept, selected, ⟨?_, ?_⟩, ?_⟩⟩
  all_goals simp only [Query.listQuery, Query.clauses_update, Query.source_update]
  · exact hgroups
  · exact hsource
  · exact hkeep
  · exact hselect
  · rw [← hpage]
    rfl

theorem Lists.answers_page (h : Lists tables d q raw rows) (offset : Option Nat) (n : Nat) (mode : LockMode) :
    Answers tables (Builder.collect executor d (q.listQuery offset (some n) mode))
      (.ok ((rows.drop (offset.getD 0)).take n)) := by
  have hread : ((raw.drop (offset.getD 0)).take n).mapM (Row.decode d q.clauses.select.selection) =
      .ok ((rows.drop (offset.getD 0)).take n) :=
    (mapM_split (mapM_split h.reads (offset.getD 0)).2 n).1
  have hanswer := answers_collect tables d (q.listQuery offset (some n) mode)
  rw [evaluate_page h.evaluates, Query.listQuery, Query.clauses_update] at hanswer
  exact hread ▸ hanswer

theorem Lists.length_eq (h : Lists tables d q raw rows) : rows.length = raw.length :=
  mapM_length h.reads

/-- A number of rows that fits 64 bits with a sign is read from the row that counts them. -/
theorem readCount_ok {r : Row} {n : Nat} (h : r.values.head? = some (.long (Int64.ofNat n))) (hn : n < 2 ^ 63) :
    Builder.readCount [r] = .ok n := by
  have hint : (Int64.ofNat n).toInt = n := Int64.toInt_ofNat_of_lt hn
  simp only [Builder.readCount, List.head?_cons, Option.bind_some, h, Value.toInt?, hint, Int.toNat_natCast]
  exact if_pos (Int.natCast_nonneg n)

theorem Lists.answers_count (h : Lists tables d b.query raw rows) (hsize : rows.length < 2 ^ 63) :
    Answers tables (b.count executor) (.ok rows.length) := by
  obtain ⟨kept, hkeeps, hlen⟩ := countBase_keeps h.evaluates
  obtain ⟨r, hr, hcount⟩ := hkeeps.count
  rw [hlen, ← h.length_eq] at hcount
  rw [← Query.countQuery_eq] at hr
  refine Answers.andThen (hr ▸ answers_rows tables b.query.countQuery) ?_
  exact readCount_ok hcount hsize ▸ answers_ofExcept _

/-! ## Slices -/

theorem Lists.answers_slice (h : Lists tables d b.query raw rows) (hsize : rows.length < 2 ^ 63) (offset limit : Nat) :
    Answers tables (b.slice executor d offset limit)
      (.ok ⟨rows.length, offset, limit, (rows.drop offset).take limit⟩) := by
  refine (h.answers_count hsize).andThen ?_
  split
  -- Past the end there are no rows, which the list query would have given too.
  · next hend =>
    rw [List.drop_of_length_le hend, List.take_nil]
    exact answers_pure _
  · exact (h.answers_page (some offset) limit _).andThen (answers_pure _)

/-- Pages from `offset` on hold the rows from there on. -/
theorem Lists.readsPages_from (h : Lists tables d b.query raw rows) (hsize : rows.length < 2 ^ 63) {limit : Nat}
    (hlimit : 0 < limit) (offset : Nat) (hoffset : offset ≤ rows.length) (s : Store) (hs : s.tables = tables) :
    ∃ ps s', Builder.ReadsPages b executor d limit offset s ps s' ∧
      ps.flatMap Slice.data = rows.drop offset ∧ ∀ p ∈ ps, p.offset ≤ rows.length := by
  obtain ⟨log, hslice⟩ := h.answers_slice hsize offset limit s hs
  by_cases hnext : offset + ((rows.drop offset).take limit).length < rows.length
  -- The page is full, and the next one begins after it.
  · have hfull : offset + limit < rows.length := by
      rw [List.length_take, List.length_drop] at hnext
      omega
    obtain ⟨ps, s', hpages, hdata, hstart⟩ := readsPages_from h hsize hlimit (offset + limit) (by omega)
      ⟨tables, s.served ++ log⟩ rfl
    refine ⟨_ :: ps, s', .next hslice (decide_eq_true hnext) hpages, ?_, List.forall_mem_cons.mpr ⟨hoffset, hstart⟩⟩
    rw [List.flatMap_cons, hdata, ← List.drop_drop, List.take_append_drop]
  · refine ⟨[_], _, .last hslice (decide_eq_false hnext), ?_, List.forall_mem_singleton.mpr hoffset⟩
    rw [List.flatMap_singleton, List.take_of_length_le]
    rw [List.length_take, List.length_drop] at hnext
    rw [List.length_drop]
    omega
termination_by rows.length - offset

/-! ## The first row and the only row -/

theorem Lists.answers_limit (h : Lists tables d q raw rows) (n : Nat) :
    Answers tables (Builder.collect executor d (q.withLimit (some n)))
      (.ok ((rows.drop (q.clauses.offset.getD 0)).take n)) := by
  have hq : q.withLimit (some n) = q.listQuery q.clauses.offset (some n) q.clauses.lock := by cases q <;> rfl
  rw [hq]
  exact h.answers_page q.clauses.offset n q.clauses.lock

theorem Lists.answers_first (h : Lists tables d b.query raw rows) :
    Answers tables (b.first executor d) (.ok (rows.drop (b.query.clauses.offset.getD 0)).head?) := by
  refine (h.answers_limit 1).andThen ?_
  cases rows.drop (b.query.clauses.offset.getD 0) <;> exact answers_pure _

theorem Lists.answers_single (h : Lists tables d b.query raw rows) :
    Answers tables (b.single executor d) (Builder.onlyOne (rows.drop (b.query.clauses.offset.getD 0))) := by
  refine (h.answers_limit 2).andThen ?_
  rcases rows.drop (b.query.clauses.offset.getD 0) with _ | ⟨a, _ | ⟨a', rest⟩⟩
  · exact answers_pure _
  · exact answers_pure _
  -- Two rows are read, however many there are.
  · exact answers_ofExcept (.error (.multipleRows 2))

/-! ## One list of rows -/

/-- What runs of the builder on a store with these tables give, in terms of these rows. -/
structure Views (tables : Tables) (b : Builder) (d : Json.Decoder α) (rows : List α) : Prop where
  slice : ∀ offset limit, let page : Slice α := ⟨rows.length, offset, limit, (rows.drop offset).take limit⟩
    Answers tables (b.slice executor d offset limit) (.ok page) ∧
      (page.hasNext = true ↔ offset + page.data.length < rows.length)
  /-- The sum that tells whether there is a next page fits 64 bits. -/
  sum_fits : ∀ offset limit, offset < 2 ^ 64 → offset + ((rows.drop offset).take limit).length < 2 ^ 64
  /-- Reading pages comes to an end, and gives each row once and in order. -/
  pages : ∀ limit, 0 < limit → ∀ s : Store, s.tables = tables →
    ∃ ps s', b.ReadsPages executor d limit 0 s ps s' ∧ ps.flatMap Slice.data = rows ∧ ∀ p ∈ ps, p.offset ≤ rows.length
  first : Answers tables (b.first executor d) (.ok (rows.drop (b.query.clauses.offset.getD 0)).head?)
  single : Answers tables (b.single executor d) (Builder.onlyOne (rows.drop (b.query.clauses.offset.getD 0)))

/-- If a builder gives these rows without its own offset and limit, then its slices, its first row and its only
row are views of them. A list in memory has always fewer rows than the bound. -/
theorem terminals_view_rows (s : Store) (b : Builder) (d : Json.Decoder α) (rows : List α)
    (h : ((b.listPage executor d none none b.query.clauses.lock).start s).1 = .ok rows)
    (hsize : rows.length < 2 ^ 63) : Views s.tables b d rows := by
  obtain ⟨raw, hlists⟩ := lists_of_start h
  refine ⟨fun offset limit => ⟨hlists.answers_slice hsize offset limit, decide_eq_true_iff⟩, ?_, ?_,
    hlists.answers_first, hlists.answers_single⟩
  · intro offset limit hoffset
    rcases Nat.le_total offset rows.length with hle | hle
    · rw [List.length_take, List.length_drop]
      omega
    · rw [List.drop_of_length_le hle, List.take_nil]
      exact hoffset
  · intro limit hlimit t ht
    exact hlists.readsPages_from hsize hlimit 0 (Nat.zero_le _) t ht

/-- Scores of a game, one of them twice. -/
def scores : Store :=
  ⟨[("scores", [⟨["points"], [.int 7]⟩, ⟨["points"], [.int 3]⟩, ⟨["points"], [.int 7]⟩, ⟨["points"], [.int 5]⟩])], []⟩

/-- The second of the distinct points from the highest on. -/
def runnerUp : Builder :=
  let points : Field := ⟨"points"⟩
  ((((Builder.ofQuery (.ofTable "scores")).selectDistinct (.scalar points.expr)).orderBy points.descending).offset
    1).limit 1

theorem terminals_view_rows_scores :
    ((runnerUp.listPage executor Json.Decoder.int32 none none runnerUp.query.clauses.lock).start scores).1 =
      .ok [7, 5, 3] ∧ [(7 : Int), 5, 3].length < 2 ^ 63 ∧
    Views scores.tables runnerUp Json.Decoder.int32 [7, 5, 3] :=
  have h : ((runnerUp.listPage executor Json.Decoder.int32 none none runnerUp.query.clauses.lock).start scores).1 =
      .ok [7, 5, 3] := by rfl
  ⟨h, by decide, terminals_view_rows scores runnerUp _ _ h (by decide)⟩

end Memory

end TableQuery
