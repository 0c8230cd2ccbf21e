import TableQuery.Proofs.Memory.Counting
import TableQuery.Proofs.Value.Column

/- Rows are sorted by their sort keys. The order of the keys is lexicographic, and a total preorder where that of
   each key is (`PreorderOn.then`, `keyOrder_preorderOn`); sorted by a total preorder, the rows are in an order
   in which none is greater than a later one (`sortBy_pairwise`). The order of one key is a total preorder just
   on the columns that can be sorted, which leaves out integers next to the double of them all: they are even
   with it, but not with one another. -/
namespace TableQuery

/-! ## Sorting a list -/

section

variable {α : Type}

/-- Some of the items, from the last one on in an order in which none is greater than a later one. -/
structure Backwards (order : α → α → Ordering) (as done : List α) : Prop where
  subset : ∀ b ∈ done, b ∈ as
  pairwise : done.Pairwise fun x y => (order y x).isLE = true

variable {order : α → α → Ordering} {as done : List α}

theorem Backwards.insertReversed (h : PreorderOn order as) {a : α} (ha : a ∈ as) (hdone : Backwards order as done) :
    Backwards order as (Memory.insertReversed order a done) := by
  have hmem : ∀ bs : List α, (∀ b ∈ bs, b ∈ as) → ∀ b ∈ Memory.insertReversed order a bs, b ∈ as := by
    intro bs hbs b hb
    rcases List.mem_cons.mp ((Memory.insertReversed_perm order a bs).mem_iff.mp hb) with rfl | hb
    · exact ha
    · exact hbs b hb
  refine ⟨hmem done hdone.subset, ?_⟩
  obtain ⟨hsubset, hsorted⟩ := hdone
  induction done with
  | nil => exact List.pairwise_singleton _ _
  | cons b bs ih =>
    obtain ⟨hb, htail⟩ := List.pairwise_cons.mp hsorted
    have hb' := hsubset b List.mem_cons_self
    have hbs' : ∀ c ∈ bs, c ∈ as := fun c hc => hsubset c (List.mem_cons_of_mem b hc)
    simp only [Memory.insertReversed]
    split
    -- `a` comes before `b`, and goes among the items after it.
    · rename_i hlt
      have hab : (order a b).isLE = true := by
        rw [Ordering.isLT_iff_eq_lt] at hlt
        rw [hlt]
        rfl
      refine List.pairwise_cons.mpr ⟨fun c hc => ?_, ih hbs' htail⟩
      rcases List.mem_cons.mp ((Memory.insertReversed_perm order a bs).mem_iff.mp hc) with rfl | hc
      · exact hab
      · exact hb c hc
    · rename_i hge
      have hba : (order b a).isLE = true := h.isLE_of_not_isLT ha hb' hge
      refine List.pairwise_cons.mpr ⟨fun c hc => ?_, hsorted⟩
      rcases List.mem_cons.mp hc with rfl | hc
      · exact hba
      · exact h.trans c (hbs' c hc) b hb' a ha (hb c hc) hba

/-- What holds before any item is taken, and of the items taken and those done after each insertion, holds of all
items and of the sorted list backwards. -/
theorem sortBy_induction (h : PreorderOn order as) {motive : List α → List α → Prop} (nil : motive [] [])
    (insert : ∀ taken a done, a ∈ as → Backwards order as done → motive taken done →
      motive (taken ++ [a]) (Memory.insertReversed order a done)) :
    motive as (Memory.sortBy order as).reverse ∧ Backwards order as (Memory.sortBy order as).reverse := by
  have hrun : ∀ left taken done, taken ++ left = as → Backwards order as done → motive taken done →
      motive as (left.foldl (fun done a => Memory.insertReversed order a done) done) ∧
        Backwards order as (left.foldl (fun done a => Memory.insertReversed order a done) done) := by
    intro left
    induction left with
    | nil =>
      intro taken done htaken hdone hmotive
      rw [List.append_nil] at htaken
      exact ⟨htaken ▸ hmotive, hdone⟩
    | cons a left ih =>
      intro taken done htaken hdone hmotive
      have ha : a ∈ as := htaken ▸ List.mem_append_right taken List.mem_cons_self
      refine ih (taken ++ [a]) _ ?_ (hdone.insertReversed h ha) (insert taken a done ha hdone hmotive)
      rw [List.append_assoc, List.singleton_append, htaken]
  rw [Memory.sortBy, List.reverse_reverse]
  exact hrun as [] [] rfl ⟨nofun, .nil⟩ nil

theorem sortBy_pairwise (h : PreorderOn order as) :
    (Memory.sortBy order as).Pairwise fun x y => (order x y).isLE = true := by
  have hback := (sortBy_induction h (motive := fun _ _ => True) trivial fun _ _ _ _ _ _ => trivial).2
  exact List.pairwise_reverse.mp hback.pairwise

end

/-! ## Sort keys -/

namespace Memory

open Value

/-- The order of two values in a direction. -/
def directed : Direction → Value → Value → Ordering
  | .asc => sortOrder
  | .desc => fun v w => sortOrder w v

theorem keyOrder_cons (dir : Direction) (dirs : List Direction) (v w : Value) (vs ws : List Value) :
    keyOrder (dir :: dirs) (v :: vs) (w :: ws) = (directed dir v w).then (keyOrder dirs vs ws) := by
  cases dir <;> rfl

theorem directed_swap (dir : Direction) (v w : Value) : directed dir w v = (directed dir v w).swap := by
  cases dir
  · exact sortOrder_swap v w
  · exact sortOrder_swap w v

theorem keyOrder_swap (dirs : List Direction) (vs ws : List Value) :
    keyOrder dirs ws vs = (keyOrder dirs vs ws).swap := by
  induction dirs generalizing vs ws with
  | nil => rfl
  | cons dir dirs ih =>
    cases vs with
    | nil => cases ws <;> rfl
    | cons v vs =>
      cases ws with
      | nil => rfl
      | cons w ws => rw [keyOrder_cons, keyOrder_cons, directed_swap, ih, Ordering.swap_then]

theorem directed_preorderOn {vs : List Value} (h : Sortable vs) (dir : Direction) :
    PreorderOn (directed dir) vs := by
  have hsort := preorderOn_iff_sortable.mpr h
  cases dir with
  | asc => exact hsort
  | desc => exact hsort.reverse

/-- The values of one sort key. -/
def column (i : Nat) (keys : List (List Value)) : List Value :=
  keys.filterMap fun vs => vs[i]?

theorem column_zero {keys : List (List Value)} (h : ∀ vs ∈ keys, vs ≠ []) :
    column 0 keys = keys.map fun vs => vs.headD .null := by
  induction keys with
  | nil => rfl
  | cons vs keys ih =>
    have htail := ih fun ws hws => h ws (List.mem_cons_of_mem vs hws)
    cases vs with
    | nil => exact absurd rfl (h [] List.mem_cons_self)
    | cons v vs => exact congrArg (v :: ·) htail

theorem column_succ (i : Nat) (keys : List (List Value)) :
    column (i + 1) keys = column i (keys.map List.tail) := by
  rw [column, column, List.filterMap_map]
  simp only [Function.comp_def, List.getElem?_tail]

/-- The order of sort keys is a preorder if that of each key is. -/
theorem keyOrder_preorderOn (dirs : List Direction) {keys : List (List Value)}
    (hlength : ∀ vs ∈ keys, vs.length = dirs.length) (hcolumns : ∀ i, Sortable (column i keys)) :
    PreorderOn (keyOrder dirs) keys := by
  induction dirs generalizing keys with
  | nil => exact ⟨fun _ _ _ _ => rfl, fun _ _ _ _ _ _ _ _ => rfl⟩
  | cons dir dirs ih =>
    have hne : ∀ vs ∈ keys, vs ≠ [] := by
      rintro vs hvs rfl
      cases hlength [] hvs
    have hheads : PreorderOn (directed dir) (keys.map fun vs => vs.headD .null) := by
      rw [← column_zero hne]
      exact directed_preorderOn (hcolumns 0) dir
    have htails : PreorderOn (keyOrder dirs) (keys.map List.tail) := by
      refine ih (fun vs hvs => ?_) (fun i => ?_)
      · obtain ⟨ws, hws, rfl⟩ := List.mem_map.mp hvs
        rw [List.length_tail, hlength ws hws]
        rfl
      · rw [← column_succ]
        exact hcolumns (i + 1)
    refine (hheads.comap.then htails.comap).congr fun vs hvs ws hws => ?_
    cases vs with
    | nil => exact absurd rfl (hne _ hvs)
    | cons v vs =>
      cases ws with
      | nil => exact absurd rfl (hne _ hws)
      | cons w ws => exact keyOrder_cons dir dirs v w vs ws

/-! ## Queries -/

theorem withKeys_length {keys : List SortKey} {rows : List Row} {keyed : List (List Value × Row)}
    (h : withKeys keys rows = .ok keyed) : ∀ vs ∈ keyed.map Prod.fst, vs.length = keys.length := by
  intro vs hvs
  obtain ⟨p, hp, rfl⟩ := List.mem_map.mp hvs
  obtain ⟨r, _, hr⟩ := mapM_result h p hp
  obtain ⟨ws, hws, rfl⟩ := map_ok.mp hr
  show ws.length = keys.length
  rw [evalAll_length hws, List.length_map]

/-- Sorted rows are the rows in an order in which no sort keys are greater than later ones. -/
theorem sortRows_pairwise {keys : List SortKey} {rows sorted : List Row} {keyed : List (List Value × Row)}
    (hkeyed : withKeys keys rows = .ok keyed)
    (horder : PreorderOn (keyOrder (keys.map SortKey.direction)) (keyed.map Prod.fst))
    (h : sortRows keys rows = .ok sorted) :
    ∃ ordered : List (List Value × Row), ordered.Perm keyed ∧ ordered.map Prod.snd = sorted ∧
      ordered.Pairwise fun p p' => (keyOrder (keys.map SortKey.direction) p.1 p'.1).isLE = true := by
  have hrows : keyed.map Prod.snd = rows := mapM_keyed hkeyed
  cases keys with
  -- Without keys, the rows stay as they are.
  | nil =>
    cases h
    exact ⟨keyed, .refl _, hrows, List.pairwise_of_forall fun _ _ => rfl⟩
  | cons key keys =>
    rw [sortRows, hkeyed] at h
    cases h
    exact ⟨_, sortBy_perm _ keyed, rfl, sortBy_pairwise horder.comap⟩

/-- The rows that a query keeps, with the values of its sort keys. -/
def keyedRows (tables : Tables) (q : Query) : Except Failure (List (List Value × Row)) := do
  let source ← q.source tables
  let kept ← keep q.clauses.filter source
  withKeys q.clauses.orderBy kept

theorem selectRows_aggregated {c : Clauses} (hagg : isAggregated c = true) {kept selected : List Row}
    (h : selectRows c kept = .ok selected) : selected.length ≤ 1 := by
  unfold selectRows at h
  rw [hagg, if_pos rfl] at h
  obtain ⟨holds, _, hselect⟩ := bind_ok.mp h
  cases holds with
  | false =>
    cases hselect
    exact Nat.zero_le 1
  | true =>
    obtain ⟨r, _, hr⟩ := bind_ok.mp hselect
    cases hr
    exact Nat.le_refl 1

/-- Reversing a comparison of sort keys always reverses its result. Where each sort key has a column that can
be sorted, the order of the kept rows is a total preorder, and of the rows that an unpaged query gives, which
is not distinct, none is of a row with greater sort keys than a later one: they are the selection from the kept
rows in such an order, or the one row of an aggregate. -/
theorem sorted_by_total_preorder (tables : Tables) (q : Query) (keyed : List (List Value × Row))
    (hkeyed : keyedRows tables q = .ok keyed) (hcolumns : ∀ i, Sortable (column i (keyed.map Prod.fst))) :
    let order := keyOrder (q.clauses.orderBy.map SortKey.direction)
    (∀ vs ws, order ws vs = (order vs ws).swap) ∧
    (∀ p₁ ∈ keyed, ∀ p₂ ∈ keyed, ∀ p₃ ∈ keyed, (order p₁.1 p₂.1).isLE = true → (order p₂.1 p₃.1).isLE = true →
      (order p₁.1 p₃.1).isLE = true) ∧
    ∀ rows, evaluate tables q = .ok rows → q.clauses.offset = none → q.clauses.limit = none →
      q.clauses.select.distinct = false →
      isAggregated q.clauses = true ∧ rows.length ≤ 1 ∨
      ∃ ordered : List (List Value × Row), ordered.Perm keyed ∧
        (ordered.map Prod.snd).mapM (fun r => project q.clauses.select.selection (.row r)) = .ok rows ∧
        ordered.Pairwise fun p p' => (order p.1 p'.1).isLE = true := by
  obtain ⟨source, hsource, hkeyed⟩ := bind_ok.mp hkeyed
  obtain ⟨kept, hkeep, hkeyed⟩ := bind_ok.mp hkeyed
  have horder : PreorderOn (keyOrder (q.clauses.orderBy.map SortKey.direction)) (keyed.map Prod.fst) := by
    refine keyOrder_preorderOn _ (fun vs hvs => ?_) hcolumns
    rw [withKeys_length hkeyed vs hvs, List.length_map]
  refine ⟨keyOrder_swap _, horder.comap.trans, fun rows hrows hoffset hlimit hdistinct => ?_⟩
  obtain ⟨_, source', hsource', hrun⟩ := evaluate_ok_iff.mp hrows
  cases hsource.symm.trans hsource'
  obtain ⟨kept', selected, ⟨hkeep', hselect⟩, hpage⟩ := runClauses_ok_iff.mp hrun
  cases hkeep.symm.trans hkeep'
  rw [hoffset, hlimit, hdistinct] at hpage
  cases hpage
  cases hagg : isAggregated q.clauses with
  | true => exact .inl ⟨rfl, selectRows_aggregated hagg hselect⟩
  | false =>
    obtain ⟨_, sorted, hsorted, hproject⟩ := (selectRows_ok_iff hagg).mp hselect
    obtain ⟨ordered, hperm, rfl, hpairs⟩ := sortRows_pairwise hkeyed horder hsorted
    exact .inr ⟨ordered, hperm, hproject, hpairs⟩

/-- Numbers of three kinds, with a null among them. -/
def readings : Tables :=
  [("readings", [⟨["name", "level"], [.text "a", .long 3]⟩, ⟨["name", "level"], [.text "b", .double 2.5]⟩,
    ⟨["name", "level"], [.text "c", .null]⟩, ⟨["name", "level"], [.text "d", .int 3]⟩])]

def byLevel : Query :=
  ((Query.ofTable "readings").withSelect (.scalar (.path (.single "name")))).withOrderBy
    [⟨.path (.single "level"), .desc⟩, ⟨.path (.single "name"), .desc⟩]

def keyedReadings : List (List Value × Row) :=
  [([.long 3, .text "a"], ⟨["name", "level"], [.text "a", .long 3]⟩),
    ([.double 2.5, .text "b"], ⟨["name", "level"], [.text "b", .double 2.5]⟩),
    ([.null, .text "c"], ⟨["name", "level"], [.text "c", .null]⟩),
    ([.int 3, .text "d"], ⟨["name", "level"], [.text "d", .int 3]⟩)]

theorem keyedReadings_sortable : ∀ i, Sortable (column i (keyedReadings.map Prod.fst))
  | 0 => by decide +kernel
  | 1 => by decide +kernel
  | _ + 2 => .inl ⟨nofun, nofun⟩

theorem sorted_by_total_preorder_readings :
    let order := keyOrder (byLevel.clauses.orderBy.map SortKey.direction)
    let rows : List Row := [⟨["name"], [.text "d"]⟩, ⟨["name"], [.text "a"]⟩, ⟨["name"], [.text "b"]⟩,
      ⟨["name"], [.text "c"]⟩]
    keyedRows readings byLevel = .ok keyedReadings ∧ evaluate readings byLevel = .ok rows ∧
    ∃ ordered : List (List Value × Row), ordered.Perm keyedReadings ∧
      (ordered.map Prod.snd).mapM (fun r => project byLevel.clauses.select.selection (.row r)) = .ok rows ∧
      ordered.Pairwise fun p p' => (order p.1 p'.1).isLE = true :=
  have hkeyed : keyedRows readings byLevel = .ok keyedReadings := by rfl
  have hrows : evaluate readings byLevel = .ok [⟨["name"], [.text "d"]⟩, ⟨["name"], [.text "a"]⟩,
      ⟨["name"], [.text "b"]⟩, ⟨["name"], [.text "c"]⟩] := by rfl
  have hsorted := sorted_by_total_preorder readings byLevel keyedReadings hkeyed keyedReadings_sortable
  ⟨hkeyed, hrows, (hsorted.2.2 _ hrows rfl rfl rfl).resolve_left fun h => Bool.false_ne_true h.1⟩

/-- Integers of which one is too large for a double, and their common double between them. -/
def numbers : Tables :=
  [("numbers", [⟨["n"], [.long 9007199254740993]⟩, ⟨["n"], [.double 9007199254740992]⟩,
    ⟨["n"], [.long 9007199254740992]⟩])]

def byNumber : Query :=
  (Query.ofTable "numbers").withOrderBy [⟨.path (.single "n"), .asc⟩]

/-- Each number is even with the next one, so they stay as they are, with the larger integer first. -/
theorem large_integers_out_of_order :
    evaluate numbers byNumber = .ok (rowsOf numbers "numbers") ∧
    keyOrder [.asc] [.long 9007199254740993] [.double 9007199254740992] = .eq ∧
    keyOrder [.asc] [.double 9007199254740992] [.long 9007199254740992] = .eq ∧
    keyOrder [.asc] [.long 9007199254740993] [.long 9007199254740992] = .gt :=
  ⟨by rfl, by rfl, by rfl, by rfl⟩

end Memory

end TableQuery
