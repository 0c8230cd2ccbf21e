import TableQuery.Memory.Query
import TableQuery.Proofs.Steps
import TableQuery.Proofs.Value.Equality

/- What does not depend on the order of rows. Sorting gives the same rows in another order
   (`sortRows_perm`), and taking out duplicates leaves as many rows (`dedup_length_perm`), although
   equality of rows is not reflexive. -/
namespace TableQuery.Memory

/-! ## Sorting -/

section

variable {α : Type} (order : α → α → Ordering)

theorem insertReversed_perm (a : α) (bs : List α) : (insertReversed order a bs).Perm (a :: bs) := by
  induction bs with
  | nil => exact .refl _
  | cons b bs ih =>
    simp only [insertReversed]
    split
    · exact (ih.cons b).trans (.swap a b bs)
    · exact .refl _

theorem foldl_insertReversed_perm (as done : List α) :
    (as.foldl (fun done a => insertReversed order a done) done).Perm (as ++ done) := by
  -- For any items that are done, as each step adds to them.
  induction as generalizing done with
  | nil => exact .refl _
  | cons a as ih =>
    calc (as.foldl (fun done a => insertReversed order a done) (insertReversed order a done)).Perm
          (as ++ insertReversed order a done) := ih _
      List.Perm _ (as ++ a :: done) := (insertReversed_perm order a done).append_left as
      List.Perm _ (a :: as ++ done) := List.perm_middle

theorem sortBy_perm (as : List α) : (sortBy order as).Perm as := by
  have h := foldl_insertReversed_perm order as []
  rw [List.append_nil] at h
  exact (List.reverse_perm _).trans h

end

theorem sortRows_perm {keys : List SortKey} {rows sorted : List Row} (h : sortRows keys rows = .ok sorted) :
    sorted.Perm rows := by
  unfold sortRows at h
  split at h
  · cases h; exact .refl _
  · cases hk : withKeys keys rows with
    | error e => rw [hk] at h; cases h
    | ok keyed =>
      rw [hk] at h
      cases h
      have hrows : keyed.map Prod.snd = rows := mapM_keyed hk
      calc List.Perm _ (keyed.map Prod.snd) := (sortBy_perm _ keyed).map Prod.snd
        _ = rows := hrows

/-! ## Duplicates -/

/-- A row taken after those that are done. -/
def addNew (done : List Row) (r : Row) : List Row :=
  if done.contains r then done else done ++ [r]

/-- Two lists of rows that are as long and have the same rows up to equality. -/
structure Alike (as bs : List Row) : Prop where
  length_eq : as.length = bs.length
  contains_eq : ∀ r, as.contains r = bs.contains r

theorem Alike.addNew {as bs : List Row} (h : Alike as bs) (r : Row) : Alike (addNew as r) (addNew bs r) := by
  unfold Memory.addNew
  rw [h.contains_eq r]
  split
  · exact h
  · constructor
    · simp only [List.length_append, h.length_eq]
    · intro s
      simp only [List.contains_append, h.contains_eq]

theorem addNew_of_contains {as : List Row} {r : Row} (h : as.contains r = true) : addNew as r = as := by
  simp only [addNew, h, if_true]

theorem addNew_of_new {as : List Row} {r : Row} (h : as.contains r = false) : addNew as r = as ++ [r] := by
  simp only [addNew, h, Bool.false_eq_true, if_false]

theorem contains_append_single (as : List Row) (x y : Row) :
    (as ++ [x]).contains y = (as.contains y || y == x) := by
  simp only [List.contains_append, List.contains_cons, List.contains_nil, Bool.or_false]

/-- Two rows can be taken in either order. If both are new and equal, it is the first that is taken, and
lists with the one or the other have the same rows up to equality. -/
theorem alike_swap {as bs : List Row} (h : Alike as bs) (x y : Row) :
    Alike (addNew (addNew as x) y) (addNew (addNew bs y) x) := by
  have hx := h.contains_eq x
  have hy := h.contains_eq y
  cases cx : bs.contains x with
  | true =>
    rw [addNew_of_contains (hx.trans cx)]
    have hin : (addNew bs y).contains x = true := by
      unfold addNew
      split
      · exact cx
      · rw [contains_append_single, cx, Bool.true_or]
    rw [addNew_of_contains hin]
    exact h.addNew y
  | false =>
    rw [addNew_of_new (hx.trans cx)]
    cases cy : bs.contains y with
    -- Only `x` is new, and is taken on both sides.
    | true =>
      have hin : (as ++ [x]).contains y = true := by rw [contains_append_single, hy, cy, Bool.true_or]
      rw [addNew_of_contains hin, addNew_of_contains cy, addNew_of_new cx]
      rw [← addNew_of_new (hx.trans cx), ← addNew_of_new cx]
      exact h.addNew x
    | false =>
      rw [addNew_of_new cy]
      cases hxy : x == y with
      -- `x` is taken on the left and `y` on the right; a row is equal to both or to neither.
      | true =>
        have hyx : (y == x) = true := BEq.symm hxy
        have hin : (as ++ [x]).contains y = true := by rw [contains_append_single, hyx, Bool.or_true]
        have hin' : (bs ++ [y]).contains x = true := by rw [contains_append_single, hxy, Bool.or_true]
        rw [addNew_of_contains hin, addNew_of_contains hin']
        refine ⟨by simp only [List.length_append, h.length_eq, List.length_cons], fun r => ?_⟩
        rw [contains_append_single, contains_append_single, h.contains_eq, BEq.congr_right hxy]
      -- Both are taken on both sides, in one order or the other.
      | false =>
        have hyx : (y == x) = false := BEq.symm_false hxy
        have hin : (as ++ [x]).contains y = false := by rw [contains_append_single, hy, cy, hyx]; rfl
        have hin' : (bs ++ [y]).contains x = false := by rw [contains_append_single, cx, hxy]; rfl
        rw [addNew_of_new hin, addNew_of_new hin']
        refine ⟨by simp only [List.length_append, h.length_eq, List.length_cons], fun r => ?_⟩
        simp only [contains_append_single, h.contains_eq]
        rw [Bool.or_assoc, Bool.or_assoc, Bool.or_comm (r == x)]

theorem Alike.foldl (rows : List Row) {as bs : List Row} (h : Alike as bs) :
    Alike (rows.foldl Memory.addNew as) (rows.foldl Memory.addNew bs) := by
  induction rows generalizing as bs with
  | nil => exact h
  | cons r rows ih => exact ih (h.addNew r)

/-- Whatever the order in which rows are taken, the results are alike. -/
theorem foldl_addNew_perm {as bs : List Row} (hp : as.Perm bs) :
    ∀ {done done' : List Row}, Alike done done' → Alike (as.foldl addNew done) (bs.foldl addNew done') := by
  induction hp with
  | nil => exact fun h => h
  | cons r _ ih => exact fun h => ih (h.addNew r)
  | swap x y as => exact fun h => (alike_swap h y x).foldl as
  -- From `done` to `done` along the first pair of lists, and on to `done'` along the second.
  | trans _ _ ih₁ ih₂ =>
    intro done done' h
    have hrefl : Alike done done := ⟨rfl, fun _ => rfl⟩
    obtain ⟨hl, hc⟩ := ih₁ hrefl
    obtain ⟨hl', hc'⟩ := ih₂ h
    exact ⟨hl.trans hl', fun r => (hc r).trans (hc' r)⟩

theorem dedup_length_perm {as bs : List Row} (hp : as.Perm bs) : (dedup as).length = (dedup bs).length :=
  (foldl_addNew_perm hp ⟨rfl, fun _ => rfl⟩ : Alike (as.foldl addNew []) (bs.foldl addNew [])).length_eq

end TableQuery.Memory
