import TableQuery.Proofs.Memory.Sorting

/- Sorting by a total preorder is stable: items that are even stay in their order. So sorting commutes with leaving
   items out (`sortBy_filter`), and what comes first is the first of the items that none comes before
   (`sortBy_head?`), which a single pass finds too (`earliest`). -/
namespace TableQuery.Memory

variable {α β : Type} {order : α → α → Ordering} {as done : List α}

/-! ## Sorting by keys -/

/-- Items that are all even stay as they are. -/
theorem sortBy_eq_self (h : ∀ a b, order a b = .eq) : sortBy order as = as := by
  have hinsert : insertReversed order = fun a done => a :: done := by
    funext a done
    cases done with
    | nil => rfl
    | cons b bs =>
      rw [insertReversed, h a b]
      rfl
  rw [sortBy, hinsert, List.foldl_flip_cons_eq_append, List.append_nil, List.map_id', List.reverse_reverse]

theorem insertReversed_map (order : β → β → Ordering) (f : α → β) (a : α) (done : List α) :
    insertReversed order (f a) (done.map f) = (insertReversed (fun a b => order (f a) (f b)) a done).map f := by
  induction done with
  | nil => rfl
  | cons b bs ih =>
    rw [List.map_cons, insertReversed, insertReversed, ih]
    split <;> rfl

theorem sortBy_map (order : β → β → Ordering) (f : α → β) (as : List α) :
    sortBy order (as.map f) = (sortBy (fun a b => order (f a) (f b)) as).map f := by
  have hrun : as.foldl (fun done a => insertReversed order (f a) done) (([] : List α).map f) =
      (as.foldl (fun done a => insertReversed (fun a b => order (f a) (f b)) a done) []).map f :=
    List.foldl_hom (List.map f) fun done a => insertReversed_map order f a done
  rw [sortBy, sortBy, List.map_reverse, ← hrun, List.foldl_map, List.map_nil]

/-! ## Sorting what is left -/

theorem insertReversed_of_not_isLT {a : α} (h : ∀ b ∈ done, ¬(order a b).isLT = true) :
    insertReversed order a done = a :: done := by
  cases done with
  | nil => rfl
  | cons b bs => rw [insertReversed, if_neg (h b List.mem_cons_self)]

theorem insertReversed_filter (h : PreorderOn order as) {a : α} (ha : a ∈ as) (hdone : Backwards order as done)
    (keep : α → Bool) : (insertReversed order a done).filter keep =
      if keep a then insertReversed order a (done.filter keep) else done.filter keep := by
  obtain ⟨hsubset, hsorted⟩ := hdone
  induction done with
  | nil => exact List.filter_cons
  | cons b bs ih =>
    obtain ⟨hb, htail⟩ := List.pairwise_cons.mp hsorted
    have hb' := hsubset b List.mem_cons_self
    have ih := ih (fun c hc => hsubset c (List.mem_cons_of_mem b hc)) htail
    rw [insertReversed]
    split
    -- `a` goes somewhere behind `b`, also if `b` is left out.
    · next hlt =>
      rw [List.filter_cons, List.filter_cons, ih]
      split
      · rw [insertReversed, if_pos hlt]
        split <;> rfl
      · rfl
    -- None of the items that are done comes behind `a`, and none of those that are left of them does.
    · next hge =>
      have hnone : ∀ c ∈ (b :: bs).filter keep, ¬(order a c).isLT = true := by
        intro c hc
        have hc' := (List.mem_filter.mp hc).1
        refine h.not_isLT_of_isLE ha (hsubset c hc') ?_
        have hba := h.isLE_of_not_isLT ha hb' hge
        rcases List.mem_cons.mp hc' with rfl | hcbs
        · exact hba
        · exact h.trans c (hsubset c hc') b hb' a ha (hb c hcbs) hba
      rw [List.filter_cons, insertReversed_of_not_isLT hnone]

/-- Sorting some of the items is leaving out the others of the sorted list. -/
theorem sortBy_filter (h : PreorderOn order as) (keep : α → Bool) :
    sortBy order (as.filter keep) = (sortBy order as).filter keep := by
  have hrun := (sortBy_induction h
    (motive := fun taken done => (sortBy order (taken.filter keep)).reverse = done.filter keep) rfl ?_).1
  · rw [List.filter_reverse, List.reverse_inj] at hrun
    exact hrun
  · intro taken a done ha hdone htaken
    rw [insertReversed_filter h ha hdone, ← htaken, List.filter_append, List.filter_cons, List.filter_nil]
    split
    · simp only [sortBy, List.foldl_append, List.foldl_cons, List.foldl_nil, List.reverse_reverse]
    · rw [List.append_nil]

/-! ## The first item -/

/-- The first of the items that no later one comes before. -/
def earliest (order : α → α → Ordering) : List α → Option α
  | [] => none
  | a :: as => some (as.foldl (fun b c => if (order c b).isLT then c else b) a)

theorem earliest_append_singleton (order : α → α → Ordering) (as : List α) (a : α) :
    earliest order (as ++ [a]) = some (match earliest order as with
      | some b => if (order a b).isLT then a else b
      | none => a) := by
  cases as with
  | nil => rfl
  | cons b bs => simp only [earliest, List.cons_append, List.foldl_append, List.foldl_cons, List.foldl_nil]

theorem earliest_map (order : β → β → Ordering) (f : α → β) (as : List α) :
    earliest order (as.map f) = (earliest (fun a b => order (f a) (f b)) as).map f := by
  cases as with
  | nil => rfl
  | cons a as =>
    rw [List.map_cons, earliest, earliest, List.foldl_map, Option.map_some]
    exact congrArg some (List.foldl_hom f fun b c => (apply_ite f _ c b).symm)

theorem insertReversed_getLast? (h : PreorderOn order as) {a : α} (ha : a ∈ as) (hdone : Backwards order as done) :
    (insertReversed order a done).getLast? = some (match done.getLast? with
      | some b => if (order a b).isLT then a else b
      | none => a) := by
  obtain ⟨hsubset, hsorted⟩ := hdone
  induction done with
  | nil => rfl
  | cons b bs ih =>
    obtain ⟨hb, htail⟩ := List.pairwise_cons.mp hsorted
    have hb' := hsubset b List.mem_cons_self
    have ih := ih (fun c hc => hsubset c (List.mem_cons_of_mem b hc)) htail
    rw [insertReversed]
    cases bs with
    | nil =>
      split
      · next hlt =>
        simp only [List.getLast?_singleton, if_pos hlt]
        rfl
      · next hge =>
        simp only [List.getLast?_singleton, if_neg hge]
        rfl
    | cons c cs =>
      split
      · rw [List.getLast?_cons, ih, Option.getD_some, List.getLast?_cons_cons]
      -- `a` does not come before `b`, and so not before the last item, which does not come after `b`.
      · next hge =>
        obtain ⟨l, hl⟩ : ∃ l, (c :: cs).getLast? = some l := ⟨_, List.getLast?_eq_some_getLast (List.cons_ne_nil c cs)⟩
        have hmem : l ∈ c :: cs := List.mem_of_getLast? hl
        have hlb := hb l hmem
        have hba := h.isLE_of_not_isLT ha hb' hge
        have hl' := hsubset l (List.mem_cons_of_mem b hmem)
        have hla := h.not_isLT_of_isLE ha hl' (h.trans l hl' b hb' a ha hlb hba)
        rw [List.getLast?_cons_cons, List.getLast?_cons_cons, hl]
        simp only [hla, if_false, Bool.false_eq_true]

/-- The first of the sorted items is the first that none comes before. -/
theorem sortBy_head? (h : PreorderOn order as) : (sortBy order as).head? = earliest order as := by
  have hrun := (sortBy_induction h (motive := fun taken done => done.getLast? = earliest order taken) rfl ?_).1
  · rwa [List.getLast?_reverse] at hrun
  · intro taken a done ha hdone htaken
    rw [insertReversed_getLast? h ha hdone, htaken, earliest_append_singleton]

end TableQuery.Memory
