import TableQuery.Executor

/- Computations that may fail, without a state and with one. A sequence of steps succeeds where each of its
   steps does, and what is done item by item does not depend on the order of the items (`mapM_perm`). -/
namespace TableQuery

variable {α β : Type}

theorem bind_ok {x : Except Failure α} {f : α → Except Failure β} {b : β} :
    (x >>= f) = .ok b ↔ ∃ a, x = .ok a ∧ f a = .ok b := by
  cases x with
  | error e => simp [bind, Except.bind]
  | ok a => simp [bind, Except.bind]

theorem bind_error {x : Except Failure α} {f : α → Except Failure β} {e : Failure} :
    (x >>= f) = .error e ↔ x = .error e ∨ ∃ a, x = .ok a ∧ f a = .error e := by
  cases x with
  | error e => simp [bind, Except.bind]
  | ok a => simp [bind, Except.bind]

theorem map_ok {x : Except Failure α} {f : α → β} {b : β} : x.map f = .ok b ↔ ∃ a, x = .ok a ∧ f a = b := by
  cases x with
  | error e => simp [Except.map]
  | ok a => simp [Except.map]

theorem map_error {x : Except Failure α} {f : α → β} {e : Failure} : x.map f = .error e ↔ x = .error e := by
  cases x with
  | error e => simp [Except.map]
  | ok a => simp [Except.map]

theorem mapM_cons_ok {f : α → Except Failure β} {a : α} {as : List α} {cs : List β} :
    (a :: as).mapM f = .ok cs ↔ ∃ b bs, f a = .ok b ∧ as.mapM f = .ok bs ∧ cs = b :: bs := by
  rw [List.mapM_cons]
  cases f a with
  | error e => simp [bind, Except.bind]
  | ok b =>
    cases as.mapM f with
    | error e => simp [bind, Except.bind]
    | ok bs => simp [bind, Except.bind, pure, Except.pure, eq_comm]

theorem mapM_singleton_ok {f : α → Except Failure β} {a : α} {cs : List β} :
    [a].mapM f = .ok cs ↔ ∃ b, f a = .ok b ∧ cs = [b] := by
  rw [mapM_cons_ok]
  constructor
  · rintro ⟨b, _, hb, ⟨⟩, rfl⟩
    exact ⟨b, hb, rfl⟩
  · rintro ⟨b, hb, rfl⟩
    exact ⟨b, [], hb, rfl, rfl⟩

/-- What never fails gives a result for each item. -/
theorem mapM_total (g : α → β) (as : List α) :
    as.mapM (fun a => (.ok (g a) : Except Failure β)) = .ok (as.map g) := by
  induction as with
  | nil => rfl
  | cons a as ih => exact mapM_cons_ok.2 ⟨g a, as.map g, rfl, ih, rfl⟩

/-- What never fails on the images of items gives a result for each of them. -/
theorem mapM_map_total {γ : Type} {f : β → Except Failure γ} {g : α → β} {h : α → γ} (hf : ∀ a, f (g a) = .ok (h a))
    (as : List α) : (as.map g).mapM f = .ok (as.map h) := by
  induction as with
  | nil => rfl
  | cons a as ih => exact mapM_cons_ok.2 ⟨h a, as.map h, hf a, ih, rfl⟩

/-- Where each item has a result, all have. -/
theorem mapM_exists {f : α → Except Failure β} {as : List α} (h : ∀ a ∈ as, ∃ b, f a = .ok b) :
    ∃ bs, as.mapM f = .ok bs := by
  induction as with
  | nil => exact ⟨[], rfl⟩
  | cons a as ih =>
    obtain ⟨b, hb⟩ := h a List.mem_cons_self
    obtain ⟨bs, hbs⟩ := ih fun a' ha' => h a' (List.mem_cons_of_mem a ha')
    exact ⟨b :: bs, mapM_cons_ok.2 ⟨b, bs, hb, hbs, rfl⟩⟩

/-- Where results are known item by item, those of all items are. -/
theorem mapM_ok_iff {f : α → Except Failure β} {g : α → β} {P : α → Prop} (h : ∀ a b, f a = .ok b ↔ P a ∧ g a = b)
    {as : List α} {bs : List β} : as.mapM f = .ok bs ↔ (∀ a ∈ as, P a) ∧ as.map g = bs := by
  induction as generalizing bs with
  | nil =>
    exact ⟨fun hbs => ⟨List.forall_mem_nil P, Except.ok.inj hbs⟩, fun hbs => congrArg Except.ok hbs.2⟩
  | cons a as ih =>
    simp only [mapM_cons_ok, h, ih, List.forall_mem_cons, List.map_cons]
    constructor
    · rintro ⟨_, _, ⟨ha, rfl⟩, ⟨has, rfl⟩, rfl⟩
      exact ⟨⟨ha, has⟩, rfl⟩
    · rintro ⟨⟨ha, has⟩, rfl⟩
      exact ⟨g a, as.map g, ⟨ha, rfl⟩, ⟨has, rfl⟩, rfl⟩

/-- Each item of a list that has results has one. -/
theorem mapM_mem {f : α → Except Failure β} {as : List α} {bs : List β} (h : as.mapM f = .ok bs) :
    ∀ a ∈ as, ∃ b, f a = .ok b := by
  induction as generalizing bs with
  | nil => exact fun a ha => absurd ha List.not_mem_nil
  | cons a as ih =>
    obtain ⟨b, bs', hb, htail, rfl⟩ := mapM_cons_ok.1 h
    intro a' ha'
    rcases List.mem_cons.mp ha' with rfl | ha'
    · exact ⟨b, hb⟩
    · exact ih htail a' ha'

/-- A list without results has an item without one, whose failure is that of the list. -/
theorem mapM_error {f : α → Except Failure β} {as : List α} {e : Failure} (h : as.mapM f = .error e) :
    ∃ a ∈ as, f a = .error e := by
  induction as with
  | nil => cases h
  | cons a as ih =>
    rw [List.mapM_cons] at h
    rcases bind_error.1 h with ha | ⟨b, _, h⟩
    · exact ⟨a, List.mem_cons_self, ha⟩
    · rcases bind_error.1 h with has | ⟨bs, _, h⟩
      · obtain ⟨a', ha', heq⟩ := ih has
        exact ⟨a', List.mem_cons_of_mem a ha', heq⟩
      · cases h

/-- Each result is that of an item. -/
theorem mapM_result {f : α → Except Failure β} {as : List α} {bs : List β} (h : as.mapM f = .ok bs) :
    ∀ b ∈ bs, ∃ a ∈ as, f a = .ok b := by
  induction as generalizing bs with
  | nil =>
    cases h
    exact fun b hb => absurd hb List.not_mem_nil
  | cons a as ih =>
    obtain ⟨b, bs', hb, htail, rfl⟩ := mapM_cons_ok.1 h
    intro b' hb'
    rcases List.mem_cons.mp hb' with rfl | hb'
    · exact ⟨a, List.mem_cons_self, hb⟩
    · obtain ⟨a', ha', heq⟩ := ih htail b' hb'
      exact ⟨a', List.mem_cons_of_mem a ha', heq⟩

theorem mapM_append_ok {f : α → Except Failure β} {as bs : List α} {cs : List β} :
    (as ++ bs).mapM f = .ok cs ↔ ∃ xs ys, as.mapM f = .ok xs ∧ bs.mapM f = .ok ys ∧ cs = xs ++ ys := by
  rw [List.mapM_append, bind_ok]
  constructor
  · rintro ⟨xs, hxs, h⟩
    obtain ⟨ys, hys, h⟩ := bind_ok.1 h
    cases h
    exact ⟨xs, ys, hxs, hys, rfl⟩
  · rintro ⟨xs, ys, hxs, hys, rfl⟩
    exact ⟨xs, hxs, bind_ok.2 ⟨ys, hys, rfl⟩⟩

theorem mapM_length {f : α → Except Failure β} {as : List α} {bs : List β} (h : as.mapM f = .ok bs) :
    bs.length = as.length := by
  induction as generalizing bs with
  | nil => cases h; rfl
  | cons a as ih =>
    obtain ⟨b, bs', _, htail, rfl⟩ := mapM_cons_ok.1 h
    simp only [List.length_cons, ih htail]

/-- The first items give the first results, and the items after them the results after those. -/
theorem mapM_split {f : α → Except Failure β} {as : List α} {bs : List β} (h : as.mapM f = .ok bs) (n : Nat) :
    (as.take n).mapM f = .ok (bs.take n) ∧ (as.drop n).mapM f = .ok (bs.drop n) := by
  induction as generalizing n bs with
  | nil =>
    obtain rfl : bs = [] := (Except.ok.inj h).symm
    rw [List.take_nil, List.drop_nil, List.take_nil, List.drop_nil]
    exact ⟨h, h⟩
  | cons a as ih =>
    cases n with
    | zero => exact ⟨rfl, h⟩
    | succ n =>
      obtain ⟨b, bs', hb, htail, rfl⟩ := mapM_cons_ok.1 h
      obtain ⟨htake, hdrop⟩ := ih htail n
      exact ⟨mapM_cons_ok.2 ⟨b, _, hb, htake, rfl⟩, hdrop⟩

/-- In another order, the same items give the same results in another order. -/
theorem mapM_perm {f : α → Except Failure β} {as as' : List α} (hp : as.Perm as') :
    ∀ {bs : List β}, as.mapM f = .ok bs → ∃ bs', as'.mapM f = .ok bs' ∧ bs.Perm bs' := by
  -- On the permutation. Which item fails first depends on the order, but whether one does, does not.
  induction hp with
  | nil => exact fun h => ⟨_, h, .refl _⟩
  | cons a _ ih =>
    intro bs h
    obtain ⟨b, bs₁, hb, hbs₁, rfl⟩ := mapM_cons_ok.1 h
    obtain ⟨bs', h', hp⟩ := ih hbs₁
    exact ⟨b :: bs', mapM_cons_ok.2 ⟨b, bs', hb, h', rfl⟩, hp.cons b⟩
  | swap x y as =>
    intro bs h
    obtain ⟨b, bs₁, hb, h₁, rfl⟩ := mapM_cons_ok.1 h
    obtain ⟨c, bs₂, hc, h₂, rfl⟩ := mapM_cons_ok.1 h₁
    refine ⟨c :: b :: bs₂, ?_, .swap c b bs₂⟩
    exact mapM_cons_ok.2 ⟨c, _, hc, mapM_cons_ok.2 ⟨b, bs₂, hb, h₂, rfl⟩, rfl⟩
  | trans _ _ ih₁ ih₂ =>
    intro bs h
    obtain ⟨bs₁, h₁, hp₁⟩ := ih₁ h
    obtain ⟨bs₂, h₂, hp₂⟩ := ih₂ h₁
    exact ⟨bs₂, h₂, hp₁.trans hp₂⟩

/-- The items that results were made from, where each result keeps its item. -/
theorem mapM_keyed {f : α → Except Failure β} {as : List α} {ps : List (β × α)}
    (h : as.mapM (fun a => (f a).map fun b => (b, a)) = .ok ps) : ps.map Prod.snd = as := by
  induction as generalizing ps with
  | nil => cases h; rfl
  | cons a as ih =>
    obtain ⟨p, ps', hp, htail, rfl⟩ := mapM_cons_ok.1 h
    cases hf : f a with
    | error e => rw [hf] at hp; cases hp
    | ok b =>
      rw [hf] at hp
      cases hp
      simp only [List.map_cons, ih htail]

/-! ## Runs on a state -/

namespace Run

variable {σ : Type}

theorem start_ofExcept (x : Except Failure α) (s : σ) : (ofExcept x).start s = (x, s) := by
  cases x <;> rfl

theorem start_bind (x : Run σ α) (f : α → Run σ β) (s : σ) :
    (x >>= f).start s = match x.start s with
      | (.ok a, t) => (f a).start t
      | (.error e, t) => (.error e, t) := by
  simp only [start, bind, ExceptT.bind, ExceptT.run, ExceptT.mk, StateT.bind, StateT.run, ExceptT.bindCont]
  rcases x s with ⟨r, t⟩
  cases r <;> rfl

theorem start_bind_ok {x : Run σ α} {f : α → Run σ β} {s s' : σ} {b : β} :
    (x >>= f).start s = (.ok b, s') ↔ ∃ a t, x.start s = (.ok a, t) ∧ (f a).start t = (.ok b, s') := by
  rw [start_bind]
  rcases x.start s with ⟨r, t⟩
  cases r with
  | error e => simp
  | ok a =>
    constructor
    · exact fun h => ⟨a, t, rfl, h⟩
    · rintro ⟨_, _, heq, h⟩
      cases heq
      exact h

/-- A run that fails has failed at first, or has gone on and failed then. -/
theorem start_bind_error {x : Run σ α} {f : α → Run σ β} {s s' : σ} {g : Failure} :
    (x >>= f).start s = (.error g, s') ↔
      x.start s = (.error g, s') ∨ ∃ a t, x.start s = (.ok a, t) ∧ (f a).start t = (.error g, s') := by
  rw [start_bind]
  rcases x.start s with ⟨r, t⟩
  cases r with
  | error e => simp
  | ok a =>
    constructor
    · intro h
      exact .inr ⟨a, t, rfl, h⟩
    · intro h
      rcases h with h | ⟨_, _, heq, h⟩
      · cases h
      · cases heq
        exact h

theorem start_pure (a : α) (s : σ) : (pure a : Run σ α).start s = (.ok a, s) := rfl

theorem start_throw (f : Failure) (s : σ) : (throw f : Run σ α).start s = (.error f, s) := rfl

theorem start_mapM_cons_ok {f : α → Run σ β} {a : α} {as : List α} {cs : List β} {s u : σ} :
    ((a :: as).mapM f).start s = (.ok cs, u) ↔
      ∃ b bs t, (f a).start s = (.ok b, t) ∧ (as.mapM f).start t = (.ok bs, u) ∧ cs = b :: bs := by
  rw [List.mapM_cons, start_bind_ok]
  constructor
  · intro h
    obtain ⟨b, t, hb, h⟩ := h
    obtain ⟨bs, _, hbs, h⟩ := start_bind_ok.1 h
    cases h
    exact ⟨b, bs, t, hb, hbs, rfl⟩
  · intro h
    obtain ⟨b, bs, t, hb, hbs, rfl⟩ := h
    exact ⟨b, t, hb, start_bind_ok.2 ⟨bs, u, hbs, rfl⟩⟩

end Run

end TableQuery
