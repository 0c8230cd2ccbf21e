import TableQuery.Proofs.Sql.Pieces
import TableQuery.Proofs.Sql.Places
import TableQuery.Proofs.Steps
import TableQuery.Proofs.Text.Numeral
import TableQuery.Sql.Query

/- What stays the same in a statement while the constants that are bound change. The pieces of a query are
   a skeleton with places, into which the constants are filled (`uniform_queryPieces`); or the query is
   refused, whatever they are. The text around the places holds no mark of a placeholder. -/
namespace TableQuery.Sql

/-! ## Text without placeholders -/

/-- The text holds no mark of a placeholder. -/
def Plain (s : String) : Prop :=
  ∀ c ∈ s.toList, c ≠ '?' ∧ c ≠ '$'

-- Named, as a search may find the instance that goes through every character there is.
instance (s : String) : Decidable (Plain s) :=
  List.decidableBAll (fun c => c ≠ '?' ∧ c ≠ '$') s.toList

theorem Plain.append {s t : String} (hs : Plain s) (ht : Plain t) : Plain (s ++ t) := by
  intro c hc
  rw [String.toList_append] at hc
  rcases List.mem_append.mp hc with hc | hc
  · exact hs c hc
  · exact ht c hc

theorem plain_nat (n : Nat) : Plain (toString n) := by
  intro c hc
  have hdigit := isDigit_toString n c hc
  constructor
  · rintro rfl
    cases hdigit
  · rintro rfl
    cases hdigit

theorem plain_int (n : Int) : Plain (toString n) := by
  rw [Int.toString_eq_repr, Int.repr_eq_if]
  split
  · exact plain_nat _
  · exact Plain.append (by decide) (plain_nat _)

theorem plain_sign (op : Operator) : Plain op.sign := by
  cases op <;> decide

/-- Values that are not bound are written as words and numbers. -/
theorem plain_literal {v : Value} (h : v.isBound = false) : Plain v.literal := by
  cases v with
  | null => decide
  | bool b => cases b <;> decide
  | int n => exact plain_int _
  | long n => exact plain_int _
  | _ => cases h

/-! ## Pieces with places -/

/-- The piece with something else in place of what is bound. -/
def Piece.into {α β : Type} (g : α → Piece β) : Piece α → Piece β
  | raw s => raw s
  | name s => name s
  | bound a => g a

/-- Text as it stands is plain, and what is bound has the property. -/
def Piece.Proper {L : Type} (P : L → Prop) : Piece L → Prop
  | raw s => Plain s
  | name _ => True
  | bound l => P l

def AllProper {L : Type} (P : L → Prop) (ps : List (Piece L)) : Prop :=
  ∀ p ∈ ps, p.Proper P

section

variable {L : Type} {P : L → Prop} {ps qs : List (Piece L)} {s : String}

@[simp] theorem allProper_nil : AllProper P ([] : List (Piece L)) := by
  intro p hp
  cases hp

@[simp] theorem allProper_cons {p : Piece L} : AllProper P (p :: ps) ↔ p.Proper P ∧ AllProper P ps :=
  List.forall_mem_cons

@[simp] theorem allProper_append : AllProper P (ps ++ qs) ↔ AllProper P ps ∧ AllProper P qs :=
  List.forall_mem_append

@[simp] theorem proper_raw : (Piece.raw s : Piece L).Proper P ↔ Plain s := Iff.rfl

@[simp] theorem proper_name : (Piece.name s : Piece L).Proper P ↔ True := Iff.rfl

theorem allProper_joined {separator : String} (hs : Plain separator) {parts : List (List (Piece L))}
    (h : ∀ ps ∈ parts, AllProper P ps) : AllProper P (joined separator parts) := by
  induction parts with
  | nil => exact allProper_nil
  | cons ps rest ih =>
    obtain ⟨hps, hrest⟩ := List.forall_mem_cons.mp h
    cases rest with
    | nil => exact hps
    | cons qs rest =>
      simp only [joined, allProper_append, allProper_cons, proper_raw]
      exact ⟨hps, hs, ih hrest⟩

theorem allProper_wrapped (op : Operator) (asArgument : Bool) (child : Expr) (h : AllProper P ps) :
    AllProper P (wrapped op asArgument child ps) := by
  unfold wrapped
  split
  · simp only [List.cons_append, allProper_cons, allProper_append, proper_raw, allProper_nil, and_true]
    exact ⟨by decide, h, by decide⟩
  · exact h

theorem allProper_arrange (d : Dialect) (op : Operator) {operand : List (Piece L)} {args : List (List (Piece L))}
    (hoperand : AllProper P operand) (hargs : ∀ ps ∈ args, AllProper P ps) :
    AllProper P (arrange d op operand args) := by
  have hall : ∀ ps ∈ operand :: args, AllProper P ps := List.forall_mem_cons.mpr ⟨hoperand, hargs⟩
  have hsign := plain_sign op
  unfold arrange
  -- Concatenation is written between its operands outside MySQL; otherwise there is one case for each layout.
  split
  · simp only [List.cons_append, allProper_cons, allProper_append, proper_raw, allProper_nil, and_true]
    exact ⟨by decide, allProper_joined (by decide) hall, by decide⟩
  · split
    · rw [allProper_cons, proper_raw]
      refine ⟨hsign.append ?_, hoperand⟩
      split <;> decide
    · rw [allProper_append, allProper_cons, proper_raw]
      exact ⟨hoperand, Plain.append (by decide) hsign, allProper_nil⟩
    · exact allProper_joined ((Plain.append (by decide) hsign).append (by decide)) hall
    · simp only [List.cons_append, allProper_cons, allProper_append, proper_raw, allProper_nil, and_true]
      exact ⟨hsign.append (by decide), allProper_joined (by decide) hall, by decide⟩
    · simp only [List.cons_append, List.append_assoc, allProper_cons, allProper_append, proper_raw, allProper_nil,
        and_true]
      exact ⟨hoperand, (Plain.append (by decide) hsign).append (by decide), allProper_joined (by decide) hargs,
        by decide⟩
    · rw [allProper_append, allProper_cons, proper_raw]
      exact ⟨hoperand, (Plain.append (by decide) hsign).append (by decide), allProper_joined (by decide) hargs⟩

end

/-! ## Filling places -/

/-- The pieces with values in the places: bound, or written out. -/
def fill {L : Type} (f : L → Value) (ps : List (Piece L)) : List (Piece Value) :=
  ps.map (Piece.into fun l => value (f l))

/-- None of the values is the constant true, which would take a condition away. -/
def Fills {L : Type} (f : L → Value) : Prop :=
  ∀ l, f l ≠ .bool true

section

variable {L : Type} (f : L → Value)

@[simp] theorem fill_nil : fill f [] = [] := rfl

@[simp] theorem fill_raw (s : String) (ps : List (Piece L)) : fill f (.raw s :: ps) = .raw s :: fill f ps := rfl

@[simp] theorem fill_name (s : String) (ps : List (Piece L)) : fill f (.name s :: ps) = .name s :: fill f ps := rfl

@[simp] theorem fill_append (ps qs : List (Piece L)) : fill f (ps ++ qs) = fill f ps ++ fill f qs :=
  List.map_append

theorem fill_joined (separator : String) (parts : List (List (Piece L))) :
    fill f (joined separator parts) = joined separator (parts.map (fill f)) := by
  induction parts with
  | nil => rfl
  | cons ps rest ih =>
    cases rest with
    | nil => rfl
    | cons qs rest =>
      simp only [joined, fill_append, fill_raw, ih, List.map_cons]

theorem fill_wrapped (op : Operator) (asArgument : Bool) (child : Expr) (ps : List (Piece L)) :
    fill f (wrapped op asArgument child ps) = wrapped op asArgument child (fill f ps) := by
  unfold wrapped
  split
  · simp only [List.cons_append, fill_raw, fill_append, fill_nil]
  · rfl

theorem fill_arrange (d : Dialect) (op : Operator) (operand : List (Piece L)) (args : List (List (Piece L))) :
    fill f (arrange d op operand args) = arrange d op (fill f operand) (args.map (fill f)) := by
  unfold arrange
  split
  · simp only [List.cons_append, fill_raw, fill_append, fill_nil, fill_joined, List.map_cons]
  · split <;>
      simp only [List.cons_append, fill_raw, fill_append, fill_nil, fill_joined, List.map_cons]

end

/-! ## Uniform renderings -/

section

variable {L M : Type} {P : L → Prop}

/-- With any values in the places, the rendering is refused for one reason, or gives one skeleton with the
values filled in. -/
def Uniform (P : L → Prop) (r : (L → Value) → Except Failure (List (Piece Value))) : Prop :=
  ∃ x : Except Failure (List (Piece L)),
    (∀ f, Fills f → r f = x.map (fill f)) ∧ ∀ ps, x = .ok ps → AllProper P ps

def AllUniform (P : L → Prop) (r : (L → Value) → Except Failure (List (List (Piece Value)))) : Prop :=
  ∃ x : Except Failure (List (List (Piece L))),
    (∀ f, Fills f → r f = x.map (List.map (fill f))) ∧ ∀ parts, x = .ok parts → ∀ ps ∈ parts, AllProper P ps

variable {r r' : (L → Value) → Except Failure (List (Piece Value))}
  {rs : (L → Value) → Except Failure (List (List (Piece Value)))}

theorem Uniform.congr (h : Uniform P r') (heq : ∀ f, Fills f → r f = r' f) : Uniform P r := by
  obtain ⟨x, hx, hp⟩ := h
  exact ⟨x, fun f hf => (heq f hf).trans (hx f hf), hp⟩

theorem AllUniform.congr {rs' : (L → Value) → Except Failure (List (List (Piece Value)))} (h : AllUniform P rs')
    (heq : ∀ f, Fills f → rs f = rs' f) : AllUniform P rs := by
  obtain ⟨x, hx, hp⟩ := h
  exact ⟨x, fun f hf => (heq f hf).trans (hx f hf), hp⟩

theorem uniform_error (e : Failure) : Uniform P fun _ => .error e :=
  ⟨.error e, fun _ _ => rfl, nofun⟩

theorem uniform_ok (ps : List (Piece L)) (h : AllProper P ps) : Uniform P fun f => .ok (fill f ps) :=
  ⟨.ok ps, fun _ _ => rfl, by rintro _ ⟨⟩; exact h⟩

theorem allUniform_ok (parts : List (List (Piece L))) (h : ∀ ps ∈ parts, AllProper P ps) :
    AllUniform P fun f => .ok (parts.map (fill f)) :=
  ⟨.ok parts, fun _ _ => rfl, by rintro _ ⟨⟩; exact h⟩

theorem Uniform.bind {k : (L → Value) → List (Piece Value) → Except Failure (List (Piece Value))}
    (hr : Uniform P r) (hk : ∀ ps, AllProper P ps → Uniform P fun f => k f (fill f ps)) :
    Uniform P fun f => r f >>= k f := by
  obtain ⟨x, hx, hp⟩ := hr
  cases x with
  | error e => exact (uniform_error e).congr fun f hf => by rw [hx f hf]; rfl
  | ok ps => exact (hk ps (hp ps rfl)).congr fun f hf => by rw [hx f hf]; rfl

theorem AllUniform.bind {k : (L → Value) → List (List (Piece Value)) → Except Failure (List (Piece Value))}
    (hr : AllUniform P rs) (hk : ∀ parts : List (List (Piece L)), (∀ ps ∈ parts, AllProper P ps) →
      Uniform P fun f => k f (parts.map (fill f))) :
    Uniform P fun f => rs f >>= k f := by
  obtain ⟨x, hx, hp⟩ := hr
  cases x with
  | error e => exact (uniform_error e).congr fun f hf => by rw [hx f hf]; rfl
  | ok parts => exact (hk parts (hp parts rfl)).congr fun f hf => by rw [hx f hf]; rfl

/-- A rendering changed by something that does not look at what is filled in. -/
theorem Uniform.map (hr : Uniform P r) (g : {β : Type} → List (Piece β) → List (Piece β))
    (hfill : ∀ (f : L → Value) ps, fill f (g ps) = g (fill f ps))
    (hg : ∀ {ps}, AllProper P ps → AllProper P (g ps)) :
    Uniform P fun f => (r f).map g := by
  obtain ⟨x, hx, hp⟩ := hr
  cases x with
  | error e => exact (uniform_error e).congr fun f hf => by simp only [hx f hf]; rfl
  | ok ps =>
    refine (uniform_ok _ (hg (hp ps rfl))).congr fun f hf => ?_
    simp only [hx f hf, Except.map, hfill]

theorem AllUniform.joined (hr : AllUniform P rs) {separator : String} (hs : Plain separator) :
    Uniform P fun f => (rs f).map (Sql.joined separator) := by
  obtain ⟨x, hx, hp⟩ := hr
  cases x with
  | error e => exact (uniform_error e).congr fun f hf => by simp only [hx f hf]; rfl
  | ok parts =>
    refine (uniform_ok _ (allProper_joined hs (hp parts rfl))).congr fun f hf => ?_
    simp only [hx f hf, Except.map, fill_joined]

/-- One part before the others, changed by something that does not look at what is filled in. -/
theorem Uniform.cons (hr : Uniform P r) (g : {β : Type} → List (Piece β) → List (Piece β))
    (hfill : ∀ (f : L → Value) ps, fill f (g ps) = g (fill f ps))
    (hg : ∀ {ps}, AllProper P ps → AllProper P (g ps))
    (hrs : AllUniform P rs) :
    AllUniform P fun f => r f >>= fun ps => rs f >>= fun rest => .ok (g ps :: rest) := by
  obtain ⟨x, hx, hp⟩ := hr
  obtain ⟨y, hy, hq⟩ := hrs
  cases x with
  | error e => exact ⟨.error e, fun f hf => by simp only [hx f hf]; rfl, nofun⟩
  | ok ps =>
    cases y with
    | error e => exact ⟨.error e, fun f hf => by simp only [hx f hf, hy f hf]; rfl, nofun⟩
    | ok rest =>
      refine ⟨.ok (g ps :: rest), fun f hf => ?_, ?_⟩
      · simp only [hx f hf, hy f hf, Except.map, List.map_cons, hfill]
        rfl
      · rintro _ ⟨⟩
        exact List.forall_mem_cons.mpr ⟨hg (hp ps rfl), hq rest rfl⟩

/-- The pieces with their places further on. -/
def further (step : L → M) (ps : List (Piece L)) : List (Piece M) :=
  ps.map (Piece.into fun l => .bound (step l))

theorem fill_further (step : L → M) (f : M → Value) (ps : List (Piece L)) :
    fill f (further step ps) = fill (f ∘ step) ps := by
  rw [fill, further, List.map_map]
  apply List.map_congr_left
  intro p _
  cases p <;> rfl

theorem allProper_further {Q : M → Prop} {step : L → M} (hq : ∀ l, P l → Q (step l)) {ps : List (Piece L)}
    (h : AllProper P ps) : AllProper Q (further step ps) := by
  intro p hp
  obtain ⟨q, hmem, rfl⟩ := List.mem_map.mp hp
  have hproper := h q hmem
  cases q with
  | raw s => exact hproper
  | name s => trivial
  | bound l => exact hq l hproper

/-- A rendering as a part of a larger one, in which its places lie further on. -/
theorem Uniform.further {Q : M → Prop} (step : L → M) (h : Uniform P r) (hq : ∀ l, P l → Q (step l)) :
    Uniform Q fun f => r (f ∘ step) := by
  obtain ⟨x, hx, hp⟩ := h
  -- What is filled in further on is what the part is filled in with.
  have hstep : ∀ {f : M → Value}, Fills f → Fills (f ∘ step) := fun hf l => hf (step l)
  cases x with
  | error e => exact (uniform_error e).congr fun f hf => hx (f ∘ step) (hstep hf)
  | ok ps =>
    refine (uniform_ok _ (allProper_further hq (hp ps rfl))).congr fun f hf => ?_
    rw [fill_further]
    exact hx (f ∘ step) (hstep hf)

theorem Uniform.imp {Q : L → Prop} (h : Uniform P r) (hq : ∀ l, P l → Q l) : Uniform Q r :=
  h.further (fun l => l) hq

theorem AllUniform.further {Q : M → Prop} (step : L → M) (h : AllUniform P rs) (hq : ∀ l, P l → Q (step l)) :
    AllUniform Q fun f => rs (f ∘ step) := by
  obtain ⟨x, hx, hp⟩ := h
  have hstep : ∀ {f : M → Value}, Fills f → Fills (f ∘ step) := fun hf l => hf (step l)
  cases x with
  | error e => exact ⟨.error e, fun f hf => hx (f ∘ step) (hstep hf), nofun⟩
  | ok parts =>
    have hall : ∀ ps ∈ parts.map (Sql.further step), AllProper Q ps := by
      intro ps hps
      obtain ⟨qs, hqs, rfl⟩ := List.mem_map.mp hps
      exact allProper_further hq (hp parts rfl qs hqs)
    refine (allUniform_ok _ hall).congr fun f hf => ?_
    rw [List.map_map, show fill f ∘ Sql.further step = fill (f ∘ step) from funext (fill_further step f)]
    exact hx (f ∘ step) (hstep hf)

end

end TableQuery.Sql
