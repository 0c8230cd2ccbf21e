import TableQuery.Proofs.Value.Order

/- The order in which rows are sorted, on the values of one column. It is a total preorder on a column where
   all values but nulls compare, unless a double among them is equal to two of the integers: integers are
   compared exactly, but with a double only as doubles, and two integers may have one double. Other columns
   have one only if all their values but nulls are even, as values that do not compare are
   (`preorderOn_iff_sortable`). -/
namespace TableQuery

/-! ## Preorders -/

/-- On these items, `order` is a total preorder: reversing a comparison reverses its result, and not being
greater is transitive. -/
structure PreorderOn {α : Type} (order : α → α → Ordering) (as : List α) : Prop where
  swap : ∀ a ∈ as, ∀ b ∈ as, order b a = (order a b).swap
  trans : ∀ a ∈ as, ∀ b ∈ as, ∀ c ∈ as,
    (order a b).isLE = true → (order b c).isLE = true → (order a c).isLE = true

section

variable {α β : Type}

theorem PreorderOn.comap {order : β → β → Ordering} {f : α → β} {as : List α} (h : PreorderOn order (as.map f)) :
    PreorderOn (fun a b => order (f a) (f b)) as := by
  have hmem : ∀ {a}, a ∈ as → f a ∈ as.map f := fun ha => List.mem_map_of_mem ha
  constructor
  · intro a ha b hb
    exact h.swap _ (hmem ha) _ (hmem hb)
  · intro a ha b hb c hc
    exact h.trans _ (hmem ha) _ (hmem hb) _ (hmem hc)

theorem PreorderOn.congr {order order' : α → α → Ordering} {as : List α} (h : PreorderOn order as)
    (heq : ∀ a ∈ as, ∀ b ∈ as, order' a b = order a b) : PreorderOn order' as := by
  constructor
  · intro a ha b hb
    rw [heq b hb a ha, heq a ha b hb]
    exact h.swap a ha b hb
  · intro a ha b hb c hc
    rw [heq a ha b hb, heq b hb c hc, heq a ha c hc]
    exact h.trans a ha b hb c hc

/-- The reverse of a preorder. -/
theorem PreorderOn.reverse {order : α → α → Ordering} {as : List α} (h : PreorderOn order as) :
    PreorderOn (fun a b => order b a) as := by
  constructor
  · intro a ha b hb
    exact h.swap b hb a ha
  · intro a ha b hb c hc hab hbc
    exact h.trans c hc b hb a ha hbc hab

theorem PreorderOn.isLE_of_not_isLT {order : α → α → Ordering} {as : List α} (h : PreorderOn order as) {a b : α}
    (ha : a ∈ as) (hb : b ∈ as) (hab : ¬(order a b).isLT = true) : (order b a).isLE = true := by
  rw [h.swap a ha b hb, Ordering.isLE_swap, ← Ordering.not_isLT_eq_isGE, Bool.eq_false_iff.mpr hab]
  rfl

theorem PreorderOn.not_isLT_of_isLE {order : α → α → Ordering} {as : List α} (h : PreorderOn order as) {a b : α}
    (ha : a ∈ as) (hb : b ∈ as) (hba : (order b a).isLE = true) : ¬(order a b).isLT = true := by
  rw [h.swap a ha b hb] at hba
  cases ho : order a b with
  | lt =>
    rw [ho] at hba
    cases hba
  | eq => exact Bool.false_ne_true
  | gt => exact Bool.false_ne_true

/-- Of three items in order, all are even if the outer ones are. -/
theorem PreorderOn.even_of_even {order : α → α → Ordering} {as : List α} (h : PreorderOn order as) {a b c : α}
    (ha : a ∈ as) (hb : b ∈ as) (hc : c ∈ as) (hab : (order a b).isLE = true) (hbc : (order b c).isLE = true)
    (hac : order a c = .eq) : order a b = .eq ∧ order b c = .eq := by
  have hca : (order c a).isLE = true := by
    rw [h.swap a ha c hc, hac]
    rfl
  have hba := h.trans b hb c hc a ha hbc hca
  have hcb := h.trans c hc a ha b hb hca hab
  rw [h.swap a ha b hb] at hba
  rw [h.swap b hb c hc] at hcb
  exact ⟨eq_of_isLE_swap hab hba, eq_of_isLE_swap hbc hcb⟩

/-- The preorder in which a second one decides where the first one does not. -/
theorem PreorderOn.then {order order' : α → α → Ordering} {as : List α} (h : PreorderOn order as)
    (h' : PreorderOn order' as) : PreorderOn (fun a b => (order a b).then (order' a b)) as := by
  constructor
  · intro a ha b hb
    rw [h.swap a ha b hb, h'.swap a ha b hb, Ordering.swap_then]
  · intro a ha b hb c hc hab hbc
    rw [Ordering.isLE_then_iff_and] at hab hbc ⊢
    have hac := h.trans a ha b hb c hc hab.1 hbc.1
    refine ⟨hac, ?_⟩
    cases ho : order a c with
    | lt => exact .inl rfl
    | gt =>
      rw [ho] at hac
      cases hac
    | eq =>
      obtain ⟨heq, heq'⟩ := h.even_of_even ha hb hc hab.1 hbc.1 ho
      rw [heq] at hab
      rw [heq'] at hbc
      exact .inr (h'.trans a ha b hb c hc (hab.2.resolve_left nofun) (hbc.2.resolve_left nofun))

end

/-! ## Columns -/

namespace Value

theorem isNull_iff {v : Value} : v.isNull = true ↔ v = null := by
  cases v <;> simp [isNull]

theorem sortOrder_null_left (w : Value) : (sortOrder null w).isLE = true := by
  cases w <;> rfl

theorem sortOrder_null_right {v : Value} (h : (sortOrder v null).isLE = true) : v = null := by
  cases v <;> first | rfl | cases h

theorem sortOrder_of_ne_null {v w : Value} (hv : v ≠ null) (hw : w ≠ null) :
    sortOrder v w = (order? v w).getD .eq := by
  have hv' : v.isNull = false := Bool.eq_false_iff.mpr fun h => hv (isNull_iff.mp h)
  have hw' : w.isNull = false := Bool.eq_false_iff.mpr fun h => hw (isNull_iff.mp h)
  rw [sortOrder, hv', hw']

theorem sortOrder_swap (v w : Value) : sortOrder w v = (sortOrder v w).swap := by
  unfold sortOrder
  rw [order?_swap]
  cases v.isNull <;> cases w.isNull <;> cases order? v w <;> rfl

/-- Nulls come first, so that only the values that are not null matter. -/
theorem sortOrder_trans {u v w : Value}
    (h : u ≠ null → v ≠ null → w ≠ null → (sortOrder u v).isLE = true → (sortOrder v w).isLE = true →
      (sortOrder u w).isLE = true)
    (huv : (sortOrder u v).isLE = true) (hvw : (sortOrder v w).isLE = true) : (sortOrder u w).isLE = true := by
  by_cases hu : u = null
  · rw [hu]
    exact sortOrder_null_left w
  by_cases hv : v = null
  · rw [hv] at huv
    exact absurd (sortOrder_null_right huv) hu
  by_cases hw : w = null
  · rw [hw] at hvw
    exact absurd (sortOrder_null_right hvw) hv
  exact h hu hv hw huv hvw

/-- All values of the column but nulls compare, and none of them is equal to two different integers. -/
structure Ranked (vs : List Value) : Prop where
  compares : ∀ v ∈ vs, ∀ w ∈ vs, v ≠ null → w ≠ null → (order? v w).isSome
  exact : ∀ u ∈ vs, ∀ v ∈ vs, ∀ w ∈ vs, Exact u v w

/-- A column that can be sorted, and if only because sorting leaves all its values but nulls as they are. -/
def Sortable (vs : List Value) : Prop :=
  Ranked vs ∨ ∀ v ∈ vs, ∀ w ∈ vs, v ≠ null → w ≠ null → sortOrder v w = .eq

instance (vs : List Value) : Decidable (Ranked vs) :=
  decidable_of_iff
    ((∀ v ∈ vs, ∀ w ∈ vs, v ≠ null → w ≠ null → (order? v w).isSome) ∧ ∀ u ∈ vs, ∀ v ∈ vs, ∀ w ∈ vs, Exact u v w)
    ⟨fun ⟨hcompares, hexact⟩ => ⟨hcompares, hexact⟩, fun ⟨hcompares, hexact⟩ => ⟨hcompares, hexact⟩⟩

instance (vs : List Value) : Decidable (Sortable vs) :=
  inferInstanceAs (Decidable (_ ∨ _))

theorem Ranked.trans {vs : List Value} (h : Ranked vs) :
    ∀ u ∈ vs, ∀ v ∈ vs, ∀ w ∈ vs, (sortOrder u v).isLE = true → (sortOrder v w).isLE = true →
      (sortOrder u w).isLE = true := by
  intro u hu v hv w hw
  refine sortOrder_trans fun hu' hv' hw' huv hvw => ?_
  obtain ⟨o, ho⟩ := Option.isSome_iff_exists.mp (h.compares u hu v hv hu' hv')
  obtain ⟨o', ho'⟩ := Option.isSome_iff_exists.mp (h.compares v hv w hw hv' hw')
  obtain ⟨p, hp, hle⟩ := (compared_iff.mp ho).trans (compared_iff.mp ho')
  rw [sortOrder_of_ne_null hu' hv', ho] at huv
  rw [sortOrder_of_ne_null hv' hw', ho'] at hvw
  rw [sortOrder_of_ne_null hu' hw', compared_iff.mpr hp]
  exact hle (h.exact u hu v hv w hw) huv hvw

theorem order?_of_toInt? {v w : Value} {m n : Int} (hv : v.toInt? = some m) (hw : w.toInt? = some n) :
    order? v w = some (compare m n) := by
  cases v <;> cases hv <;> cases w <;> cases hw <;> rfl

theorem exists_lt_of_not_even {vs : List Value}
    (h : ¬∀ v ∈ vs, ∀ w ∈ vs, v ≠ null → w ≠ null → sortOrder v w = .eq) :
    ∃ low ∈ vs, ∃ high ∈ vs, order? low high = some .lt := by
  push Not at h
  obtain ⟨v, hv, w, hw, hv', hw', hne⟩ := h
  rw [sortOrder_of_ne_null hv' hw'] at hne
  cases ho : order? v w with
  | none => exact absurd (by rw [ho]; rfl) hne
  | some o =>
    cases o with
    | lt => exact ⟨v, hv, w, hw, ho⟩
    | eq => exact absurd (by rw [ho]; rfl) hne
    | gt => exact ⟨w, hw, v, hv, by rw [order?_swap, ho]; rfl⟩

/-- In a preorder with one strict comparison, all values compare: one that did not would be even with both of
the values that are not. -/
theorem compares_of_preorderOn {vs : List Value} (h : PreorderOn sortOrder vs) {low high : Value} (hlow : low ∈ vs)
    (hhigh : high ∈ vs) (hlt : order? low high = some .lt) {v : Value} (hv : v ∈ vs) (hne : v ≠ null) :
    ∃ o, order? v low = some o := by
  obtain ⟨hlow', hhigh'⟩ := ne_null_of_order? hlt
  cases hnone : order? v low with
  | some o => exact ⟨o, rfl⟩
  | none =>
    have hhighNone : order? high v = none := by
      cases hsome : order? high v with
      | none => rfl
      | some o =>
        obtain ⟨p, hp, _⟩ := (compared_iff.mp hlt).trans (compared_iff.mp hsome)
        have hback := compared_iff.mpr hp.swap
        rw [hnone] at hback
        cases hback
    have hle : (sortOrder high v).isLE = true := by
      rw [sortOrder_of_ne_null hhigh' hne, hhighNone]
      rfl
    have hle' : (sortOrder v low).isLE = true := by
      rw [sortOrder_of_ne_null hne hlow', hnone]
      rfl
    have hgt := h.trans high hhigh v hv low hlow hle hle'
    rw [sortOrder_swap, sortOrder_of_ne_null hlow' hhigh', hlt] at hgt
    cases hgt

theorem exact_of_preorderOn {vs : List Value} (h : PreorderOn sortOrder vs) :
    ∀ u ∈ vs, ∀ v ∈ vs, ∀ w ∈ vs, Exact u v w := by
  intro u hu v hv w hw hm hn huv hwv
  obtain ⟨m, hm⟩ := Option.isSome_iff_exists.mp hm
  obtain ⟨n, hn⟩ := Option.isSome_iff_exists.mp hn
  have hsort : ∀ {a b : Value} {o : Ordering}, order? a b = some o → sortOrder a b = o := by
    intro a b o ho
    obtain ⟨ha, hb⟩ := ne_null_of_order? ho
    rw [sortOrder_of_ne_null ha hb, ho]
    rfl
  have huv' := hsort huv
  have hwv' := hsort hwv
  have hvu : sortOrder v u = .eq := by rw [sortOrder_swap, huv']; rfl
  have hvw : sortOrder v w = .eq := by rw [sortOrder_swap, hwv']; rfl
  -- Both integers are even with the double, so neither is greater.
  have huw := h.trans u hu v hv w hw (by rw [huv']; rfl) (by rw [hvw]; rfl)
  have hwu := h.trans w hw v hv u hu (by rw [hwv']; rfl) (by rw [hvu]; rfl)
  rw [hsort (order?_of_toInt? hm hn), Int.isLE_compare] at huw
  rw [hsort (order?_of_toInt? hn hm), Int.isLE_compare] at hwu
  rw [hm, hn, Int.le_antisymm huw hwu]

/-- Sorting by a column is sorting by a total preorder just where the column can be sorted. -/
theorem preorderOn_iff_sortable {vs : List Value} : PreorderOn sortOrder vs ↔ Sortable vs := by
  constructor
  · intro h
    by_cases heven : ∀ v ∈ vs, ∀ w ∈ vs, v ≠ null → w ≠ null → sortOrder v w = .eq
    · exact .inr heven
    obtain ⟨low, hlow, high, hhigh, hlt⟩ := exists_lt_of_not_even heven
    refine .inl ⟨fun v hv w hw hv' hw' => ?_, exact_of_preorderOn h⟩
    obtain ⟨o, ho⟩ := compares_of_preorderOn h hlow hhigh hlt hv hv'
    obtain ⟨o', ho'⟩ := compares_of_preorderOn h hlow hhigh hlt hw hw'
    obtain ⟨p, hp, _⟩ := (compared_iff.mp ho).trans (compared_iff.mp ho').swap
    exact Option.isSome_iff_exists.mpr ⟨p, compared_iff.mpr hp⟩
  · intro h
    refine ⟨fun v _ w _ => sortOrder_swap v w, ?_⟩
    rcases h with hranked | heven
    · exact hranked.trans
    · intro u hu v hv w hw
      refine sortOrder_trans fun hu' _ hw' _ _ => ?_
      rw [heven u hu w hw hu' hw']
      rfl

/-! ## Columns of one kind -/

/-- The kinds that the values of a column may have in common. Integers of both widths are of one kind; doubles are of
none. -/
inductive ColumnKind where
  | integer | bool | text | bytes | timestamp | uuid
  deriving DecidableEq

def columnKind? : Value → Option ColumnKind
  | int _ | long _ => some .integer
  | bool _ => some .bool
  | text _ => some .text
  | bytes _ => some .bytes
  | timestamp _ => some .timestamp
  | uuid _ => some .uuid
  | null | double _ => none

/-- The values of the column are null or of one kind. -/
def OneKind (vs : List Value) : Prop :=
  ∃ k, ∀ v ∈ vs, v ≠ null → v.columnKind? = some k

theorem OneKind.subset {vs ws : List Value} (h : OneKind vs) (hsubset : ∀ v ∈ ws, v ∈ vs) : OneKind ws := by
  obtain ⟨k, hk⟩ := h
  exact ⟨k, fun v hv => hk v (hsubset v hv)⟩

theorem toInt?_of_columnKind? {v : Value} (h : v.columnKind? = some .integer) : ∃ n, v.toInt? = some n := by
  cases v <;> first | exact ⟨_, rfl⟩ | cases h

theorem columnKind?_of_toInt? {v : Value} {n : Int} (h : v.toInt? = some n) : v.columnKind? = some .integer := by
  cases v <;> first | rfl | cases h

theorem order?_of_columnKind? {v w : Value} {k : ColumnKind} (hv : v.columnKind? = some k)
    (hw : w.columnKind? = some k) : (order? v w).isSome := by
  cases v <;> cases w <;> first | rfl | (cases hv <;> cases hw)

/-- A column of one kind can be sorted. -/
theorem OneKind.sortable {vs : List Value} (h : OneKind vs) : Sortable vs := by
  obtain ⟨k, hk⟩ := h
  refine .inl ⟨fun v hv w hw hv' hw' => order?_of_columnKind? (hk v hv hv') (hk w hw hw'), ?_⟩
  intro u hu v hv w hw hm hn huv hwv
  obtain ⟨m, hm⟩ := Option.isSome_iff_exists.mp hm
  obtain ⟨n, hn⟩ := Option.isSome_iff_exists.mp hn
  obtain ⟨hu', hv'⟩ := ne_null_of_order? huv
  -- What lies between two integers is an integer too.
  have hinteger : k = .integer := Option.some_inj.mp ((hk u hu hu').symm.trans (columnKind?_of_toInt? hm))
  obtain ⟨l, hl⟩ := toInt?_of_columnKind? (hinteger ▸ hk v hv hv')
  rw [order?_of_toInt? hm hl, Option.some_inj, Std.compare_eq_iff_eq] at huv
  rw [order?_of_toInt? hn hl, Option.some_inj, Std.compare_eq_iff_eq] at hwv
  rw [hm, hn, huv, hwv]

/-- A number among texts is even with all of them, which are not even with one another. -/
example : ¬Sortable [.text "b", .int 1, .text "a"] := by
  decide

end Value

end TableQuery
