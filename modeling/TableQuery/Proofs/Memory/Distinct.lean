import TableQuery.Proofs.Memory.Counting
import TableQuery.Proofs.Value.Order

/- What a distinct select leaves out. Rows are compared by equality of constants, which is narrower than the
   test for equality that conditions use: it takes two values for equal where that test does and the values
   are of one kind (`beq_iff_same`). So of the rows of a distinct select no two hold the same values, unless
   these are equal numbers of different kinds, and the count query counts those twice. -/
namespace TableQuery

namespace Value

inductive Kind where
  | null | bool | int | long | double | text | bytes | timestamp | uuid
  deriving DecidableEq

def kind : Value → Kind
  | null => .null
  | bool _ => .bool
  | int _ => .int
  | long _ => .long
  | double _ => .double
  | text _ => .text
  | bytes _ => .bytes
  | timestamp _ => .timestamp
  | uuid _ => .uuid

/-- Both values are null, or the test for equality says that they are equal. -/
def Same (v w : Value) : Prop :=
  v = null ∧ w = null ∨ equals v w = .yes

instance (v w : Value) : Decidable (v.Same w) :=
  inferInstanceAs (Decidable (_ ∨ _))

/-- Equal numbers of different kinds. -/
structure Mixed (v w : Value) : Prop where
  numbers : v.toDouble?.isSome ∧ w.toDouble?.isSome
  kinds_ne : v.kind ≠ w.kind
  equals_eq : equals v w = .yes

theorem equals_eq_yes {v w : Value} : equals v w = .yes ↔ order? v w = some .eq := by
  have hnull : (v.isNull || w.isNull) = true → order? v w = none := by
    cases v <;> cases w <;> first | exact fun _ => rfl | nofun
  unfold equals compareWith
  split
  · rename_i h
    simp [hnull h]
  · cases order? v w with
    | none => simp [Truth.ofBool]
    | some o => cases o <;> simp [Truth.ofBool]

theorem order?_eq_iff_beq {v w : Value} (hkind : v.kind = w.kind) (hv : v ≠ null) :
    order? v w = some .eq ↔ (v == w) = true := by
  show _ ↔ beq v w = true
  cases v <;> cases w <;> try cases hkind
  case null.null => exact absurd rfl hv
  case bool.bool => simp [order?, beq]
  case int.int => simp [order?, numberOrder?, toInt?, beq, Int32.toInt_inj]
  case long.long => simp [order?, numberOrder?, toInt?, beq, Int64.toInt_inj]
  case double.double => exact Double.order_eq_iff
  case text.text => simp [order?, textOrder_eq, beq]
  case bytes.bytes => simp [order?, bytesOrder_eq, beq]
  case timestamp.timestamp => simp [order?, beq, Timestamp.order_eq_iff]
  case uuid.uuid => simp [order?, beq, Uuid.order_eq_iff]

theorem kind_eq_of_beq {v w : Value} (h : (v == w) = true) : v.kind = w.kind := by
  rcases beq_iff.mp h with ⟨rfl, _⟩ | ⟨x, y, rfl, rfl, _⟩ <;> rfl

/-- Equality of constants is the test for equality on values of one kind, with null equal to itself. -/
theorem beq_iff_same {v w : Value} : (v == w) = true ↔ v.kind = w.kind ∧ v.Same w := by
  constructor
  · intro h
    have hkind := kind_eq_of_beq h
    refine ⟨hkind, ?_⟩
    by_cases hv : v = null
    · subst hv
      cases w <;> cases hkind
      exact .inl ⟨rfl, rfl⟩
    · exact .inr (equals_eq_yes.mpr ((order?_eq_iff_beq hkind hv).mpr h))
  · rintro ⟨hkind, ⟨rfl, rfl⟩ | h⟩
    · rfl
    · have horder := equals_eq_yes.mp h
      exact (order?_eq_iff_beq hkind (ne_null_of_order? horder).1).mp horder

theorem toDouble?_of_number? {v : Value} {a : Number} (h : v.number? = some a) : v.toDouble?.isSome := by
  cases v <;> cases h <;> rfl

/-- Values of different kinds compare only if they are numbers. -/
theorem numbers_of_kind_ne {v w : Value} {o : Ordering} (h : Compared v w o) (hkind : v.kind ≠ w.kind) :
    v.toDouble?.isSome ∧ w.toDouble?.isSome := by
  cases h with
  | number hv hw _ => exact ⟨toDouble?_of_number? hv, toDouble?_of_number? hw⟩
  | _ => exact absurd rfl hkind

/-- Values that are the same, but not equal as constants. -/
theorem mixed_of_same {v w : Value} (h : v.Same w) (hne : (v == w) = false) : v.Mixed w := by
  have hkind : v.kind ≠ w.kind := fun hkind => Bool.false_ne_true (hne.symm.trans (beq_iff_same.mpr ⟨hkind, h⟩))
  rcases h with ⟨rfl, rfl⟩ | h
  · exact absurd rfl hkind
  · exact ⟨numbers_of_kind_ne (compared_iff.mp (equals_eq_yes.mp h)) hkind, hkind, h⟩

end Value

namespace Row

/-- The rows have the same columns, with the same values in them. -/
structure Same (r s : Row) : Prop where
  columns_eq : r.columns = s.columns
  values_same : List.Forall₂ Value.Same r.values s.values

/-- There is a column in which the rows hold equal numbers of different kinds. -/
def Mixes (r s : Row) : Prop :=
  ∃ (i : Nat) (v w : Value), r.values[i]? = some v ∧ s.values[i]? = some w ∧ v.Mixed w

theorem values_beq_or_mixed {vs ws : List Value} (h : List.Forall₂ Value.Same vs ws) :
    (vs == ws) = true ∨ ∃ (i : Nat) (v w : Value), vs[i]? = some v ∧ ws[i]? = some w ∧ v.Mixed w := by
  induction h with
  | nil => exact .inl rfl
  | @cons v w vs ws hvw _ ih =>
    cases hbeq : v == w with
    | false => exact .inr ⟨0, v, w, rfl, rfl, Value.mixed_of_same hvw hbeq⟩
    | true =>
      rcases ih with htail | ⟨i, v', w', hv, hw, hmixed⟩
      · left
        rw [List.cons_beq_cons, hbeq, htail]
        rfl
      · exact .inr ⟨i + 1, v', w', hv, hw, hmixed⟩

/-- Of two rows that are not equal, but the same, there are numbers of different kinds in one column. -/
theorem Same.mixes {r s : Row} (h : r.Same s) (hne : (r == s) = false) : r.Mixes s := by
  rcases values_beq_or_mixed h.values_same with hvalues | hmixed
  · rw [Row.beq_iff.mpr ⟨h.columns_eq, hvalues⟩] at hne
    cases hne
  · exact hmixed

end Row

namespace Memory

theorem addNew_pairwise {done : List Row} (h : done.Pairwise fun r s => (r == s) = false) (r : Row) :
    (addNew done r).Pairwise fun r s => (r == s) = false := by
  cases hin : done.contains r with
  | true =>
    rw [addNew_of_contains hin]
    exact h
  | false =>
    rw [addNew_of_new hin, List.pairwise_append]
    refine ⟨h, List.pairwise_singleton _ _, fun s hs r' hr => ?_⟩
    cases List.mem_singleton.mp hr
    refine BEq.symm_false ?_
    rw [List.contains_eq_any_beq, List.any_eq_false] at hin
    exact Bool.eq_false_iff.mpr (hin s hs)

theorem dedup_pairwise (rows : List Row) : (dedup rows).Pairwise fun r s => (r == s) = false := by
  have h : ∀ done : List Row, done.Pairwise (fun r s => (r == s) = false) →
      (rows.foldl addNew done).Pairwise fun r s => (r == s) = false := by
    induction rows with
    | nil => exact fun _ h => h
    | cons r rows ih => exact fun done h => ih (addNew done r) (addNew_pairwise h r)
  exact h [] .nil

theorem page_sublist (offset limit : Option Nat) (rows : List Row) : (page offset limit rows).Sublist rows := by
  unfold page
  cases limit with
  | none => exact List.drop_sublist _ rows
  | some n => exact (List.take_sublist _ _).trans (List.drop_sublist _ rows)

theorem evaluate_pairwise {tables : Tables} {q : Query} {rows : List Row}
    (hdistinct : q.clauses.select.distinct = true) (h : evaluate tables q = .ok rows) :
    rows.Pairwise fun r s => r.Same s → r.Mixes s := by
  obtain ⟨_, source, _, hrun⟩ := evaluate_ok_iff.mp h
  obtain ⟨kept, selected, _, rfl⟩ := runClauses_ok_iff.mp hrun
  rw [hdistinct]
  have hpairs := (dedup_pairwise selected).sublist (page_sublist q.clauses.offset q.clauses.limit _)
  exact hpairs.imp fun hne hsame => hsame.mixes hne

/-- Where two rows of a distinct select hold the same values, they hold equal numbers of different kinds in
one column; so a distinct select whose columns are of one kind each leaves no duplicates. The count query
counts the rows that the select gives without its own offset and limit, and of these the same is true. -/
theorem distinct_rows_differ (tables : Tables) (q : Query) (hdistinct : q.clauses.select.distinct = true) :
    (∀ rows, evaluate tables q = .ok rows → rows.Pairwise fun r s => r.Same s → r.Mixes s) ∧
    ∀ rows, evaluate tables ((q.withOffset none).withLimit none) = .ok rows →
      (rows.Pairwise fun r s => r.Same s → r.Mixes s) ∧
      ∃ r, evaluate tables q.countQuery = .ok [r] ∧
        r.values.head? = some (.long (Int64.ofNat rows.length)) := by
  have hunpaged : ((q.withOffset none).withLimit none).clauses.select.distinct = true := by
    simp only [Query.withOffset, Query.withLimit, Query.clauses_update, hdistinct]
  refine ⟨fun rows h => evaluate_pairwise hdistinct h, fun rows h => ⟨evaluate_pairwise hunpaged h, ?_⟩⟩
  obtain ⟨kept, hkeeps, hlen⟩ := countBase_keeps h
  rw [Query.countQuery_eq, ← hlen]
  exact hkeeps.count

/-- Books, of which some have no genre. -/
def shelf : Tables :=
  [("books", [⟨["title", "genre"], [.text "Emma", .text "novel"]⟩, ⟨["title", "genre"], [.text "Howl", .null]⟩,
    ⟨["title", "genre"], [.text "Ulysses", .text "novel"]⟩, ⟨["title", "genre"], [.text "Odes", .null]⟩])]

def genres : Query :=
  (Query.ofTable "books").withSelect (Select.scalar (.path (.single "genre"))).asDistinct

theorem distinct_rows_differ_genres :
    let rows : List Row := [⟨["genre"], [.text "novel"]⟩, ⟨["genre"], [.null]⟩]
    evaluate shelf genres = .ok rows ∧ (rows.Pairwise fun r s => r.Same s → r.Mixes s) ∧
    ∃ r, evaluate shelf genres.countQuery = .ok [r] ∧ r.values.head? = some (.long (Int64.ofNat rows.length)) :=
  have h : evaluate shelf genres = .ok [⟨["genre"], [.text "novel"]⟩, ⟨["genre"], [.null]⟩] := by rfl
  have hdiffer := distinct_rows_differ shelf genres rfl
  ⟨h, hdiffer.1 _ h, (hdiffer.2 _ h).2⟩

/-- An amount that is held in one of two columns, which are of different kinds. -/
def amounts : Tables :=
  [("amounts", [⟨["old", "new"], [.int 1, .null]⟩, ⟨["old", "new"], [.null, .long 1]⟩])]

def distinctAmounts : Query :=
  (Query.ofTable "amounts").withSelect
    (Select.scalar (.app .coalesce (.path (.single "old")) [.path (.single "new")])).asDistinct

/-- The same amount is given twice, and counted twice. -/
theorem equal_amounts_kept :
    ∃ r s, evaluate amounts distinctAmounts = .ok [r, s] ∧ r.Same s ∧
      ∃ n, evaluate amounts distinctAmounts.countQuery = .ok [n] ∧ n.values = [.long 2] := by
  refine ⟨⟨["COALESCE(old, new)"], [.int 1]⟩, ⟨["COALESCE(old, new)"], [.long 1]⟩, by rfl, ⟨rfl, ?_⟩,
    ⟨["COUNT(1)"], [.long 2]⟩, by rfl, rfl⟩
  exact .cons (by decide) .nil

end Memory

end TableQuery
