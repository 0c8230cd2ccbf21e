import TableQuery.Query.Basic

/- The places of constants in a query, and queries that differ in the constants at some of them. Two queries
   are alike where one is the other with constants of the kinds that statements bind replaced by others of
   these kinds (`Query.Alike`), and then the second is the first with its own constants put in their places
   (`Query.Alike.eq_replace`). -/
namespace TableQuery

/-- Constants of these kinds are never part of the text of a statement. -/
def Value.isBound : Value → Bool
  | double _ | text _ | bytes _ | timestamp _ | uuid _ => true
  | null | bool _ | int _ | long _ => false

/-- The value, if it is one that is bound, and otherwise one that is. -/
def Value.boundOr : Option Value → Value
  | some v => if v.isBound then v else .text ""
  | none => .text ""

theorem Value.isBound_boundOr (v : Option Value) : (boundOr v).isBound = true := by
  cases v with
  | none => rfl
  | some v => cases v <;> rfl

theorem Value.boundOr_some {v : Value} (h : v.isBound = true) : boundOr (some v) = v := by
  rw [boundOr, if_pos h]

inductive Branch where
  | operand
  | argument (index : Nat)
  | selected (index : Nat)
  | source
  | filter
  | group (index : Nat)
  | having
  | sortKey (index : Nat)

/-- The place of a constant: the way to it. -/
abbrev Place := List Branch

/-! ## Expressions -/

namespace Expr

mutual

/-- The expressions are the same but for constants that are bound. -/
def Alike : Expr → Expr → Prop
  | const v, const w => v = w ∨ (v.isBound = true ∧ w.isBound = true)
  | path p, path q => p = q
  | app op x xs, app op' y ys => op = op' ∧ Alike x y ∧ AllAlike xs ys
  | _, _ => False

def AllAlike : List Expr → List Expr → Prop
  | [], [] => True
  | x :: xs, y :: ys => Alike x y ∧ AllAlike xs ys
  | _, _ => False

end

mutual

def constantAt : Expr → Place → Option Value
  | const v, [] => some v
  | app _ x _, .operand :: p => constantAt x p
  | app _ _ args, .argument i :: p => constantAtAll args i p
  | _, _ => none

def constantAtAll : List Expr → Nat → Place → Option Value
  | x :: _, 0, p => constantAt x p
  | _ :: xs, i + 1, p => constantAtAll xs i p
  | [], _, _ => none

end

mutual

/-- The expression with other values at the places of the constants that are bound. -/
def replace : Expr → (Place → Value) → Expr
  | const v, f => if v.isBound then const (f []) else const v
  | path p, _ => path p
  | app op x args, f =>
    app op (replace x fun p => f (.operand :: p)) (replaceAll args fun i p => f (.argument i :: p))

def replaceAll : List Expr → (Nat → Place → Value) → List Expr
  | [], _ => []
  | x :: xs, f => replace x (f 0) :: replaceAll xs fun i => f (i + 1)

end

mutual

theorem Alike.refl : ∀ e : Expr, e.Alike e
  | const _ => .inl rfl
  | path _ => rfl
  | app _ x args => ⟨rfl, Alike.refl x, AllAlike.refl args⟩

theorem AllAlike.refl : ∀ es : List Expr, AllAlike es es
  | [] => trivial
  | x :: xs => ⟨Alike.refl x, AllAlike.refl xs⟩

end

mutual

/-- The second of two alike expressions is the first with the constants of the second. -/
theorem Alike.eq_replace : ∀ {e e' : Expr}, e.Alike e' → e' = e.replace fun p => .boundOr (e'.constantAt p)
  | const v, const w, h => by
    rw [replace]
    rcases h with rfl | ⟨hv, hw⟩
    · split
      · next hv => rw [constantAt, Value.boundOr_some hv]
      · rfl
    · rw [if_pos hv, constantAt, Value.boundOr_some hw]
  | path p, path q, h => by rw [replace, show p = q from h]
  | app op x args, app op' x' args', h => by
    obtain ⟨rfl, hx, hargs⟩ := h
    rw [replace]
    exact congr (congrArg (app op) hx.eq_replace) (AllAlike.eq_replace hargs)

theorem AllAlike.eq_replace : ∀ {es es' : List Expr}, AllAlike es es' →
    es' = replaceAll es fun i p => .boundOr (constantAtAll es' i p)
  | [], [], _ => rfl
  | x :: xs, y :: ys, h => by
    rw [replaceAll]
    exact congr (congrArg List.cons h.1.eq_replace) (AllAlike.eq_replace h.2)

end

mutual

/-- Where one of two alike expressions has a constant that is bound, the other has one too. -/
theorem Alike.constantAt : ∀ {e e' : Expr}, e.Alike e' → ∀ {p : Place} {v : Value}, e.constantAt p = some v →
    v.isBound = true → ∃ w, e'.constantAt p = some w ∧ w.isBound = true
  | const v, const w, h, p, u, hu, hbound => by
    cases p with
    | nil =>
      cases hu
      rcases h with rfl | ⟨_, hw⟩
      · exact ⟨v, rfl, hbound⟩
      · exact ⟨w, rfl, hw⟩
    | cons b p => cases hu
  | app op x args, app op' x' args', h, p, u, hu, hbound => by
    cases p with
    | nil => cases hu
    | cons b p =>
      cases b with
      | operand => exact Alike.constantAt h.2.1 hu hbound
      | argument i => exact AllAlike.constantAt h.2.2 hu hbound
      | _ => cases hu

theorem AllAlike.constantAt : ∀ {es es' : List Expr}, AllAlike es es' → ∀ {i : Nat} {p : Place} {v : Value},
    constantAtAll es i p = some v → v.isBound = true → ∃ w, constantAtAll es' i p = some w ∧ w.isBound = true
  | x :: xs, y :: ys, h, i, p, u, hu, hbound => by
    cases i with
    | zero => exact Alike.constantAt h.1 hu hbound
    | succ i => exact AllAlike.constantAt h.2 hu hbound

end

end Expr

/-! ## Clauses -/

namespace Selection

def Alike : Selection → Selection → Prop
  | entity, entity => True
  | scalar e, scalar e' => e.Alike e'
  | tuple es, tuple es' => Expr.AllAlike es es'
  | _, _ => False

def replace (s : Selection) (f : Nat → Place → Value) : Selection :=
  match s with
  | entity => entity
  | scalar e => scalar (e.replace (f 0))
  | tuple es => tuple (Expr.replaceAll es f)

theorem Alike.refl (s : Selection) : s.Alike s := by
  cases s with
  | entity => trivial
  | scalar e => exact Expr.Alike.refl e
  | tuple es => exact Expr.AllAlike.refl es

theorem Alike.exprs {s s' : Selection} (h : s.Alike s') : Expr.AllAlike s.exprs s'.exprs := by
  cases s <;> cases s' <;> try exact h.elim
  · trivial
  · exact ⟨h, trivial⟩
  · exact h

theorem Alike.eq_replace {s s' : Selection} (h : s.Alike s') :
    s' = s.replace fun i p => .boundOr (Expr.constantAtAll s'.exprs i p) := by
  cases s <;> cases s' <;> try exact h.elim
  · rfl
  · exact congrArg scalar (Expr.Alike.eq_replace h)
  · exact congrArg tuple (Expr.AllAlike.eq_replace h)

end Selection

/-- The sort keys with other values at the places of the constants that are bound. -/
def SortKey.replaceAll : List SortKey → (Nat → Place → Value) → List SortKey
  | [], _ => []
  | k :: ks, f => { k with expr := k.expr.replace (f 0) } :: replaceAll ks fun i => f (i + 1)

theorem SortKey.eq_replaceAll {ks ks' : List SortKey} (h : Expr.AllAlike (ks.map expr) (ks'.map expr))
    (hdir : ks.map direction = ks'.map direction) :
    ks' = replaceAll ks fun i p => .boundOr (Expr.constantAtAll (ks'.map expr) i p) := by
  induction ks generalizing ks' with
  | nil =>
    cases ks' with
    | nil => rfl
    | cons k' ks' => exact h.elim
  | cons k ks ih =>
    cases ks' with
    | nil => exact h.elim
    | cons k' ks' =>
      obtain ⟨hk, hdir⟩ := List.cons.inj hdir
      have hexpr := h.1.eq_replace
      rw [replaceAll]
      refine congr (congrArg List.cons ?_) (ih h.2 hdir)
      cases k'
      exact congr (congrArg SortKey.mk hexpr) hk.symm

namespace Clauses

/-- The clauses are the same but for constants that are bound. -/
structure Alike (c c' : Clauses) : Prop where
  selection : c.select.selection.Alike c'.select.selection
  distinct : c.select.distinct = c'.select.distinct
  filter : c.filter.Alike c'.filter
  groupBy : Expr.AllAlike c.groupBy c'.groupBy
  having : c.having.Alike c'.having
  sortKeys : Expr.AllAlike (c.orderBy.map SortKey.expr) (c'.orderBy.map SortKey.expr)
  directions : c.orderBy.map SortKey.direction = c'.orderBy.map SortKey.direction
  fetch : c.fetch = c'.fetch
  offset : c.offset = c'.offset
  limit : c.limit = c'.limit
  lock : c.lock = c'.lock

def constantAt (c : Clauses) : Place → Option Value
  | .selected i :: p => Expr.constantAtAll c.select.selection.exprs i p
  | .filter :: p => c.filter.constantAt p
  | .group i :: p => Expr.constantAtAll c.groupBy i p
  | .having :: p => c.having.constantAt p
  | .sortKey i :: p => Expr.constantAtAll (c.orderBy.map SortKey.expr) i p
  | _ => none

/-- The clauses with other values at the places of the constants that are bound. -/
def replace (c : Clauses) (f : Place → Value) : Clauses :=
  { c with
    select := { c.select with selection := c.select.selection.replace fun i p => f (.selected i :: p) }
    filter := c.filter.replace fun p => f (.filter :: p)
    groupBy := Expr.replaceAll c.groupBy fun i p => f (.group i :: p)
    having := c.having.replace fun p => f (.having :: p)
    orderBy := SortKey.replaceAll c.orderBy fun i p => f (.sortKey i :: p) }

theorem Alike.refl (c : Clauses) : c.Alike c where
  selection := .refl _
  distinct := rfl
  filter := .refl _
  groupBy := .refl _
  having := .refl _
  sortKeys := .refl _
  directions := rfl
  fetch := rfl
  offset := rfl
  limit := rfl
  lock := rfl

theorem Alike.eq_replace {c c' : Clauses} (h : c.Alike c') :
    c' = c.replace fun p => .boundOr (c'.constantAt p) := by
  obtain ⟨⟨selection, distinct⟩, filter, groupBy, having, orderBy, fetch, offset, limit, lock⟩ := c'
  obtain ⟨hselection, rfl, hfilter, hgroups, hhaving, hkeys, hdirections, rfl, rfl, rfl, rfl⟩ := h
  simp only [replace, mk.injEq, Select.mk.injEq, and_true]
  exact ⟨hselection.eq_replace, hfilter.eq_replace, hgroups.eq_replace, hhaving.eq_replace,
    SortKey.eq_replaceAll hkeys hdirections⟩

theorem Alike.constantAt {c c' : Clauses} (h : c.Alike c') {p : Place} {v : Value} (hv : c.constantAt p = some v)
    (hbound : v.isBound = true) : ∃ w, c'.constantAt p = some w ∧ w.isBound = true := by
  cases p with
  | nil => cases hv
  | cons b p =>
    cases b with
    | selected i => exact h.selection.exprs.constantAt hv hbound
    | filter => exact h.filter.constantAt hv hbound
    | group i => exact h.groupBy.constantAt hv hbound
    | having => exact h.having.constantAt hv hbound
    | sortKey i => exact h.sortKeys.constantAt hv hbound
    | operand | argument i | source => cases hv

end Clauses

/-! ## Queries -/

namespace Query

/-- The queries are the same but for constants that are bound. -/
def Alike : Query → Query → Prop
  | table name c, table name' c' => name = name' ∧ c.Alike c'
  | nested q c, nested q' c' => Alike q q' ∧ c.Alike c'
  | _, _ => False

def constantAt : Query → Place → Option Value
  | table _ c, p => c.constantAt p
  | nested q _, .source :: p => constantAt q p
  | nested _ c, p => c.constantAt p

/-- The query with other values at the places of the constants that are bound. -/
def replace : Query → (Place → Value) → Query
  | table name c, f => table name (c.replace f)
  | nested q c, f => nested (replace q fun p => f (.source :: p)) (c.replace f)

theorem Alike.refl (q : Query) : q.Alike q := by
  induction q with
  | table name c => exact ⟨rfl, .refl c⟩
  | nested q c ih => exact ⟨ih, .refl c⟩

/-- Places in the clauses of a nested query are those of its clauses. -/
theorem replace_nested (q q' : Query) (c c' : Clauses) :
    (nested q c).replace (fun p => .boundOr ((nested q' c').constantAt p)) =
      nested (q.replace fun p => .boundOr (q'.constantAt p)) (c.replace fun p => .boundOr (c'.constantAt p)) := rfl

/-- The second of two alike queries is the first with the constants of the second. -/
theorem Alike.eq_replace {q q' : Query} (h : q.Alike q') :
    q' = q.replace fun p => .boundOr (q'.constantAt p) := by
  induction q generalizing q' with
  | table name c =>
    cases q' with
    | table name' c' =>
      obtain ⟨rfl, hc⟩ := h
      exact congrArg (table name) hc.eq_replace
    | nested q' c' => exact h.elim
  | nested q c ih =>
    cases q' with
    | table name' c' => exact h.elim
    | nested q' c' =>
      rw [replace_nested]
      exact congr (congrArg nested (ih h.1)) h.2.eq_replace

/-- Where one of two alike queries has a constant that is bound, the other has one too. -/
theorem Alike.constantAt {q q' : Query} (h : q.Alike q') {p : Place} {v : Value} (hv : q.constantAt p = some v)
    (hbound : v.isBound = true) : ∃ w, q'.constantAt p = some w ∧ w.isBound = true := by
  induction q generalizing q' p with
  | table name c =>
    cases q' with
    | table name' c' => exact h.2.constantAt hv hbound
    | nested q' c' => exact h.elim
  | nested q c ih =>
    cases q' with
    | table name' c' => exact h.elim
    | nested q' c' =>
      match p with
      | .source :: p => exact ih h.1 hv
      | [] => cases hv
      | .selected i :: p | .filter :: p | .group i :: p | .having :: p | .sortKey i :: p | .operand :: p
      | .argument i :: p => exact h.2.constantAt hv hbound

end Query

end TableQuery
