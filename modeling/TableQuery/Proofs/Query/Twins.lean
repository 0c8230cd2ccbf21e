import TableQuery.Proofs.Expr.Twins
import TableQuery.Proofs.Query.Clauses
import TableQuery.Sql.Query

/- Queries in which an expression is replaced by a twin. Each clause comes to the same, or fails alike
   (`keep_agree` to `runClauses_agree` in memory, `selectPieces_agree` to `tailPieces_agree` in SQL), and so does
   the query as a whole, by induction on its nesting (`evaluate_agree`, `queryPieces_agree`). What is fetched along
   does not matter for either, as long as there is equally much of it.

   The main result is `Expr.equal_expressions_agree`. Without its condition on paths it fails for `a.b` as one name
   and as two (`Expr.dotted_name_differs`). -/
namespace TableQuery

namespace Expr

mutual

/-- The second expression is the first with `x` replaced by `y`, at none, some or all of its places. -/
def Replaced (x y : Expr) : Expr → Expr → Prop
  | const v, e' => (const v = x ∧ e' = y) ∨ e' = const v
  | path p, e' => (path p = x ∧ e' = y) ∨ e' = path p
  | app op a as, e' =>
    (app op a as = x ∧ e' = y) ∨ ∃ b bs, e' = app op b bs ∧ Replaced x y a b ∧ AllReplaced x y as bs

def AllReplaced (x y : Expr) : List Expr → List Expr → Prop
  | [], es' => es' = []
  | a :: as, es' => ∃ b bs, es' = b :: bs ∧ Replaced x y a b ∧ AllReplaced x y as bs

end

mutual

/-- An expression with a twin in it is a twin. -/
theorem Replaced.twins {x y : Expr} (h : x.Twins y) : ∀ {e e' : Expr}, Replaced x y e e' → e.Twins e'
  | const v, e', hr => by
    rcases hr with ⟨rfl, rfl⟩ | rfl
    · exact h
    · exact .refl _
  | path p, e', hr => by
    rcases hr with ⟨rfl, rfl⟩ | rfl
    · exact h
    · exact .refl _
  | app op a as, e', hr => by
    rcases hr with ⟨rfl, rfl⟩ | ⟨b, bs, rfl, hb, hbs⟩
    · exact h
    · exact ⟨rfl, hb.twins h, AllReplaced.twins h hbs⟩

theorem AllReplaced.twins {x y : Expr} (h : x.Twins y) : ∀ {es es' : List Expr}, AllReplaced x y es es' →
    AllTwins es es'
  | [], es', hr => by
    rw [show es' = [] from hr]
    trivial
  | a :: as, es', hr => by
    obtain ⟨b, bs, rfl, hb, hbs⟩ := hr
    exact ⟨hb.twins h, AllReplaced.twins h hbs⟩

end

end Expr

/-! ## Queries whose expressions are related -/

variable {R S : Expr → Expr → Prop}

def Selection.Pointwise (R : Expr → Expr → Prop) : Selection → Selection → Prop
  | entity, entity => True
  | scalar e, scalar e' => R e e'
  | tuple es, tuple es' => List.Forall₂ R es es'
  | _, _ => False

def SortKey.Pointwise (R : Expr → Expr → Prop) (k k' : SortKey) : Prop :=
  R k.expr k'.expr ∧ k.direction = k'.direction

/-- The clauses are the same but for expressions, which are related, and for equal paths to fetch. -/
structure Clauses.Pointwise (R : Expr → Expr → Prop) (c c' : Clauses) : Prop where
  selection : c.select.selection.Pointwise R c'.select.selection
  distinct : c.select.distinct = c'.select.distinct
  filter : R c.filter c'.filter
  groupBy : List.Forall₂ R c.groupBy c'.groupBy
  having : R c.having c'.having
  orderBy : List.Forall₂ (SortKey.Pointwise R) c.orderBy c'.orderBy
  fetch : List.Forall₂ (fun p q => (p == q) = true) c.fetch c'.fetch
  offset : c.offset = c'.offset
  limit : c.limit = c'.limit
  lock : c.lock = c'.lock

def Query.Pointwise (R : Expr → Expr → Prop) : Query → Query → Prop
  | table name c, table name' c' => name = name' ∧ c.Pointwise R c'
  | nested q c, nested q' c' => Pointwise R q q' ∧ c.Pointwise R c'
  | _, _ => False

theorem Selection.Pointwise.mono (hRS : ∀ e e', R e e' → S e e') {s s' : Selection} (h : s.Pointwise R s') :
    s.Pointwise S s' := by
  cases s <;> cases s' <;> try exact h.elim
  case entity.entity => trivial
  case scalar.scalar => exact hRS _ _ h
  case tuple.tuple => exact List.Forall₂.imp hRS h

theorem Clauses.Pointwise.mono (hRS : ∀ e e', R e e' → S e e') {c c' : Clauses} (h : c.Pointwise R c') :
    c.Pointwise S c' :=
  { h with
    selection := h.selection.mono hRS
    filter := hRS _ _ h.filter
    groupBy := h.groupBy.imp hRS
    having := hRS _ _ h.having
    orderBy := h.orderBy.imp fun _ _ hk => ⟨hRS _ _ hk.1, hk.2⟩ }

theorem Query.Pointwise.mono (hRS : ∀ e e', R e e' → S e e') {q q' : Query} (h : q.Pointwise R q') :
    q.Pointwise S q' := by
  induction q generalizing q' with
  | table name c =>
    cases q' with
    | table name' c' => exact ⟨h.1, h.2.mono hRS⟩
    | nested q' c' => exact h.elim
  | nested q c ih =>
    cases q' with
    | table name' c' => exact h.elim
    | nested q' c' => exact ⟨ih h.1, h.2.mono hRS⟩

theorem Selection.Pointwise.refl (hR : ∀ e, R e e) (s : Selection) : s.Pointwise R s := by
  cases s with
  | entity => trivial
  | scalar e => exact hR e
  | tuple es => exact List.forall₂_same.mpr fun e _ => hR e

theorem Clauses.Pointwise.refl (hR : ∀ e, R e e) (c : Clauses) : c.Pointwise R c where
  selection := .refl hR _
  distinct := rfl
  filter := hR _
  groupBy := List.forall₂_same.mpr fun e _ => hR e
  having := hR _
  orderBy := List.forall₂_same.mpr fun k _ => ⟨hR k.expr, rfl⟩
  fetch := List.forall₂_same.mpr fun _ _ => FieldPath.beq_iff.mpr rfl
  offset := rfl
  limit := rfl
  lock := rfl

theorem Query.Pointwise.refl (hR : ∀ e, R e e) (q : Query) : q.Pointwise R q := by
  induction q with
  | table name c => exact ⟨rfl, .refl hR c⟩
  | nested q c ih => exact ⟨ih, .refl hR c⟩

/-- Steps on the clauses that leave them related leave the query related. -/
theorem Query.Pointwise.update (hR : ∀ e, R e e) {f g : Clauses → Clauses} (hfg : ∀ c, (f c).Pointwise R (g c))
    (q : Query) : (q.update f).Pointwise R (q.update g) := by
  cases q with
  | table name c => exact ⟨rfl, hfg c⟩
  | nested q c => exact ⟨.refl hR q, hfg c⟩

theorem Selection.Pointwise.exprs {s s' : Selection} (h : s.Pointwise R s') : List.Forall₂ R s.exprs s'.exprs := by
  cases s <;> cases s' <;> try exact h.elim
  case entity.entity => exact .nil
  case scalar.scalar => exact .cons h .nil
  case tuple.tuple => exact h

theorem forall₂_isEmpty {α : Type} {T : α → α → Prop} {as bs : List α} (h : List.Forall₂ T as bs) :
    as.isEmpty = bs.isEmpty := by
  cases h <;> rfl

/-! ## In memory -/

namespace Memory

open TableQuery.Expr

theorem satisfies_agree {x y : Expr} (h : x.Twins y) (scope : Scope) :
    Agree (satisfies x scope) (satisfies y scope) :=
  (eval_agree h scope).map fun _ _ => rfl

theorem keep_agree {x y : Expr} (h : x.Twins y) (rows : List Row) : Agree (keep x rows) (keep y rows) := by
  induction rows with
  | nil => exact .refl _
  | cons r rows ih =>
    rw [keep, keep]
    exact (satisfies_agree h (.row r)).bind fun here _ _ => ih.bind fun rest _ _ => .refl _

/-- What has a value is no path of several names, so that the last name is the dotted form. -/
theorem columnName_eq {x y : Expr} (h : x.Twins y) {scope : Scope} {v : Value} (hv : eval x scope = .ok v) :
    columnName x = columnName y := by
  cases x with
  | const w =>
    cases y <;> try exact h.elim
    rw [show w = _ from h]
  | path p =>
    cases y <;> try exact h.elim
    next q =>
    rcases h.2.same_or_several h.1 with rfl | ⟨hp, _⟩
    · rfl
    · rw [eval, lookup_several hp] at hv
      cases hv
  | app op a args =>
    have htext := h.text
    cases y <;> try exact h.elim
    exact htext

theorem projectAll_agree {es es' : List Expr} (h : List.Forall₂ Twins es es') (scope : Scope) :
    Agree (projectAll es scope) (projectAll es' scope) := by
  refine Agree.foldlM (fun row e e' he => ?_) h Row.empty
  exact (eval_agree he scope).map fun v hv => by rw [columnName_eq he hv]

theorem project_agree {s s' : Selection} (h : s.Pointwise Twins s') (scope : Scope) :
    Agree (project s scope) (project s' scope) := by
  cases s <;> cases s' <;> try exact h.elim
  case entity.entity => exact .refl _
  case scalar.scalar => cases scope <;> exact projectAll_agree (.cons h .nil) _
  case tuple.tuple => cases scope <;> exact projectAll_agree h _

theorem sortRows_agree {keys keys' : List SortKey} (h : List.Forall₂ (SortKey.Pointwise Twins) keys keys')
    (rows : List Row) : Agree (sortRows keys rows) (sortRows keys' rows) := by
  have hexprs : AllTwins (keys.map SortKey.expr) (keys'.map SortKey.expr) :=
    allTwins_iff_forall₂.mpr (List.forall₂_map_left_iff.mpr
      (List.forall₂_map_right_iff.mpr (h.imp fun _ _ hk => hk.1)))
  have hdirections : keys.map SortKey.direction = keys'.map SortKey.direction :=
    List.forall₂_eq_eq_eq ▸ List.forall₂_map_left_iff.mpr
      (List.forall₂_map_right_iff.mpr (h.imp fun _ _ hk => hk.2))
  rw [sortRows, sortRows, forall₂_isEmpty h]
  split
  case isTrue => exact .refl _
  case isFalse =>
    have hkeyed : Agree (withKeys keys rows) (withKeys keys' rows) :=
      Agree.mapM_same (fun r => (evalAll_agree hexprs (.row r)).map fun _ _ => rfl) rows
    exact hkeyed.map fun keyed _ => by rw [hdirections]

theorem isAggregated_eq {c c' : Clauses} (h : c.Pointwise Twins c') : isAggregated c = isAggregated c' := by
  rw [isAggregated, isAggregated, h.having.hasAggregate,
    AllTwins.anyAggregate (allTwins_iff_forall₂.mpr h.selection.exprs)]

theorem selectRows_agree {c c' : Clauses} (h : c.Pointwise Twins c') (kept : List Row) :
    Agree (selectRows c kept) (selectRows c' kept) := by
  rw [selectRows, selectRows, isAggregated_eq h, h.having.isTrue]
  split
  case isTrue =>
    refine (satisfies_agree h.having _).bind fun holds _ _ => ?_
    split
    case isTrue => exact (project_agree h.selection _).bind fun r _ _ => .refl _
    case isFalse => exact .refl _
  case isFalse =>
    split
    case isTrue =>
      refine (sortRows_agree h.orderBy kept).bind fun sorted _ _ => ?_
      exact Agree.mapM_same (fun r => project_agree h.selection (.row r)) sorted
    case isFalse => exact .refl _

theorem runClauses_agree {c c' : Clauses} (h : c.Pointwise Twins c') (source : List Row) :
    Agree (runClauses c source) (runClauses c' source) := by
  rw [runClauses, runClauses, h.distinct, h.offset, h.limit]
  exact (keep_agree h.filter source).bind fun kept _ _ =>
    (selectRows_agree h kept).bind fun selected _ _ => .refl _

theorem checkGroups_eq {c c' : Clauses} (h : c.Pointwise Twins c') : checkGroups c = checkGroups c' := by
  rw [checkGroups, checkGroups, forall₂_isEmpty h.groupBy]

theorem evaluate_agree (tables : Tables) {q q' : Query} (h : q.Pointwise Twins q') :
    Agree (evaluate tables q) (evaluate tables q') := by
  induction q generalizing q' with
  | table name c =>
    cases q' with
    | table name' c' =>
      obtain ⟨rfl, hc⟩ := h
      rw [evaluate, evaluate, checkGroups_eq hc]
      exact (Agree.refl _).bind fun _ _ _ => runClauses_agree hc _
    | nested q' c' => exact h.elim
  | nested q c ih =>
    cases q' with
    | table name' c' => exact h.elim
    | nested q' c' =>
      rw [evaluate, evaluate, checkGroups_eq h.2]
      exact (Agree.refl _).bind fun _ _ _ => (ih h.1).bind fun source _ _ => runClauses_agree h.2 source

end Memory

/-! ## In SQL -/

namespace Sql

open TableQuery.Expr

variable (d : Dialect)

theorem listPieces_agree {es es' : List Expr} (h : List.Forall₂ Twins es es') :
    Agree (listPieces d es) (listPieces d es') :=
  (Agree.mapM (fun _ _ he => pieces_agree d he) h).map fun _ _ => rfl

theorem selectPieces_agree {s s' : Select} (h : s.selection.Pointwise Twins s'.selection)
    (hdistinct : s.distinct = s'.distinct) : Agree (selectPieces d s) (selectPieces d s') := by
  obtain ⟨selection, distinct⟩ := s
  obtain ⟨selection', _⟩ := s'
  obtain rfl : distinct = _ := hdistinct
  cases selection <;> cases selection' <;> try exact h.elim
  case entity.entity => exact .refl _
  case scalar.scalar => exact (pieces_agree d h).bind fun ps _ _ => .refl _
  case tuple.tuple => exact (listPieces_agree d h).bind fun ps _ _ => .refl _

theorem conditionPieces_agree {x y : Expr} (h : x.Twins y) (keyword : String) :
    Agree (conditionPieces d keyword x) (conditionPieces d keyword y) := by
  rw [conditionPieces, conditionPieces, h.isTrue]
  split
  case isTrue => exact .refl _
  case isFalse => exact (pieces_agree d h).map fun _ _ => rfl

theorem groupPieces_agree {es es' : List Expr} (h : List.Forall₂ Twins es es') :
    Agree (groupPieces d es) (groupPieces d es') := by
  rw [groupPieces, groupPieces, forall₂_isEmpty h]
  split
  case isTrue => exact .refl _
  case isFalse => exact (listPieces_agree d h).map fun _ _ => rfl

theorem orderPieces_agree {keys keys' : List SortKey} (h : List.Forall₂ (SortKey.Pointwise Twins) keys keys') :
    Agree (orderPieces d keys) (orderPieces d keys') := by
  have hkey : ∀ k k' : SortKey, k.Pointwise Twins k' → Agree (keyPieces d k) (keyPieces d k') := by
    intro k k' hk
    rw [keyPieces, keyPieces, hk.2]
    exact (pieces_agree d hk.1).map fun _ _ => rfl
  rw [orderPieces, orderPieces, forall₂_isEmpty h]
  split
  case isTrue => exact .refl _
  case isFalse => exact (Agree.mapM hkey h).map fun _ _ => rfl

theorem tailPieces_agree {c c' : Clauses} (h : c.Pointwise Twins c') :
    Agree (tailPieces d c) (tailPieces d c') := by
  rw [tailPieces, tailPieces, h.offset, h.limit, h.lock]
  exact (conditionPieces_agree d h.filter _).bind fun filter _ _ =>
    (groupPieces_agree d h.groupBy).bind fun groups _ _ =>
      (conditionPieces_agree d h.having _).bind fun having _ _ =>
        (orderPieces_agree d h.orderBy).bind fun order _ _ => .refl _

theorem headPieces_agree {c c' : Clauses} (h : c.Pointwise Twins c') :
    Agree (headPieces d c) (headPieces d c') := by
  rw [headPieces, headPieces, forall₂_isEmpty h.fetch, h.fetch.length_eq]
  split
  case isTrue => exact selectPieces_agree d h.selection h.distinct
  case isFalse => exact .refl _

theorem queryPieces_agree (depth : Nat) {q q' : Query} (h : q.Pointwise Twins q') :
    Agree (queryPieces d depth q) (queryPieces d depth q') := by
  induction q generalizing q' depth with
  | table name c =>
    cases q' with
    | table name' c' =>
      obtain ⟨rfl, hc⟩ := h
      rw [queryPieces, queryPieces]
      exact (headPieces_agree d hc).bind fun head _ _ => (tailPieces_agree d hc).bind fun tail _ _ => .refl _
    | nested q' c' => exact h.elim
  | nested q c ih =>
    cases q' with
    | table name' c' => exact h.elim
    | nested q' c' =>
      rw [queryPieces, queryPieces]
      exact (headPieces_agree d h.2).bind fun head _ _ => (ih (depth + 1) h.1).bind fun source _ _ =>
        (tailPieces_agree d h.2).bind fun tail _ _ => .refl _

theorem render_agree {q q' : Query} (h : q.Pointwise Twins q') : Agree (render d q) (render d q') :=
  (queryPieces_agree d 0 h).map fun _ _ => rfl

end Sql

/-! ## Fetches -/

namespace Query

theorem contains_eq {p p' : FieldPath} (heq : p.identity = p'.identity) (fetch : List FieldPath) :
    fetch.contains p = fetch.contains p' := by
  have htest : ∀ r : FieldPath, (p == r) = (p' == r) := by
    intro r
    show (p.identity == r.identity) = (p'.identity == r.identity)
    rw [heq]
  induction fetch with
  | nil => rfl
  | cons r fetch ih => rw [List.contains_cons, List.contains_cons, htest, ih]

/-- A path is there once it has been added. -/
theorem contains_added (p : FieldPath) (fetch : List FieldPath) :
    (if fetch.contains p then fetch else fetch ++ [p]).contains p = true := by
  split
  case isTrue h => exact h
  case isFalse =>
    rw [List.contains_append, List.contains_cons, FieldPath.beq_iff.mpr rfl, Bool.true_or, Bool.or_true]

/-- A path equal to one that is there is not added. -/
theorem addFetch_again (q : Query) {p p' : FieldPath} (heq : p.identity = p'.identity) :
    (q.addFetch p).addFetch p' = q.addFetch p := by
  rw [addFetch, addFetch, update_update]
  congr 1
  funext c
  rw [Function.comp_apply, ← contains_eq heq, contains_added, if_pos rfl]

theorem addFetch_pointwise (q : Query) {p p' : FieldPath} (heq : p.identity = p'.identity) :
    (q.addFetch p).Pointwise Expr.Twins (q.addFetch p') := by
  refine .update Expr.Twins.refl (fun c => ?_) q
  have hsame : List.Forall₂ (fun p q => (p == q) = true) c.fetch c.fetch :=
    List.forall₂_same.mpr fun _ _ => FieldPath.beq_iff.mpr rfl
  refine { Clauses.Pointwise.refl Expr.Twins.refl c with fetch := ?_ }
  rw [contains_eq heq]
  split
  case isTrue => exact hsame
  case isFalse => exact List.rel_append hsame (.cons (FieldPath.beq_iff.mpr heq) .nil)

end Query

namespace Expr

/-- Equal expressions without doubles behave alike, if paths at the same place are both single names or both have
several, as they are where no name has a dot. They have the same value over every scope and the same SQL, or fail
in the same way, and so do queries in which one is replaced by the other. Of equal paths to fetch, a query keeps the
first, which makes no difference. -/
theorem equal_expressions_agree :
    (∀ x y : Expr, (x == y) = true → x.every dotlessPath → y.every dotlessPath → x.Aligned y) ∧
    (∀ x y : Expr, (x == y) = true → x.every noDouble → x.Aligned y →
      (∀ scope, Agree (Memory.eval x scope) (Memory.eval y scope)) ∧
      (∀ d, Agree (Sql.renderExpr d x) (Sql.renderExpr d y)) ∧
      ∀ q q' : Query, q.Pointwise (Replaced x y) q' →
        (∀ tables, Agree (Memory.evaluate tables q) (Memory.evaluate tables q')) ∧
        ∀ d, Agree (Sql.render d q) (Sql.render d q')) ∧
    ∀ (q : Query) (p p' : FieldPath), (p == p') = true →
      (q.addFetch p).addFetch p' = q.addFetch p ∧
      (∀ tables, Agree (Memory.evaluate tables (q.addFetch p)) (Memory.evaluate tables (q.addFetch p'))) ∧
      ∀ d, Agree (Sql.render d (q.addFetch p)) (Sql.render d (q.addFetch p')) := by
  refine ⟨fun x y heq hx hy => aligned_of_dotless heq hx hy, fun x y heq hdouble haligned => ?_,
    fun q p p' heq => ?_⟩
  · have htwins := twins_of_beq heq hdouble haligned
    refine ⟨Memory.eval_agree htwins, fun d => Sql.renderExpr_agree d htwins, fun q q' hq => ?_⟩
    have hqueries : q.Pointwise Twins q' := hq.mono fun _ _ he => he.twins htwins
    exact ⟨fun tables => Memory.evaluate_agree tables hqueries, fun d => Sql.render_agree d hqueries⟩
  · have hidentity := FieldPath.beq_iff.mp heq
    have hqueries := q.addFetch_pointwise hidentity
    exact ⟨q.addFetch_again hidentity, fun tables => Memory.evaluate_agree tables hqueries,
      fun d => Sql.render_agree d hqueries⟩

/-- The field at the end of the path is 1. -/
def isOne (p : FieldPath) : Expr :=
  app .eq (path p) [const (.long 1)]

theorem equal_expressions_agree_nested :
    let x := isOne ⟨"a.b", ["c"]⟩
    let y := isOne ⟨"a", ["b.c"]⟩
    let q := Query.ofTable "t"
    (x == y) = true ∧ (∀ scope, Agree (Memory.eval x scope) (Memory.eval y scope)) ∧
      (∀ d, Agree (Sql.renderExpr d x) (Sql.renderExpr d y)) ∧
      (∀ tables, Agree (Memory.evaluate tables (q.withFilter x)) (Memory.evaluate tables (q.withFilter y))) ∧
      (isOne (.single "a")).Aligned (isOne (.single "a")) ∧
      (q.addFetch (.single "a")).addFetch (.single "a") = q.addFetch (.single "a") := by
  have heq : (isOne ⟨"a.b", ["c"]⟩ == isOne ⟨"a", ["b.c"]⟩) = true := rfl
  have haligned : (isOne ⟨"a.b", ["c"]⟩).Aligned (isOne ⟨"a", ["b.c"]⟩) :=
    ⟨⟨nofun, nofun⟩, trivial, trivial⟩
  obtain ⟨hvalues, hsql, hqueries⟩ := equal_expressions_agree.2.1 _ _ heq rfl haligned
  have hfilter : Query.Pointwise (Replaced (isOne ⟨"a.b", ["c"]⟩) (isOne ⟨"a", ["b.c"]⟩))
      ((Query.ofTable "t").withFilter (isOne ⟨"a.b", ["c"]⟩))
      ((Query.ofTable "t").withFilter (isOne ⟨"a", ["b.c"]⟩)) :=
    ⟨rfl, trivial, rfl, .inl ⟨rfl, rfl⟩, .nil, .inr rfl, .nil, .nil, rfl, rfl, rfl⟩
  exact ⟨heq, hvalues, hsql, (hqueries _ _ hfilter).1, equal_expressions_agree.1 _ _ rfl rfl rfl,
    (equal_expressions_agree.2.2 _ _ _ rfl).1⟩

/-- One name `a.b` is the name of a column, and the path from `a` to `b` is not, though the two are equal. -/
theorem dotted_name_differs :
    let x := path ⟨"a.b", []⟩
    let y := path ⟨"a", ["b"]⟩
    (x == y) = true ∧ x.every noDouble ∧
      ¬Agree (Memory.eval x (.row ⟨["a.b"], [.long 1]⟩)) (Memory.eval y (.row ⟨["a.b"], [.long 1]⟩)) ∧
      ∀ d, ¬Agree (Sql.renderExpr d x) (Sql.renderExpr d y) :=
  ⟨rfl, rfl, fun h => h, fun _ h => h⟩

end Expr

end TableQuery
