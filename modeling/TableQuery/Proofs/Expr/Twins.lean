import Mathlib.Data.List.Forall2
import TableQuery.Memory.Query
import TableQuery.Proofs.Grammar.Expression
import TableQuery.Proofs.Value.Equality
import TableQuery.Sql.Expr

/- Expressions that are equal, and what tells them apart all the same. Equality compares paths by their dotted
   forms, so that `a.b` may be one name or two; columns have one name, and a path of several has no value and no
   text in SQL. Twins are equal expressions that agree in this at each of their places (`Aligned`).

     1. `twins_of_beq`: equal expressions without doubles are twins where they are aligned, and
        `aligned_of_dotless`: they are where no name has a dot.
     2. `eval_agree`, `pieces_agree`: twins have the same value, or fail alike, over every scope, and the same
        pieces in every dialect.

   Doubles are left out because the two zeros are equal, and have different texts. -/
namespace TableQuery

variable {α β : Type}

/-! ## Results that agree -/

/-- The same result, or failures of one kind with one message. -/
def Agree (x y : Except Failure α) : Prop :=
  match x, y with
  | .ok a, .ok b => a = b
  | .error e, .error f => e.kind = f.kind ∧ e.message = f.message
  | _, _ => False

namespace Agree

theorem refl (x : Except Failure α) : Agree x x := by
  cases x with
  | error e => exact ⟨rfl, rfl⟩
  | ok a => exact rfl

theorem error {e f : Failure} (hkind : e.kind = f.kind) (hdetail : e.detail = f.detail) :
    Agree (.error e : Except Failure α) (.error f) := by
  refine ⟨hkind, ?_⟩
  rw [Failure.message, Failure.message, hkind, hdetail]

/-- Steps that agree, and that go on from the same result in ways that agree. -/
theorem bind {x y : Except Failure α} {f g : α → Except Failure β} (h : Agree x y)
    (hfg : ∀ a, x = .ok a → y = .ok a → Agree (f a) (g a)) : Agree (x >>= f) (y >>= g) := by
  cases x with
  | error e =>
    cases y with
    | error e' => exact h
    | ok b => exact h.elim
  | ok a =>
    cases y with
    | error e' => exact h.elim
    | ok b =>
      obtain rfl : a = b := h
      exact hfg a rfl rfl

theorem map {x y : Except Failure α} {f g : α → β} (h : Agree x y) (hfg : ∀ a, x = .ok a → f a = g a) :
    Agree (x.map f) (y.map g) := by
  cases x with
  | error e =>
    cases y with
    | error e' => exact h
    | ok b => exact h.elim
  | ok a =>
    cases y with
    | error e' => exact h.elim
    | ok b =>
      obtain rfl : a = b := h
      exact hfg a rfl

theorem mapM {γ : Type} {R : α → β → Prop} {f : α → Except Failure γ} {g : β → Except Failure γ}
    (hfg : ∀ a b, R a b → Agree (f a) (g b)) {as : List α} {bs : List β} (h : List.Forall₂ R as bs) :
    Agree (as.mapM f) (bs.mapM g) := by
  induction h with
  | nil => exact refl _
  | cons hab _ ih =>
    rw [List.mapM_cons, List.mapM_cons]
    exact (hfg _ _ hab).bind fun c _ _ => ih.bind fun cs _ _ => refl _

theorem foldlM {γ : Type} {R : α → β → Prop} {f : γ → α → Except Failure γ} {g : γ → β → Except Failure γ}
    (hfg : ∀ c a b, R a b → Agree (f c a) (g c b)) {as : List α} {bs : List β} (h : List.Forall₂ R as bs) (c : γ) :
    Agree (as.foldlM f c) (bs.foldlM g c) := by
  induction h generalizing c with
  | nil => exact refl _
  | cons hab _ ih =>
    rw [List.foldlM_cons, List.foldlM_cons]
    exact (hfg c _ _ hab).bind fun c' _ _ => ih c'

/-- The same items taken in two ways that agree on each. -/
theorem mapM_same {f g : α → Except Failure β} (hfg : ∀ a, Agree (f a) (g a)) (as : List α) :
    Agree (as.mapM f) (as.mapM g) :=
  mapM (R := Eq) (fun a _ hab => hab ▸ hfg a) (List.forall₂_refl as)

end Agree

/-! ## Equal paths -/

namespace FieldPath

/-- Both paths are single names, or both have several. -/
def Aligned (p q : FieldPath) : Prop :=
  p.length = 1 ↔ q.length = 1

theorem beq_iff {p q : FieldPath} : (p == q) = true ↔ p.identity = q.identity := by
  show (p.identity == q.identity) = true ↔ _
  rw [beq_iff_eq]

theorem length_eq_one_iff {p : FieldPath} : p.length = 1 ↔ p.rest = [] := by
  rw [length, Nat.add_eq_right, List.length_eq_zero_iff]

theorem identity_single {p : FieldPath} (h : p.length = 1) : p.identity = p.first := by
  rw [identity, names, length_eq_one_iff.mp h, String.intercalate_singleton]

theorem one_lt_length {p : FieldPath} (h : p.length ≠ 1) : 1 < p.length := by
  rw [length] at h ⊢
  omega

/-- Equal paths that are aligned are the same single name, or both have several names. -/
theorem Aligned.same_or_several {p q : FieldPath} (h : p.Aligned q) (heq : p.identity = q.identity) :
    p = q ∨ (p.length ≠ 1 ∧ q.length ≠ 1) := by
  by_cases hp : p.length = 1
  case pos =>
    have hq : q.length = 1 := h.mp hp
    have hfirst : p.first = q.first := by rw [← identity_single hp, heq, identity_single hq]
    have hrest : p.rest = q.rest := by rw [length_eq_one_iff.mp hp, length_eq_one_iff.mp hq]
    cases p
    exact .inl (congr (congrArg mk hfirst) hrest)
  case neg => exact .inr ⟨hp, fun hq => hp (h.mpr hq)⟩

/-- No name has a dot. -/
def dotless (p : FieldPath) : Bool :=
  p.names.all fun name => !name.toList.contains '.'

theorem dots_of_dotless {name : String} (h : (!name.toList.contains '.') = true) : name.toList.count '.' = 0 := by
  rw [List.count_eq_zero]
  intro hmem
  rw [List.contains_iff_mem.mpr hmem] at h
  cases h

/-- Where no name has a dot, the dotted form has those between the names. -/
theorem dots_identity {p : FieldPath} (h : p.dotless) : p.identity.toList.count '.' + 1 = p.length := by
  obtain ⟨first, rest⟩ := p
  show (".".intercalate (first :: rest)).toList.count '.' + 1 = rest.length + 1
  have hnames : ∀ name ∈ first :: rest, (!name.toList.contains '.') = true := List.all_eq_true.mp h
  clear h
  induction rest generalizing first with
  | nil =>
    rw [String.intercalate_singleton, dots_of_dotless (hnames first List.mem_cons_self), List.length_nil]
  | cons second rest ih =>
    have hfirst := dots_of_dotless (hnames first List.mem_cons_self)
    have hrest := ih second fun name hname => hnames name (List.mem_cons_of_mem first hname)
    have hdot : ".".toList.count '.' = 1 := rfl
    rw [String.intercalate_cons_cons, String.toList_append, String.toList_append, List.count_append,
      List.count_append, hfirst, hdot, List.length_cons]
    omega

theorem aligned_of_dotless {p q : FieldPath} (heq : p.identity = q.identity) (hp : p.dotless) (hq : q.dotless) :
    p.Aligned q := by
  have hlength : p.length = q.length := by rw [← dots_identity hp, heq, dots_identity hq]
  rw [Aligned, hlength]

end FieldPath

/-! ## Equal expressions -/

namespace Expr

mutual

/-- Paths at the same place are both single names, or both have several. -/
def Aligned : Expr → Expr → Prop
  | path p, path q => p.Aligned q
  | app _ x xs, app _ y ys => Aligned x y ∧ AllAligned xs ys
  | _, _ => True

def AllAligned : List Expr → List Expr → Prop
  | x :: xs, y :: ys => Aligned x y ∧ AllAligned xs ys
  | _, _ => True

end

mutual

/-- The expressions are the same but for the names in paths, which are equal and aligned. -/
def Twins : Expr → Expr → Prop
  | const v, const w => v = w
  | path p, path q => p.identity = q.identity ∧ p.Aligned q
  | app op x xs, app op' y ys => op = op' ∧ Twins x y ∧ AllTwins xs ys
  | _, _ => False

def AllTwins : List Expr → List Expr → Prop
  | [], [] => True
  | x :: xs, y :: ys => Twins x y ∧ AllTwins xs ys
  | _, _ => False

end

/-- It is no constant that is a double. -/
def noDouble : Expr → Bool
  | const (.double _) => false
  | _ => true

def dotlessPath : Expr → Bool
  | path p => p.dotless
  | _ => true

mutual

theorem twins_of_beq : ∀ {x y : Expr}, beq x y = true → x.every noDouble → x.Aligned y → x.Twins y
  | const v, const w, heq, hdouble, _ => by
    rcases Value.beq_iff.mp heq with ⟨rfl, _⟩ | ⟨a, _, rfl, _⟩
    · exact rfl
    · cases hdouble
  | path p, path q, heq, _, haligned => ⟨FieldPath.beq_iff.mp heq, haligned⟩
  | app op x xs, app op' y ys, heq, hdouble, haligned => by
    rw [beq, Bool.and_eq_true, Bool.and_eq_true, beq_iff_eq] at heq
    rw [every, Bool.and_eq_true, Bool.and_eq_true] at hdouble
    exact ⟨heq.1.1, twins_of_beq heq.1.2 hdouble.1.2 haligned.1, allTwins_of_beqList heq.2 hdouble.2 haligned.2⟩

theorem allTwins_of_beqList : ∀ {xs ys : List Expr}, beqList xs ys = true → everyArg noDouble xs →
    AllAligned xs ys → AllTwins xs ys
  | [], [], _, _, _ => trivial
  | x :: xs, y :: ys, heq, hdouble, haligned => by
    rw [beqList, Bool.and_eq_true] at heq
    rw [everyArg, Bool.and_eq_true] at hdouble
    exact ⟨twins_of_beq heq.1 hdouble.1 haligned.1, allTwins_of_beqList heq.2 hdouble.2 haligned.2⟩

end

mutual

theorem aligned_of_dotless : ∀ {x y : Expr}, beq x y = true → x.every dotlessPath → y.every dotlessPath → x.Aligned y
  | const v, const w, _, _, _ => trivial
  | path p, path q, heq, hx, hy => FieldPath.aligned_of_dotless (FieldPath.beq_iff.mp heq) hx hy
  | app op x xs, app op' y ys, heq, hx, hy => by
    rw [beq, Bool.and_eq_true, Bool.and_eq_true] at heq
    rw [every, Bool.and_eq_true, Bool.and_eq_true] at hx hy
    exact ⟨aligned_of_dotless heq.1.2 hx.1.2 hy.1.2, allAligned_of_dotless heq.2 hx.2 hy.2⟩

theorem allAligned_of_dotless : ∀ {xs ys : List Expr}, beqList xs ys = true → everyArg dotlessPath xs →
    everyArg dotlessPath ys → AllAligned xs ys
  | [], [], _, _, _ => trivial
  | x :: xs, y :: ys, heq, hx, hy => by
    rw [beqList, Bool.and_eq_true] at heq
    rw [everyArg, Bool.and_eq_true] at hx hy
    exact ⟨aligned_of_dotless heq.1 hx.1 hy.1, allAligned_of_dotless heq.2 hx.2 hy.2⟩

end

mutual

theorem Twins.refl : ∀ x : Expr, x.Twins x
  | const _ => rfl
  | path _ => ⟨rfl, .rfl⟩
  | app _ x args => ⟨rfl, Twins.refl x, AllTwins.refl args⟩

theorem AllTwins.refl : ∀ xs : List Expr, AllTwins xs xs
  | [] => trivial
  | x :: xs => ⟨Twins.refl x, AllTwins.refl xs⟩

end

theorem allTwins_iff_forall₂ {xs ys : List Expr} : AllTwins xs ys ↔ List.Forall₂ Twins xs ys := by
  induction xs generalizing ys with
  | nil => cases ys <;> simp [AllTwins]
  | cons x xs ih => cases ys <;> simp [AllTwins, ih]

theorem AllTwins.isEmpty : ∀ {xs ys : List Expr}, AllTwins xs ys → xs.isEmpty = ys.isEmpty
  | [], [], _ => rfl
  | _ :: _, _ :: _, _ => rfl

/-! ## What twins have in common -/

theorem Twins.wrapped {x y : Expr} (h : x.Twins y) (op : Operator) (asArgument : Bool) (s : String) :
    Expr.wrapped op asArgument x s = Expr.wrapped op asArgument y s := by
  cases x <;> cases y <;> try exact h.elim
  case const.const | path.path => rfl
  case app.app =>
    obtain ⟨rfl, _, _⟩ := h
    rfl

mutual

theorem Twins.text : ∀ {x y : Expr}, x.Twins y → x.text = y.text
  | const v, const w, h => by rw [show v = w from h]
  | path p, path q, h => by rw [Expr.text, Expr.text, h.1]
  | app op x xs, app op' y ys, h => by
    obtain ⟨rfl, hx, hxs⟩ := h
    rw [Expr.text, Expr.text, hx.text, hx.wrapped, AllTwins.argTexts op hxs]

theorem AllTwins.argTexts (op : Operator) : ∀ {xs ys : List Expr}, AllTwins xs ys → argTexts op xs = argTexts op ys
  | [], [], _ => rfl
  | x :: xs, y :: ys, h => by rw [Expr.argTexts, Expr.argTexts, h.1.text, h.1.wrapped, AllTwins.argTexts op h.2]

end

mutual

theorem Twins.hasAggregate : ∀ {x y : Expr}, x.Twins y → x.hasAggregate = y.hasAggregate
  | const _, const _, _ => rfl
  | path _, path _, _ => rfl
  | app op x xs, app op' y ys, h => by
    obtain ⟨rfl, hx, hxs⟩ := h
    rw [Expr.hasAggregate, Expr.hasAggregate, hx.hasAggregate, AllTwins.anyAggregate hxs]

theorem AllTwins.anyAggregate : ∀ {xs ys : List Expr}, AllTwins xs ys → anyAggregate xs = anyAggregate ys
  | [], [], _ => rfl
  | x :: xs, y :: ys, h => by
    rw [Expr.anyAggregate, Expr.anyAggregate, h.1.hasAggregate, AllTwins.anyAggregate h.2]

end

theorem Twins.isTrue {x y : Expr} (h : x.Twins y) : x.isTrue = y.isTrue := by
  cases x <;> cases y <;> try exact h.elim
  case const.const v w => rw [show v = w from h]
  case path.path | app.app => rfl

end Expr

/-! ## Their values -/

namespace Memory

open TableQuery.Expr

/-- Paths of several names have no value, whatever they are. -/
theorem lookup_several {p : FieldPath} (h : p.length ≠ 1) (scope : Scope) :
    lookup p scope = .error (.pathInMemory p) := by
  simp only [lookup, FieldPath.one_lt_length h, if_true]

theorem lookup_agree {p q : FieldPath} (heq : p.identity = q.identity) (h : p.Aligned q) (scope : Scope) :
    Agree (lookup p scope) (lookup q scope) := by
  rcases h.same_or_several heq with rfl | ⟨hp, hq⟩
  · exact .refl _
  · rw [lookup_several hp, lookup_several hq]
    exact Agree.error rfl (congrArg (fun s => "nested path `" ++ s ++ "` in memory") heq)

mutual

theorem eval_agree : ∀ {x y : Expr}, x.Twins y → ∀ scope, Agree (eval x scope) (eval y scope)
  | const v, const w, h, scope => by
    rw [show v = w from h]
    exact .refl _
  | path p, path q, h, scope => by
    simp only [eval]
    exact lookup_agree h.1 h.2 scope
  | app op x xs, app op' y ys, h, scope => by
    obtain ⟨rfl, hx, hxs⟩ := h
    simp only [eval]
    split
    case isTrue =>
      cases scope with
      | row r => exact .refl _
      | group rows => exact (Agree.mapM_same (fun r => eval_agree hx (.row r)) rows).bind fun vs _ _ => .refl _
    case isFalse =>
      exact (eval_agree hx scope).bind fun v _ _ => (evalAll_agree hxs scope).bind fun vs _ _ => .refl _

theorem evalAll_agree : ∀ {xs ys : List Expr}, AllTwins xs ys → ∀ scope, Agree (evalAll xs scope) (evalAll ys scope)
  | [], [], _, scope => .refl _
  | x :: xs, y :: ys, h, scope => by
    simp only [evalAll]
    exact (eval_agree h.1 scope).bind fun v _ _ => (evalAll_agree h.2 scope).bind fun vs _ _ => .refl _

end

end Memory

/-! ## Their SQL -/

namespace Sql

open TableQuery.Expr

theorem pieces_several {p : FieldPath} (h : p.length ≠ 1) (d : Dialect) :
    pieces d (.path p) = .error (.pathNeedsJoin p) := by
  rw [pieces, if_pos (FieldPath.one_lt_length h)]

theorem path_agree {p q : FieldPath} (heq : p.identity = q.identity) (h : p.Aligned q) (d : Dialect) :
    Agree (pieces d (.path p)) (pieces d (.path q)) := by
  rcases h.same_or_several heq with rfl | ⟨hp, hq⟩
  · exact .refl _
  · rw [pieces_several hp, pieces_several hq]
    exact Agree.error rfl (congrArg (fun s => "nested path `" ++ s ++ "` needs a join") heq)

theorem wrapped_twins {x y : Expr} (h : x.Twins y) (op : Operator) (asArgument : Bool) (ps : List (Piece Value)) :
    wrapped op asArgument x ps = wrapped op asArgument y ps := by
  cases x <;> cases y <;> try exact h.elim
  case const.const | path.path => rfl
  case app.app =>
    obtain ⟨rfl, _, _⟩ := h
    rfl

mutual

theorem pieces_agree (d : Dialect) : ∀ {x y : Expr}, x.Twins y → Agree (pieces d x) (pieces d y)
  | const v, const w, h => by
    rw [show v = w from h]
    exact .refl _
  | path p, path q, h => path_agree h.1 h.2 d
  | app op x xs, app op' y ys, h => by
    obtain ⟨rfl, hx, hxs⟩ := h
    have hempty : emptyList? op xs = emptyList? op ys := by unfold emptyList?; rw [hxs.isEmpty]
    rw [pieces, pieces, hempty]
    cases emptyList? op ys with
    | some s => exact .refl _
    | none =>
      refine (pieces_agree d hx).bind fun operand _ _ => ?_
      rw [wrapped_twins hx]
      split
      case isTrue => exact (argPieces_agree d op hxs).bind fun args _ _ => .refl _
      case isFalse => exact .refl _

theorem argPieces_agree (d : Dialect) (op : Operator) : ∀ {xs ys : List Expr}, AllTwins xs ys →
    Agree (argPieces d op xs) (argPieces d op ys)
  | [], [], _ => .refl _
  | x :: xs, y :: ys, h => by
    rw [argPieces, argPieces]
    refine (pieces_agree d h.1).bind fun ps _ _ => ?_
    rw [wrapped_twins h.1]
    exact (argPieces_agree d op h.2).bind fun rest _ _ => .refl _

end

theorem renderExpr_agree (d : Dialect) {x y : Expr} (h : x.Twins y) : Agree (renderExpr d x) (renderExpr d y) :=
  (pieces_agree d h).map fun _ _ => rfl

end Sql

end TableQuery
