import Mathlib.Data.List.Basic
import Mathlib.Tactic.SplitIfs
import TableQuery.Proofs.Grammar.Expression

/- Parentheses where they are needed. An expression whose operators have the arguments that they take is written
   as a phrase of the grammar (`phrase_fits`), as a child without parentheses binds at least as tightly as the
   operator above it, and more tightly where operators of one rank do not go together (`child_rank`).

   The parentheses follow precedence, and a phrase has a rank. They agree (`rank_eq_tier`) but for concatenation
   in SQL: it is written with the sign of an operator, and its operands get the parentheses of the members of a
   call, which are none. So an operand of it must bind tighter by itself (`tight`). -/
namespace TableQuery

def Expr.isConst : Expr → Bool
  | const _ => true
  | _ => false

namespace Grammar

/-- The expression can be an operand of a concatenation in SQL without parentheses of its own. -/
def tight (g : Grammar) : Expr → Bool
  | .app .concat _ _ => true
  | .app op _ _ => g.rank op < g.rank .concat
  | _ => true

/-- The expression can be written in the grammar, as far as it is not in its operand and its arguments. -/
def accepts (g : Grammar) : Expr → Bool
  | .const v => g.legible (.const (g.widen v))
  | .path p => g.legible (.path p)
  | .app op x args =>
    op.takes args.length && (op != .neg || g != .text || !x.isConst) &&
      (op != .concat || g == .text || (!args.isEmpty && (x :: args).all g.tight))

/-- The rank of an operator of that precedence. -/
def tier (precedence : Nat) : Nat :=
  if precedence = 2 then 1 else if 6 ≤ precedence ∧ precedence ≤ 8 then 8 else precedence

variable {g : Grammar} {op inner : Operator} {asArgument : Bool}

theorem rank_eq_tier (h : ¬ (op = .concat ∧ g ≠ .text)) : g.rank op = tier op.precedence := by
  cases g <;> cases op <;> first | rfl | exact absurd ⟨rfl, by decide⟩ h

/-- The rank of the phrase of an expression. -/
def outerRank : Expr → Nat
  | .app op _ _ => tier op.precedence
  | _ => 0

theorem layout_eq (h : ¬ (op = .concat ∧ g ≠ .text)) : g.layout op = op.layout :=
  if_neg h

theorem membership_of_emptyList {args : List Expr} {b : Bool} (h : g.emptyList? op args = some b) :
    op = .isIn ∨ op = .isNotIn := by
  unfold emptyList? at h
  split at h
  · cases op <;> first | exact .inl rfl | exact .inr rfl | cases h
  · cases h

theorem phrase_rank (e : Expr) : (g.phrase e).rank g = outerRank e := by
  cases e with
  | const | path => rfl
  | app op x args =>
    rw [phrase]
    cases hempty : g.emptyList? op args with
    | some b =>
      rcases membership_of_emptyList hempty with rfl | rfl <;> cases g <;> rfl
    | none =>
      obtain ⟨q, qs, hgather⟩ := gather_eq_op op (g.child op false x (g.phrase x)) (g.argPhrases op args)
      simp only
      rw [hgather, enclose]
      split
      next hconcat =>
        rw [hconcat.1]
        rfl
      next hconcat => exact rank_eq_tier hconcat

/-! ## Children without parentheses -/

/-- A child that is not in parentheses does not bind looser, does not compare under a comparison, and does not
bind equally as the argument of an operator that associates to the left. -/
theorem not_wraps (hcall : op.layout ≠ .call) (hlist : asArgument → op.layout ≠ .list)
    (h : op.wraps inner asArgument = false) :
    inner.precedence ≤ op.precedence ∧ ¬ (op.isComparison ∧ inner.isComparison) ∧
      (asArgument → op.layout = .infixed → op.isMultivalued = false → inner.precedence ≠ op.precedence) := by
  have hwraps : op.wraps inner asArgument =
      (decide (op.precedence < inner.precedence) || (op.isComparison && inner.isComparison) ||
        (asArgument && inner.precedence == op.precedence && op.layout == .infixed && !op.isMultivalued)) := by
    unfold Operator.wraps
    split
    next _ hlayout => exact absurd hlayout hcall
    next _ hlayout => exact absurd hlayout (hlist rfl)
    next => rfl
  rw [hwraps] at h
  simp only [Bool.or_eq_false_iff, decide_eq_false_iff_not, Nat.not_lt] at h
  obtain ⟨⟨hle, hcomparison⟩, hequal⟩ := h
  refine ⟨hle, fun ⟨hop, hinner⟩ => ?_, fun harg hinfixed hmulti heq => ?_⟩
  · rw [hop, hinner] at hcomparison
    cases hcomparison
  · rw [harg, hinfixed, hmulti, heq, beq_self_eq_true] at hequal
    cases hequal

theorem tier_le {p q : Nat} (h : p ≤ q) : tier p ≤ tier q := by
  unfold tier
  split_ifs <;> omega

theorem tier_lt {p q : Nat} (h : p < q) (hq : 3 ≤ q) (hne : ¬ (6 ≤ q ∧ q ≤ 8 ∧ 6 ≤ p ∧ p ≤ 8)) : tier p < tier q := by
  unfold tier
  split_ifs <;> omega

theorem isComparison_iff (op : Operator) : op.isComparison ↔ 6 ≤ op.precedence ∧ op.precedence ≤ 8 := by
  rw [Operator.isComparison, Bool.and_eq_true, decide_eq_true_eq, decide_eq_true_eq]

/-- The rank of a child under an operator whose operands are not delimited. -/
theorem child_rank (e : Expr) (hcall : op.layout ≠ .call) (hlist : asArgument → op.layout ≠ .list) :
    let r := (g.child op asArgument e (g.phrase e)).rank g
    r ≤ tier op.precedence ∧ (op.isComparison → r < 8) ∧
      (asArgument → op.layout = .infixed → op.isMultivalued = false → r < tier op.precedence) := by
  intro r
  have hpositive : 0 < tier op.precedence := by
    cases op <;> first | decide | exact absurd rfl hcall
  -- A leaf binds tighter than any operator, and so does what stands in parentheses.
  have hzero : r = 0 → r ≤ tier op.precedence ∧ (op.isComparison → r < 8) ∧
      (asArgument → op.layout = .infixed → op.isMultivalued = false → r < tier op.precedence) := by
    intro hr
    rw [hr]
    exact ⟨Nat.zero_le _, fun _ => by decide, fun _ _ _ => hpositive⟩
  cases hparens : g.needsParens op asArgument e with
  | true =>
    apply hzero
    simp only [r, child, hparens, if_true]
    rfl
  | false =>
    have hr : r = outerRank e := by
      rw [← phrase_rank (g := g)]
      simp only [r, child, hparens, Bool.false_eq_true, if_false]
    cases e with
    | const | path => exact hzero hr
    | app inner x args =>
      have hwraps : op.wraps inner asArgument = false := by
        cases g with
        | text => exact hparens
        | sqlite | postgres => exact (Bool.or_eq_false_iff.mp hparens).1
      obtain ⟨hle, hcomparison, hequal⟩ := not_wraps hcall hlist hwraps
      rw [hr, outerRank]
      rw [isComparison_iff, isComparison_iff] at hcomparison
      refine ⟨tier_le hle, fun hop => ?_, fun harg hinfixed hmulti => ?_⟩
      · rw [isComparison_iff] at hop
        unfold tier
        split_ifs <;> omega
      · have hbinary : 3 ≤ op.precedence := by
          cases op <;> first | decide | exact absurd rfl hcall | cases hinfixed
        have hne := hequal harg hinfixed hmulti
        exact tier_lt (by omega) hbinary (by omega)

/-! ## Operations -/

theorem infixed_of_merges (h : op.merges) : g.layout op = .infixed ∧ g.closes op = g.rank op ∧ 8 < g.rank op := by
  cases op with
  | and | or => cases g <;> exact ⟨rfl, rfl, by decide⟩
  | _ => cases h

theorem eq_of_rank_eq {o : Operator} (h : op.merges) (ho : g.rank o = g.rank op) : o = op := by
  cases op with
  | and | or => cases g <;> cases o <;> first | rfl | cases ho
  | _ => cases h

/-- The members of a phrase that stands under AND or OR without parentheses bind tighter than it. -/
theorem members_fit (hop : op.merges) {p : Phrase} (hp : g.Fits p) (hrank : p.rank g ≤ g.rank op) :
    ∀ q ∈ p.members op, g.Fits q ∧ q.rank g < g.rank op := by
  obtain ⟨hinfixed, hcloses, hlarge⟩ := infixed_of_merges (g := g) hop
  have halone : p.members op = [p] → p.rank g < g.rank op → ∀ q ∈ p.members op, g.Fits q ∧ q.rank g < g.rank op := by
    intro hmembers hlt q hq
    rw [hmembers] at hq
    rw [List.mem_singleton.mp hq]
    exact ⟨hp, hlt⟩
  cases p with
  | leaf | group => exact halone rfl (Nat.lt_trans (Nat.succ_pos 7) hlarge)
  | fixed b =>
    have hfixed : (Phrase.fixed b).rank g = 8 := by cases g <;> rfl
    exact halone rfl (hfixed ▸ hlarge)
  | op o x xs =>
    by_cases ho : o = op
    · subst ho
      rw [Phrase.members, Phrase.firstMember, Phrase.otherMembers, if_pos rfl, if_pos rfl]
      cases hp with
      | infixed _ hx hxrank hys hyranks _ =>
        rw [hcloses] at hxrank
        exact List.forall_mem_cons.mpr ⟨⟨hx, hxrank⟩, fun q hq => ⟨hys q hq, hyranks q hq⟩⟩
      | before h | after h | call h | list h | range h =>
        rw [hinfixed] at h
        cases h
    · have hne : g.rank o ≠ g.rank op := fun h => ho (eq_of_rank_eq hop h)
      have hmembers : (Phrase.op o x xs).members op = [.op o x xs] := by
        rw [Phrase.members, Phrase.firstMember, Phrase.otherMembers, if_neg ho, if_neg ho]
      exact halone hmembers (Nat.lt_of_le_of_ne hrank hne)

/-- AND and OR fit with the members that they take in. -/
theorem gather_fits (hop : op.merges) {p : Phrase} {ps : List Phrase}
    (h : ∀ q ∈ p :: ps, g.Fits q ∧ q.rank g ≤ g.rank op) (hne : ps ≠ []) : g.Fits (.gather op p ps) := by
  obtain ⟨hinfixed, hcloses, _⟩ := infixed_of_merges (g := g) hop
  have hmembers : ∀ r ∈ (p :: ps).flatMap (Phrase.members op), g.Fits r ∧ r.rank g < g.rank op := by
    intro r hr
    obtain ⟨q, hq, hr⟩ := List.mem_flatMap.mp hr
    exact members_fit hop (h q hq).1 (h q hq).2 r hr
  rw [List.flatMap_cons, Phrase.members, List.cons_append] at hmembers
  obtain ⟨hfirst, hothers⟩ := List.forall_mem_cons.mp hmembers
  rw [Phrase.gather, if_pos hop]
  cases hrest : p.otherMembers op ++ ps.flatMap (Phrase.members op) with
  | nil =>
    obtain ⟨q, qs, rfl⟩ := List.exists_cons_of_ne_nil hne
    rw [List.flatMap_cons, Phrase.members] at hrest
    cases (List.append_eq_nil_iff.mp hrest).2
  | cons q qs =>
    rw [hrest] at hothers
    refine .infixed hinfixed hfirst.1 (hcloses ▸ hfirst.2) (fun r hr => (hothers r hr).1) (fun r hr => (hothers r hr).2)
      fun _ => ?_
    cases op <;> first | rfl | cases hop

section

variable {x : Expr} {args : List Expr}

/-- The operand of an operator whose sign follows it. -/
theorem operand_rank (e : Expr) (hrank : g.rank op = tier op.precedence) (hbefore : op.layout ≠ .before)
    (hcall : op.layout ≠ .call) (hmerges : ¬ op.merges) :
    (g.child op false e (g.phrase e)).rank g < g.closes op := by
  obtain ⟨hle, hcomparison, _⟩ := child_rank (g := g) e hcall fun h => absurd h Bool.false_ne_true
  by_cases hop : op.isComparison
  · have h8 : g.rank op = 8 := by
      rw [hrank, tier, if_neg (by rw [isComparison_iff] at hop; omega), if_pos ((isComparison_iff op).mp hop)]
    exact Nat.lt_of_lt_of_le (hcomparison hop) (h8 ▸ rank_le_closes g op)
  · have hchains : ¬ op.chains := by
      cases op <;> first | exact absurd rfl hmerges | exact absurd rfl hcall | nofun
    rw [closes, if_neg (by rintro (h | ⟨_, h⟩) <;> contradiction), hrank]
    exact Nat.lt_succ_of_le hle

theorem argPhrases_fit (hargs : ∀ y ∈ args, g.Fits (g.child op true y (g.phrase y))) :
    ∀ q ∈ g.argPhrases op args, g.Fits q := by
  rw [argPhrases_eq_map]
  exact List.forall_mem_map.mpr hargs

/-- An operation whose sign stands between its operands fits with children that do. -/
theorem infixed_fits (hconcat : ¬ (op = .concat ∧ g ≠ .text)) (hop : op.layout = .infixed)
    (htakes : op.takes args.length) (hx : g.Fits (g.child op false x (g.phrase x)))
    (hargs : ∀ y ∈ args, g.Fits (g.child op true y (g.phrase y))) :
    g.Fits (.gather op (g.child op false x (g.phrase x)) (g.argPhrases op args)) := by
  have hrank : g.rank op = tier op.precedence := rank_eq_tier hconcat
  have hcall : op.layout ≠ .call := by rw [hop]; decide
  have hlist : op.layout ≠ .list := by rw [hop]; decide
  have hchild : ∀ y (asArgument : Bool), (g.child op asArgument y (g.phrase y)).rank g ≤ g.rank op :=
    fun y _ => hrank ▸ (child_rank y hcall fun _ => hlist).1
  rw [Operator.takes, hop] at htakes
  by_cases hmerges : op.merges
  · refine gather_fits hmerges ?_ ?_
    · rw [argPhrases_eq_map]
      exact List.forall_mem_cons.mpr
        ⟨⟨hx, hchild x false⟩, List.forall_mem_map.mpr fun y hy => ⟨hargs y hy, hchild y true⟩⟩
    · rw [argPhrases_eq_map]
      simp only [hmerges, if_true, decide_eq_true_eq] at htakes
      exact List.ne_nil_of_length_pos (by rw [List.length_map]; exact htakes)
  · simp only [hmerges, Bool.false_eq_true, if_false, beq_iff_eq] at htakes
    obtain ⟨y, rfl⟩ := List.length_eq_one_iff.mp htakes
    have hsingle : op.isMultivalued = false := by
      cases op <;> first | rfl | exact absurd rfl hmerges | cases hop
    rw [Phrase.gather, if_neg hmerges]
    refine .infixed ((layout_eq hconcat).trans hop) hx (operand_rank x hrank (by rw [hop]; decide) hcall hmerges)
      (argPhrases_fit hargs) ?_ (fun h => absurd rfl h)
    intro q hq
    rw [List.mem_singleton.mp hq, hrank]
    exact (child_rank y hcall fun _ => hlist).2.2 rfl hop hsingle

/-- An operation fits with children that do. Concatenation in SQL is another matter. -/
theorem operation_fits (hconcat : ¬ (op = .concat ∧ g ≠ .text)) (htakes : op.takes args.length)
    (hminus : op = .neg → (g.child op false x (g.phrase x)).canFollowMinus g)
    (hx : g.Fits (g.child op false x (g.phrase x))) (hargs : ∀ y ∈ args, g.Fits (g.child op true y (g.phrase y))) :
    g.Fits (.gather op (g.child op false x (g.phrase x)) (g.argPhrases op args)) := by
  by_cases hinfixed : op.layout = .infixed
  · exact infixed_fits hconcat hinfixed htakes hx hargs
  have hlayout : g.layout op = op.layout := layout_eq hconcat
  have hrank : g.rank op = tier op.precedence := rank_eq_tier hconcat
  have hmerges : ¬ op.merges := fun h => hinfixed (hlayout.symm.trans (infixed_of_merges h).1)
  rw [Phrase.gather, if_neg hmerges]
  rw [Operator.takes] at htakes
  cases hop : op.layout with
  | infixed => exact absurd hop hinfixed
  | before =>
    rw [hop] at htakes
    rw [List.length_eq_zero_iff.mp (beq_iff_eq.mp htakes)]
    have hchild : (g.child op false x (g.phrase x)).rank g ≤ tier op.precedence :=
      (child_rank x (by rw [hop]; decide) fun _ => by rw [hop]; decide).1
    exact .before (hlayout.trans hop) hx (hrank ▸ hchild) hminus
  | after =>
    rw [hop] at htakes
    rw [List.length_eq_zero_iff.mp (beq_iff_eq.mp htakes)]
    exact .after (hlayout.trans hop) hx (operand_rank x hrank (by rw [hop]; decide) (by rw [hop]; decide) hmerges)
  | call => exact .call (hlayout.trans hop) (List.forall_mem_cons.mpr ⟨hx, argPhrases_fit hargs⟩)
  | list =>
    exact .list (hlayout.trans hop) hx (operand_rank x hrank (by rw [hop]; decide) (by rw [hop]; decide) hmerges)
      (argPhrases_fit hargs)
  | range =>
    rw [hop] at htakes
    obtain ⟨low, high, rfl⟩ := List.length_eq_two.mp (beq_iff_eq.mp htakes)
    have hbound : ∀ y, (g.child op true y (g.phrase y)).rank g < g.rank op := by
      intro y
      rw [rank_range (hlayout.trans hop)]
      refine (child_rank y (by rw [hop]; decide) fun _ => by rw [hop]; decide).2.1 ?_
      cases op <;> first | rfl | cases hop
    exact .range (hlayout.trans hop) hx (operand_rank x hrank (by rw [hop]; decide) (by rw [hop]; decide) hmerges)
      (hargs low List.mem_cons_self) (hbound low) (hargs high (List.mem_cons_of_mem low List.mem_cons_self)) (hbound high)

/-- What has a minus sign before it and no parentheses begins with neither a digit nor, in SQL, a minus sign. -/
theorem child_canFollowMinus (h : g = .text → ¬ x.isConst) :
    (g.child .neg false x (g.phrase x)).canFollowMinus g := by
  rw [child]
  split
  next => rfl
  next hparens =>
    cases x with
    | path p => rfl
    | const v =>
      cases g with
      | text => exact absurd rfl (h rfl)
      | sqlite | postgres => exact absurd rfl hparens
    | app inner y ys =>
      have hinner : g.layout inner = .call ∨ g = .text ∧ inner = .neg ∨ inner = .concat ∧ g ≠ .text := by
        cases g <;> cases inner <;> first
          | exact .inl rfl | exact .inr (.inl ⟨rfl, rfl⟩) | exact .inr (.inr ⟨rfl, by decide⟩) | exact absurd rfl hparens
      have hempty : g.emptyList? inner ys = none := by
        cases hlist : g.emptyList? inner ys with
        | none => rfl
        | some b => rcases membership_of_emptyList hlist with rfl | rfl <;> cases g <;> exact absurd rfl hparens
      rw [phrase, hempty]
      simp only [enclose]
      split
      next => rfl
      next hconcat =>
        obtain ⟨q, qs, hgather⟩ := gather_eq_op inner (g.child inner false y (g.phrase y)) (g.argPhrases inner ys)
        rw [hgather, Phrase.canFollowMinus, Bool.or_eq_true, Bool.and_eq_true, beq_iff_eq, beq_iff_eq, beq_iff_eq]
        exact hinner.imp_right fun h => h.resolve_right hconcat

/-- A concatenation in SQL fits if its operands bind tighter by themselves. -/
theorem concat_fits (hg : g ≠ .text) (hne : args ≠ []) (htight : ∀ y ∈ x :: args, g.tight y)
    (hfits : ∀ y ∈ x :: args, g.Fits (g.phrase y)) :
    g.Fits (.gather .concat (g.child .concat false x (g.phrase x)) (g.argPhrases .concat args)) := by
  have hinfixed : g.layout .concat = .infixed ∧ g.closes .concat = g.rank .concat ∧ 0 < g.rank .concat := by
    cases g <;> first | exact absurd rfl hg | exact ⟨rfl, rfl, by decide⟩
  have hchild : ∀ y (asArgument : Bool), g.child .concat asArgument y (g.phrase y) = g.phrase y := by
    intro y asArgument
    cases g <;> first | exact absurd rfl hg | (cases y <;> rfl)
  have hrank : ∀ y ∈ x :: args, (g.phrase y).rank g < g.rank .concat := by
    intro y hy
    rw [phrase_rank]
    have hy := htight y hy
    cases y with
    | const | path => exact hinfixed.2.2
    | app op z zs =>
      by_cases hop : op = .concat
      · rw [hop]
        exact hinfixed.2.2
      · rw [outerRank, ← rank_eq_tier (g := g) fun h => hop h.1]
        have hlt : g.tight (.app op z zs) = decide (g.rank op < g.rank .concat) := by
          cases op <;> first | rfl | exact absurd rfl hop
        rw [hlt, decide_eq_true_eq] at hy
        exact hy
  obtain ⟨y, ys, rfl⟩ := List.exists_cons_of_ne_nil hne
  rw [Phrase.gather, if_neg (by decide), argPhrases_eq_map, hchild]
  simp only [hchild, List.map_cons]
  refine .infixed hinfixed.1 (hfits x List.mem_cons_self) (hinfixed.2.1 ▸ hrank x List.mem_cons_self) ?_ ?_ fun _ => rfl
  · rw [← List.map_cons]
    exact List.forall_mem_map.mpr fun z hz => hfits z (List.mem_cons_of_mem x hz)
  · rw [← List.map_cons]
    exact List.forall_mem_map.mpr fun z hz => hrank z (List.mem_cons_of_mem x hz)

end

theorem child_fits {e : Expr} (h : g.Fits (g.phrase e)) : g.Fits (g.child op asArgument e (g.phrase e)) := by
  rw [child]
  split
  · exact .group h
  · exact h

/-- The phrase of an expression that the grammar accepts throughout is one of the grammar. -/
theorem phrase_fits (e : Expr) (h : e.every g.accepts) : g.Fits (g.phrase e) := by
  induction e using Expr.inductionOn with
  | const v => exact .leaf h
  | path p => exact .leaf h
  | app op x args ih ihs =>
    obtain ⟨haccepts, hx, hargs⟩ := Expr.every_app.mp h
    rw [accepts, Bool.and_eq_true, Bool.and_eq_true] at haccepts
    obtain ⟨⟨htakes, hneg⟩, hconcat⟩ := haccepts
    rw [phrase]
    cases g.emptyList? op args with
    | some b => exact .fixed b
    | none =>
      simp only [enclose]
      split
      next hsql =>
        obtain ⟨rfl, hg⟩ := hsql
        have hboth : !args.isEmpty && (x :: args).all g.tight := by
          cases g <;> first | exact absurd rfl hg | exact hconcat
        rw [Bool.and_eq_true, List.all_eq_true] at hboth
        refine .group (concat_fits hg ?_ hboth.2 (List.forall_mem_cons.mpr ⟨ih hx, fun y hy => ihs y hy (hargs y hy)⟩))
        rintro rfl
        cases hboth.1
      next hsql =>
        refine operation_fits hsql htakes ?_ (child_fits (ih hx)) fun y hy => child_fits (ihs y hy (hargs y hy))
        rintro rfl
        apply child_canFollowMinus
        rintro rfl hconst
        rw [hconst] at hneg
        cases hneg

end Grammar

end TableQuery
