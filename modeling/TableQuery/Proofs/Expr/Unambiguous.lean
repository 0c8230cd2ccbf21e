import TableQuery.Expr.Text
import TableQuery.Proofs.Grammar.Parentheses

/- The text of expressions says which expression it is the text of. Read by the grammar of the operators, it
   gives the expression back, up to nested ANDs and ORs (`parse_text`), so that two expressions of one text are
   the same up to these. -/
namespace TableQuery

namespace Grammar

open Sql

variable {d : Dialect} {ps qs : List (Piece Value)} {s t : String}

/-- The pieces are a text as it stands. -/
def Written (d : Dialect) (ps : List (Piece Value)) (s : String) : Prop :=
  bindings ps = [] ∧ ∀ i, textFrom d i ps = s

theorem Written.nil : Written d [] "" :=
  ⟨rfl, fun _ => rfl⟩

theorem Written.cons (s : String) (h : Written d ps t) : Written d (.raw s :: ps) (s ++ t) :=
  ⟨h.1, fun i => by rw [textFrom, h.2]⟩

theorem Written.raw (s : String) : Written d [.raw s] s := by
  have h := Written.cons (d := d) s .nil
  rwa [String.append_empty] at h

theorem Written.append (hps : Written d ps s) (hqs : Written d qs t) : Written d (ps ++ qs) (s ++ t) := by
  refine ⟨?_, fun i => ?_⟩
  · rw [bindings_append, hps.1, hqs.1, List.append_nil]
  · rw [textFrom_append, hps.2, hqs.2]

theorem Written.joined (separator : String) {parts : List (List (Piece Value))} {texts : List String}
    (h : List.Forall₂ (Written d) parts texts) :
    Written d (joined separator parts) (separator.intercalate texts) := by
  induction h with
  | nil => exact .nil
  | cons hp hrest ih =>
    cases hrest with
    | nil => exact hp
    | cons _ _ =>
      rw [String.intercalate_cons_cons, String.append_assoc]
      exact hp.append (ih.cons separator)

theorem Written.arrange (op : Operator) {operand : List (Piece Value)} {args : List (List (Piece Value))}
    {texts : List String} (hoperand : Written d operand s) (hargs : List.Forall₂ (Written d) args texts) :
    Written d (write .text op operand args) (Expr.arrange op s texts) := by
  have hlayout : Grammar.text.layout op = op.layout := if_neg fun h => h.2 rfl
  have hsign : Grammar.text.sign op = op.sign := if_neg fun h => h.2 rfl
  rw [write, Expr.arrange, hlayout, hsign]
  cases op.layout with
  | before => exact hoperand.cons _
  | after =>
    simp only [String.append_assoc]
    exact hoperand.append (.raw _)
  | infixed => exact .joined _ (.cons hoperand hargs)
  | call => exact ((Written.joined _ (.cons hoperand hargs)).cons _).append (.raw _)
  | list =>
    have hall := hoperand.append (((Written.joined ", " hargs).append (.raw ")")).cons (" " ++ op.sign ++ " ("))
    simp only [String.append_assoc, List.append_assoc, List.cons_append] at hall ⊢
    exact hall
  | range =>
    have hall := hoperand.append ((Written.joined " AND " hargs).cons (" " ++ op.sign ++ " "))
    simp only [String.append_assoc] at hall ⊢
    exact hall

/-- The phrase of an expression is written as its text. -/
theorem written_phrase (e : Expr) : Written d ((phrase .text e).pieces .text) e.text := by
  have hchild : ∀ (op : Operator) (asArgument : Bool) (e : Expr), Written d ((phrase .text e).pieces .text) e.text →
      Written d ((child .text op asArgument e (phrase .text e)).pieces .text) (Expr.wrapped op asArgument e e.text) := by
    intro op asArgument e he
    cases e with
    | const | path => exact he
    | app inner x args =>
      rw [child, Expr.wrapped, needsParens]
      split
      next =>
        have hparens := (he.append (.raw ")")).cons "("
        rw [← String.append_assoc] at hparens
        exact hparens
      next => exact he
  induction e using Expr.inductionOn with
  | const v =>
    have hwiden : widen .text v = v := by cases v <;> rfl
    rw [phrase, hwiden]
    exact .raw v.literal
  | path p => exact .raw p.identity
  | app op x args ih ihs =>
    have hnone : emptyList? .text op args = none := if_neg fun h => h.1 rfl
    have henclose : ∀ p, enclose .text op p = p := fun p => if_neg fun h => h.2 rfl
    have hargs : List.Forall₂ (Written d) ((argPhrases .text op args).map (Phrase.pieces .text))
        (Expr.argTexts op args) := by
      induction args with
      | nil => exact .nil
      | cons y ys ihys =>
        exact .cons (hchild op true y (ihs y List.mem_cons_self))
          (ihys (fun z hz => ihs z (List.mem_cons_of_mem y hz)) (if_neg fun h => h.1 rfl))
    rw [phrase, hnone]
    simp only
    rw [henclose, gather_pieces, Expr.text]
    exact .arrange op (hchild op false x ih) hargs

/-- What is written of an expression that the grammar accepts throughout is read as that expression. -/
theorem parse_phrase {e : Expr} (h : e.every (accepts .text)) : Grammar.text.parse [] e.text = some e.merge := by
  have hspelled : spelled .text e = e := by
    clear h
    induction e using Expr.inductionOn with
    | const v => cases v <;> rfl
    | path p => rfl
    | app op x args ih ihs =>
      have hnone : emptyList? .text op args = none := if_neg fun h => h.1 rfl
      rw [spelled, hnone]
      simp only
      rw [ih, spelledArgs_eq_map, List.map_congr_left ihs, List.map_id']
  have hwritten := written_phrase (d := Grammar.text.dialect) e
  have hparse := (phrase_fits e h).parse_text
  rw [hwritten.1, Sql.text, hwritten.2, phrase_expr, hspelled] at hparse
  exact hparse

end Grammar

namespace Expr

/-- The text says all of this expression, as far as it is not in its operand and its arguments: names are words,
constants are null, booleans, integers of 64 bits or texts, operators have the arguments that they take, and no
constant has a minus sign of its own. -/
def plain : Expr → Bool
  | const v =>
    match v with
    | .null | .bool _ | .long _ | .text _ => true
    | _ => false
  | path p => p.names.all Grammar.isName
  | app op x args => op.takes args.length && (op != .neg || !x.isConst)

theorem accepts_of_plain (e : Expr) (h : e.plain) : Grammar.accepts .text e := by
  cases e with
  | const v => cases v <;> first | rfl | cases h
  | path p => exact h
  | app op x args =>
    rw [plain, Bool.and_eq_true] at h
    rw [Grammar.accepts, h.1, Bool.true_and, Bool.and_eq_true]
    have hfalse : (Grammar.text != Grammar.text) = false := rfl
    have htrue : (Grammar.text == Grammar.text) = true := rfl
    rw [hfalse, htrue, Bool.or_false, Bool.or_true, Bool.true_or]
    exact ⟨h.2, rfl⟩

/-- The text of an expression is read as it was meant: each operator with its operands, but for an AND directly in
an AND and an OR directly in an OR. So expressions of one text differ in these only. -/
theorem text_unambiguous :
    (∀ e : Expr, e.every plain → Grammar.text.parse [] e.text = some e.merge) ∧
      ∀ e e' : Expr, e.every plain → e'.every plain → e.text = e'.text → e.merge = e'.merge := by
  have hparse : ∀ e : Expr, e.every plain → Grammar.text.parse [] e.text = some e.merge :=
    fun e he => Grammar.parse_phrase (every_mono accepts_of_plain he)
  refine ⟨hparse, fun e e' he he' htext => ?_⟩
  have h := hparse e he
  rw [htext, hparse e' he'] at h
  exact (Option.some.inj h).symm

/-- `a AND (b OR NOT c = 'it''s') AND -d - (1 - e) BETWEEN -2 AND f`, with an AND in the argument of an AND. -/
def condition : Expr :=
  let field (name : String) : Expr := path (.single name)
  app .and (field "a")
    [app .and (app .or (field "b") [app .not (app .eq (field "c") [const (.text "it's")]) []])
      [app .between (app .sub (app .neg (field "d") []) [app .sub (const (.long 1)) [field "e"]])
        [const (.long (-2)), field "f"]]]

theorem text_unambiguous_condition :
    condition.every plain ∧
      condition.text = "a AND (b OR NOT c = 'it''s') AND -d - (1 - e) BETWEEN -2 AND f" ∧
      Grammar.text.parse [] condition.text = some condition.merge ∧
      condition.merge.every plain ∧ condition.merge ≠ condition ∧ condition.text = condition.merge.text ∧
      condition.merge = condition.merge.merge :=
  have hmerged := text_unambiguous.2 condition condition.merge rfl rfl rfl
  ⟨rfl, rfl, text_unambiguous.1 condition rfl, rfl, nofun, rfl, hmerged⟩

/-- Comparisons do not associate. -/
example : Grammar.text.parse [] "a = b = c" = none := rfl

end Expr

end TableQuery
