import TableQuery.Proofs.Grammar.Parentheses

/- How the databases group what is written for them. An expression in SQL is read as it was meant if the
   operands of its concatenations bind tighter than the sign of concatenation (`rendered_grouping`). Otherwise it
   is read as another one, as these operands have no parentheses (`concatenation_regrouped`). -/
namespace TableQuery.Sql

open Grammar

/-- The expression can be rendered, as far as it is not in its operand and its arguments: paths have one name, and
operators have the arguments that they take. -/
def direct : Expr → Bool
  | .const _ => true
  | .path p => p.rest.isEmpty
  | .app op _ args => op.takes args.length

/-- The operands of a concatenation bind tighter than its sign, of which there is at least one. -/
def bindsOperands (g : Grammar) : Expr → Bool
  | .app .concat x args => !args.isEmpty && (x :: args).all g.tight
  | _ => true

variable {g : Grammar}

theorem accepts_of_direct (hg : g ≠ .text) (e : Expr) (h : direct e && bindsOperands g e) : g.accepts e := by
  rw [Bool.and_eq_true] at h
  cases e with
  | const v => cases g <;> first | exact absurd rfl hg | (cases v <;> rfl)
  | path p => cases g <;> first | exact absurd rfl hg | exact h.1
  | app op x args =>
    have hminus : (g != .text) = true := bne_iff_ne.mpr hg
    rw [accepts, hminus, Bool.or_true, Bool.true_or, Bool.and_true, Bool.and_eq_true]
    refine ⟨h.1, ?_⟩
    by_cases hop : op = .concat
    · subst hop
      rw [Bool.or_eq_true]
      exact .inr h.2
    · rw [bne_iff_ne.mpr hop]
      rfl

theorem emptyList?_eq (hg : g ≠ .text) (op : Operator) (args : List Expr) :
    Sql.emptyList? op args = (g.emptyList? op args).map fun b => if b then "1 = 1" else "1 = 0" := by
  cases args with
  | nil =>
    cases g <;> first | exact absurd rfl hg | (cases op <;> rfl)
  | cons y ys =>
    have hnone : g.emptyList? op (y :: ys) = none := if_neg fun h => nomatch h.2
    rw [hnone]
    exact if_neg nofun

theorem wrapped_eq (hg : g ≠ .text) (op : Operator) (asArgument : Bool) (e : Expr) (p : Phrase) :
    wrapped op asArgument e (p.pieces g) = (g.child op asArgument e p).pieces g := by
  have hparens : g.needsParens op asArgument e = Sql.needsParens op asArgument e := by
    cases g <;> first | exact absurd rfl hg | rfl
  rw [wrapped, child, hparens]
  split <;> rfl

/-- Operations are arranged as the grammar has them; a concatenation gets parentheses of its own. -/
theorem arrange_eq (hg : g ≠ .text) (op : Operator) (operand : List (Piece Value)) (args : List (List (Piece Value))) :
    arrange g.dialect op operand args =
      if op = .concat then .raw "(" :: g.write op operand args ++ [.raw ")"] else g.write op operand args := by
  have hdialect : g.dialect ≠ .mysql := by cases g <;> decide
  by_cases hop : op = .concat
  · subst hop
    rw [arrange, if_pos ⟨rfl, hdialect⟩, if_pos rfl]
    cases g <;> first | exact absurd rfl hg | rfl
  · have hlayout : g.layout op = op.layout := if_neg fun h => hop h.1
    have hsign : g.sign op = op.sign := if_neg fun h => hop h.1
    rw [arrange, if_neg fun h => hop h.1, if_neg hop]
    cases hcase : op.layout <;> rw [write, hlayout, hcase, hsign]

theorem value_eq (hg : g ≠ .text) (v : Value) : value v = g.leafPiece (.const (g.widen v)) := by
  have hleaf : ∀ v, g.leafPiece (.const v) = value v := fun v => if_neg hg
  rw [hleaf]
  cases v with
  | int n =>
    have hwiden : g.widen (.int n) = .long n.toInt64 := if_neg hg
    rw [hwiden, value, value, Value.literal, Value.literal, Int32.toInt_toInt64]
  | _ => rfl

theorem pieces_path (hg : g ≠ .text) (p : FieldPath) (h : direct (.path p)) :
    pieces g.dialect (.path p) = .ok ((g.phrase (.path p)).pieces g) := by
  have hlength : ¬ 1 < p.length := by
    rw [FieldPath.length, List.isEmpty_iff.mp h]
    decide
  have hleaf : g.leafPiece (.path p) = .name p.leaf := if_neg hg
  rw [pieces, if_neg hlength, phrase, Phrase.pieces, hleaf]

theorem argPieces_phrases (hg : g ≠ .text) (op : Operator) {args : List Expr}
    (h : ∀ y ∈ args, pieces g.dialect y = .ok ((g.phrase y).pieces g)) :
    argPieces g.dialect op args = .ok ((g.argPhrases op args).map (Phrase.pieces g)) := by
  induction args with
  | nil => rfl
  | cons y ys ih =>
    obtain ⟨hy, hys⟩ := List.forall_mem_cons.mp h
    rw [argPieces, hy, ih hys, argPhrases, List.map_cons, ← wrapped_eq hg]
    rfl

/-- Arguments that are not written are not there. -/
theorem no_arguments {op : Operator} {args : List Expr} (htakes : op.takes args.length)
    (hlayout : op.layout.writesArguments = false) : args = [] := by
  rw [Operator.takes] at htakes
  cases hop : op.layout with
  | before | after =>
    rw [hop] at htakes
    exact List.length_eq_zero_iff.mp (beq_iff_eq.mp htakes)
  | infixed | call | list | range =>
    rw [hop] at hlayout
    cases hlayout

/-- An expression is rendered as its phrase is written. -/
theorem pieces_phrase (hg : g ≠ .text) (e : Expr) (h : e.every direct) :
    pieces g.dialect e = .ok ((g.phrase e).pieces g) := by
  induction e using Expr.inductionOn with
  | const v =>
    rw [pieces, value_eq hg]
    rfl
  | path p => exact pieces_path hg p h
  | app op x args ih ihs =>
    obtain ⟨htakes, hx, hargs⟩ := Expr.every_app.mp h
    rw [pieces, phrase, emptyList?_eq hg]
    cases g.emptyList? op args with
    | some b => rfl
    | none =>
      have harranged : arrange g.dialect op (wrapped op false x ((g.phrase x).pieces g))
          ((g.argPhrases op args).map (Phrase.pieces g)) =
            (g.enclose op (.gather op (g.child op false x (g.phrase x)) (g.argPhrases op args))).pieces g := by
        rw [wrapped_eq hg, arrange_eq hg, enclose, ← gather_pieces]
        by_cases hop : op = .concat
        · rw [if_pos hop, if_pos ⟨hop, hg⟩]
          rfl
        · rw [if_neg hop, if_neg fun h => hop h.1]
      simp only [Option.map_none]
      rw [ih hx, argPieces_phrases hg op fun y hy => ihs y hy (hargs y hy), ← harranged]
      cases hlayout : op.layout.writesArguments with
      | true => rfl
      | false =>
        rw [no_arguments htakes hlayout]
        rfl

/-- An expression is read from its SQL as it was meant: each operator with its operands, but for an AND directly in
an AND and an OR directly in an OR, if the operands of its concatenations bind tighter than the sign. -/
theorem rendered_grouping {g : Grammar} (hg : g ≠ .text) {e : Expr} (he : e.every direct)
    (hconcat : e.every (bindsOperands g)) :
    ∃ s, renderExpr g.dialect e = .ok s ∧ g.parse s.params s.sql = some (g.spelled e).merge := by
  have hfits := phrase_fits e (Expr.every_mono (accepts_of_direct hg) (Expr.every_and he hconcat))
  refine ⟨.ofPieces g.dialect ((g.phrase e).pieces g), ?_, ?_⟩
  · rw [renderExpr, pieces_phrase hg e he]
    rfl
  · rw [← phrase_expr]
    exact hfits.parse_text

/-- `a AND NOT b IN () AND -(-5) * 2 = (c || 'x')`, with an AND in the argument of an AND. -/
def membership : Expr :=
  let field (name : String) : Expr := .path (.single name)
  .app .and (field "a")
    [.app .and (.app .not (.app .isIn (field "b") []) [])
      [.app .eq (.app .mul (.app .neg (.const (.int (-5))) []) [.const (.long 2)])
        [.app .concat (field "c") [.const (.text "x")]]]]

theorem rendered_grouping_membership :
    Grammar.postgres ≠ .text ∧ membership.every direct ∧ membership.every (bindsOperands .postgres) ∧
      ∃ s, renderExpr .postgres membership = .ok s ∧
        s.sql = "\"a\" AND NOT 1 = 0 AND -(-5) * 2 = (\"c\" || $1)" ∧ s.params = [.text "x"] ∧
        Grammar.postgres.parse s.params s.sql = some (Grammar.postgres.spelled membership).merge := by
  obtain ⟨s, hs, hparse⟩ := rendered_grouping (g := .postgres) nofun (e := membership) rfl rfl
  have hsql := Except.ok.inj hs
  exact ⟨nofun, rfl, rfl, s, hs, hsql ▸ rfl, hsql ▸ rfl, hparse⟩

/-- `CONCAT(a OR b, c)` -/
def eitherWithSuffix : Expr :=
  let field (name : String) : Expr := .path (.single name)
  .app .concat (.app .or (field "a") [field "b"]) [field "c"]

/-- `a OR CONCAT(b, c)` -/
def eitherSuffixed : Expr :=
  let field (name : String) : Expr := .path (.single name)
  .app .or (field "a") [.app .concat (field "b") [field "c"]]

/-- The operands of a concatenation have no parentheses of their own, so that what binds looser is taken apart: the
databases read `a OR (b || c)` for `(a OR b) || c`. -/
theorem concatenation_regrouped :
    eitherWithSuffix.every direct ∧ eitherSuffixed ≠ eitherWithSuffix ∧ ∀ g : Grammar, g ≠ .text →
      ∃ s, renderExpr g.dialect eitherWithSuffix = .ok s ∧ s.sql = "(\"a\" OR \"b\" || \"c\")" ∧
        g.parse s.params s.sql = some eitherSuffixed ∧ (g.spelled eitherWithSuffix).merge = eitherWithSuffix := by
  refine ⟨rfl, nofun, fun g hg => ?_⟩
  cases g with
  | text => exact absurd rfl hg
  | sqlite | postgres => exact ⟨_, rfl, rfl, rfl, rfl⟩

end TableQuery.Sql
