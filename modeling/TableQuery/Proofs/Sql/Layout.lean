import TableQuery.Expr.Text
import TableQuery.Proofs.Grammar.Expression
import TableQuery.Proofs.Sql.Safety

/- Expressions in SQL against their text. The text is a template in which the paths and the constants are left open
   (`Expr.template`):

     1. `filter_template`: what is left open are the paths and the constants of the expression, in their order;
     2. `shown_template`: with them as they are, the template is the text;
     3. `pieces_template`: with identifiers for the paths, and placeholders for the constants that are bound, it is
        the SQL of an expression that has none of what SQL writes in another way (`Expr.laidOutAlike`). -/
namespace TableQuery

open Sql

namespace Sql

/-- The piece is a name or a constant, and no text around them. -/
def Piece.isOpen {β : Type} : Piece β → Bool
  | raw _ => false
  | name _ | bound _ => true

/-- The template with its names and constants as they are. -/
def shown : List (Piece Value) → String
  | [] => ""
  | .raw s :: ps => s ++ shown ps
  | .name s :: ps => s ++ shown ps
  | .bound v :: ps => v.literal ++ shown ps

/-- The template with quoted identifiers for its names, and for each constant of a kind that is bound a placeholder,
numbered from left to right after the `index` placeholders before them. -/
def replaced (d : Dialect) (index : Nat) : List (Piece Value) → String
  | [] => ""
  | .raw s :: ps => s ++ replaced d index ps
  | .name s :: ps => d.quote s ++ replaced d index ps
  | .bound v :: ps =>
    if v.isBound then d.placeholder (index + 1) ++ replaced d (index + 1) ps else v.literal ++ replaced d index ps

end Sql

namespace Expr

mutual

/-- The paths and the constants of an expression, in the order in which they are written. Arguments that are given to
an operator that takes none are not written. -/
def leaves : Expr → List (Piece Value)
  | const v => [.bound v]
  | path p => [.name p.identity]
  | app op x args => leaves x ++ if op.takesArguments then leavesAll args else []

def leavesAll : List Expr → List (Piece Value)
  | [] => []
  | x :: xs => leaves x ++ leavesAll xs

end

/-- Parentheses around the pieces of the child, if its text has them under `op`. -/
def enclosed (op : Operator) (asArgument : Bool) (child : Expr) (ps : List (Piece Value)) : List (Piece Value) :=
  match child with
  | app inner _ _ => if op.wraps inner asArgument then .raw "(" :: ps ++ [.raw ")"] else ps
  | _ => ps

mutual

/-- The text of an expression as a template. Its layout is that of the one dialect in which concatenation is a
call. -/
def template : Expr → List (Piece Value)
  | const v => [.bound v]
  | path p => [.name p.identity]
  | app op x args => Sql.arrange .mysql op (enclosed op false x (template x)) (argTemplates op args)

def argTemplates (op : Operator) : List Expr → List (List (Piece Value))
  | [] => []
  | x :: xs => enclosed op true x (template x) :: argTemplates op xs

end

/-- SQL lays the expression out as its text, as far as it is not in its operand and its arguments: paths have one
name, lists have members, concatenation is a call, and nothing that may begin with a minus sign follows one. -/
def laidOutAlike (d : Dialect) : Expr → Bool
  | const _ => true
  | path p => p.rest.isEmpty
  | app .isIn _ args | app .isNotIn _ args => !args.isEmpty
  | app .neg (const _) _ | app .neg (app .neg _ _) _ => false
  | app .concat _ _ => d == .mysql
  | app _ _ _ => true

end Expr

namespace Sql

variable {ps qs : List (Piece Value)}

/-! ## What is left open -/

theorem filter_raw (s : String) (ps : List (Piece Value)) :
    (Piece.raw s :: ps).filter Piece.isOpen = ps.filter Piece.isOpen :=
  List.filter_cons_of_neg Bool.false_ne_true

theorem filter_joined (separator : String) (parts : List (List (Piece Value))) :
    (joined separator parts).filter Piece.isOpen = parts.flatMap fun ps => ps.filter Piece.isOpen := by
  induction parts with
  | nil => rfl
  | cons ps rest ih =>
    cases rest with
    | nil => rw [joined, List.flatMap_singleton]
    | cons qs rest =>
      simp only [joined, List.filter_append, filter_raw, ih, List.flatMap_cons]

theorem filter_enclosed (op : Operator) (asArgument : Bool) (child : Expr) (ps : List (Piece Value)) :
    (Expr.enclosed op asArgument child ps).filter Piece.isOpen = ps.filter Piece.isOpen := by
  unfold Expr.enclosed
  split
  · split
    · simp only [List.cons_append, filter_raw, List.filter_append, List.filter_nil, List.append_nil]
    · rfl
  · rfl

/-- Signs and parentheses are around what is left open in the operand and in the arguments that are written. -/
theorem filter_arrange (op : Operator) (operand : List (Piece Value)) (args : List (List (Piece Value))) :
    (arrange .mysql op operand args).filter Piece.isOpen = operand.filter Piece.isOpen ++
      if op.takesArguments then args.flatMap fun ps => ps.filter Piece.isOpen else [] := by
  have hall : ∀ separator, (joined separator (operand :: args)).filter Piece.isOpen =
      operand.filter Piece.isOpen ++ args.flatMap fun ps => ps.filter Piece.isOpen := fun separator => by
    rw [filter_joined, List.flatMap_cons]
  rw [arrange, if_neg fun h => h.2 rfl, ← writesArguments_eq]
  cases op.layout <;>
    simp only [Layout.writesArguments, if_true, Bool.false_eq_true, if_false, List.append_nil, List.cons_append,
      List.append_assoc, List.filter_append, List.filter_nil, filter_raw, hall, filter_joined]

theorem filter_template (e : Expr) : e.template.filter Piece.isOpen = e.leaves := by
  induction e using Expr.inductionOn with
  | const v => rfl
  | path p => rfl
  | app op x args ih ihs =>
    have hargs : ((Expr.argTemplates op args).flatMap fun ps => ps.filter Piece.isOpen) = Expr.leavesAll args := by
      induction args with
      | nil => rfl
      | cons y ys ihys =>
        rw [Expr.argTemplates, List.flatMap_cons, filter_enclosed, ihs y List.mem_cons_self,
          ihys fun z hz => ihs z (List.mem_cons_of_mem y hz), Expr.leavesAll]
    rw [Expr.template, filter_arrange, filter_enclosed, ih, hargs, Expr.leaves]

/-! ## The text of an expression -/

theorem shown_append (ps qs : List (Piece Value)) : shown (ps ++ qs) = shown ps ++ shown qs := by
  induction ps with
  | nil => rw [List.nil_append, shown, String.empty_append]
  | cons p ps ih => cases p <;> simp only [List.cons_append, shown, ih, String.append_assoc]

theorem shown_joined (separator : String) (parts : List (List (Piece Value))) :
    shown (joined separator parts) = separator.intercalate (parts.map shown) := by
  induction parts with
  | nil => rfl
  | cons ps rest ih =>
    cases rest with
    | nil => rw [joined, List.map_singleton, String.intercalate_singleton]
    | cons qs rest =>
      simp only [joined, shown_append, shown, ih, List.map_cons, String.intercalate_cons_cons, String.append_assoc]

theorem shown_enclosed (op : Operator) (asArgument : Bool) (child : Expr) (ps : List (Piece Value)) :
    shown (Expr.enclosed op asArgument child ps) = Expr.wrapped op asArgument child (shown ps) := by
  cases child with
  | const v => rfl
  | path p => rfl
  | app inner x args =>
    simp only [Expr.enclosed, Expr.wrapped]
    split
    · simp only [List.cons_append, shown, shown_append, String.append_empty, String.append_assoc]
    · rfl

theorem shown_arrange (op : Operator) (operand : List (Piece Value)) (args : List (List (Piece Value))) :
    shown (arrange .mysql op operand args) = Expr.arrange op (shown operand) (args.map shown) := by
  rw [arrange, if_neg fun h => h.2 rfl, Expr.arrange]
  cases op.layout <;>
    simp only [List.cons_append, shown, shown_append, shown_joined, List.map_cons, String.append_empty,
      String.append_assoc]

theorem shown_template (e : Expr) : shown e.template = e.text := by
  induction e using Expr.inductionOn with
  | const v => exact String.append_empty
  | path p => exact String.append_empty
  | app op x args ih ihs =>
    have hargs : (Expr.argTemplates op args).map shown = Expr.argTexts op args := by
      induction args with
      | nil => rfl
      | cons y ys ihys =>
        rw [Expr.argTemplates, List.map_cons, shown_enclosed, ihs y List.mem_cons_self,
          ihys fun z hz => ihs z (List.mem_cons_of_mem y hz), Expr.argTexts]
    rw [Expr.template, shown_arrange, shown_enclosed, ih, hargs, Expr.text]

/-! ## SQL -/

theorem textFrom_template (d : Dialect) (index : Nat) (ps : List (Piece Value)) :
    textFrom d index (fill id ps) = replaced d index ps := by
  induction ps generalizing index with
  | nil => rfl
  | cons p ps ih =>
    cases p with
    | raw s => rw [fill_raw, textFrom, replaced, ih]
    | name s => rw [fill_name, textFrom, replaced, ih]
    | bound v =>
      have hfill : fill id (.bound v :: ps) = value v :: fill id ps := rfl
      rw [hfill, replaced]
      cases hv : v.isBound with
      | true => rw [value_of_isBound hv, if_pos rfl, textFrom, ih]
      | false => rw [value_of_not_isBound hv, if_neg Bool.false_ne_true, textFrom, ih]

theorem bindings_template (ps : List (Piece Value)) : bindings (fill id ps) = (bindings ps).filter Value.isBound := by
  induction ps with
  | nil => rfl
  | cons p ps ih =>
    cases p with
    | raw s => exact ih
    | name s => exact ih
    | bound v =>
      have hfill : fill id (.bound v :: ps) = value v :: fill id ps := rfl
      rw [hfill]
      cases hv : v.isBound with
      | true => rw [value_of_isBound hv, bindings, bindings, List.filter_cons_of_pos hv, ih]
      | false => simp only [value_of_not_isBound hv, bindings, ih, List.filter_cons, hv, Bool.false_eq_true, if_false]

theorem fill_enclosed (op : Operator) (asArgument : Bool) (child : Expr) (ps : List (Piece Value)) :
    fill id (Expr.enclosed op asArgument child ps) = Expr.enclosed op asArgument child (fill id ps) := by
  unfold Expr.enclosed
  split
  · split
    · simp only [List.cons_append, fill_raw, fill_append, fill_nil]
    · rfl
  · rfl

/-- Parentheses stand where the text has them, unless a minus sign would follow another one. -/
theorem wrapped_eq_enclosed {op : Operator} {asArgument : Bool} {child : Expr}
    (h : op = .neg → child.operator? ≠ some .neg ∧ ∀ v, child ≠ .const v) (ps : List (Piece Value)) :
    wrapped op asArgument child ps = Expr.enclosed op asArgument child ps := by
  cases child with
  | const v =>
    have hop : (op == .neg) = false := beq_eq_false_iff_ne.mpr fun hop => (h hop).2 v rfl
    simp only [wrapped, needsParens, hop, Bool.false_eq_true, if_false, Expr.enclosed]
  | path p => rfl
  | app inner x args =>
    have hminus : (op == .neg && inner == .neg) = false := by
      rw [Bool.and_eq_false_iff, beq_eq_false_iff_ne, beq_eq_false_iff_ne]
      by_cases hop : op = .neg
      · exact .inr fun hinner => (h hop).1 (congrArg some hinner)
      · exact .inl hop
    rw [wrapped, needsParens, hminus, Bool.or_false, Expr.enclosed]

theorem emptyList?_of_laidOutAlike {d : Dialect} {op : Operator} {x : Expr} {args : List Expr}
    (h : (Expr.app op x args).laidOutAlike d) : emptyList? op args = none := by
  cases hempty : emptyList? op args with
  | none => rfl
  | some s =>
    obtain ⟨⟨rfl | rfl, hargs⟩, _⟩ := emptyList?_some hempty
    · rw [Expr.laidOutAlike, hargs] at h
      cases h
    · rw [Expr.laidOutAlike, hargs] at h
      cases h

theorem arrange_of_laidOutAlike {d : Dialect} {op : Operator} {x : Expr} {args : List Expr}
    (h : (Expr.app op x args).laidOutAlike d) (operand : List (Piece Value)) (parts : List (List (Piece Value))) :
    arrange d op operand parts = arrange .mysql op operand parts := by
  by_cases hop : op = .concat
  · subst hop
    rw [beq_iff_eq.mp h]
  · have hcall : ∀ d : Dialect, ¬(op = .concat ∧ d ≠ .mysql) := fun _ h => hop h.1
    rw [arrange, arrange, if_neg (hcall d), if_neg (hcall .mysql)]

/-- The operand of a minus sign has none in front. -/
theorem operand_of_laidOutAlike {d : Dialect} {x : Expr} {args : List Expr}
    (h : (Expr.app .neg x args).laidOutAlike d) : x.operator? ≠ some .neg ∧ ∀ v, x ≠ .const v := by
  constructor
  · intro hx
    cases x with
    | app inner y ys =>
      cases hx
      cases h
    | _ => cases hx
  · rintro v rfl
    cases h

theorem argPieces_templates {d : Dialect} {op : Operator} (hop : op ≠ .neg) {args : List Expr}
    (h : ∀ y ∈ args, pieces d y = .ok (fill id y.template)) :
    argPieces d op args = .ok ((Expr.argTemplates op args).map (fill id)) := by
  induction args with
  | nil => rfl
  | cons y ys ih =>
    obtain ⟨hy, hys⟩ := List.forall_mem_cons.mp h
    rw [argPieces, hy, ih hys, Expr.argTemplates, List.map_cons, fill_enclosed,
      ← wrapped_eq_enclosed fun h => absurd h hop]
    rfl

theorem arrange_unwritten {op : Operator} (h : op.layout.writesArguments = false) (operand : List (Piece Value))
    (args : List (List (Piece Value))) : arrange .mysql op operand args = arrange .mysql op operand [] := by
  have hcall : ¬(op = .concat ∧ Dialect.mysql ≠ .mysql) := fun h => h.2 rfl
  rw [arrange, arrange, if_neg hcall, if_neg hcall]
  cases hlayout : op.layout <;> rw [hlayout] at h <;> first | rfl | cases h

/-- An expression that is laid out alike throughout is rendered as its template, with its constants bound or written
out. -/
theorem pieces_template {d : Dialect} (e : Expr) (h : e.every (Expr.laidOutAlike d)) :
    pieces d e = .ok (fill id e.template) := by
  induction e using Expr.inductionOn with
  | const v => rfl
  | path p =>
    have hrest : p.rest = [] := List.isEmpty_iff.mp h
    have hlength : ¬1 < p.length := by
      rw [FieldPath.length, hrest]
      decide
    have hleaf : p.leaf = p.identity := by
      rw [FieldPath.leaf, FieldPath.identity, FieldPath.names, hrest, String.intercalate_singleton]
      rfl
    rw [pieces, if_neg hlength, hleaf]
    rfl
  | app op x args ih ihs =>
    obtain ⟨halike, hx, hargs⟩ := Expr.every_app.mp h
    have hoperand : wrapped op false x (fill id x.template) = fill id (Expr.enclosed op false x x.template) := by
      rw [fill_enclosed]
      refine wrapped_eq_enclosed (fun hop => ?_) _
      subst hop
      exact operand_of_laidOutAlike halike
    simp only [pieces, emptyList?_of_laidOutAlike halike, ih hx]
    rw [Expr.template, fill_arrange, ← hoperand, ← arrange_of_laidOutAlike halike]
    cases hwrites : op.layout.writesArguments with
    | true =>
      have hop : op ≠ .neg := by
        rintro rfl
        cases hwrites
      rw [argPieces_templates hop fun y hy => ihs y hy (hargs y hy)]
      rfl
    | false =>
      rw [arrange_of_laidOutAlike halike, arrange_unwritten hwrites, ← arrange_of_laidOutAlike halike]
      rfl

/-- The text of an expression and its SQL are laid out alike. Both are the template of the expression, in which its
paths and constants are left open in the order in which they are written. With these as they are, the template is the
text. With a quoted identifier for each path and a placeholder for each constant that is bound, numbered from left to
right, it is the SQL, and the constants that are bound are the parameters. Only lists without members, minus signs over
constants and minus signs, and concatenations except in MySQL are laid out in another way. -/
theorem laid_out_as_text (d : Dialect) (e : Expr) (h : e.every (Expr.laidOutAlike d)) :
    e.template.filter Piece.isOpen = e.leaves ∧ shown e.template = e.text ∧
      renderExpr d e = .ok ⟨replaced d 0 e.template, (bindings e.template).filter Value.isBound⟩ := by
  refine ⟨filter_template e, shown_template e, ?_⟩
  rw [renderExpr, pieces_template e h, Except.map, Statement.ofPieces, text, textFrom_template, bindings_template]

/-- `NOT (a = 1 OR b LIKE 'x%') AND -(c - (2 - d)) * 1.5 IN ('y', LOWER(e))` -/
def screening : Expr :=
  let field (name : String) : Expr := .path (.single name)
  let listed : Expr := .app .or (.app .eq (field "a") [.const (.int 1)]) [.app .like (field "b") [.const (.text "x%")]]
  let difference : Expr := .app .sub (field "c") [.app .sub (.const (.long 2)) [field "d"]]
  .app .and (.app .not listed [])
    [.app .isIn (.app .mul (.app .neg difference []) [.const (.double 1.5)])
      [.const (.text "y"), .app .lower (field "e") []]]

theorem laid_out_as_text_screening :
    screening.every (Expr.laidOutAlike .postgres) ∧
    screening.text = "NOT (a = 1 OR b LIKE 'x%') AND -(c - (2 - d)) * 1.5 IN ('y', LOWER(e))" ∧
    renderExpr .postgres screening =
      .ok ⟨"NOT (\"a\" = 1 OR \"b\" LIKE $1) AND -(\"c\" - (2 - \"d\")) * $2 IN ($3, LOWER(\"e\"))",
        [.text "x%", .double 1.5, .text "y"]⟩ := by
  obtain ⟨_, htext, hsql⟩ := laid_out_as_text .postgres screening rfl
  have hreplaced : replaced .postgres 0 screening.template =
      "NOT (\"a\" = 1 OR \"b\" LIKE $1) AND -(\"c\" - (2 - \"d\")) * $2 IN ($3, LOWER(\"e\"))" := by
    decide +kernel
  rw [hreplaced] at hsql
  exact ⟨rfl, htext.symm.trans (by decide +kernel), hsql⟩

end Sql

end TableQuery
