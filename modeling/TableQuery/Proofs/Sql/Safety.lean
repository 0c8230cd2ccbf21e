import Mathlib.Data.List.Nodup
import TableQuery.Proofs.Sql.Binding
import TableQuery.Proofs.Sql.Lexical

/- Statements that are rendered from queries are lexically safe (`rendered_lexically_safe`):

     1. `spells_pieces`: an expression spells its columns. A minus sign may come from a negation, a subtraction or a
        number, and no two of them touch, as the operand of a negation begins with none (`unsigned_wrapped`).
     2. `spells_headPieces`, `spells_tailPieces`: clauses spell theirs. Those behind the source begin with a space, or
        are left out.
     3. `spells_queryPieces`: a query spells its tables, columns and aliases, and these differ from each other
        (`nested_identifiers`).

   Arguments that are given to an operator that takes none are not written (`argument_not_written`). -/
namespace TableQuery

/-! ## The identifiers of a query -/

/-- The operator takes arguments beside its operand. -/
def Operator.takesArguments : Operator → Bool
  | not | neg | isNull | isNotNull => false
  | _ => true

mutual

/-- The columns of an expression, in the order in which they are written. Only the arguments of operators that
`counted` holds for count. The operand of a test of membership in an empty list is not written. -/
def Expr.columns (counted : Operator → Bool) : Expr → List String
  | .const _ => []
  | .path p => [p.leaf]
  | .app op x args =>
    if (op = .isIn ∨ op = .isNotIn) ∧ args.isEmpty then []
    else x.columns counted ++ if counted op then Expr.columnsAll counted args else []

def Expr.columnsAll (counted : Operator → Bool) : List Expr → List String
  | [] => []
  | x :: xs => x.columns counted ++ Expr.columnsAll counted xs

end

/-- What an identifier in a statement names. -/
inductive Identifier where
  | table (name : String)
  | column (name : String)
  /-- The alias of a nested query. -/
  | nested (name : String)

namespace Identifier

def name : Identifier → String
  | table name => name
  | column name => name
  | nested name => name

def nested? : Identifier → Option String
  | nested name => some name
  | _ => none

end Identifier

namespace Clauses

/-- The columns that are selected. -/
def selected (counted : Operator → Bool) (c : Clauses) : List String :=
  Expr.columnsAll counted c.select.selection.exprs

/-- The columns of the clauses behind the source. -/
def trailing (counted : Operator → Bool) (c : Clauses) : List String :=
  c.filter.columns counted ++ Expr.columnsAll counted c.groupBy ++ c.having.columns counted ++
    Expr.columnsAll counted (c.orderBy.map SortKey.expr)

end Clauses

/-- The tables, columns and aliases of a query that stands inside `depth` others, in the order in which they are
written. -/
def Query.identifiers (counted : Operator → Bool) (depth : Nat) : Query → List Identifier
  | .table name c => (c.selected counted).map .column ++ .table name :: (c.trailing counted).map .column
  | .nested inner c =>
    (c.selected counted).map .column ++ inner.identifiers counted (depth + 1) ++
      .nested (Sql.nestedName depth) :: (c.trailing counted).map .column

namespace Sql

/-! ## Expressions -/

variable {d : Dialect} {ps : List (Piece Value)} {names names' : List String}

theorem writesArguments_eq (op : Operator) : op.layout.writesArguments = op.takesArguments := by
  cases op <;> rfl

theorem tame_literal {v : Value} (h : v.isBound = false) : Tame v.literal := by
  cases v with
  | null => decide
  | bool b => cases b <;> decide
  | int n => exact tame_int _
  | long n => exact tame_int _
  | _ => cases h

theorem spells_value (d : Dialect) (v : Value) : Spells d [] [value v] := by
  cases hv : v.isBound with
  | true =>
    rw [value_of_isBound hv]
    exact .bound v
  | false =>
    rw [value_of_not_isBound hv]
    exact Spells.nil.raw (tame_literal hv)

theorem spells_wrapped (op : Operator) (asArgument : Bool) (child : Expr) (h : Spells d names ps) :
    Spells d names (wrapped op asArgument child ps) := by
  unfold wrapped
  split
  · exact h.enclosed (by decide)
  · exact h

theorem tame_between (op : Operator) : Tame (" " ++ op.sign ++ " ") ∧ Separating (" " ++ op.sign ++ " ") := by
  cases op <;> exact ⟨by decide, by decide⟩

theorem tame_behind {op : Operator} (h : op.layout = .after) :
    Tame (" " ++ op.sign) ∧ Separating (" " ++ op.sign) := by
  cases op <;> first | exact ⟨by decide, by decide⟩ | cases h

theorem tame_list (op : Operator) : Tame (" " ++ op.sign ++ " (") ∧ Separating (" " ++ op.sign ++ " (") := by
  cases op <;> exact ⟨by decide, by decide⟩

theorem tame_call (op : Operator) : Tame (op.sign ++ "(") := by
  cases op <;> decide

/-- Operations spell the columns of their operands, in any layout. -/
theorem spells_arrange {op : Operator} {args : List (List (Piece Value))} (hoperand : Spells d names ps)
    (hargs : ∀ separator, Separating separator → Tame separator → Spells d names' (joined separator args))
    (hsign : op = .neg → Unsigned d ps) :
    Spells d (names ++ if op.takesArguments then names' else []) (arrange d op ps args) := by
  have hall : ∀ separator, Separating separator → Tame separator →
      Spells d (names ++ names') (joined separator (ps :: args)) :=
    fun separator hs htame => .joinedCons hs htame hoperand (hargs separator hs htame)
  by_cases hconcat : op = .concat ∧ d ≠ .mysql
  · rw [arrange, if_pos hconcat, hconcat.1]
    exact (hall " || " (by decide) (by decide)).enclosed (by decide)
  · rw [arrange, if_neg hconcat, ← writesArguments_eq]
    cases hlayout : op.layout with
    | before =>
      have hop : op = .not ∨ op = .neg := by
        cases op <;> first | exact .inl rfl | exact .inr rfl | cases hlayout
      rw [show (if Layout.before.writesArguments then names' else []) = [] from rfl, List.append_nil]
      rcases hop with rfl | rfl
      · exact hoperand.raw (by decide)
      · exact hoperand.minus (hsign rfl)
    | after =>
      obtain ⟨htame, hseparating⟩ := tame_behind hlayout
      rw [show (if Layout.after.writesArguments then names' else []) = [] from rfl, List.append_nil]
      exact hoperand.followed htame hseparating
    | infixed =>
      obtain ⟨htame, hseparating⟩ := tame_between op
      exact hall _ hseparating htame
    | call =>
      exact (hall ", " (by decide) (by decide)).enclosed (tame_call op)
    | list =>
      obtain ⟨htame, hseparating⟩ := tame_list op
      have hmembers := (hargs ", " (by decide) (by decide)).enclosed htame
      have hlist := hoperand.append hmembers (behind_raw hseparating _)
      rw [← List.cons_append, ← List.append_assoc] at hlist
      exact hlist
    | range =>
      obtain ⟨htame, hseparating⟩ := tame_between op
      exact hoperand.append ((hargs " AND " (by decide) (by decide)).raw htame) (behind_raw hseparating _)

/-- What replaces an operation is a test of an empty list. -/
theorem emptyList?_some {op : Operator} {args : List Expr} {s : String} (h : emptyList? op args = some s) :
    ((op = .isIn ∨ op = .isNotIn) ∧ args.isEmpty) ∧ Tame s := by
  unfold emptyList? at h
  split at h
  · next hargs =>
    split at h
    · cases h
      exact ⟨⟨.inl rfl, hargs⟩, by decide⟩
    · cases h
      exact ⟨⟨.inr rfl, hargs⟩, by decide⟩
    · cases h
  · cases h

theorem emptyList?_none {op : Operator} {args : List Expr} (h : emptyList? op args = none) :
    ¬ ((op = .isIn ∨ op = .isNotIn) ∧ args.isEmpty) := by
  intro hempty
  obtain ⟨rfl | rfl, hargs⟩ := hempty
  · rw [emptyList?, if_pos hargs] at h
    cases h
  · rw [emptyList?, if_pos hargs] at h
    cases h

/-- The pieces of an operation, unless it tests an empty list. -/
theorem pieces_app {op : Operator} {x : Expr} {args : List Expr} (hempty : emptyList? op args = none)
    (h : pieces d (.app op x args) = .ok ps) :
    ∃ operand parts, pieces d x = .ok operand ∧ ps = arrange d op (wrapped op false x operand) parts ∧
      if op.takesArguments then argPieces d op args = .ok parts else parts = [] := by
  rw [← writesArguments_eq]
  cases hwrites : op.layout.writesArguments with
  | true =>
    simp only [pieces, hempty, hwrites, if_true] at h
    obtain ⟨operand, hoperand, h⟩ := bind_ok.mp h
    obtain ⟨parts, hparts, h⟩ := bind_ok.mp h
    cases h
    exact ⟨operand, parts, hoperand, rfl, hparts⟩
  | false =>
    simp only [pieces, hempty, hwrites, Bool.false_eq_true, if_false] at h
    obtain ⟨operand, hoperand, h⟩ := bind_ok.mp h
    cases h
    exact ⟨operand, [], hoperand, rfl, rfl⟩

/-- The operand of a minus sign begins with none: it has parentheses, or is a column or a call. -/
theorem unsigned_wrapped {x : Expr} (h : pieces d x = .ok ps) : Unsigned d (wrapped .neg false x ps) := by
  unfold wrapped
  split
  · exact unsigned_raw (by decide) _
  · next hparens =>
    cases x with
    | const v => exact absurd rfl hparens
    | path p =>
      rw [pieces] at h
      split at h
      · cases h
      · cases h
        exact unsigned_name p.leaf []
    | app op x args =>
      have hcall : op.layout = .call := by
        cases op <;> first | rfl | exact absurd rfl hparens
      have hlist : emptyList? op args = none := by
        cases hempty : emptyList? op args with
        | none => rfl
        | some s =>
          obtain ⟨⟨rfl | rfl, _⟩, _⟩ := emptyList?_some hempty
          · cases hcall
          · cases hcall
      have hfirst : (op.sign ++ "(").toList.head?.any (· != '-') = true := by
        cases op <;> first | decide | cases hcall
      obtain ⟨operand, parts, _, rfl, _⟩ := pieces_app hlist h
      unfold arrange
      split
      · exact unsigned_raw (by decide) _
      · rw [hcall]
        exact unsigned_raw hfirst _

mutual

/-- The pieces of an expression spell its columns. -/
theorem spells_pieces (d : Dialect) : ∀ (e : Expr) (ps : List (Piece Value)), pieces d e = .ok ps →
    Spells d (e.columns Operator.takesArguments) ps
  | .const v, ps, h => by
    cases h
    exact spells_value d v
  | .path p, ps, h => by
    rw [pieces] at h
    split at h
    · cases h
    · cases h
      exact .name p.leaf
  | .app op x args, ps, h => by
    cases hempty : emptyList? op args with
    | some s =>
      obtain ⟨hlist, htame⟩ := emptyList?_some hempty
      simp only [pieces, hempty] at h
      cases h
      rw [Expr.columns, if_pos hlist]
      exact Spells.nil.raw htame
    | none =>
      obtain ⟨operand, parts, hoperand, rfl, hparts⟩ := pieces_app hempty h
      have hx := spells_wrapped op false x (spells_pieces d x operand hoperand)
      have hsign : op = .neg → Unsigned d (wrapped op false x operand) := by
        intro hop
        subst hop
        exact unsigned_wrapped hoperand
      rw [Expr.columns, if_neg (emptyList?_none hempty)]
      cases htakes : op.takesArguments with
      | true =>
        rw [htakes, if_pos rfl] at hparts
        have hargs := spells_argPieces d op args parts hparts
        have hall := spells_arrange hx hargs hsign
        rw [htakes] at hall
        exact hall
      | false =>
        rw [htakes, if_neg Bool.false_ne_true] at hparts
        subst hparts
        have hnone : ∀ separator, Separating separator → Tame separator →
            Spells d [] (joined separator ([] : List (List (Piece Value)))) := fun _ _ _ => .nil
        have halone := spells_arrange hx hnone hsign
        rw [htakes] at halone
        exact halone

theorem spells_argPieces (d : Dialect) (op : Operator) : ∀ (es : List Expr) (parts : List (List (Piece Value))),
    argPieces d op es = .ok parts → ∀ separator, Separating separator → Tame separator →
      Spells d (Expr.columnsAll Operator.takesArguments es) (joined separator parts)
  | [], parts, h, separator, _, _ => by
    cases h
    exact .nil
  | x :: xs, parts, h, separator, hs, htame => by
    rw [argPieces] at h
    obtain ⟨ps, hps, h⟩ := bind_ok.mp h
    obtain ⟨rest, hrest, h⟩ := bind_ok.mp h
    cases h
    have hx := spells_wrapped op true x (spells_pieces d x ps hps)
    exact .joinedCons hs htame hx (spells_argPieces d op xs rest hrest separator hs htame)

end

/-! ## Clauses -/

theorem columnsAll_eq_flatMap (counted : Operator → Bool) (es : List Expr) :
    Expr.columnsAll counted es = es.flatMap fun e => e.columns counted := by
  induction es with
  | nil => rfl
  | cons x xs ih => rw [Expr.columnsAll, ih, List.flatMap_cons]

/-- Items with commas between them spell what each of them spells. -/
theorem spells_mapM {α : Type} {f : α → Except Failure (List (Piece Value))} {g : α → List String}
    (hf : ∀ a ps, f a = .ok ps → Spells d (g a) ps) {as : List α} {parts : List (List (Piece Value))}
    (h : as.mapM f = .ok parts) : Spells d (as.flatMap g) (joined ", " parts) := by
  induction as generalizing parts with
  | nil =>
    cases h
    exact .nil
  | cons a as ih =>
    obtain ⟨ps, rest, hps, hrest, rfl⟩ := mapM_cons_ok.mp h
    rw [List.flatMap_cons]
    exact .joinedCons (by decide) (by decide) (hf a ps hps) (ih hrest)

theorem spells_listPieces {es : List Expr} (h : listPieces d es = .ok ps) :
    Spells d (Expr.columnsAll Operator.takesArguments es) ps := by
  obtain ⟨parts, hparts, rfl⟩ := map_ok.mp h
  rw [columnsAll_eq_flatMap]
  exact spells_mapM (spells_pieces d) hparts

theorem spells_selectPieces {s : Select} (h : selectPieces d s = .ok ps) :
    Spells d (Expr.columnsAll Operator.takesArguments s.selection.exprs) ps := by
  obtain ⟨selection, distinct⟩ := s
  have hselect : Tame (if distinct = true then "SELECT DISTINCT " else "SELECT ") := by
    cases distinct <;> decide
  cases selection with
  | entity =>
    cases h
    exact (Spells.nil.raw (by decide)).raw hselect
  | scalar e =>
    obtain ⟨selected, hselected, h⟩ := bind_ok.mp h
    cases h
    rw [Selection.exprs, Expr.columnsAll, Expr.columnsAll, List.append_nil]
    exact (spells_pieces d e selected hselected).raw hselect
  | tuple es =>
    obtain ⟨selected, hselected, h⟩ := bind_ok.mp h
    cases h
    exact (spells_listPieces hselected).raw hselect

theorem spells_headPieces {c : Clauses} (h : headPieces d c = .ok ps) :
    Spells d (c.selected Operator.takesArguments) ps := by
  unfold headPieces at h
  split at h
  · exact spells_selectPieces h
  · cases h

/-- A clause begins with its keyword, or is left out. -/
structure SpellsBehind (d : Dialect) (names : List String) (ps : List (Piece Value)) : Prop where
  spells : Spells d names ps
  behind : Behind ps

theorem SpellsBehind.append {qs : List (Piece Value)} (h : SpellsBehind d names ps) (h' : SpellsBehind d names' qs) :
    SpellsBehind d (names ++ names') (ps ++ qs) :=
  ⟨h.spells.append h'.spells h'.behind, h.behind.append h'.behind⟩

theorem SpellsBehind.nil : SpellsBehind d [] [] :=
  ⟨.nil, trivial⟩

theorem Spells.keyword {s : String} (htame : Tame s) (hs : Separating s) (h : Spells d names ps) :
    SpellsBehind d names (.raw s :: ps) :=
  ⟨h.raw htame, behind_raw hs ps⟩

theorem columns_of_isTrue {e : Expr} (h : e.isTrue = true) (counted : Operator → Bool) : e.columns counted = [] := by
  cases e with
  | const v => rfl
  | path p => cases h
  | app op x args => cases h

theorem spells_conditionPieces {keyword : String} (htame : Tame keyword) (hs : Separating keyword) {e : Expr}
    (h : conditionPieces d keyword e = .ok ps) : SpellsBehind d (e.columns Operator.takesArguments) ps := by
  unfold conditionPieces at h
  split at h
  · next htrue =>
    cases h
    rw [columns_of_isTrue htrue]
    exact .nil
  · obtain ⟨pieces, hpieces, rfl⟩ := map_ok.mp h
    exact (spells_pieces d e pieces hpieces).keyword htame hs

theorem spells_groupPieces {es : List Expr} (h : groupPieces d es = .ok ps) :
    SpellsBehind d (Expr.columnsAll Operator.takesArguments es) ps := by
  unfold groupPieces at h
  split at h
  · next hnone =>
    cases h
    rw [List.isEmpty_iff.mp hnone]
    exact .nil
  · obtain ⟨pieces, hpieces, rfl⟩ := map_ok.mp h
    exact (spells_listPieces hpieces).keyword (by decide) (by decide)

theorem spells_keyPieces (d : Dialect) (k : SortKey) (ps : List (Piece Value)) (h : keyPieces d k = .ok ps) :
    Spells d (k.expr.columns Operator.takesArguments) ps := by
  obtain ⟨pieces, hpieces, rfl⟩ := map_ok.mp h
  have hexpr := spells_pieces d k.expr pieces hpieces
  cases k.direction with
  | asc => exact hexpr.followed (by decide) (by decide)
  | desc => exact hexpr.followed (by decide) (by decide)

theorem spells_orderPieces {keys : List SortKey} (h : orderPieces d keys = .ok ps) :
    SpellsBehind d (Expr.columnsAll Operator.takesArguments (keys.map SortKey.expr)) ps := by
  unfold orderPieces at h
  split at h
  · next hnone =>
    cases h
    rw [List.isEmpty_iff.mp hnone]
    exact .nil
  · obtain ⟨parts, hparts, rfl⟩ := map_ok.mp h
    rw [columnsAll_eq_flatMap, List.flatMap_map]
    exact (spells_mapM (spells_keyPieces d) hparts).keyword (by decide) (by decide)

/-- Paging and locks are words and numbers behind spaces, if there are any. -/
def Trailing (s : String) : Prop :=
  Tame s ∧ (s = "" ∨ Separating s)

theorem separating_append {s : String} (hs : Separating s) (t : String) : Separating (s ++ t) := by
  unfold Separating at hs ⊢
  rw [String.toList_append]
  cases hcs : s.toList with
  | nil =>
    rw [hcs] at hs
    cases hs
  | cons c cs =>
    rw [hcs] at hs
    exact hs

theorem Trailing.append {s t : String} (hs : Trailing s) (ht : Trailing t) : Trailing (s ++ t) := by
  refine ⟨hs.1.append ht.1, ?_⟩
  rcases hs.2 with hblank | hseparating
  · rw [hblank, String.empty_append]
    exact ht.2
  · exact .inr (separating_append hseparating t)

theorem trailing_word {s : String} (htame : Tame s) (hs : Separating s) : Trailing s :=
  ⟨htame, .inr hs⟩

/-- A keyword with a number. -/
theorem trailing_number {s : String} (htame : Tame s) (hs : Separating s) (n : Nat) : Trailing (s ++ toString n) :=
  ⟨htame.append (tame_nat n), .inr (separating_append hs _)⟩

theorem trailing_pagingText (d : Dialect) (offset limit : Option Nat) : Trailing (pagingText d offset limit) := by
  have hblank : Trailing "" := ⟨by decide, .inl rfl⟩
  apply Trailing.append
  · cases limit with
    | some n => exact trailing_number (by decide) (by decide) n
    | none =>
      cases offset with
      | none => exact hblank
      | some n =>
        cases d with
        | postgres => exact hblank
        | mysql => exact trailing_word (s := " LIMIT 18446744073709551615") (by decide) (by decide)
        | sqlite => exact trailing_word (s := " LIMIT -1") (by decide) (by decide)
  · cases offset with
    | none => exact hblank
    | some n => exact trailing_number (by decide) (by decide) n

theorem trailing_lockText (d : Dialect) (mode : LockMode) : Trailing (lockText d mode) := by
  unfold lockText
  split
  · split
    · exact trailing_word (by decide) (by decide)
    · exact trailing_word (by decide) (by decide)
  · exact ⟨by decide, .inl rfl⟩

theorem spells_tailPieces {c : Clauses} (h : tailPieces d c = .ok ps) :
    SpellsBehind d (c.trailing Operator.takesArguments) ps := by
  obtain ⟨filter, hfilter, h⟩ := bind_ok.mp h
  obtain ⟨groups, hgroups, h⟩ := bind_ok.mp h
  obtain ⟨having, hhaving, h⟩ := bind_ok.mp h
  obtain ⟨order, horder, h⟩ := bind_ok.mp h
  cases h
  obtain ⟨htame, hbegins⟩ := (trailing_pagingText d c.offset c.limit).append (trailing_lockText d c.lock)
  have hlast : SpellsBehind d [] [(.raw (pagingText d c.offset c.limit ++ lockText d c.lock) : Piece Value)] := by
    refine ⟨Spells.nil.raw htame, ?_⟩
    rcases hbegins with hblank | hs
    · rw [hblank]
      exact behind_blank
    · exact behind_raw hs []
  have hfiltered := spells_conditionPieces (by decide) (by decide) hfilter
  have hgrouped := hfiltered.append (spells_groupPieces hgroups)
  have hkept := hgrouped.append (spells_conditionPieces (by decide) (by decide) hhaving)
  have hordered := hkept.append (spells_orderPieces horder)
  have hclauses := hordered.append hlast
  rw [List.append_nil] at hclauses
  exact hclauses

/-! ## Queries -/

/-- A query spells its tables, columns and aliases. -/
theorem spells_queryPieces {depth : Nat} {q : Query} (h : queryPieces d depth q = .ok ps) :
    Spells d ((q.identifiers Operator.takesArguments depth).map Identifier.name) ps := by
  have hcolumns : ∀ names : List String, (names.map Identifier.column).map Identifier.name = names := by
    intro names
    rw [List.map_map]
    exact List.map_id names
  -- On the queries that are sources, for any depth, as they are named by it.
  induction q generalizing depth ps with
  | table name c =>
    obtain ⟨head, hhead, h⟩ := bind_ok.mp h
    obtain ⟨tail, htail, h⟩ := bind_ok.mp h
    cases h
    obtain ⟨hspells, hbehind⟩ := spells_tailPieces htail
    have hfrom := ((Spells.name name).append hspells hbehind).keyword (s := " FROM ") (by decide) (by decide)
    have hquery := (spells_headPieces hhead).append hfrom.spells hfrom.behind
    rw [Query.identifiers, List.map_append, List.map_cons, hcolumns, hcolumns, List.append_assoc]
    exact hquery
  | nested inner c ih =>
    obtain ⟨head, hhead, h⟩ := bind_ok.mp h
    obtain ⟨source, hsource, h⟩ := bind_ok.mp h
    obtain ⟨tail, htail, h⟩ := bind_ok.mp h
    cases h
    obtain ⟨hspells, hbehind⟩ := spells_tailPieces htail
    have halias := ((Spells.name (nestedName depth)).append hspells hbehind).keyword (s := ") AS ") (by decide)
      (by decide)
    have hfrom := ((ih hsource).append halias.spells halias.behind).keyword (s := " FROM (") (by decide) (by decide)
    have hquery := (spells_headPieces hhead).append hfrom.spells hfrom.behind
    rw [Query.identifiers, List.map_append, List.map_append, List.map_cons, hcolumns, hcolumns]
    simp only [List.append_assoc, List.cons_append] at hquery ⊢
    exact hquery

/-- The aliases of nested queries, from the inside. -/
theorem nested_identifiers (counted : Operator → Bool) (depth : Nat) (q : Query) :
    ∃ n, (q.identifiers counted depth).filterMap Identifier.nested? =
      ((List.range' depth n).map nestedName).reverse := by
  have hcolumns : ∀ names : List String, (names.map Identifier.column).filterMap Identifier.nested? = [] := by
    intro names
    rw [List.filterMap_map]
    exact List.filterMap_eq_nil_iff.mpr fun _ _ => rfl
  induction q generalizing depth with
  | table name c =>
    refine ⟨0, ?_⟩
    simp only [Query.identifiers, List.filterMap_append, hcolumns, List.filterMap_cons, Identifier.nested?]
    rfl
  | nested inner c ih =>
    obtain ⟨n, hn⟩ := ih (depth + 1)
    refine ⟨n + 1, ?_⟩
    rw [Query.identifiers, List.filterMap_append, List.filterMap_append, hcolumns, hn, List.filterMap_cons,
      Identifier.nested?, hcolumns, List.range'_succ, List.map_cons, List.reverse_cons, List.nil_append]

theorem nestedName_injective : Function.Injective nestedName := by
  intro m n h
  have htext : toString m = toString n := (String.append_right_inj "q").mp h
  rw [← ofDigitChars_toString m, htext, ofDigitChars_toString n]

/-! ## Statements -/

/-- The text of a statement is read as these identifiers, and what stands outside of them quotes nothing, ends no
statement and begins no comment. -/
structure LexicallySafe (d : Dialect) (s : Statement) (identifiers : List Identifier) : Prop where
  /-- What is read is the whole text. -/
  whole : (read d s.sql.toList).flatMap (Part.written d) = s.sql.toList
  names : Sql.names d s.sql = identifiers.map Identifier.name
  /-- Nested queries have different aliases. -/
  nested : (identifiers.filterMap Identifier.nested?).Nodup
  harmless : ∀ c, .char c ∈ read d s.sql.toList → c ∉ delicate
  no_line_comment : ¬ [.char '-', .char '-'] <:+: read d s.sql.toList
  no_block_comment : ¬ [.char '/', .char '*'] <:+: read d s.sql.toList
  /-- There is a placeholder for each parameter, numbered from 1 on. -/
  placeholders : Sql.placeholders d s.sql = List.range' 1 s.params.length

/-- A query is rendered as its tables, columns and aliases, in the order in which they are written, whatever names
they have. Nothing that stands outside of these identifiers can be read as a quote, as a comment or as the end of
the statement, and the placeholders are those of the parameters. -/
theorem rendered_lexically_safe {d : Dialect} {q : Query} {s : Statement} (h : render d q = .ok s) :
    LexicallySafe d s (q.identifiers Operator.takesArguments 0) := by
  obtain ⟨ps, hps, rfl⟩ := map_ok.mp h
  obtain ⟨hclear, hsound, hnames⟩ := spells_queryPieces hps
  have hread : read d (text d ps).toList = partsFrom d 0 ps := by
    rw [text, ← textFrom_solid, read_textFrom d 0 hclear, partsFrom_solid]
  have hplaces := placeholders_text d hclear
  rw [text, textFrom_solid, bindings_solid] at hplaces
  refine ⟨?_, ?_, ?_, ?_, ?_, ?_, hplaces⟩
  · rw [Statement.ofPieces, hread, written_partsFrom, text]
  · rw [Sql.names, Statement.ofPieces, hread, names_partsFrom, hnames]
  · obtain ⟨n, hn⟩ := nested_identifiers Operator.takesArguments 0 q
    rw [hn, List.nodup_reverse]
    exact List.Nodup.map nestedName_injective List.nodup_range'
  · rw [Statement.ofPieces, hread]
    exact (hsound 0).harmless
  · rw [Statement.ofPieces, hread]
    exact (hsound 0).no_comment rfl
  · rw [Statement.ofPieces, hread]
    exact (hsound 0).no_comment rfl

/-- The names have quotes, comments and semicolons in them, and there are minus signs of all kinds. -/
def awkward : Query :=
  let inner := (Query.ofTable "no\"tes; --").withFilter (.app .eq (.path (.single "ti/*tle")) [.const (.text "' --")])
  let minus := Expr.app .neg (.app .neg (.const (.int (-5))) []) []
  (Query.ofQuery inner).withSelect (.tuple [.app .sub (.path (.single "a\"")) [minus, .const (.long (-1))]])

theorem rendered_lexically_safe_awkward :
    ∃ s, render .postgres awkward = .ok s ∧
      s.sql = "SELECT \"a\"\"\" - -(-(-5)) - -1 FROM " ++
        "(SELECT * FROM \"no\"\"tes; --\" WHERE \"ti/*tle\" = $1) AS \"q0\"" ∧
      LexicallySafe .postgres s [.column "a\"", .table "no\"tes; --", .column "ti/*tle", .nested "q0"] := by
  obtain ⟨s, hs⟩ : ∃ s, render .postgres awkward = .ok s := ⟨_, rfl⟩
  have hsafe : LexicallySafe .postgres s (awkward.identifiers Operator.takesArguments 0) := rendered_lexically_safe hs
  refine ⟨s, hs, ?_, hsafe⟩
  cases hs
  decide

/-- Arguments that an operator does not take are columns of the query that are not written. -/
theorem argument_not_written :
    let q := (Query.ofTable "notes").withFilter (.app .isNull (.path (.single "title")) [.path (.single "body")])
    ∃ s, render .sqlite q = .ok s ∧ ¬ LexicallySafe .sqlite s (q.identifiers (fun _ => true) 0) := by
  intro q
  refine ⟨_, rfl, ?_⟩
  intro hsafe
  have hnames := hsafe.names
  revert hnames
  decide

end Sql

end TableQuery
