import TableQuery.Proofs.Sql.Skeleton

/- Bound constants never reach the text of a statement. Two queries that differ only in them are refused
   for one reason, or have one text, with placeholders at the same places of both queries, and each is
   bound to the constant that stands at its place (`render_alike`). -/
namespace TableQuery.Sql

/-! ## Expressions -/

/-- A constant that is bound stands at the place. -/
def BoundIn (at? : Place → Option Value) (p : Place) : Prop :=
  ∃ v, at? p = some v ∧ v.isBound = true

def BoundAmong (es : List Expr) (ip : Nat × Place) : Prop :=
  BoundIn (Expr.constantAtAll es ip.1) ip.2

/-- The first of many expressions. -/
theorem Uniform.first {x : Expr} {r : (Place → Value) → Except Failure (List (Piece Value))}
    (h : Uniform (BoundIn x.constantAt) r) (xs : List Expr) :
    Uniform (BoundAmong (x :: xs)) fun f => r fun p => f (0, p) :=
  h.further (fun p => (0, p)) fun _ hp => hp

theorem AllUniform.rest {xs : List Expr} {rs : (Nat × Place → Value) → Except Failure (List (List (Piece Value)))}
    (h : AllUniform (BoundAmong xs) rs) (x : Expr) :
    AllUniform (BoundAmong (x :: xs)) fun f => rs fun ip => f (ip.1 + 1, ip.2) :=
  h.further (fun ip => (ip.1 + 1, ip.2)) fun _ hp => hp

theorem value_of_isBound {v : Value} (h : v.isBound = true) : value v = .bound v := by
  cases v <;> first | rfl | cases h

theorem value_of_not_isBound {v : Value} (h : v.isBound = false) : value v = .raw v.literal := by
  cases v <;> first | rfl | cases h

theorem wrapped_replace {β : Type} (op : Operator) (asArgument : Bool) (x : Expr) (f : Place → Value)
    (ps : List (Piece β)) : wrapped op asArgument (x.replace f) ps = wrapped op asArgument x ps := by
  have hparens : needsParens op asArgument (x.replace f) = needsParens op asArgument x := by
    cases x with
    | const v =>
      rw [Expr.replace]
      split <;> rfl
    | path p => rfl
    | app inner x args => rfl
  rw [wrapped, wrapped, hparens]

theorem emptyList?_replaceAll (op : Operator) (args : List Expr) (f : Nat → Place → Value) :
    emptyList? op (Expr.replaceAll args f) = emptyList? op args := by
  cases args <;> rfl

theorem plain_emptyList {op : Operator} {args : List Expr} {s : String} (h : emptyList? op args = some s) :
    Plain s := by
  unfold emptyList? at h
  split at h
  · split at h
    · cases h; decide
    · cases h; decide
    · cases h
  · cases h

mutual

/-- The pieces of an expression are uniform in the constants that are bound. -/
theorem uniform_pieces (d : Dialect) : ∀ e : Expr, Uniform (BoundIn e.constantAt) fun f => pieces d (e.replace f)
  | .const v => by
    cases hv : v.isBound with
    | true =>
      have hproper : AllProper (BoundIn (Expr.const v).constantAt) [.bound []] :=
        allProper_cons.mpr ⟨⟨v, rfl, hv⟩, allProper_nil⟩
      refine (uniform_ok _ hproper).congr fun f _ => ?_
      rw [Expr.replace, hv, if_pos rfl]
      rfl
    | false =>
      have hproper : AllProper (BoundIn (Expr.const v).constantAt) [.raw v.literal] :=
        allProper_cons.mpr ⟨plain_literal hv, allProper_nil⟩
      refine (uniform_ok _ hproper).congr fun f _ => ?_
      rw [Expr.replace, hv, if_neg Bool.false_ne_true, pieces, value_of_not_isBound hv]
      rfl
  | .path p => by
    simp only [Expr.replace, pieces]
    split
    · exact uniform_error _
    · exact uniform_ok [.name p.leaf] (allProper_cons.mpr ⟨trivial, allProper_nil⟩)
  | .app op x args => by
    have hx : Uniform (BoundIn (Expr.app op x args).constantAt) fun f =>
        pieces d (x.replace fun p => f (.operand :: p)) :=
      (uniform_pieces d x).further (Branch.operand :: ·) fun _ hp => hp
    have hargs : AllUniform (BoundIn (Expr.app op x args).constantAt) fun f =>
        argPieces d op (Expr.replaceAll args fun i p => f (.argument i :: p)) :=
      (uniform_argPieces d op args).further (fun ip => .argument ip.1 :: ip.2) fun _ hp => hp
    simp only [Expr.replace, pieces, emptyList?_replaceAll, wrapped_replace]
    cases hempty : emptyList? op args with
    | some s => exact uniform_ok [.raw s] (allProper_cons.mpr ⟨plain_emptyList hempty, allProper_nil⟩)
    | none =>
      refine hx.bind fun operand hoperand => ?_
      have hwrapped := allProper_wrapped op false x hoperand
      cases op.layout.writesArguments with
      -- Failures of the operand come before those of the arguments.
      | true =>
        refine hargs.bind fun parts hparts => ?_
        refine (uniform_ok _ (allProper_arrange d op hwrapped hparts)).congr fun f _ => ?_
        rw [fill_arrange, fill_wrapped]
      -- Arguments that the layout does not write are not looked at, so that nothing is asked of them.
      | false =>
        have hnone : ∀ ps ∈ ([] : List (List (Piece Place))),
            AllProper (BoundIn (Expr.app op x args).constantAt) ps := nofun
        refine (uniform_ok _ (allProper_arrange d op hwrapped hnone)).congr fun f _ => ?_
        rw [fill_arrange, fill_wrapped]
        rfl

theorem uniform_argPieces (d : Dialect) (op : Operator) : ∀ es : List Expr,
    AllUniform (BoundAmong es) fun f => argPieces d op (Expr.replaceAll es fun i p => f (i, p))
  | [] => allUniform_ok [] (by simp)
  | x :: xs => by
    have hx := (uniform_pieces d x).first xs
    have hxs := (uniform_argPieces d op xs).rest x
    simp only [Expr.replaceAll, argPieces, wrapped_replace]
    exact hx.cons (wrapped op true x) (fun f ps => fill_wrapped f op true x ps) (allProper_wrapped op true x) hxs

end

/-! ## Clauses -/

theorem uniform_mapM (d : Dialect) (es : List Expr) :
    AllUniform (BoundAmong es) fun f => (Expr.replaceAll es fun i p => f (i, p)).mapM (pieces d) := by
  induction es with
  | nil => exact allUniform_ok [] (by simp)
  | cons x xs ih =>
    simp only [Expr.replaceAll, List.mapM_cons]
    exact ((uniform_pieces d x).first xs).cons (fun ps => ps) (fun _ _ => rfl) (fun h => h) (ih.rest x)

theorem uniform_listPieces (d : Dialect) (es : List Expr) :
    Uniform (BoundAmong es) fun f => listPieces d (Expr.replaceAll es fun i p => f (i, p)) :=
  (uniform_mapM d es).joined (by decide)

theorem uniform_keyPieces (d : Dialect) (k : SortKey) :
    Uniform (BoundIn k.expr.constantAt) fun f => keyPieces d { k with expr := k.expr.replace f } := by
  have hdirected : ∀ word, Plain word → Uniform (BoundIn k.expr.constantAt) fun f =>
      (pieces d (k.expr.replace f)).map (· ++ [.raw word]) := by
    intro word hword
    refine (uniform_pieces d k.expr).map (· ++ [.raw word]) (fun _ _ => fill_append _ _ _) fun h => ?_
    rw [allProper_append, allProper_cons, proper_raw]
    exact ⟨h, hword, allProper_nil⟩
  obtain ⟨e, direction⟩ := k
  cases direction with
  | asc => exact hdirected _ (by decide)
  | desc => exact hdirected _ (by decide)

theorem uniform_mapM_keyPieces (d : Dialect) (keys : List SortKey) :
    AllUniform (BoundAmong (keys.map SortKey.expr)) fun f =>
      (SortKey.replaceAll keys fun i p => f (i, p)).mapM (keyPieces d) := by
  induction keys with
  | nil => exact allUniform_ok [] (by simp)
  | cons k ks ih =>
    simp only [SortKey.replaceAll, List.mapM_cons, List.map_cons]
    exact ((uniform_keyPieces d k).first _).cons (fun ps => ps) (fun _ _ => rfl) (fun h => h) (ih.rest k.expr)

theorem isTrue_replace (e : Expr) {f : Place → Value} (hf : Fills f) : (e.replace f).isTrue = e.isTrue := by
  cases e with
  | path p => rfl
  | app op x args => rfl
  | const v =>
    rw [Expr.replace]
    cases hv : v.isBound with
    | false => rfl
    | true =>
      -- A bound constant is not the constant true, and what is filled in is not either.
      have hnot : (Expr.const v).isTrue = false := by
        cases v <;> first | rfl | cases hv
      have hne := hf []
      rw [if_pos rfl, hnot]
      unfold Expr.isTrue
      split
      · next heq => exact absurd (Expr.const.inj heq) hne
      · rfl

theorem uniform_conditionPieces (d : Dialect) {keyword : String} (hkeyword : Plain keyword) (e : Expr) :
    Uniform (BoundIn e.constantAt) fun f => conditionPieces d keyword (e.replace f) := by
  cases he : e.isTrue with
  | true =>
    refine (uniform_ok _ allProper_nil).congr fun f hf => ?_
    rw [conditionPieces, isTrue_replace e hf, he, if_pos rfl]
    rfl
  | false =>
    have hpieces := (uniform_pieces d e).map (fun ps => .raw keyword :: ps) (fun _ _ => rfl)
      fun h => allProper_cons.mpr ⟨hkeyword, h⟩
    refine hpieces.congr fun f hf => ?_
    rw [conditionPieces, isTrue_replace e hf, he, if_neg Bool.false_ne_true]

theorem uniform_groupPieces (d : Dialect) (es : List Expr) :
    Uniform (BoundAmong es) fun f => groupPieces d (Expr.replaceAll es fun i p => f (i, p)) := by
  cases es with
  | nil => exact uniform_ok [] allProper_nil
  | cons x xs =>
    refine (uniform_listPieces d (x :: xs)).map (fun ps => .raw " GROUP BY " :: ps) (fun _ _ => rfl) fun h => ?_
    rw [allProper_cons, proper_raw]
    exact ⟨by decide, h⟩

theorem uniform_orderPieces (d : Dialect) (keys : List SortKey) :
    Uniform (BoundAmong (keys.map SortKey.expr)) fun f =>
      orderPieces d (SortKey.replaceAll keys fun i p => f (i, p)) := by
  cases keys with
  | nil => exact uniform_ok [] allProper_nil
  | cons k ks =>
    have hkeys := (uniform_mapM_keyPieces d (k :: ks)).joined (show Plain ", " by decide)
    refine (hkeys.map (fun ps => .raw " ORDER BY " :: ps) (fun _ _ => rfl) fun h => ?_).congr fun f _ => ?_
    · rw [allProper_cons, proper_raw]
      exact ⟨by decide, h⟩
    · rw [orderPieces, if_neg (by simp [SortKey.replaceAll])]
      cases (SortKey.replaceAll (k :: ks) fun i p => f (i, p)).mapM (keyPieces d) <;> rfl

theorem plain_select (distinct : Bool) : Plain (if distinct then "SELECT DISTINCT " else "SELECT ") := by
  cases distinct <;> decide

theorem uniform_selectPieces (d : Dialect) (s : Select) :
    Uniform (BoundAmong s.selection.exprs) fun f =>
      selectPieces d { s with selection := s.selection.replace fun i p => f (i, p) } := by
  obtain ⟨selection, distinct⟩ := s
  have hselect : ∀ {P : Nat × Place → Prop} {ps : List (Piece (Nat × Place))}, AllProper P ps →
      AllProper P (.raw (if distinct then "SELECT DISTINCT " else "SELECT ") :: ps) :=
    fun h => allProper_cons.mpr ⟨plain_select distinct, h⟩
  cases selection with
  | entity =>
    have hstar : AllProper (BoundAmong []) [.raw "*"] :=
      allProper_cons.mpr ⟨(by decide : Plain "*"), allProper_nil⟩
    exact uniform_ok [_, .raw "*"] (hselect hstar)
  | scalar e =>
    exact ((uniform_pieces d e).first []).bind fun ps hps => uniform_ok _ (hselect hps)
  | tuple es => exact (uniform_listPieces d es).bind fun ps hps => uniform_ok _ (hselect hps)

theorem uniform_headPieces (d : Dialect) (c : Clauses) :
    Uniform (BoundIn c.constantAt) fun f => headPieces d (c.replace f) := by
  cases h : c.fetch.isEmpty with
  | true =>
    have hselect : Uniform (BoundIn c.constantAt) fun f =>
        selectPieces d { c.select with selection := c.select.selection.replace fun i p => f (.selected i :: p) } :=
      (uniform_selectPieces d c.select).further (fun ip => .selected ip.1 :: ip.2) fun _ hp => hp
    exact hselect.congr fun f _ => if_pos h
  | false =>
    refine (uniform_error (.eagerFetch c.fetch.length)).congr fun f _ => ?_
    have hfetch : ¬ (c.replace f).fetch.isEmpty = true := by
      rw [Clauses.replace, h]
      exact Bool.false_ne_true
    rw [headPieces, if_neg hfetch]
    rfl

theorem plain_pagingText (d : Dialect) (offset limit : Option Nat) : Plain (pagingText d offset limit) := by
  have hempty : Plain "" := by decide
  have hlimit : ∀ n : Nat, Plain (" LIMIT " ++ toString n) :=
    fun n => Plain.append (by decide) (plain_nat n)
  have hoffset : ∀ n : Nat, Plain (" OFFSET " ++ toString n) :=
    fun n => Plain.append (by decide) (plain_nat n)
  cases limit with
  | some n =>
    cases offset with
    | none => exact (hlimit n).append hempty
    | some k => exact (hlimit n).append (hoffset k)
  | none =>
    cases offset with
    | none => exact hempty.append hempty
    | some k =>
      cases d with
      | postgres => exact hempty.append (hoffset k)
      | mysql => exact Plain.append (by decide : Plain " LIMIT 18446744073709551615") (hoffset k)
      | sqlite => exact Plain.append (by decide : Plain " LIMIT -1") (hoffset k)

theorem plain_lockText (d : Dialect) (mode : LockMode) : Plain (lockText d mode) := by
  cases d <;> cases mode <;> decide

theorem uniform_tailPieces (d : Dialect) (c : Clauses) :
    Uniform (BoundIn c.constantAt) fun f => tailPieces d (c.replace f) := by
  have hfilter : Uniform (BoundIn c.constantAt) fun f =>
      conditionPieces d " WHERE " (c.filter.replace fun p => f (.filter :: p)) :=
    (uniform_conditionPieces d (by decide) c.filter).further (Branch.filter :: ·) fun _ hp => hp
  have hgroups : Uniform (BoundIn c.constantAt) fun f =>
      groupPieces d (Expr.replaceAll c.groupBy fun i p => f (.group i :: p)) :=
    (uniform_groupPieces d c.groupBy).further (fun ip => .group ip.1 :: ip.2) fun _ hp => hp
  have hhaving : Uniform (BoundIn c.constantAt) fun f =>
      conditionPieces d " HAVING " (c.having.replace fun p => f (.having :: p)) :=
    (uniform_conditionPieces d (by decide) c.having).further (Branch.having :: ·) fun _ hp => hp
  have horder : Uniform (BoundIn c.constantAt) fun f =>
      orderPieces d (SortKey.replaceAll c.orderBy fun i p => f (.sortKey i :: p)) :=
    (uniform_orderPieces d c.orderBy).further (fun ip => .sortKey ip.1 :: ip.2) fun _ hp => hp
  have hlast := (plain_pagingText d c.offset c.limit).append (plain_lockText d c.lock)
  refine hfilter.bind fun filter hf => hgroups.bind fun groups hg => hhaving.bind fun having hh =>
    horder.bind fun order ho => ?_
  refine (uniform_ok (filter ++ groups ++ having ++ order ++
    [.raw (pagingText d c.offset c.limit ++ lockText d c.lock)]) ?_).congr fun f _ => ?_
  · simp only [allProper_append, allProper_cons, proper_raw, allProper_nil, and_true]
    exact ⟨⟨⟨⟨hf, hg⟩, hh⟩, ho⟩, hlast⟩
  · simp only [fill_append, fill_raw, fill_nil]
    rfl

/-! ## Queries -/

/-- Constants in the clauses of a nested query are constants of the query. -/
theorem boundIn_nested (inner : Query) {c : Clauses} (p : Place) (h : BoundIn c.constantAt p) :
    BoundIn (Query.nested inner c).constantAt p := by
  obtain ⟨v, hv, hbound⟩ := h
  refine ⟨v, ?_, hbound⟩
  match p with
  | .source :: p => cases hv
  | [] => cases hv
  | .selected i :: p | .filter :: p | .group i :: p | .having :: p | .sortKey i :: p | .operand :: p
  | .argument i :: p => exact hv

/-- The pieces of a query are uniform in the constants that are bound. -/
theorem uniform_queryPieces (d : Dialect) (depth : Nat) (q : Query) :
    Uniform (BoundIn q.constantAt) fun f => queryPieces d depth (q.replace f) := by
  -- On the queries that are sources, for any depth, as they are named by it.
  induction q generalizing depth with
  | table name c =>
    refine (uniform_headPieces d c).bind fun head hh => (uniform_tailPieces d c).bind fun tail ht => ?_
    refine (uniform_ok (head ++ [.raw " FROM ", .name name] ++ tail) ?_).congr fun f _ => ?_
    · simp only [allProper_append, allProper_cons, proper_raw, proper_name, allProper_nil, and_true]
      exact ⟨⟨hh, by decide⟩, ht⟩
    · simp only [fill_append, fill_raw, fill_name, fill_nil]
  | nested inner c ih =>
    have hhead := (uniform_headPieces d c).imp (boundIn_nested inner)
    have htail := (uniform_tailPieces d c).imp (boundIn_nested inner)
    have hsource : Uniform (BoundIn (Query.nested inner c).constantAt) fun f =>
        queryPieces d (depth + 1) (inner.replace fun p => f (.source :: p)) :=
      (ih (depth + 1)).further (Branch.source :: ·) fun _ hp => hp
    refine hhead.bind fun head hh => hsource.bind fun source hs => htail.bind fun tail ht => ?_
    refine (uniform_ok (head ++ .raw " FROM (" :: source ++ [.raw ") AS ", .name (nestedName depth)] ++ tail)
      ?_).congr fun f _ => ?_
    · simp only [List.append_assoc, List.cons_append, allProper_append, allProper_cons, proper_raw, proper_name,
        allProper_nil, true_and]
      exact ⟨hh, by decide, hs, by decide, ht⟩
    · simp only [fill_append, fill_raw, fill_name, fill_nil]

/-! ## Statements -/

section

variable {L : Type} {f : L → Value}

theorem fill_bound (hf : ∀ l, (f l).isBound = true) (l : L) (ps : List (Piece L)) :
    fill f (.bound l :: ps) = .bound (f l) :: fill f ps :=
  congrArg (· :: fill f ps) (value_of_isBound (hf l))

/-- What is filled in is not part of the text if it is bound. -/
theorem textFrom_fill (hf : ∀ l, (f l).isBound = true) (d : Dialect) (index : Nat) (ps : List (Piece L)) :
    textFrom d index (fill f ps) = textFrom d index ps := by
  -- On the pieces, from any number on; a place moves the numbering by one, whatever is filled in.
  induction ps generalizing index with
  | nil => rfl
  | cons p ps ih =>
    cases p with
    | raw s => simp only [fill_raw, textFrom, ih]
    | name s => simp only [fill_name, textFrom, ih]
    | bound l => simp only [fill_bound hf, textFrom, ih]

theorem bindings_fill (hf : ∀ l, (f l).isBound = true) (ps : List (Piece L)) :
    bindings (fill f ps) = (bindings ps).map f := by
  induction ps with
  | nil => rfl
  | cons p ps ih =>
    cases p with
    | raw s => exact ih
    | name s => exact ih
    | bound l => simp only [fill_bound hf, bindings, ih, List.map_cons]

theorem of_mem_bindings {P : L → Prop} {ps : List (Piece L)} (h : AllProper P ps) {l : L} (hl : l ∈ bindings ps) :
    P l := by
  induction ps with
  | nil => cases hl
  | cons p ps ih =>
    obtain ⟨hp, hps⟩ := allProper_cons.mp h
    cases p with
    | raw s => exact ih hps hl
    | name s => exact ih hps hl
    | bound k =>
      rcases List.mem_cons.mp hl with rfl | hl
      · exact hp
      · exact ih hps hl

end

/-- The pieces with integers written out at the places. -/
def writeOut (n : Place → Int64) (ps : List (Piece Place)) : List (Piece Value) :=
  ps.map (Piece.into fun p => .raw (Value.long (n p)).literal)

theorem bindings_writeOut (n : Place → Int64) (ps : List (Piece Place)) : bindings (writeOut n ps) = [] := by
  induction ps with
  | nil => rfl
  | cons p ps ih => cases p <;> exact ih

/-- After the pieces before it, each placeholder is written with the number that comes next. -/
theorem text_placeholder {L : Type} (d : Dialect) (before : List (Piece L)) (l : L) (after : List (Piece L)) :
    text d (before ++ .bound l :: after) = text d before ++ d.placeholder ((bindings before).length + 1) ++
      textFrom d ((bindings before).length + 1) after := by
  rw [text, textFrom_append, Nat.zero_add, textFrom, String.append_assoc]
  rfl

/-- The statement has the text of the pieces, in which placeholders are numbered in order, and each is bound
to the constant of the query that stands at its place. -/
structure Binds (d : Dialect) (ps : List (Piece Place)) (q : Query) (s : Statement) : Prop where
  sql_eq : s.sql = text d ps
  numbered : ∀ before p after, ps = before ++ .bound p :: after →
    ∃ rest, s.sql = text d before ++ d.placeholder ((bindings before).length + 1) ++ rest
  params_eq : s.params.map some = (bindings ps).map q.constantAt

/-- A statement whose places are filled with the constants of a query. -/
theorem binds_fill (d : Dialect) {ps : List (Piece Place)} {q : Query}
    (h : ∀ p ∈ bindings ps, BoundIn q.constantAt p) :
    Binds d ps q (.ofPieces d (fill (fun p => .boundOr (q.constantAt p)) ps)) where
  sql_eq := textFrom_fill (fun p => Value.isBound_boundOr (q.constantAt p)) d 0 ps
  numbered before p after hps := by
    subst hps
    exact ⟨_, (textFrom_fill (fun p => Value.isBound_boundOr (q.constantAt p)) d 0 _).trans
      (text_placeholder d before p after)⟩
  params_eq := by
    rw [Statement.ofPieces, bindings_fill fun p => Value.isBound_boundOr (q.constantAt p), List.map_map]
    apply List.map_congr_left
    intro p hp
    obtain ⟨v, hv, hbound⟩ := h p hp
    rw [Function.comp_apply, hv, Value.boundOr_some hbound]

theorem fills_of_isBound {f : Place → Value} (hf : ∀ p, (f p).isBound = true) : Fills f := by
  intro p hp
  have h := hf p
  rw [hp] at h
  cases h

/-- Bound constants never reach the text. Two queries that are the same but for them are refused for one
reason, or there are pieces that both are written with:

1. The text is that of the pieces for both, and its placeholders, one for each parameter, are bound to the
   constants that stand at the same places of the one query and of the other.
2. There are no other placeholders in the text, as none of what stands between them holds a mark of one.
3. The placeholders are where the constants would be: integers in the places of the constants, which are
   written out, come out just where the placeholders are. -/
theorem render_alike (d : Dialect) {q q' : Query} (h : q.Alike q') :
    (∃ e, render d q = .error e ∧ render d q' = .error e) ∨
    ∃ (s s' : Statement) (ps : List (Piece Place)), render d q = .ok s ∧ render d q' = .ok s' ∧
      s.sql = s'.sql ∧ s.params.length = s'.params.length ∧ s.params.length = (bindings ps).length ∧
      Binds d ps q s ∧ Binds d ps q' s' ∧
      (∀ t, .raw t ∈ ps → Plain t) ∧
      ∀ n : Place → Int64, render d (q.replace fun p => .long (n p)) = .ok ⟨text d (writeOut n ps), []⟩ := by
  -- One skeleton serves both queries, each of which is the first with its own constants filled in.
  obtain ⟨x, hskeleton, hproper⟩ := uniform_queryPieces d 0 q
  have hx : ∀ f, Fills f → queryPieces d 0 (q.replace f) = x.map (fill f) := hskeleton
  have hq := hx _ (fills_of_isBound fun p => Value.isBound_boundOr (q.constantAt p))
  have hq' := hx _ (fills_of_isBound fun p => Value.isBound_boundOr (q'.constantAt p))
  rw [← (Query.Alike.refl q).eq_replace] at hq
  rw [← h.eq_replace] at hq'
  cases x with
  | error e =>
    refine .inl ⟨e, ?_, ?_⟩
    · rw [render, hq]
      rfl
    · rw [render, hq']
      rfl
  | ok ps =>
    have hbound : ∀ p ∈ bindings ps, BoundIn q.constantAt p := fun p hp => of_mem_bindings (hproper ps rfl) hp
    have hbound' : ∀ p ∈ bindings ps, BoundIn q'.constantAt p := by
      intro p hp
      obtain ⟨v, hv, hb⟩ := hbound p hp
      exact h.constantAt hv hb
    have hs := binds_fill d hbound
    have hs' := binds_fill d hbound'
    have hlen := congrArg List.length hs.params_eq
    have hlen' := congrArg List.length hs'.params_eq
    rw [List.length_map, List.length_map] at hlen hlen'
    refine .inr ⟨_, _, ps, ?_, ?_, hs.sql_eq.trans hs'.sql_eq.symm, hlen.trans hlen'.symm, hlen, hs, hs',
      fun t ht => hproper ps rfl _ ht, fun n => ?_⟩
    · rw [render, hq]
      rfl
    · rw [render, hq']
      rfl
    · rw [render, hx (fun p => .long (n p)) nofun]
      have hwritten : fill (fun p => .long (n p)) ps = writeOut n ps := rfl
      simp only [Except.map, hwritten, Statement.ofPieces, bindings_writeOut]

/-- The notes of a user: in a nested query, those that hold a text and have none of no tags. -/
def notesOf (user text : Value) : Query :=
  ((Query.ofQuery ((Query.ofTable "notes").withFilter (.app .eq (.path (.single "body")) [.const text]))).withFilter
    (.app .and (.app .eq (.path (.single "user")) [.const user]) [.app .isNotIn (.const text) []])).withSelect
    (.scalar (.app .coalesce (.path (.single "title")) [.const text]))

theorem render_alike_notes :
    (notesOf (.text "ann") (.text "x")).Alike (notesOf (.bytes [39, 59]) (.double 1)) ∧
    (render .postgres (notesOf (.text "ann") (.text "x"))).map Statement.sql =
      (render .postgres (notesOf (.bytes [39, 59]) (.double 1))).map Statement.sql := by
  have h : (notesOf (.text "ann") (.text "x")).Alike (notesOf (.bytes [39, 59]) (.double 1)) := by
    refine ⟨⟨rfl, { Clauses.Alike.refl _ with filter := ?_ }⟩,
      { Clauses.Alike.refl _ with selection := ?_, filter := ?_ }⟩
    · exact ⟨rfl, rfl, .inr ⟨rfl, rfl⟩, trivial⟩
    · exact ⟨rfl, rfl, .inr ⟨rfl, rfl⟩, trivial⟩
    · exact ⟨rfl, ⟨rfl, rfl, .inr ⟨rfl, rfl⟩, trivial⟩, ⟨rfl, .inr ⟨rfl, rfl⟩, trivial⟩, trivial⟩
  refine ⟨h, ?_⟩
  rcases render_alike .postgres h with ⟨e, hs, hs'⟩ | ⟨s, s', ps, hs, hs', hsql, _⟩
  · rw [hs, hs']
  · rw [hs, hs', Except.map, Except.map, hsql]

end TableQuery.Sql
