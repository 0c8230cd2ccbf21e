import Mathlib.Data.List.Forall2
import Mathlib.Data.List.Induction
import Mathlib.Data.List.Infix
import TableQuery.Filter.Stage
import TableQuery.Proofs.Expr.NormalForm

/- Matching with wildcards is exact. A pattern says how a text may be cut, one piece for each of its
   characters (`Matches`), and the rows of the matcher tell of each prefix of the pattern whether what has
   been read can be cut in that way:

     1. `matches_append`: what a pattern in two parts says is what its parts say of a text in two parts.
     2. `likeEmpty_tells`, `likeNext_tells`: the first row is right of the empty text, and each next row is
        right of one character more, given the row before it.
     3. `likeRow_tells`: so the last row is right of the whole text.

   The tests for a beginning, an end and a part of a text are such patterns (`like_cuts_text`). -/
namespace TableQuery

namespace Text

/-! ## Cutting a text -/

/-- What a character of a pattern may stand for. -/
def StandsFor (p : Char) (piece : List Char) : Prop :=
  if p = '%' then True else if p = '_' then ∃ c, piece = [c] else piece = [p]

/-- The text can be cut into consecutive pieces, one for each character of the pattern. -/
def Matches (pattern text : List Char) : Prop :=
  ∃ pieces, text = pieces.flatten ∧ List.Forall₂ StandsFor pattern pieces

/-- None of the characters is a wildcard. -/
def Literal (cs : List Char) : Prop :=
  ∀ c ∈ cs, c ≠ '%' ∧ c ≠ '_'

theorem standsFor_percent (piece : List Char) : StandsFor '%' piece :=
  trivial

theorem standsFor_iff {p : Char} (hp : p ≠ '%') {piece : List Char} :
    StandsFor p piece ↔ ∃ c, piece = [c] ∧ (p = '_' ∨ p = c) := by
  rw [StandsFor, if_neg hp]
  by_cases hany : p = '_'
  · simp [hany]
  · simp [hany]

variable {p c : Char} {ps qs s t : List Char}

theorem matches_nil : Matches [] s ↔ s = [] := by
  simp [Matches]

theorem matches_cons : Matches (p :: ps) s ↔ ∃ piece rest, s = piece ++ rest ∧ StandsFor p piece ∧ Matches ps rest := by
  constructor
  · intro h
    obtain ⟨pieces, hs, hpieces⟩ := h
    obtain ⟨piece, pieces', hp, hps, heq⟩ := List.forall₂_cons_left_iff.mp hpieces
    rw [heq, List.flatten_cons] at hs
    exact ⟨piece, pieces'.flatten, hs, hp, pieces', rfl, hps⟩
  · intro h
    obtain ⟨piece, rest, hs, hp, pieces, hrest, hps⟩ := h
    refine ⟨piece :: pieces, ?_, .cons hp hps⟩
    rw [hs, hrest, List.flatten_cons]

theorem matches_append : Matches (ps ++ qs) s ↔ ∃ t u, s = t ++ u ∧ Matches ps t ∧ Matches qs u := by
  induction ps generalizing s with
  | nil => simp [matches_nil]
  | cons p ps ih =>
    rw [List.cons_append, matches_cons]
    constructor
    · intro h
      obtain ⟨piece, rest, hs, hp, hrest⟩ := h
      obtain ⟨t, u, heq, ht, hu⟩ := ih.mp hrest
      refine ⟨piece ++ t, u, ?_, matches_cons.mpr ⟨piece, t, rfl, hp, ht⟩, hu⟩
      rw [hs, heq, List.append_assoc]
    · intro h
      obtain ⟨t, u, hs, ht, hu⟩ := h
      obtain ⟨piece, rest, heq, hp, hrest⟩ := matches_cons.mp ht
      refine ⟨piece, rest ++ u, ?_, hp, ih.mpr ⟨rest, u, rfl, hrest, hu⟩⟩
      rw [hs, heq, List.append_assoc]

theorem matches_snoc : Matches (ps ++ [p]) s ↔
    ∃ rest piece, s = rest ++ piece ∧ Matches ps rest ∧ StandsFor p piece := by
  simp [matches_append, matches_cons, matches_nil]

/-- A pattern without wildcards matches itself alone. -/
theorem matches_literal (h : Literal t) : Matches t s ↔ s = t := by
  induction t generalizing s with
  | nil => exact matches_nil
  | cons p ps ih =>
    obtain ⟨hpercent, hany⟩ := h p List.mem_cons_self
    have hps : Literal ps := fun c hc => h c (List.mem_cons_of_mem p hc)
    simp only [matches_cons, StandsFor, if_neg hpercent, if_neg hany, ih hps]
    constructor
    · intro h
      obtain ⟨piece, rest, hs, hp, hrest⟩ := h
      rw [hs, hp, hrest, List.singleton_append]
    · intro h
      exact ⟨[p], ps, h, rfl, rfl⟩

theorem matches_percent : Matches ['%'] s := by
  rw [matches_cons]
  exact ⟨s, [], (List.append_nil s).symm, standsFor_percent s, matches_nil.mpr rfl⟩

/-! ## What a cell depends on -/

theorem matches_empty_iff : Matches (ps ++ [p]) [] ↔ Matches ps [] ∧ p = '%' := by
  rw [matches_snoc]
  constructor
  · intro h
    obtain ⟨rest, piece, heq, hrest, hp⟩ := h
    obtain ⟨hnil, hpiece⟩ := List.append_eq_nil_iff.mp heq.symm
    rw [hnil] at hrest
    refine ⟨hrest, ?_⟩
    -- All characters but one stand for a piece that is not empty.
    by_contra hne
    obtain ⟨c, hc, _⟩ := (standsFor_iff hne).mp hp
    rw [hpiece] at hc
    cases hc
  · intro h
    obtain ⟨hps, hp⟩ := h
    refine ⟨[], [], rfl, hps, ?_⟩
    rw [hp]
    exact standsFor_percent []

/-- The wildcard for any text stands for nothing, or for the last character and what stands before it. -/
theorem matches_percent_iff :
    Matches (ps ++ ['%']) (s ++ [c]) ↔ Matches ps (s ++ [c]) ∨ Matches (ps ++ ['%']) s := by
  constructor
  · intro h
    obtain ⟨rest, piece, heq, hrest, _⟩ := matches_snoc.mp h
    rcases List.eq_nil_or_concat piece with hpiece | ⟨shorter, d, hpiece⟩
    · rw [hpiece, List.append_nil] at heq
      exact .inl (heq ▸ hrest)
    · rw [hpiece, List.concat_eq_append, ← List.append_assoc] at heq
      obtain ⟨hs, _⟩ := List.append_inj' heq rfl
      exact .inr (matches_snoc.mpr ⟨rest, shorter, hs, hrest, standsFor_percent shorter⟩)
  · intro h
    apply matches_snoc.mpr
    rcases h with h | h
    · exact ⟨s ++ [c], [], (List.append_nil _).symm, h, standsFor_percent []⟩
    · obtain ⟨rest, piece, hs, hrest, _⟩ := matches_snoc.mp h
      refine ⟨rest, piece ++ [c], ?_, hrest, standsFor_percent _⟩
      rw [hs, List.append_assoc]

/-- Every other character stands for the last one. -/
theorem matches_single_iff (hp : p ≠ '%') :
    Matches (ps ++ [p]) (s ++ [c]) ↔ (p = '_' ∨ p = c) ∧ Matches ps s := by
  rw [matches_snoc]
  constructor
  · intro h
    obtain ⟨rest, piece, heq, hrest, hpiece⟩ := h
    obtain ⟨d, hd, hstands⟩ := (standsFor_iff hp).mp hpiece
    rw [hd] at heq
    obtain ⟨hs, hc⟩ := List.append_inj' heq rfl
    rw [List.singleton_inj] at hc
    rw [hs, hc]
    exact ⟨hstands, hrest⟩
  · intro h
    obtain ⟨hstands, hps⟩ := h
    exact ⟨s, [c], rfl, hps, (standsFor_iff hp).mpr ⟨c, rfl, hstands⟩⟩

/-! ## Rows -/

/-- The prefixes of a pattern that are longer than its first part. -/
def longer (done : List Char) : List Char → List (List Char)
  | [] => []
  | p :: ps => (done ++ [p]) :: longer (done ++ [p]) ps

/-- The cell tells whether the prefix of the pattern matches the text. -/
def Tells (text pre : List Char) (cell : Bool) : Prop :=
  cell = true ↔ Matches pre text

variable {done : List Char} {before : Bool} {row : List Bool}

theorem likeEmpty_tells (h : Tells [] done before) (ps : List Char) :
    List.Forall₂ (Tells []) (longer done ps) (likeEmpty before ps) := by
  induction ps generalizing done before with
  | nil => exact .nil
  | cons p ps ih =>
    have hhere : Tells [] (done ++ [p]) (before && p == '%') := by
      rw [Tells] at h ⊢
      rw [matches_empty_iff, Bool.and_eq_true, beq_iff_eq, h]
    exact .cons hhere (ih hhere)

/-- A cell of the next row: the prefix that ends in `p`, of the text with one character more. -/
theorem nextCell_tells {shorter same : Bool} (hbefore : Tells (s ++ [c]) done before) (hshorter : Tells s done shorter)
    (hsame : Tells s (done ++ [p]) same) :
    Tells (s ++ [c]) (done ++ [p]) (if p == '%' then before || same else (p == '_' || p == c) && shorter) := by
  rw [Tells] at hbefore hshorter hsame ⊢
  by_cases hp : p = '%'
  · subst hp
    rw [if_pos (beq_self_eq_true '%'), Bool.or_eq_true, hbefore, hsame, matches_percent_iff]
  · rw [if_neg (by simpa using hp), Bool.and_eq_true, Bool.or_eq_true, beq_iff_eq, beq_iff_eq, hshorter,
      matches_single_iff hp]

theorem likeNext_tells (hbefore : Tells (s ++ [c]) done before)
    (h : List.Forall₂ (Tells s) (done :: longer done ps) row) :
    List.Forall₂ (Tells (s ++ [c])) (longer done ps) (likeNext c before ps row) := by
  -- On the rest of the pattern; the cell that has just been made is the one before the next.
  induction ps generalizing done before row with
  | nil =>
    cases row with
    | nil => exact .nil
    | cons b row => exact .nil
  | cons p ps ih =>
    obtain ⟨shorter, rest, hshorter, hrest, hrow⟩ := List.forall₂_cons_left_iff.mp h
    obtain ⟨same, rest', hsame, hrest', hrow'⟩ := List.forall₂_cons_left_iff.mp hrest
    rw [hrow, hrow', likeNext]
    have hhere := nextCell_tells hbefore hshorter hsame
    exact .cons hhere (ih hhere (.cons hsame hrest'))

/-- The row of a text is right of all prefixes of the pattern. -/
theorem likeRow_tells (pattern text : List Char) :
    List.Forall₂ (Tells text) ([] :: longer [] pattern) (likeRow pattern text) := by
  -- On the text from its end, since the last character makes the last row.
  induction text using List.reverseRecOn with
  | nil =>
    have hempty : Tells [] [] true := by simp [Tells, matches_nil]
    exact .cons hempty (likeEmpty_tells hempty pattern)
  | append_singleton s c ih =>
    have hnone : Tells (s ++ [c]) [] false := by simp [Tells, matches_nil]
    rw [likeRow, List.foldl_append]
    exact .cons hnone (likeNext_tells hnone ih)

/-- The last cell of a row is that of the whole pattern. -/
theorem last_tells (h : List.Forall₂ (Tells s) (done :: longer done ps) row) :
    Tells s (done ++ ps) (row.getLastD false) := by
  induction ps generalizing done row with
  | nil =>
    obtain ⟨b, rest, hb, hrest, hrow⟩ := List.forall₂_cons_left_iff.mp h
    rw [longer, List.forall₂_nil_left_iff] at hrest
    rw [hrow, hrest, List.append_nil]
    exact hb
  | cons p ps ih =>
    obtain ⟨b, rest, _, hrest, hrow⟩ := List.forall₂_cons_left_iff.mp h
    have hlast := ih hrest
    obtain ⟨b', rest', _, _, hrow'⟩ := List.forall₂_cons_left_iff.mp hrest
    rw [List.append_assoc, List.singleton_append, hrow'] at hlast
    rw [hrow, hrow']
    exact hlast

theorem like_iff (text pattern : String) : like text pattern = true ↔ Matches pattern.toList text.toList :=
  last_tells (likeRow_tells pattern.toList text.toList)

/-! ## Beginnings, ends and parts -/

section

variable {text lit : String} (h : Literal lit.toList)

include h

theorem like_startsWith : like text (lit ++ "%") = true ↔ lit.toList <+: text.toList := by
  rw [like_iff, String.toList_append, matches_append]
  simp only [matches_literal h]
  constructor
  · intro h
    obtain ⟨t, u, htext, ht, _⟩ := h
    exact ⟨u, by rw [htext, ht]⟩
  · intro h
    obtain ⟨u, htext⟩ := h
    exact ⟨lit.toList, u, htext.symm, rfl, matches_percent⟩

theorem like_endsWith : like text ("%" ++ lit) = true ↔ lit.toList <:+ text.toList := by
  rw [like_iff, String.toList_append, matches_append]
  simp only [matches_literal h]
  constructor
  · intro h
    obtain ⟨t, u, htext, _, hu⟩ := h
    exact ⟨t, by rw [htext, hu]⟩
  · intro h
    obtain ⟨t, htext⟩ := h
    exact ⟨t, lit.toList, htext.symm, matches_percent, rfl⟩

theorem like_contains : like text ("%" ++ lit ++ "%") = true ↔ lit.toList <:+: text.toList := by
  rw [like_iff, String.toList_append, String.toList_append, matches_append]
  simp only [matches_append, matches_literal h]
  constructor
  · intro h
    obtain ⟨_, u, htext, ⟨t, v, hleft, _, hv⟩, _⟩ := h
    exact ⟨t, u, by rw [htext, hleft, hv]⟩
  · intro h
    obtain ⟨t, u, htext⟩ := h
    exact ⟨t ++ lit.toList, u, htext.symm, ⟨t, lit.toList, rfl, matches_percent, rfl⟩, matches_percent⟩

end

end Text

namespace Memory

theorem eval_like {x : Expr} {scope : Scope} {v : Value} {s : String} (hx : eval x scope = .ok v)
    (hs : v.asText? = some s) (pattern : String) :
    eval (x.operate .like [.const (.text pattern)]) scope = .ok (.bool (Text.like s pattern)) := by
  have hlike : Expr.Settled .like x := ⟨fun h => absurd h (by decide), fun h => absurd h (by decide)⟩
  have hpattern : (Value.text pattern).asText? = some pattern := rfl
  rw [Expr.operate_of_settled hlike]
  simp only [eval, evalAll, Operator.isAggregate, Bool.false_eq_true, if_false, hx, bind, Except.bind,
    Value.applyOperator, Value.matchesLike, List.headD_cons, hs, hpattern]
  cases Text.like s pattern <;> rfl

/-- Matching with wildcards is exact: a text matches a pattern where it can be cut into one piece for each
character of the pattern, any piece for `%`, a single character for `_` and the character itself for any other.
So the tests of a chain for a beginning, an end and a part, of a text without wildcards, are true of just the
values whose texts begin with it, end in it and hold it. -/
theorem like_cuts_text :
    (∀ text pattern : String, Text.like text pattern = true ↔
      ∃ pieces : List (List Char), text.toList = pieces.flatten ∧ List.Forall₂ Text.StandsFor pattern.toList pieces) ∧
    ∀ (c : Chain) (t s : String) (scope : Scope) (v : Value), Text.Literal t.toList →
      eval c.current scope = .ok v → v.asText? = some s →
      eval (c.test (.startsWith t)).current scope = .ok (.bool (decide (t.toList <+: s.toList))) ∧
      eval (c.test (.endsWith t)).current scope = .ok (.bool (decide (t.toList <:+ s.toList))) ∧
      eval (c.test (.contains t)).current scope = .ok (.bool (decide (t.toList <:+: s.toList))) := by
  refine ⟨Text.like_iff, ?_⟩
  intro c t s scope v ht hv hs
  have hcondition : ∀ {pattern : String} {P : Prop} [Decidable P], (Text.like s pattern = true ↔ P) →
      eval (c.like pattern).current scope = .ok (.bool (decide P)) := by
    intro pattern P _ hP
    rw [Chain.like, Chain.apply, eval_like hv hs, ← Bool.decide_coe (Text.like s pattern)]
    simp only [hP]
  refine ⟨?_, ?_, ?_⟩
  · exact hcondition (Text.like_startsWith ht)
  · exact hcondition (Text.like_endsWith ht)
  · exact hcondition (Text.like_contains ht)

/-- There is more than one way to cut, and the first `ss` leads nowhere. -/
example : Text.like "mississippi" "m%ss_pp%" = true := by decide

def titled (title : String) : Scope :=
  .row ⟨["title"], [.text title]⟩

theorem like_cuts_text_theatre :
    Text.Literal "the".toList ∧
    eval (.path (.single "title")) (titled "the other theatre") = .ok (.text "the other theatre") ∧
    (Value.text "the other theatre").asText? = some "the other theatre" ∧
    eval ((Chain.start (.path (.single "title"))).test (.startsWith "the")).current (titled "the other theatre") =
      .ok (.bool true) ∧
    eval ((Chain.start (.path (.single "title"))).test (.endsWith "the")).current (titled "the other theatre") =
      .ok (.bool false) ∧
    eval ((Chain.start (.path (.single "title"))).test (.contains "the")).current (titled "the other theatre") =
      .ok (.bool true) := by
  have hliteral : Text.Literal "the".toList := by simp [Text.Literal]
  have hvalue : eval (.path (.single "title")) (titled "the other theatre") = .ok (.text "the other theatre") := rfl
  have htext : (Value.text "the other theatre").asText? = some "the other theatre" := rfl
  obtain ⟨hstarts, hends, hcontains⟩ :=
    like_cuts_text.2 (Chain.start (.path (.single "title"))) "the" _ (titled "the other theatre") _ hliteral hvalue
      htext
  refine ⟨hliteral, hvalue, htext, ?_, ?_, ?_⟩
  · rw [hstarts, decide_eq_true (by decide)]
  · rw [hends, decide_eq_false (by decide)]
  · rw [hcontains, decide_eq_true (by decide)]

end Memory

end TableQuery
