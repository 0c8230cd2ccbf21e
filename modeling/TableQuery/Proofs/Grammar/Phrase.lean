import TableQuery.Proofs.Grammar.Lexer

/- Phrases: expressions as they are written, with their parentheses. A phrase that keeps to the ranks of its
   grammar (`Fits`) is read as the expression that it stands for (`read_tokens`).

   While a phrase is read, operators that it ends with may still be open. So what is preserved is what the
   next sign will find: after the phrase, as soon as the frames below its rank have been completed, the stack
   is the one from before, with the expression of the phrase in hand (`Holds`). -/
namespace TableQuery.Grammar

inductive Phrase where
  | leaf (x : Expr)
  /-- `1 = 1`, or `1 = 0` -/
  | fixed (b : Bool)
  /-- A phrase in parentheses. -/
  | group (p : Phrase)
  | op (o : Operator) (operand : Phrase) (args : List Phrase)

/-- The words of a sign. -/
def words (g : Grammar) : Operator → List String
  | .notLike => ["NOT", "LIKE"]
  | .isNotIn => ["NOT", "IN"]
  | .isNull => ["IS", "NULL"]
  | .isNotNull => ["IS", "NOT", "NULL"]
  | op => [g.sign op]

def signTokens (g : Grammar) (op : Operator) : List Token :=
  (g.words op).map .mark

/-- Parts with `separator` between them. -/
def separated {α : Type} (separator : List α) : List (List α) → List α
  | [] => []
  | part :: parts => part ++ parts.flatMap fun part => separator ++ part

/-- Sign, operand and arguments in the layout of the operator. -/
def arrange (g : Grammar) (op : Operator) (operand : List Token) (args : List (List Token)) : List Token :=
  match g.layout op with
  | .before => .mark (g.sign op) :: operand
  | .after => operand ++ g.signTokens op
  | .infixed => separated (g.signTokens op) (operand :: args)
  | .call => .call op :: separated [.comma] (operand :: args) ++ [.closing]
  | .list => operand ++ g.signTokens op ++ .opening :: separated [.comma] args ++ [.closing]
  | .range => operand ++ g.signTokens op ++ separated [.mark "AND"] args

/-- Constants that are words are read as marks. -/
def leafToken : Expr → Token
  | .const .null => .mark "NULL"
  | .const (.bool true) => .mark "TRUE"
  | .const (.bool false) => .mark "FALSE"
  | x => .operand x

def one : Expr := .const (.long 1)

def ofBit (b : Bool) : Expr := .const (.long (if b then 1 else 0))

namespace Phrase

def rank (g : Grammar) : Phrase → Nat
  | leaf _ | group _ => 0
  | fixed _ => g.rank .eq
  | op o _ _ => g.rank o

mutual

/-- The expression that the phrase stands for. -/
def expr : Phrase → Expr
  | leaf x => x
  | fixed b => .app .eq one [ofBit b]
  | group p => p.expr
  | op o x args => .app o x.expr (exprs args)

def exprs : List Phrase → List Expr
  | [] => []
  | p :: ps => p.expr :: exprs ps

end

mutual

def tokens (g : Grammar) : Phrase → List Token
  | leaf x => [leafToken x]
  | fixed b => [leafToken one, .mark "=", leafToken (ofBit b)]
  | group p => .opening :: p.tokens g ++ [.closing]
  | op o x args => g.arrange o (x.tokens g) (tokensAll g args)

def tokensAll (g : Grammar) : List Phrase → List (List Token)
  | [] => []
  | p :: ps => p.tokens g :: tokensAll g ps

end

theorem exprs_eq_map (ps : List Phrase) : exprs ps = ps.map expr := by
  induction ps with
  | nil => rfl
  | cons p ps ih => rw [exprs, ih, List.map_cons]

theorem tokensAll_eq_map (g : Grammar) (ps : List Phrase) : tokensAll g ps = ps.map (tokens g) := by
  induction ps with
  | nil => rfl
  | cons p ps ih => rw [tokensAll, ih, List.map_cons]

end Phrase

/-! ## Phrases of a grammar -/

/-- A word that is no keyword. -/
def isName (s : String) : Bool :=
  match s.toList with
  | [] => false
  | c :: cs => isLetter c && cs.all (fun c => isLetter c || c.isDigit) && !keywords.contains s

/-- A constant or a path that can be read back. -/
def legible (g : Grammar) : Expr → Bool
  | .const (.int _) => false
  | .const (.null) | .const (.bool _) | .const (.long _) | .const (.text _) => true
  | .const _ => g ≠ .text
  | .path p => if g = .text then p.names.all isName else p.rest.isEmpty
  | .app .. => false

/-- The phrase can follow a minus sign directly, as it does not begin with a digit, nor with a minus sign that
would make a comment. -/
def Phrase.canFollowMinus (g : Grammar) : Phrase → Bool
  | leaf (.const (.long _)) | fixed _ => false
  | leaf _ | group _ => true
  | op o _ _ => g.layout o == .call || (g == .text && o == .neg)

/-- The phrase is one of the grammar: what stands in an operation without parentheses binds tightly enough. -/
inductive Fits (g : Grammar) : Phrase → Prop where
  | leaf {x : Expr} : g.legible x → Fits g (.leaf x)
  | fixed (b : Bool) : Fits g (.fixed b)
  | group {p : Phrase} : Fits g p → Fits g (.group p)
  | before {o : Operator} {x : Phrase} : g.layout o = .before → Fits g x → x.rank g ≤ g.rank o →
      (o = .neg → x.canFollowMinus g) → Fits g (.op o x [])
  | after {o : Operator} {x : Phrase} : g.layout o = .after → Fits g x → x.rank g < g.closes o →
      Fits g (.op o x [])
  | infixed {o : Operator} {x y : Phrase} {ys : List Phrase} : g.layout o = .infixed → Fits g x →
      x.rank g < g.closes o → (∀ z ∈ y :: ys, Fits g z) → (∀ z ∈ y :: ys, z.rank g < g.rank o) →
      (ys ≠ [] → o.chains) → Fits g (.op o x (y :: ys))
  | call {o : Operator} {x : Phrase} {ys : List Phrase} : g.layout o = .call → (∀ z ∈ x :: ys, Fits g z) →
      Fits g (.op o x ys)
  | list {o : Operator} {x : Phrase} {ys : List Phrase} : g.layout o = .list → Fits g x →
      x.rank g < g.closes o → (∀ z ∈ ys, Fits g z) → Fits g (.op o x ys)
  | range {o : Operator} {x low high : Phrase} : g.layout o = .range → Fits g x → x.rank g < g.closes o →
      Fits g low → low.rank g < g.rank o → Fits g high → high.rank g < g.rank o → Fits g (.op o x [low, high])

/-! ## Reading phrases -/

def run (g : Grammar) (s : Reader) (ts : List Token) : Option Reader :=
  ts.foldlM g.step s

variable {g : Grammar} {o : Operator} {fs : List Frame} {x y z : Expr} {r r' : Nat} {s : Option Reader}

theorem run_append (s : Reader) (ts us : List Token) : g.run s (ts ++ us) = (g.run s ts).bind (g.run · us) :=
  List.foldlM_append

theorem run_cons (s : Reader) (t : Token) (ts : List Token) : g.run s (t :: ts) = (g.step s t).bind (g.run · ts) :=
  List.foldlM_cons

/-- The reader has `x` in hand on the stack `fs`, once what binds no looser than `r` is complete. -/
def Holds (g : Grammar) (fs : List Frame) (x : Expr) (r : Nat) (s : Option Reader) : Prop :=
  ∃ fs' x', s = some (.holding fs' x' []) ∧ ∀ bound, r < bound → g.settle bound fs' x' = g.settle bound fs x

theorem Holds.self (fs : List Frame) (x : Expr) (r : Nat) : g.Holds fs x r (some (.holding fs x [])) :=
  ⟨fs, x, rfl, fun _ _ => rfl⟩

/-- The frame on top is completed by what binds looser. -/
theorem Holds.complete {f : Frame} (h : g.Holds (f :: fs) x r s) (hle : r ≤ r')
    (hf : ∀ bound, r' < bound → g.settle bound (f :: fs) x = g.settle bound fs y) : g.Holds fs y r' s := by
  obtain ⟨fs', x', hs, hsettle⟩ := h
  refine ⟨fs', x', hs, fun bound hbound => ?_⟩
  rw [hsettle bound (Nat.lt_of_le_of_lt hle hbound), hf bound hbound]

/-- The tokens after an operand that say which operation it is: the sign, and the parenthesis of a list. -/
def opener (g : Grammar) (o : Operator) : List Token :=
  g.signTokens o ++ if g.layout o = .list then [.opening] else []

/-- The words of a sign are read as the sign. -/
theorem run_opener (hbefore : g.layout o ≠ .before) (hcall : g.layout o ≠ .call) (fs : List Frame) (x : Expr)
    (ts : List Token) : g.run (.holding fs x []) (g.opener o ++ ts) = (g.shift o fs x).bind (g.run · ts) := by
  cases g <;> cases o <;> first | rfl | exact absurd rfl hbefore | exact absurd rfl hcall

/-- After an operand, the sign of an operator begins it. -/
theorem Holds.run_opener (h : g.Holds fs x r s) (hr : r < g.closes o) (hbefore : g.layout o ≠ .before)
    (hcall : g.layout o ≠ .call) (hfs : g.Admits (g.rank o) fs) (ts : List Token) :
    s.bind (g.run · (g.opener o ++ ts)) = (g.begin o fs x).bind (g.run · ts) := by
  obtain ⟨fs', x', rfl, hsettle⟩ := h
  rw [Option.bind_some, Grammar.run_opener hbefore hcall, shift_of_settle hbefore hcall hfs]
  rw [hsettle _ hr, settle_of_admits hbefore hcall hfs]

/-- The phrase is read as its expression, on every stack that admits it. -/
def ReadsAs (g : Grammar) (p : Phrase) : Prop :=
  ∀ fs, g.Admits (p.rank g) fs → g.Holds fs p.expr (p.rank g) (g.run (.wanting fs) (p.tokens g))

/-! ### Arguments -/

theorem opener_of_ne_list (h : g.layout o ≠ .list) : g.opener o = g.signTokens o := by
  rw [opener, if_neg h, List.append_nil]

theorem shift_chain {fs' : List Frame} {x' : Expr} {zs : List Expr} (hchain : o.chains)
    (hsettle : g.settle (g.closes o) fs' x' = (.infixed o x zs :: fs, z)) :
    g.shift o fs' x' = some (.wanting (.infixed o x (zs ++ [z]) :: fs)) := by
  rw [shift.eq_def, hsettle]
  cases o <;> first | rfl | cases hchain

/-- What follows an operand in an operation without parentheses: each argument is put to those of the frame when
the next sign comes. -/
theorem Holds.arguments (ys : List Phrase) (zs : List Expr) (h : g.Holds (.infixed o x zs :: fs) z r s)
    (hr : r < g.rank o) (hlayout : g.layout o = .infixed) (hchains : ys ≠ [] → o.chains)
    (hreads : ∀ y ∈ ys, g.ReadsAs y) (hranks : ∀ y ∈ ys, y.rank g < g.rank o) :
    g.Holds fs (.app o x (zs ++ z :: ys.map Phrase.expr)) (g.rank o)
      (s.bind (g.run · ((ys.map (Phrase.tokens g)).flatMap fun ts => g.signTokens o ++ ts))) := by
  induction ys generalizing zs z r s with
  | nil =>
    have hs : s.bind (g.run · []) = s := by cases s <;> rfl
    rw [List.map_nil, List.map_nil, List.flatMap_nil, hs]
    exact h.complete (Nat.le_of_lt hr) fun bound hbound => by rw [settle, if_pos hbound]
  | cons y ys ih =>
    have hchain := hchains (List.cons_ne_nil y ys)
    have hcloses : g.closes o = g.rank o := if_pos (.inl hchain)
    obtain ⟨fs', x', rfl, hsettle⟩ := h
    have hshift : g.shift o fs' x' = some (.wanting (.infixed o x (zs ++ [z]) :: fs)) :=
      shift_chain hchain (by rw [hcloses, hsettle _ hr, settle, if_neg (Nat.lt_irrefl _)])
    have hy : y.rank g < g.rank o := hranks y List.mem_cons_self
    have hargs := ih (zs ++ [z]) (hreads y List.mem_cons_self (.infixed o x (zs ++ [z]) :: fs) hy) hy (fun _ => hchain)
      (fun y' hy' => hreads y' (List.mem_cons_of_mem y hy')) (fun y' hy' => hranks y' (List.mem_cons_of_mem y hy'))
    rw [List.append_assoc, List.singleton_append] at hargs
    rw [List.map_cons, List.map_cons, List.flatMap_cons, Option.bind_some, List.append_assoc,
      ← opener_of_ne_list (by rw [hlayout]; decide), Grammar.run_opener (by rw [hlayout]; decide)
      (by rw [hlayout]; decide), hshift, Option.bind_some, run_append, opener_of_ne_list (by rw [hlayout]; decide)]
    exact hargs

theorem Phrase.rank_lt_loosest (g : Grammar) (p : Phrase) : p.rank g < loosest := by
  cases p with
  | leaf x | group p => exact Nat.succ_pos _
  | fixed b => exact Grammar.rank_lt_loosest g .eq
  | op o x args => exact Grammar.rank_lt_loosest g o

/-- What follows the first member of a call or a list: a comma puts each to those of the frame, and the
parenthesis closes them. -/
theorem Holds.members (ys : List Phrase) (xs : List Expr) (h : g.Holds (.members o xs :: fs) z r s)
    (hr : r < loosest) (hreads : ∀ y ∈ ys, g.ReadsAs y) {w : Expr} {ws : List Expr}
    (hall : xs ++ z :: ys.map Phrase.expr = w :: ws) :
    s.bind (g.run · ((ys.map (Phrase.tokens g)).flatMap (fun ts => [.comma] ++ ts) ++ [.closing])) =
      some (.holding fs (.app o w ws) []) := by
  induction ys generalizing xs z r s with
  | nil =>
    obtain ⟨fs', x', rfl, hsettle⟩ := h
    have hstep : g.step (.holding fs' x' []) .closing = close (.members o xs :: fs) z := by
      rw [step.eq_def]
      simp only [hsettle _ hr, settle]
    have hclose : close (.members o xs :: fs) z = some (.holding fs (.app o w ws) []) := by
      cases xs with
      | nil =>
        cases hall
        rfl
      | cons x xs =>
        obtain ⟨rfl, rfl⟩ := List.cons.inj hall
        rfl
    rw [List.map_nil, List.flatMap_nil, List.nil_append, Option.bind_some, run_cons, hstep, hclose]
    rfl
  | cons y ys ih =>
    obtain ⟨fs', x', rfl, hsettle⟩ := h
    have hstep : g.step (.holding fs' x' []) .comma = some (.wanting (.members o (xs ++ [z]) :: fs)) := by
      rw [step.eq_def]
      simp only [hsettle _ hr, settle, next]
    have hmembers := ih (xs ++ [z]) (hreads y List.mem_cons_self (.members o (xs ++ [z]) :: fs) trivial)
      (y.rank_lt_loosest g)
      (fun y' hy' => hreads y' (List.mem_cons_of_mem y hy')) (by rw [← hall, List.append_assoc]; rfl)
    rw [List.map_cons, List.flatMap_cons, Option.bind_some, List.append_assoc, List.append_assoc,
      List.singleton_append, run_cons, hstep, Option.bind_some, run_append]
    exact hmembers

/-! ### Operations -/

section

variable {p : Phrase} {ps : List Phrase}

/-- The operand of an operator whose sign follows it. -/
theorem ReadsAs.operand (hp : g.ReadsAs p) (hrank : p.rank g < g.closes o) (hfs : g.Admits (g.rank o) fs) :
    g.Holds fs p.expr (p.rank g) (g.run (.wanting fs) (p.tokens g)) :=
  hp fs (hfs.mono (Nat.le_of_lt_succ (Nat.lt_of_lt_of_le hrank (closes_le g o))))

theorem begin_of_admits (hfs : g.Admits (g.rank o) fs) (x : Expr) :
    g.begin o fs x = match g.layout o with
      | .infixed => some (.wanting (.infixed o x [] :: fs))
      | .after => some (.holding fs (.app o x []) [])
      | .range => some (.wanting (.low o x :: fs))
      | .list => some (.wanting (.members o [x] :: fs))
      | .before | .call => none :=
  if_pos hfs

theorem ReadsAs.group (hp : g.ReadsAs p) : g.ReadsAs (.group p) := by
  intro fs _
  obtain ⟨fs', x', hrun, hsettle⟩ := hp (.group :: fs) trivial
  have hstep : g.step (.holding fs' x' []) .closing = some (.holding fs p.expr []) := by
    rw [step.eq_def]
    simp only [hsettle _ (p.rank_lt_loosest g), settle, close]
  rw [Phrase.tokens, List.cons_append, run_cons]
  simp only [step, Option.bind_some]
  rw [run_append, hrun, Option.bind_some, run_cons, hstep]
  exact .self fs p.expr 0

theorem ReadsAs.before (hlayout : g.layout o = .before) (hp : g.ReadsAs p) (hrank : p.rank g ≤ g.rank o) :
    g.ReadsAs (.op o p []) := by
  intro fs hfs
  have hstep : g.step (.wanting fs) (.mark (g.sign o)) = some (.wanting (.before o :: fs)) := by
    have hsigns : constant? (g.sign o) = none ∧ g.prefix? (g.sign o) = some o := by
      cases g <;> cases o <;> first | exact ⟨rfl, rfl⟩ | cases hlayout
    simp only [step, hsigns.1, hsigns.2]
    exact if_pos hfs
  have hx := hp (.before o :: fs) ⟨hlayout, hrank⟩
  rw [Phrase.tokens, arrange, hlayout]
  simp only
  rw [run_cons, hstep, Option.bind_some]
  exact hx.complete hrank fun bound hbound => if_pos hbound

theorem ReadsAs.after (hlayout : g.layout o = .after) (hp : g.ReadsAs p) (hrank : p.rank g < g.closes o) :
    g.ReadsAs (.op o p []) := by
  intro fs hfs
  have hx := hp.operand hrank hfs
  have hsign := hx.run_opener hrank (by rw [hlayout]; decide) (by rw [hlayout]; decide) hfs []
  rw [List.append_nil, opener_of_ne_list (by rw [hlayout]; decide), begin_of_admits hfs, hlayout] at hsign
  rw [Phrase.tokens, arrange, hlayout]
  simp only
  rw [run_append, hsign]
  exact .self fs _ _

theorem ReadsAs.infixed {q : Phrase} (hlayout : g.layout o = .infixed) (hp : g.ReadsAs p)
    (hrank : p.rank g < g.closes o) (hps : ∀ y ∈ q :: ps, g.ReadsAs y)
    (hranks : ∀ y ∈ q :: ps, y.rank g < g.rank o) (hchains : ps ≠ [] → o.chains) :
    g.ReadsAs (.op o p (q :: ps)) := by
  intro fs hfs
  have hx := hp.operand hrank hfs
  have hq : q.rank g < g.rank o := hranks q List.mem_cons_self
  have hy := hps q List.mem_cons_self (.infixed o p.expr [] :: fs) hq
  have hargs := hy.arguments ps [] hq hlayout hchains
    (fun y hy => hps y (List.mem_cons_of_mem q hy)) (fun y hy => hranks y (List.mem_cons_of_mem q hy))
  rw [Phrase.tokens, arrange, hlayout]
  simp only [separated, Phrase.tokensAll_eq_map, List.map_cons, List.flatMap_cons]
  rw [run_append, List.append_assoc, ← opener_of_ne_list (by rw [hlayout]; decide),
    hx.run_opener hrank (by rw [hlayout]; decide) (by rw [hlayout]; decide) hfs, begin_of_admits hfs, hlayout]
  simp only [Option.bind_some]
  rw [run_append, opener_of_ne_list (by rw [hlayout]; decide), Phrase.expr, Phrase.exprs_eq_map]
  exact hargs

theorem ReadsAs.call (hlayout : g.layout o = .call) (hps : ∀ y ∈ p :: ps, g.ReadsAs y) :
    g.ReadsAs (.op o p ps) := by
  intro fs _
  have hx := hps p List.mem_cons_self (.members o [] :: fs) trivial
  have hmembers := hx.members ps [] (p.rank_lt_loosest g)
    (fun y hy => hps y (List.mem_cons_of_mem p hy)) rfl
  rw [Phrase.tokens, arrange, hlayout]
  simp only [separated, Phrase.tokensAll_eq_map]
  rw [List.cons_append, run_cons]
  simp only [step, Option.bind_some]
  rw [List.append_assoc, run_append, hmembers, Phrase.expr, Phrase.exprs_eq_map]
  exact .self fs _ _

theorem ReadsAs.list (hlayout : g.layout o = .list) (hp : g.ReadsAs p) (hrank : p.rank g < g.closes o)
    (hps : ∀ y ∈ ps, g.ReadsAs y) : g.ReadsAs (.op o p ps) := by
  intro fs hfs
  have hx := hp.operand hrank hfs
  have hopener : g.opener o = g.signTokens o ++ [.opening] := by rw [opener, if_pos hlayout]
  have hsign := fun ts => hx.run_opener hrank (by rw [hlayout]; decide) (by rw [hlayout]; decide) hfs ts
  simp only [hopener, begin_of_admits hfs, hlayout, Option.bind_some, List.append_assoc, List.singleton_append] at hsign
  rw [Phrase.tokens, arrange, hlayout]
  simp only [Phrase.tokensAll_eq_map, List.append_assoc, List.cons_append]
  rw [run_append, hsign, Phrase.expr, Phrase.exprs_eq_map]
  cases ps with
  | nil =>
    have hstep : g.step (.wanting (.members o [p.expr] :: fs)) .closing = some (.holding fs (.app o p.expr []) []) :=
      if_pos hlayout
    simp only [List.map_nil, separated, List.nil_append]
    rw [run_cons, hstep]
    exact .self fs _ _
  | cons q ps =>
    have hy := hps q List.mem_cons_self (.members o [p.expr] :: fs) trivial
    have hmembers := hy.members ps [p.expr] (q.rank_lt_loosest g)
      (fun y hy => hps y (List.mem_cons_of_mem q hy)) rfl
    simp only [List.map_cons, separated, List.append_assoc]
    rw [run_append, hmembers]
    exact .self fs _ _

theorem ReadsAs.range {low high : Phrase} (hlayout : g.layout o = .range) (hp : g.ReadsAs p)
    (hrank : p.rank g < g.closes o) (hlow : g.ReadsAs low) (hlowRank : low.rank g < g.rank o)
    (hhigh : g.ReadsAs high) (hhighRank : high.rank g < g.rank o) : g.ReadsAs (.op o p [low, high]) := by
  intro fs hfs
  have hx := hp.operand hrank hfs
  obtain ⟨fs', x', hrun, hsettle⟩ := hlow (.low o p.expr :: fs) ⟨hlayout, hlowRank⟩
  have hstep : g.step (.holding fs' x' []) (.mark "AND") = some (.wanting (.high o p.expr low.expr :: fs)) := by
    have hshift : g.shift .and fs' x' = some (.wanting (.high o p.expr low.expr :: fs)) := by
      have hand : low.rank g < g.closes .and := by
        have hclose : g.closes .and = 11 := by cases g <;> rfl
        rw [rank_range hlayout] at hlowRank
        omega
      rw [shift.eq_def, hsettle _ hand]
      rfl
    rw [← hshift]
    cases g <;> rfl
  have hy := hhigh (.high o p.expr low.expr :: fs) hhighRank
  rw [Phrase.tokens, arrange, hlayout]
  simp only [Phrase.tokensAll, separated, List.flatMap_cons, List.flatMap_nil, List.append_nil, List.append_assoc]
  rw [run_append, ← opener_of_ne_list (by rw [hlayout]; decide),
    hx.run_opener hrank (by rw [hlayout]; decide) (by rw [hlayout]; decide) hfs, begin_of_admits hfs, hlayout]
  simp only [Option.bind_some]
  rw [run_append, hrun, Option.bind_some, List.singleton_append, run_cons, hstep, Option.bind_some]
  exact hy.complete (Nat.le_of_lt hhighRank) fun bound hbound => if_pos hbound

end

/-! ### All phrases -/

theorem ReadsAs.leaf {x : Expr} (hx : g.legible x) : g.ReadsAs (.leaf x) := by
  intro fs _
  have hrun : g.run (.wanting fs) [leafToken x] = some (.holding fs x []) := by
    unfold leafToken
    split <;> rfl
  rw [Phrase.tokens, hrun]
  exact .self fs x 0

/-- A phrase of the grammar is read as the expression that it stands for. -/
theorem Fits.readsAs {p : Phrase} (h : g.Fits p) : g.ReadsAs p := by
  induction h with
  | leaf hx => exact .leaf hx
  | fixed b =>
    have hone : g.ReadsAs (.op .eq (.leaf one) [.leaf (ofBit b)]) := by
      refine .infixed (by cases g <;> rfl) (.leaf rfl) (by cases g <;> decide) ?_ ?_ (fun h => absurd rfl h)
      · intro y hy
        rw [List.mem_singleton.mp hy]
        exact .leaf rfl
      · intro y hy
        rw [List.mem_singleton.mp hy]
        cases g <;> exact Nat.succ_pos 7
    exact hone
  | group _ ih => exact ih.group
  | before hlayout _ hrank _ ih => exact ih.before hlayout hrank
  | after hlayout _ hrank ih => exact ih.after hlayout hrank
  | infixed hlayout _ hrank _ hranks hchains ih ihs => exact ih.infixed hlayout hrank ihs hranks hchains
  | call hlayout _ ihs => exact .call hlayout ihs
  | list hlayout _ hrank _ ih ihs => exact ih.list hlayout hrank ihs
  | range hlayout _ hrank _ hlow _ hhigh ih ihlow ihhigh => exact ih.range hlayout hrank ihlow hlow ihhigh hhigh

/-- All that is read of the tokens of a phrase is its expression. -/
theorem Fits.read_tokens {p : Phrase} (h : g.Fits p) : g.read (p.tokens g) = some p.expr := by
  obtain ⟨fs', x', hrun, hsettle⟩ := h.readsAs [] trivial
  have hfinish : g.finish (.holding fs' x' []) = some p.expr := by
    rw [finish, hsettle _ (p.rank_lt_loosest g)]
    rfl
  rw [read]
  exact (congrArg (Option.bind · g.finish) hrun).trans hfinish

end TableQuery.Grammar
