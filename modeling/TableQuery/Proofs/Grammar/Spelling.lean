import TableQuery.Proofs.Grammar.Phrase
import TableQuery.Proofs.Sql.Pieces
import TableQuery.Sql.Expr

/- Phrases as they are spelled. The text of a phrase of the grammar has the tokens of the phrase
   (`Fits.lexes`), and so it is read as the expression that the phrase stands for (`Fits.parse_text`). -/
namespace TableQuery.Grammar

open Sql Lexer

/-- Constants and names are written as they are in the text of expressions, and as SQL has them. -/
def leafPiece (g : Grammar) : Expr → Piece Value
  | .const v => if g = text then .raw v.literal else value v
  | .path p => if g = text then .raw p.identity else .name p.leaf
  | .app .. => .raw ""

/-- Sign, operand and arguments in the layout of the operator. -/
def write {β : Type} (g : Grammar) (o : Operator) (operand : List (Piece β)) (args : List (List (Piece β))) :
    List (Piece β) :=
  match g.layout o with
  | .before => .raw (g.sign o ++ if o = .not then " " else "") :: operand
  | .after => operand ++ [.raw (" " ++ g.sign o)]
  | .infixed => joined (" " ++ g.sign o ++ " ") (operand :: args)
  | .call => .raw (g.sign o ++ "(") :: joined ", " (operand :: args) ++ [.raw ")"]
  | .list => operand ++ .raw (" " ++ g.sign o ++ " (") :: joined ", " args ++ [.raw ")"]
  | .range => operand ++ .raw (" " ++ g.sign o ++ " ") :: joined " AND " args

namespace Phrase

mutual

def pieces (g : Grammar) : Phrase → List (Piece Value)
  | leaf x => [g.leafPiece x]
  | fixed b => [.raw (if b then "1 = 1" else "1 = 0")]
  | group p => .raw "(" :: p.pieces g ++ [.raw ")"]
  | op o x args => g.write o (x.pieces g) (piecesAll g args)

def piecesAll (g : Grammar) : List Phrase → List (List (Piece Value))
  | [] => []
  | p :: ps => p.pieces g :: piecesAll g ps

end

theorem piecesAll_eq_map (g : Grammar) (ps : List Phrase) : piecesAll g ps = ps.map (pieces g) := by
  induction ps with
  | nil => rfl
  | cons p ps ih => rw [piecesAll, ih, List.map_cons]

end Phrase

variable {g : Grammar} {params : List Value} {o : Operator} {ps qs : List (Piece Value)} {ts us : List Token}
  {l : Lexer}

/-! ## Parts of a text -/

/-- The text of the pieces has these tokens, with what is bound in them for its placeholders. -/
def Lexes (g : Grammar) (params : List Value) (ps : List (Piece Value)) (ts : List Token) : Prop :=
  ∀ l : Lexer, l.lexeme = .blank → bindings ps <+: params.drop l.index →
    Lexer.run g params l (textFrom g.dialect l.index ps).toList = some (l.emit ts (bindings ps).length)

theorem Lexer.emit_emit (l : Lexer) (ts us : List Token) (m n : Nat) :
    (l.emit ts m).emit us n = l.emit (ts ++ us) (m + n) := by
  simp only [emit, List.reverse_append, List.append_assoc, Nat.add_assoc]

theorem Lexes.nil : Lexes g params [] [] := by
  rintro ⟨ts, i, lexeme⟩ rfl _
  rfl

/-- The text ends where no lexeme goes on, and has these tokens. -/
def Ends (g : Grammar) (params : List Value) (s : String) (ts : List Token) : Prop :=
  ∀ l : Lexer, l.lexeme = .blank → Lexer.Closes g params l s.toList (l.emit ts 0)

theorem Ends.cons {s : String} (hs : Ends g params s ts) (hqs : Lexes g params qs us) :
    Lexes g params (.raw s :: qs) (ts ++ us) := by
  intro l hl hbindings
  rw [textFrom, String.toList_append, Lexer.run_closed (hs l hl)]
  have hrest := hqs (l.emit ts 0) rfl hbindings
  rw [Lexer.emit_emit, Nat.zero_add] at hrest
  exact hrest

/-- The text begins with a character that ends lexemes. -/
def Delimits (ps : List (Piece Value)) : Prop :=
  ∃ s rest c cs, ps = .raw s :: rest ∧ s.toList = c :: cs ∧ Lexer.isDelimiter c = true

theorem Lexes.append (hps : Lexes g params ps ts) (hqs : Lexes g params qs us) (hdelimits : Delimits qs) :
    Lexes g params (ps ++ qs) (ts ++ us) := by
  intro l hl hbindings
  rw [bindings_append] at hbindings
  obtain ⟨tail, htail⟩ := hbindings
  have hfirst := hps l hl ⟨bindings qs ++ tail, by rw [← htail, List.append_assoc]⟩
  have hrest := hqs (l.emit ts (bindings ps).length) rfl ⟨tail, by
    rw [Lexer.emit, ← List.drop_drop, ← htail, List.append_assoc, List.drop_left]⟩
  obtain ⟨s, rest, c, cs, rfl, hs, hc⟩ := hdelimits
  rw [textFrom, String.toList_append, hs, List.cons_append] at hrest
  rw [textFrom_append, String.toList_append, textFrom, String.toList_append, hs, List.cons_append,
    Lexer.run_delimited hfirst hc, bindings_append, List.length_append, ← Lexer.emit_emit]
  exact hrest

theorem Lexes.raw {s : String}
    (h : ∀ ts i, Lexer.run g params ⟨ts, i, .blank⟩ s.toList = some (Lexer.emit ⟨ts, i, .blank⟩ us 0)) :
    Lexes g params [.raw s] us := by
  rintro ⟨ts, i, lexeme⟩ rfl _
  rw [textFrom, textFrom, String.append_empty]
  exact h ts i

/-! ## Signs -/

theorem ends_infixed (h : g.layout o = .infixed ∨ g.layout o = .range) :
    Ends g params (" " ++ g.sign o ++ " ") (g.signTokens o) := by
  rintro ⟨ts, i, lexeme⟩ rfl
  cases g <;> cases o <;> first | exact absurd h (by decide) | exact ⟨_, rfl, rfl, fun _ => rfl⟩

theorem ends_list (h : g.layout o = .list) :
    Ends g params (" " ++ g.sign o ++ " (") (g.signTokens o ++ [.opening]) := by
  rintro ⟨ts, i, lexeme⟩ rfl
  cases g <;> cases o <;> first | exact absurd h (by decide) | exact ⟨_, rfl, rfl, fun _ => rfl⟩

theorem ends_call (h : g.layout o = .call) : Ends g params (g.sign o ++ "(") [.call o] := by
  rintro ⟨ts, i, lexeme⟩ rfl
  cases g <;> cases o <;> first | exact absurd h (by decide) | exact ⟨_, rfl, rfl, fun _ => rfl⟩

theorem lexes_after (h : g.layout o = .after) : Lexes g params [.raw (" " ++ g.sign o)] (g.signTokens o) := by
  refine .raw fun ts i => ?_
  cases g <;> cases o <;> first | exact absurd h (by decide) | rfl

theorem ends_not : Ends g params (g.sign .not ++ " ") [.mark (g.sign .not)] := by
  rintro ⟨ts, i, lexeme⟩ rfl
  cases g <;> exact ⟨_, rfl, rfl, fun _ => rfl⟩

theorem ends_opening : Ends g params "(" [.opening] := by
  rintro ⟨ts, i, lexeme⟩ rfl
  exact ⟨_, rfl, rfl, fun _ => rfl⟩

theorem ends_comma : Ends g params ", " [.comma] := by
  rintro ⟨ts, i, lexeme⟩ rfl
  exact ⟨_, rfl, rfl, fun _ => rfl⟩

theorem ends_and : Ends g params " AND " [.mark "AND"] := by
  rintro ⟨ts, i, lexeme⟩ rfl
  exact ⟨_, rfl, rfl, fun _ => rfl⟩

theorem lexes_closing : Lexes g params [.raw ")"] [.closing] :=
  .raw fun _ _ => rfl

/-- Parts with a separator between them. -/
theorem lexes_joined {separator : String} (hends : Ends g params separator us) {c : Char} {cs : List Char}
    (hchars : separator.toList = c :: cs) (hc : Lexer.isDelimiter c = true) {parts : List Phrase}
    (h : ∀ p ∈ parts, Lexes g params (p.pieces g) (p.tokens g)) :
    Lexes g params (joined separator (parts.map (Phrase.pieces g))) (separated us (parts.map (Phrase.tokens g))) := by
  induction parts with
  | nil => exact .nil
  | cons p parts ih =>
    have hp := h p List.mem_cons_self
    cases parts with
    | nil =>
      simp only [List.map_cons, List.map_nil, joined, separated, List.flatMap_nil, List.append_nil]
      exact hp
    | cons q parts =>
      have hrest := ih fun q hq => h q (List.mem_cons_of_mem p hq)
      have hall := hp.append (hends.cons hrest) ⟨separator, _, c, cs, rfl, hchars, hc⟩
      simp only [List.map_cons, joined, separated, List.flatMap_cons, List.append_assoc] at hall ⊢
      exact hall

/-! ## Leaves -/

theorem lexes_bound (v : Value) : Lexes g params [.bound v] [.operand (.const v)] := by
  rintro ⟨ts, i, lexeme⟩ rfl hbindings
  obtain ⟨rest, hrest⟩ := hbindings
  have hv : params[i]? = some v := by
    rw [← List.head?_drop, ← hrest]
    rfl
  rw [textFrom, textFrom, String.append_empty]
  exact Lexer.run_placeholder hv

theorem lexes_name (s : String) : Lexes g params [.name s] [.operand (.path (.single s))] := by
  rintro ⟨ts, i, lexeme⟩ rfl _
  have hdialect : g.dialect.quoteChar = Quoted.name.quote := by cases g <;> rfl
  have hquote : (g.dialect.quote s).toList =
      Quoted.name.quote :: (s.toList.flatMap fun c => if c = Quoted.name.quote then [c, c] else [c]) ++
        [Quoted.name.quote] := by
    have htwice : (fun c => if c = Quoted.name.quote then [Quoted.name.quote, Quoted.name.quote] else [c]) =
        fun c => if c = Quoted.name.quote then [c, c] else [c] := by
      funext c
      split
      next hc => rw [hc]
      next => rfl
    rw [Dialect.quote, String.toList_ofList, hdialect, htwice]
  have htoken : Quoted.name.token s.toList = .operand (.path (.single s)) := by
    rw [Quoted.token, String.ofList_toList]
  rw [textFrom, textFrom, String.append_empty, hquote, ← htoken]
  exact Lexer.run_quoted .name s.toList

theorem lexes_string (s : String) : Lexes g params [.raw (Value.text s).literal] [.operand (.const (.text s))] := by
  refine .raw fun ts i => ?_
  have hquote : (Value.text s).literal.toList =
      Quoted.text.quote :: (s.toList.flatMap fun c => if c = Quoted.text.quote then [c, c] else [c]) ++
        [Quoted.text.quote] := by
    rw [Value.literal, Value.inQuotes, String.toList_ofList, String.toList_ofList]
    rfl
  have htoken : Quoted.text.token s.toList = .operand (.const (.text s)) := by
    rw [Quoted.token, String.ofList_toList]
  rw [hquote, ← htoken]
  exact Lexer.run_quoted .text s.toList

theorem mem_intercalate {α : Type} {separator : List α} {parts : List (List α)} {a : α}
    (h : a ∈ separator.intercalate parts) : a ∈ separator ∨ ∃ part ∈ parts, a ∈ part := by
  induction parts with
  | nil => cases h
  | cons part parts ih =>
    cases parts with
    | nil =>
      rw [List.intercalate_singleton] at h
      exact .inr ⟨part, List.mem_cons_self, h⟩
    | cons next parts =>
      rw [List.intercalate_cons_cons, List.append_assoc, List.mem_append, List.mem_append] at h
      rcases h with h | h | h
      · exact .inr ⟨part, List.mem_cons_self, h⟩
      · exact .inl h
      · exact (ih h).imp_right fun ⟨part', hmem, ha⟩ => ⟨part', List.mem_cons_of_mem part hmem, ha⟩

theorem isName_chars {s : String} (h : isName s) :
    (∃ c cs, s.toList = c :: cs ∧ isLetter c) ∧ (∀ d ∈ s.toList, isLetter d || d.isDigit) ∧ s ∉ keywords := by
  unfold isName at h
  split at h
  next => cases h
  next c cs hs =>
    simp only [Bool.and_eq_true, List.all_eq_true, Bool.not_eq_true', List.contains_eq_mem, decide_eq_false_iff_not] at h
    obtain ⟨⟨hc, hcs⟩, hword⟩ := h
    refine ⟨⟨c, cs, hs, hc⟩, ?_, hword⟩
    rw [hs]
    intro d hd
    rcases List.mem_cons.mp hd with rfl | hd
    · rw [hc, Bool.true_or]
    · exact hcs d hd

theorem wordToken_identity {p : FieldPath} (h : ∀ s ∈ p.names, isName s) :
    wordToken p.identity.toList = some (.operand (.path p)) := by
  have hchars : p.identity.toList = ['.'].intercalate (p.names.map String.toList) := String.toList_intercalate
  have hword : p.identity ∉ keywords := by
    obtain ⟨first, rest⟩ := p
    cases rest with
    | nil => exact (isName_chars (h first List.mem_cons_self)).2.2
    | cons second rest =>
      -- No keyword has a dot.
      intro hmem
      have hdot : ∀ k ∈ keywords, '.' ∉ k.toList := by decide
      apply hdot _ hmem
      rw [hchars]
      simp only [FieldPath.names, List.map_cons, List.intercalate_cons_cons, List.mem_append, List.mem_singleton, true_or,
        or_true]
  have hsplit : p.identity.toList.splitOn '.' = p.names.map String.toList := by
    rw [hchars]
    refine List.splitOn_intercalate '.' (fun part hpart hdot => ?_) (List.cons_ne_nil _ _)
    obtain ⟨s, hs, rfl⟩ := List.mem_map.mp hpart
    have hd := (isName_chars (h s hs)).2.1 '.' hdot
    cases hd
  have hnames : (p.names.map String.toList).map String.ofList = p.names := by
    rw [List.map_map]
    exact List.map_id'' (fun s => String.ofList_toList) _
  rw [wordToken, String.ofList_toList, if_neg (by simpa using hword), hsplit, hnames]
  rfl

theorem identity_letter {p : FieldPath} (h : ∀ s ∈ p.names, isName s) :
    ∃ c cs, p.identity.toList = c :: cs ∧ isLetter c := by
  have hchars : p.identity.toList = ['.'].intercalate (p.names.map String.toList) := String.toList_intercalate
  obtain ⟨c, cs, hfirst, hc⟩ := (isName_chars (h p.first List.mem_cons_self)).1
  have hhead : p.identity.toList.head? = some c := by
    rw [hchars, FieldPath.names, List.map_cons, hfirst]
    cases p.rest with
    | nil => rw [List.map_nil, List.intercalate_singleton, List.head?_cons]
    | cons second rest =>
      rw [List.map_cons, List.intercalate_cons_cons, List.cons_append, List.cons_append, List.head?_cons]
  obtain ⟨cs, hcs⟩ := List.head?_eq_some_iff.mp hhead
  exact ⟨c, cs, hcs, hc⟩

theorem lexes_path {p : FieldPath} (h : ∀ s ∈ p.names, isName s) :
    Lexes g params [.raw p.identity] [.operand (.path p)] := by
  refine .raw fun ts i => ?_
  have hchars : p.identity.toList = ['.'].intercalate (p.names.map String.toList) := String.toList_intercalate
  have hclass : ∀ d ∈ p.identity.toList, isLetter d || d.isDigit || d == '.' := by
    intro d hd
    rw [hchars] at hd
    rcases mem_intercalate hd with hd | ⟨part, hpart, hd⟩
    · rw [List.mem_singleton.mp hd]
      rfl
    · obtain ⟨s, hs, rfl⟩ := List.mem_map.mp hpart
      rw [(isName_chars (h s hs)).2.1 d hd, Bool.true_or]
  obtain ⟨c, cs, hcs, hc⟩ := identity_letter h
  have htoken := wordToken_identity h
  rw [hcs] at hclass htoken ⊢
  exact Lexer.run_word hc (fun d hd => hclass d (List.mem_cons_of_mem c hd)) htoken

theorem lexes_leaf {x : Expr} (h : g.legible x) : Lexes g params [g.leafPiece x] [leafToken x] := by
  cases x with
  | app => cases h
  | path p =>
    by_cases hg : g = .text
    · subst hg
      exact lexes_path (List.all_eq_true.mp h)
    · have hlegible : g.legible (.path p) = p.rest.isEmpty := if_neg hg
      have hrest : p.rest = [] := List.isEmpty_iff.mp (hlegible ▸ h)
      obtain ⟨first, rest⟩ := p
      subst hrest
      rw [leafPiece, if_neg hg]
      exact lexes_name first
  | const v =>
    have hword : ∀ {v : Value} {t : Token},
        (∀ ts i, Lexer.run g params ⟨ts, i, .blank⟩ v.literal.toList = some (Lexer.emit ⟨ts, i, .blank⟩ [t] 0)) →
        value v = .raw v.literal → Lexes g params [g.leafPiece (.const v)] [t] := by
      intro v t hrun hvalue
      rw [leafPiece, hvalue, ite_self]
      exact .raw hrun
    cases v with
    | null => exact hword (fun _ _ => rfl) rfl
    | bool b => cases b <;> exact hword (fun _ _ => rfl) rfl
    | int n => cases h
    | long n => exact hword (fun _ _ => Lexer.run_number n) rfl
    | text s =>
      rw [leafPiece]
      split
      · exact lexes_string s
      · exact lexes_bound (.text s)
    | double | bytes | timestamp | uuid =>
      have hg : g ≠ .text := of_decide_eq_true h
      rw [leafPiece, if_neg hg]
      exact lexes_bound _

/-! ## All phrases -/

/-- The text begins with a character that does not belong to a minus sign before it. -/
def EndsMinus (g : Grammar) (i : Nat) (ps : List (Piece Value)) : Prop :=
  ∃ c cs, (textFrom g.dialect i ps).toList = c :: cs ∧ Lexeme.minus.extend? g c = none

section

variable {i : Nat}

theorem EndsMinus.raw {s : String} {c : Char} {cs : List Char} (ps : List (Piece Value)) (hs : s.toList = c :: cs)
    (hc : Lexeme.minus.extend? g c = none) : EndsMinus g i (.raw s :: ps) := by
  refine ⟨c, cs ++ (textFrom g.dialect i ps).toList, ?_, hc⟩
  rw [textFrom, String.toList_append, hs, List.cons_append]

theorem EndsMinus.name (s : String) : EndsMinus g i [.name s] := by
  unfold EndsMinus
  rw [textFrom, textFrom, String.append_empty, Dialect.quote, String.toList_ofList]
  exact ⟨_, _, List.cons_append, by cases g <;> rfl⟩

theorem EndsMinus.bound (v : Value) : EndsMinus g i [.bound v] := by
  have hmark : "?".toList = ['?'] := rfl
  unfold EndsMinus
  rw [textFrom, textFrom, String.append_empty]
  cases g with
  | text | sqlite => exact ⟨'?', [], hmark, rfl⟩
  | postgres => exact ⟨'$', _, String.toList_append, rfl⟩

/-- A leaf that is no number can follow a minus sign. -/
theorem leaf_endsMinus {x : Expr} (hx : g.legible x) (h : (Phrase.leaf x).canFollowMinus g) :
    EndsMinus g i [g.leafPiece x] := by
  cases x with
  | app => cases hx
  | path p =>
    rw [leafPiece]
    split
    next hg =>
      subst hg
      obtain ⟨c, cs, hcs, hc⟩ := identity_letter (List.all_eq_true.mp hx)
      exact .raw [] hcs (extend_minus_letter hc)
    next => exact .name p.leaf
  | const v =>
    rw [leafPiece]
    cases v with
    | null => rw [value, ite_self]; exact .raw [] rfl rfl
    | bool b => rw [value, ite_self]; cases b <;> exact .raw [] rfl rfl
    | int n => cases hx
    | long n => cases h
    | text s =>
      split
      · have hquoted : (Value.text s).literal.toList = _ := String.toList_ofList
        exact .raw [] hquoted rfl
      · exact .bound (.text s)
    | double | bytes | timestamp | uuid =>
      have hg : g ≠ .text := of_decide_eq_true hx
      rw [if_neg hg]
      exact .bound _

theorem Fits.endsMinus {p : Phrase} (hp : g.Fits p) (h : p.canFollowMinus g) : EndsMinus g i (p.pieces g) := by
  cases p with
  | leaf x =>
    cases hp with
    | leaf hx => exact leaf_endsMinus hx h
  | fixed b => cases h
  | group p => exact .raw _ rfl rfl
  | op o x args =>
    rw [Phrase.canFollowMinus, Bool.or_eq_true, Bool.and_eq_true, beq_iff_eq, beq_iff_eq, beq_iff_eq] at h
    rcases h with hcall | ⟨rfl, rfl⟩
    · rw [Phrase.pieces, write, hcall]
      cases g <;> cases o <;> first | exact absurd hcall (by decide) | exact .raw _ rfl rfl
    · exact .raw _ rfl rfl

end

/-- A phrase that can follow a minus sign is read by itself there. -/
theorem Lexes.minus {p : Phrase} (hp : g.Fits p) (h : p.canFollowMinus g)
    (hlexes : Lexes g params (p.pieces g) (p.tokens g)) :
    Lexes g params (.raw "-" :: p.pieces g) (.mark "-" :: p.tokens g) := by
  rintro ⟨ts, i, lexeme⟩ rfl hbindings
  obtain ⟨c, cs, hcs, hc⟩ := hp.endsMinus (i := i) h
  have hrest := hlexes (Lexer.emit ⟨ts, i, .blank⟩ [.mark "-"] 0) rfl hbindings
  have hminus : "-".toList = ['-'] := rfl
  rw [Lexer.emit_emit, Nat.zero_add] at hrest
  rw [textFrom, String.toList_append, hminus, List.singleton_append, Lexer.run_cons_start .minus rfl, hcs,
    Lexer.run_cons_of_complete rfl hc, ← hcs]
  exact hrest

/-- The text of a phrase of the grammar has the tokens of the phrase. -/
theorem Fits.lexes {p : Phrase} (h : g.Fits p) : Lexes g params (p.pieces g) (p.tokens g) := by
  have hcomma : ∀ {ps : List Phrase}, (∀ p ∈ ps, Lexes g params (p.pieces g) (p.tokens g)) →
      Lexes g params (joined ", " (ps.map (Phrase.pieces g)) ++ [.raw ")"])
        (separated [.comma] (ps.map (Phrase.tokens g)) ++ [.closing]) :=
    fun hps => (lexes_joined ends_comma rfl rfl hps).append lexes_closing ⟨_, _, _, _, rfl, rfl, rfl⟩
  induction h with
  | leaf hx => exact lexes_leaf hx
  | fixed b => cases b <;> exact .raw fun _ _ => rfl
  | group _ ih => exact ends_opening.cons (ih.append lexes_closing ⟨_, _, _, _, rfl, rfl, rfl⟩)
  | @before o x hlayout hx _ hminus ih =>
    rw [Phrase.pieces, Phrase.tokens, write, arrange, hlayout]
    by_cases ho : o = .neg
    · subst ho
      have hsign : g.sign .neg = "-" := by cases g <;> rfl
      simp only [hsign, reduceCtorEq, if_false, String.append_empty]
      exact ih.minus hx (hminus rfl)
    · have ho : o = .not := by cases g <;> cases o <;> first | rfl | exact absurd rfl ho | cases hlayout
      subst ho
      exact ends_not.cons ih
  | after hlayout _ _ ih =>
    rw [Phrase.pieces, Phrase.tokens, write, arrange, hlayout]
    exact ih.append (lexes_after hlayout) ⟨_, _, _, _, rfl, String.toList_append, rfl⟩
  | @infixed o x y ys hlayout _ _ _ _ _ ih ihs =>
    have hall : ∀ z ∈ x :: y :: ys, Lexes g params (z.pieces g) (z.tokens g) := by
      intro z hz
      rcases List.mem_cons.mp hz with rfl | hz
      · exact ih
      · exact ihs z hz
    rw [Phrase.pieces, Phrase.tokens, write, arrange, hlayout, Phrase.piecesAll_eq_map, Phrase.tokensAll_eq_map]
    exact lexes_joined (ends_infixed (.inl hlayout)) (by rw [String.append_assoc]; exact String.toList_append) rfl hall
  | call hlayout _ ihs =>
    rw [Phrase.pieces, Phrase.tokens, write, arrange, hlayout, Phrase.piecesAll_eq_map, Phrase.tokensAll_eq_map]
    exact (ends_call hlayout).cons (hcomma ihs)
  | list hlayout _ _ _ ih ihs =>
    rw [Phrase.pieces, Phrase.tokens, write, arrange, hlayout, Phrase.piecesAll_eq_map, Phrase.tokensAll_eq_map]
    have hmembers := ih.append ((ends_list hlayout).cons (hcomma ihs))
      ⟨_, _, _, _, rfl, by rw [String.append_assoc]; exact String.toList_append, rfl⟩
    simp only [List.append_assoc, List.cons_append, List.nil_append] at hmembers ⊢
    exact hmembers
  | range hlayout _ _ _ _ _ _ ih ihlow ihhigh =>
    rw [Phrase.pieces, Phrase.tokens, write, arrange, hlayout]
    have hbounds := (ends_infixed (.inr hlayout)).cons (ihlow.append (ends_and.cons ihhigh) ⟨_, _, _, _, rfl, rfl, rfl⟩)
    have hall := ih.append hbounds ⟨_, _, _, _, rfl, by rw [String.append_assoc]; exact String.toList_append, rfl⟩
    simp only [Phrase.piecesAll, Phrase.tokensAll, joined, separated, List.flatMap_cons, List.flatMap_nil, List.append_nil,
      List.append_assoc] at hall ⊢
    exact hall

/-- The text of a phrase of the grammar is read as its expression. -/
theorem Fits.parse_text {p : Phrase} (h : g.Fits p) :
    g.parse (bindings (p.pieces g)) (Sql.text g.dialect (p.pieces g)) = some p.expr := by
  have hrun := h.lexes ⟨[], 0, .blank⟩ rfl (List.prefix_refl _)
  have htokens :
      (Lexer.emit ⟨[], 0, .blank⟩ (p.tokens g) (bindings (p.pieces g)).length).tokens.reverse = p.tokens g := by
    rw [Lexer.emit, List.append_nil, List.reverse_reverse]
  rw [parse, Sql.text, hrun, Option.bind_eq_bind, Option.bind_some, htokens, h.read_tokens]

end TableQuery.Grammar
