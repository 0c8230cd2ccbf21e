import Mathlib.Tactic.IntervalCases
import TableQuery.Proofs.Grammar.Reader
import TableQuery.Proofs.Text.Numeral
import TableQuery.Value.Literal

/- The characters of a text as tokens. A lexeme goes on as long as the next character extends it. It is then
   complete, and its token is put to those before it. Values stand for the placeholders: `?` for the next one,
   and `$n` for the one of that number.

   What has been read up to a place at which no lexeme goes on can be taken by itself: a blank, a comma or a
   closing parenthesis (`run_delimited`), or what follows an opening one (`run_closed`). -/
namespace TableQuery.Grammar

def isLetter (c : Char) : Bool :=
  c.isAlpha || c == '_' || 128 ≤ c.toNat

def isSymbol (c : Char) : Bool :=
  "+*/%=<>|".toList.contains c

/-- What stands in quotes. -/
inductive Quoted where
  | name
  | text
  deriving DecidableEq

def Quoted.quote : Quoted → Char
  | name => Dialect.sqlite.quoteChar
  | text => Value.quoteChar

def Quoted.token : Quoted → List Char → Token
  | name, cs => .operand (.path (.single (String.ofList cs)))
  | text, cs => .operand (.const (.text (String.ofList cs)))

def keywords : List String :=
  ["NOT", "AND", "OR", "LIKE", "IN", "BETWEEN", "IS", "NULL", "TRUE", "FALSE"]

inductive Lexeme where
  | blank
  /-- A keyword, or names with dots between them. -/
  | word (cs : List Char)
  /-- A word with the parenthesis that follows it. -/
  | called (cs : List Char)
  | number (negative : Bool) (digits : List Char)
  /-- It belongs to the number if a digit follows it. -/
  | minus
  | symbol (cs : List Char)
  /-- Characters in quotes. If the last was a quote, it ends them, or is the first of two for one. -/
  | quoted (kind : Quoted) (cs : List Char) (ended : Bool)
  /-- `?` -/
  | placeholder
  /-- `$n` -/
  | numbered (digits : List Char)
  | opening
  | closing
  | comma
  /-- A comment, in which nothing can be read. -/
  | comment

/-- The lexeme that starts with the character. -/
def Lexeme.start? (c : Char) : Option Lexeme :=
  if c = ' ' then some .blank
  else if isLetter c then some (.word [c])
  else if c.isDigit then some (.number false [c])
  else if isSymbol c then some (.symbol [c])
  else if c = Quoted.name.quote then some (.quoted .name [] false)
  else if c = Quoted.text.quote then some (.quoted .text [] false)
  else
    match c with
    | '-' => some .minus
    | '(' => some .opening
    | ')' => some .closing
    | ',' => some .comma
    | '?' => some .placeholder
    | '$' => some (.numbered [])
    | _ => none

/-- The lexeme with one more character, if it goes on. -/
def Lexeme.extend? (g : Grammar) : Lexeme → Char → Option Lexeme
  | .word cs, c =>
    if c = '(' then some (.called cs)
    else if isLetter c || c.isDigit || c == '.' then some (.word (cs ++ [c]))
    else none
  | .number negative ds, c => if c.isDigit then some (.number negative (ds ++ [c])) else none
  | .minus, c => if c.isDigit then some (.number true [c]) else if c = '-' ∧ g ≠ .text then some .comment else none
  | .symbol cs, c => if isSymbol c then some (.symbol (cs ++ [c])) else none
  | .quoted kind cs false, c =>
    if c = kind.quote then some (.quoted kind cs true) else some (.quoted kind (cs ++ [c]) false)
  | .quoted kind cs true, c => if c = kind.quote then some (.quoted kind (cs ++ [c]) false) else none
  | .numbered ds, c => if c.isDigit then some (.numbered (ds ++ [c])) else none
  | .comment, _ => some .comment
  | _, _ => none

def number? (negative : Bool) (ds : List Char) : Option Value :=
  let n : Int := Nat.ofDigitChars 10 ds 0
  Value.ofInt64? (if negative then -n else n)

/-- The token of a word. -/
def wordToken (cs : List Char) : Option Token :=
  if keywords.contains (String.ofList cs) then some (.mark (String.ofList cs))
  else (FieldPath.ofNames? ((cs.splitOn '.').map String.ofList)).map fun p => .operand (.path p)

/-- What has been read: complete tokens, the number of placeholders among them, and a lexeme. -/
structure Lexer where
  /-- The last one first. -/
  tokens : List Token
  index : Nat
  lexeme : Lexeme

namespace Lexer

variable (g : Grammar) (params : List Value)

/-- The state after these tokens and that many placeholders. -/
def emit (l : Lexer) (ts : List Token) (n : Nat) : Lexer :=
  ⟨ts.reverse ++ l.tokens, l.index + n, .blank⟩

/-- Ends the lexeme. -/
def complete (l : Lexer) : Option Lexer :=
  match l.lexeme with
  | .blank => some l
  | .word cs => (wordToken cs).map fun t => l.emit [t] 0
  | .called cs => (g.call? (String.ofList cs)).map fun op => l.emit [.call op] 0
  | .number negative ds => (number? negative ds).map fun v => l.emit [.operand (.const v)] 0
  | .minus => some (l.emit [.mark "-"] 0)
  | .symbol cs => some (l.emit [.mark (String.ofList cs)] 0)
  | .quoted kind cs true => some (l.emit [kind.token cs] 0)
  | .quoted _ _ false => none
  | .placeholder => params[l.index]?.map fun v => l.emit [.operand (.const v)] 1
  | .numbered ds => params[Nat.ofDigitChars 10 ds 0 - 1]?.map fun v => l.emit [.operand (.const v)] 1
  | .opening => some (l.emit [.opening] 0)
  | .closing => some (l.emit [.closing] 0)
  | .comma => some (l.emit [.comma] 0)
  | .comment => none

def step (l : Lexer) (c : Char) : Option Lexer :=
  match l.lexeme.extend? g c with
  | some lexeme => some { l with lexeme }
  | none => do
    let l ← l.complete g params
    let lexeme ← Lexeme.start? c
    some { l with lexeme }

/-- Reads characters to their end. -/
def run (l : Lexer) (cs : List Char) : Option Lexer := do
  let l ← cs.foldlM (step g params) l
  l.complete g params

end Lexer

/-- The expression that a text is read as, with values for its placeholders. -/
def parse (g : Grammar) (params : List Value) (s : String) : Option Expr := do
  let l ← Lexer.run g params ⟨[], 0, .blank⟩ s.toList
  g.read l.tokens.reverse

/-! ## Places at which no lexeme goes on -/

namespace Lexer

variable {g : Grammar} {params : List Value} {l l' m : Lexer} {cs : List Char}

theorem complete_blank (h : l.complete g params = some m) : m.lexeme = .blank := by
  obtain ⟨ts, i, lexeme⟩ := l
  cases lexeme with
  | blank => exact Option.some.inj h ▸ rfl
  | quoted q cs ended =>
    cases ended with
    | true => exact Option.some.inj h ▸ rfl
    | false => cases h
  | minus | symbol | opening | closing | comma => exact Option.some.inj h ▸ rfl
  | word | called | number | placeholder | numbered =>
    obtain ⟨_, _, rfl⟩ := Option.map_eq_some_iff.mp h
    rfl
  | comment => cases h

theorem run_cons_of_blank (h : l.lexeme = .blank) (c : Char) (cs : List Char) :
    run g params l (c :: cs) = (Lexeme.start? c).bind fun lexeme => run g params { l with lexeme } cs := by
  obtain ⟨ts, i, lexeme⟩ := l
  cases h
  rw [run, List.foldlM_cons]
  simp only [step, Lexeme.extend?, complete, Option.bind_eq_bind, Option.bind_some]
  cases Lexeme.start? c <;> rfl

/-- Where the lexeme does not go on, it is as if it had been completed first. -/
theorem run_cons_of_complete (h : l.complete g params = some m) {c : Char} (hc : l.lexeme.extend? g c = none)
    (cs : List Char) : run g params l (c :: cs) = run g params m (c :: cs) := by
  rw [run_cons_of_blank (complete_blank h), run, List.foldlM_cons]
  simp only [step, hc, h, Option.bind_eq_bind, Option.bind_some]
  cases Lexeme.start? c <;> rfl

/-- Characters that end lexemes. -/
def isDelimiter (c : Char) : Bool :=
  c == ' ' || c == ',' || c == ')'

theorem extend_delimiter (h : l.complete g params = some m) {c : Char} (hc : isDelimiter c = true) :
    l.lexeme.extend? g c = none := by
  obtain ⟨ts, i, lexeme⟩ := l
  simp only [isDelimiter, Bool.or_eq_true, beq_iff_eq] at hc
  cases lexeme with
  | quoted kind cs ended =>
    cases ended with
    | true => cases kind <;> rcases hc with (rfl | rfl) | rfl <;> rfl
    | false => cases h
  | comment => cases h
  | _ => rcases hc with (rfl | rfl) | rfl <;> rfl

/-- What stands before a delimiter is read by itself. -/
theorem run_delimited (h : run g params l cs = some m) {c : Char} (hc : isDelimiter c = true) (rest : List Char) :
    run g params l (cs ++ c :: rest) = run g params m (c :: rest) := by
  obtain ⟨l', hread, hcomplete⟩ := Option.bind_eq_some_iff.mp h
  rw [← run_cons_of_complete hcomplete (extend_delimiter hcomplete hc), run, List.foldlM_append]
  simp only [hread, Option.bind_eq_bind, Option.bind_some]
  rfl

/-- Reading the characters ends with a lexeme that does not go on, whatever follows. -/
def Closes (g : Grammar) (params : List Value) (l : Lexer) (cs : List Char) (m : Lexer) : Prop :=
  ∃ l', cs.foldlM (step g params) l = some l' ∧ l'.complete g params = some m ∧ ∀ c, l'.lexeme.extend? g c = none

theorem run_closed (h : Closes g params l cs m) (rest : List Char) :
    run g params l (cs ++ rest) = run g params m rest := by
  obtain ⟨l', hread, hcomplete, hend⟩ := h
  have hrun : run g params l (cs ++ rest) = run g params l' rest := by
    rw [run, List.foldlM_append]
    simp only [hread, Option.bind_eq_bind, Option.bind_some]
    rfl
  rw [hrun]
  cases rest with
  | cons c rest => exact run_cons_of_complete hcomplete (hend c) rest
  | nil =>
    have hblank := complete_blank hcomplete
    obtain ⟨ts, i, lexeme⟩ := m
    cases hblank
    exact hcomplete

/-! ## Single lexemes -/

variable {ts : List Token} {i : Nat}

theorem run_of_read (h : cs.foldlM (step g params) l = some l') : run g params l cs = l'.complete g params := by
  rw [run, h]
  rfl

/-- Characters of a kind that goes on a lexeme. -/
theorem read_extending (lexeme : List Char → Lexeme) {p : Char → Bool}
    (hp : ∀ ds c, p c → (lexeme ds).extend? g c = some (lexeme (ds ++ [c]))) (ds : List Char) (h : ∀ c ∈ cs, p c) :
    cs.foldlM (step g params) ⟨ts, i, lexeme ds⟩ = some ⟨ts, i, lexeme (ds ++ cs)⟩ := by
  induction cs generalizing ds with
  | nil => rw [List.append_nil]; rfl
  | cons c cs ih =>
    have hstep : step g params ⟨ts, i, lexeme ds⟩ c = some ⟨ts, i, lexeme (ds ++ [c])⟩ := by
      simp only [step, hp ds c (h c List.mem_cons_self)]
    have hrest := ih (ds ++ [c]) fun c hc => h c (List.mem_cons_of_mem _ hc)
    rw [List.append_assoc, List.singleton_append] at hrest
    rw [List.foldlM_cons, hstep]
    exact hrest

theorem run_cons_start (lexeme : Lexeme) {c : Char} (h : Lexeme.start? c = some lexeme) (cs : List Char) :
    run g params ⟨ts, i, .blank⟩ (c :: cs) = run g params ⟨ts, i, lexeme⟩ cs := by
  rw [run_cons_of_blank rfl, h]
  rfl

theorem run_cons_extend (lexeme lexeme' : Lexeme) {c : Char} (h : lexeme.extend? g c = some lexeme')
    (cs : List Char) : run g params ⟨ts, i, lexeme⟩ (c :: cs) = run g params ⟨ts, i, lexeme'⟩ cs := by
  rw [run, run, List.foldlM_cons]
  simp only [step, h, Option.bind_eq_bind, Option.bind_some]

/-- The digits of a number. -/
theorem digits (n : Nat) :
    ∃ c cs, (toString n).toList = c :: cs ∧ (∀ d ∈ c :: cs, d.isDigit) ∧ Nat.ofDigitChars 10 (c :: cs) 0 = n := by
  obtain ⟨c, cs, hcs⟩ := List.exists_cons_of_ne_nil (toString_ne_nil n)
  refine ⟨c, cs, hcs, ?_, ?_⟩
  · rw [← hcs]
    exact isDigit_toString n
  · rw [← hcs]
    exact ofDigitChars_toString n

theorem start_digit {c : Char} (hc : c.isDigit) : Lexeme.start? c = some (.number false [c]) := by
  simp only [Char.isDigit, ge_iff_le, Bool.and_eq_true, decide_eq_true_eq, UInt32.le_iff_toNat_le] at hc
  rw [← Char.ofNat_toNat c]
  have hlow : 48 ≤ c.toNat := hc.1
  have hhigh : c.toNat ≤ 57 := hc.2
  interval_cases c.toNat <;> rfl

theorem run_number (n : Int64) :
    run g params ⟨ts, i, .blank⟩ (toString n.toInt).toList =
      some (emit ⟨ts, i, .blank⟩ [.operand (.const (.long n))] 0) := by
  have hvalue : Value.ofInt64? n.toInt = some (.long n) := by
    rw [Value.ofInt64?, if_pos ⟨n.minValue_le_toInt, n.toInt_le⟩, n.ofInt_toInt]
  have hread : ∀ (negative : Bool) (c : Char) (cs : List Char), (∀ d ∈ c :: cs, d.isDigit) →
      n.toInt = (if negative then -(Nat.ofDigitChars 10 (c :: cs) 0 : Int) else Nat.ofDigitChars 10 (c :: cs) 0) →
      run g params ⟨ts, i, .number negative [c]⟩ cs = some (emit ⟨ts, i, .blank⟩ [.operand (.const (.long n))] 0) := by
    intro negative c cs hcs hn
    rw [run_of_read (read_extending (.number negative) (p := Char.isDigit) (fun ds c hc => if_pos hc) [c]
      fun d hd => hcs d (List.mem_cons_of_mem c hd))]
    simp only [complete, number?, List.singleton_append, ← hn, hvalue]
    rfl
  rw [Int.toString_eq_repr, Int.repr_eq_if]
  split
  next hnonneg =>
    obtain ⟨c, cs, hcs, hdigits, hn⟩ := digits n.toInt.toNat
    rw [← Nat.toString_eq_repr, hcs, run_cons_start _ (start_digit (hdigits c List.mem_cons_self)),
      hread false c cs hdigits (by rw [hn]; simp only [Bool.false_eq_true, if_false]; omega)]
  next hneg =>
    obtain ⟨c, cs, hcs, hdigits, hn⟩ := digits (-n.toInt).toNat
    rw [← Nat.toString_eq_repr, String.toList_append, hcs]
    have hminus : "-".toList ++ c :: cs = '-' :: c :: cs := rfl
    rw [hminus, run_cons_start .minus rfl,
      run_cons_extend .minus (.number true [c]) (if_pos (hdigits c List.mem_cons_self)),
      hread true c cs hdigits (by rw [hn]; simp only [if_true]; omega)]

theorem start_letter {c : Char} (hc : isLetter c) : Lexeme.start? c = some (.word [c]) := by
  have hne : c ≠ ' ' := by
    rintro rfl
    cases hc
  exact (if_neg hne).trans (if_pos hc)

theorem run_word {c : Char} (hc : isLetter c)
    (hcs : ∀ d ∈ cs, isLetter d || d.isDigit || d == '.') {t : Token} (ht : wordToken (c :: cs) = some t) :
    run g params ⟨ts, i, .blank⟩ (c :: cs) = some (emit ⟨ts, i, .blank⟩ [t] 0) := by
  have hextend : ∀ ds d, (isLetter d || d.isDigit || d == '.') →
      (Lexeme.word ds).extend? g d = some (.word (ds ++ [d])) := by
    intro ds d hd
    have hne : d ≠ '(' := by
      rintro rfl
      cases hd
    rw [Lexeme.extend?, if_neg hne, if_pos hd]
  rw [run_cons_start _ (start_letter hc), run_of_read (read_extending .word hextend [c] hcs), complete,
    List.singleton_append]
  simp only [ht]
  rfl

/-- A minus sign is a sign of its own before a letter. -/
theorem extend_minus_letter {c : Char} (hc : isLetter c) : Lexeme.minus.extend? g c = none := by
  have hdigit : ¬ c.isDigit := by
    intro hd
    cases (start_digit hd).symm.trans (start_letter hc)
  have hne : ¬ (c = '-' ∧ g ≠ .text) := by
    rintro ⟨rfl, _⟩
    cases hc
  exact (if_neg hdigit).trans (if_neg hne)

/-- Characters in quotes, with each quote among them written twice. -/
theorem run_quoted (kind : Quoted) (cs : List Char) :
    run g params ⟨ts, i, .blank⟩
        (kind.quote :: (cs.flatMap fun c => if c = kind.quote then [c, c] else [c]) ++ [kind.quote]) =
      some (emit ⟨ts, i, .blank⟩ [kind.token cs] 0) := by
  have hstart : Lexeme.start? kind.quote = some (.quoted kind [] false) := by cases kind <;> rfl
  have hread : ∀ ds, run g params ⟨ts, i, .quoted kind ds false⟩
      ((cs.flatMap fun c => if c = kind.quote then [c, c] else [c]) ++ [kind.quote]) =
        some (emit ⟨ts, i, .blank⟩ [kind.token (ds ++ cs)] 0) := by
    induction cs with
    | nil =>
      intro ds
      rw [List.flatMap_nil, List.nil_append, run_cons_extend (.quoted kind ds false) (.quoted kind ds true) (if_pos rfl),
        List.append_nil]
      rfl
    | cons c cs ih =>
      intro ds
      have hrest := ih (ds ++ [c])
      rw [List.append_assoc, List.singleton_append] at hrest
      rw [List.flatMap_cons, List.append_assoc, ← hrest]
      by_cases hc : c = kind.quote
      · rw [if_pos hc, List.cons_append, List.cons_append, List.nil_append,
          run_cons_extend (.quoted kind ds false) (.quoted kind ds true) (if_pos hc),
          run_cons_extend (.quoted kind ds true) (.quoted kind (ds ++ [c]) false) (if_pos hc)]
      · rw [if_neg hc, List.singleton_append, run_cons_extend (.quoted kind ds false) (.quoted kind (ds ++ [c]) false)
            (if_neg hc)]
  rw [List.cons_append, run_cons_start _ hstart, hread [], List.nil_append]

/-- The placeholder of the next value. -/
theorem run_placeholder {v : Value} (h : params[i]? = some v) :
    run g params ⟨ts, i, .blank⟩ (g.dialect.placeholder (i + 1)).toList =
      some (emit ⟨ts, i, .blank⟩ [.operand (.const v)] 1) := by
  have hnext : run g params ⟨ts, i, .blank⟩ "?".toList = some (emit ⟨ts, i, .blank⟩ [.operand (.const v)] 1) := by
    have hrun : run g params ⟨ts, i, .blank⟩ "?".toList = complete g params ⟨ts, i, .placeholder⟩ := rfl
    rw [hrun, complete, h]
    rfl
  cases g with
  | text => exact hnext
  | sqlite => exact hnext
  | postgres =>
    obtain ⟨c, cs, hcs, hdigits, hn⟩ := digits (i + 1)
    have htext : (Grammar.postgres.dialect.placeholder (i + 1)).toList = '$' :: c :: cs := by
      rw [← hcs]
      exact String.toList_append
    rw [htext, run_cons_start (.numbered []) rfl,
      run_of_read (read_extending .numbered (p := Char.isDigit) (fun ds c hc => if_pos hc) [] hdigits)]
    simp only [complete, List.nil_append, hn, Nat.add_sub_cancel, h]
    rfl

end Lexer

end TableQuery.Grammar
