import TableQuery.Dialect
import TableQuery.Expr.Basic

/- How expressions are read. A grammar says how tightly each operator binds and where its sign stands, and
   the reader takes one token after the other. What has been begun is kept on a stack of frames; when the
   sign of an operator comes, the frames that bind tighter are completed (`settle`), and what is left must
   admit an expression of that operator.

   The text of expressions and the two kinds of SQL have a grammar each. They differ in concatenation, which
   is a function in the text and binds at different ranks in SQL, in comparisons, which do not associate in
   the text and associate to the left in SQL, and in `--`, which starts a comment in SQL. -/
namespace TableQuery

inductive Grammar where
  | text
  | sqlite
  | postgres
  deriving DecidableEq

/-- The operator takes any number of arguments, each after a sign of its own. -/
def Operator.chains : Operator → Bool
  | .and | .or | .concat => true
  | _ => false

namespace Grammar

/-- The dialect in which identifiers and placeholders are written. The text of expressions has none. -/
def dialect : Grammar → Dialect
  | postgres => .postgres
  | text | sqlite => .sqlite

def sign (g : Grammar) (op : Operator) : String :=
  if op = .concat ∧ g ≠ text then "||" else op.sign

def layout (g : Grammar) (op : Operator) : Layout :=
  if op = .concat ∧ g ≠ text then .infixed else op.layout

/-- The smaller, the tighter the operator binds. All comparisons are of one rank. -/
def rank : Grammar → Operator → Nat
  | _, .neg => 1
  | sqlite, .concat => 2
  | postgres, .concat => 5
  | _, op => if op.isComparison then 8 else op.precedence

/-- More than any rank. -/
def loosest : Nat := 14

/-- When the sign of the operator comes, the frames of smaller ranks than this are complete. It is above the
rank of an operator that associates to the left. -/
def closes (g : Grammar) (op : Operator) : Nat :=
  if op.chains ∨ (g = text ∧ op.isComparison) then g.rank op else g.rank op + 1

inductive Token where
  /-- A constant, a path, or what is bound to a placeholder. -/
  | operand (x : Expr)
  /-- A word or a sign that stands for itself. -/
  | mark (s : String)
  /-- The name of a function with the parenthesis that follows it. -/
  | call (op : Operator)
  | opening
  | closing
  | comma

/-- What has been begun and waits for an expression. -/
inductive Frame where
  /-- `NOT _` -/
  | before (op : Operator)
  /-- `x + _`, or `x AND y AND _` -/
  | infixed (op : Operator) (x : Expr) (ys : List Expr)
  /-- `x BETWEEN _` -/
  | low (op : Operator) (x : Expr)
  /-- `x BETWEEN y AND _` -/
  | high (op : Operator) (x low : Expr)
  /-- `(_` -/
  | group
  /-- `SUBSTR(x, _`, or `x IN (y, _` -/
  | members (op : Operator) (xs : List Expr)

inductive Reader where
  /-- An expression must come. -/
  | wanting (fs : List Frame)
  /-- An expression has come, and the first words of a sign. -/
  | holding (fs : List Frame) (x : Expr) (words : List String)

/-- The frame takes an expression of that rank. -/
def Admits (g : Grammar) (rank : Nat) : List Frame → Prop
  | .before op :: _ => g.layout op = .before ∧ rank ≤ g.rank op
  | .low op _ :: _ => g.layout op = .range ∧ rank < g.rank op
  | .infixed op _ _ :: _ | .high op _ _ :: _ => rank < g.rank op
  | .group :: _ | .members _ _ :: _ | [] => True

instance (g : Grammar) (rank : Nat) (fs : List Frame) : Decidable (g.Admits rank fs) := by
  unfold Admits
  split <;> infer_instance

/-- Completes the frames of smaller ranks than `bound`. -/
def settle (g : Grammar) (bound : Nat) : List Frame → Expr → List Frame × Expr
  | .before op :: fs, x => if g.rank op < bound then settle g bound fs (.app op x []) else (.before op :: fs, x)
  | .infixed op y ys :: fs, x =>
    if g.rank op < bound then settle g bound fs (.app op y (ys ++ [x])) else (.infixed op y ys :: fs, x)
  | .high op y low :: fs, x =>
    if g.rank op < bound then settle g bound fs (.app op y [low, x]) else (.high op y low :: fs, x)
  | fs, x => (fs, x)

/-- Goes on after the sign of an operator that follows `x`. -/
def begin (g : Grammar) (op : Operator) (fs : List Frame) (x : Expr) : Option Reader :=
  if g.Admits (g.rank op) fs then
    match g.layout op with
    | .infixed => some (.wanting (.infixed op x [] :: fs))
    | .after => some (.holding fs (.app op x []) [])
    | .range => some (.wanting (.low op x :: fs))
    | .list => some (.wanting (.members op [x] :: fs))
    | .before | .call => none
  else none

/-- The sign of `op` has come after an expression. AND is also written between the bounds of a range. -/
def shift (g : Grammar) (op : Operator) (fs : List Frame) (x : Expr) : Option Reader :=
  match op, g.settle (g.closes op) fs x with
  | .and, (.low range y :: fs, low) => some (.wanting (.high range y low :: fs))
  | op, (.infixed op' y ys :: fs, x) =>
    if op' = op ∧ op.chains then some (.wanting (.infixed op y (ys ++ [x]) :: fs))
    else g.begin op (.infixed op' y ys :: fs) x
  | op, (fs, x) => g.begin op fs x

/-- The operator with that sign before its operand. -/
def prefix? (g : Grammar) (s : String) : Option Operator :=
  Operator.all.find? fun op => g.layout op = .before ∧ g.sign op = s

/-- The operator with that sign after its operand. -/
def sign? (g : Grammar) (s : String) : Option Operator :=
  Operator.all.find? fun op => g.layout op ≠ .before ∧ g.layout op ≠ .call ∧ g.sign op = s

/-- The function of that name. -/
def call? (g : Grammar) (s : String) : Option Operator :=
  Operator.all.find? fun op => g.layout op = .call ∧ g.sign op = s

/-- The constant that is written as a word. -/
def constant? : String → Option Value
  | "NULL" => some .null
  | "TRUE" => some (.bool true)
  | "FALSE" => some (.bool false)
  | _ => none

/-- A parenthesis closes a group, or the members of a call or a list. -/
def close : List Frame → Expr → Option Reader
  | .group :: fs, x => some (.holding fs x [])
  | .members op (y :: ys) :: fs, x => some (.holding fs (.app op y (ys ++ [x])) [])
  | .members op [] :: fs, x => some (.holding fs (.app op x []) [])
  | _, _ => none

/-- A comma parts members. -/
def next : List Frame → Expr → Option Reader
  | .members op xs :: fs, x => some (.wanting (.members op (xs ++ [x]) :: fs))
  | _, _ => none

def step (g : Grammar) : Reader → Token → Option Reader
  | .wanting fs, .operand x => some (.holding fs x [])
  | .wanting fs, .opening => some (.wanting (.group :: fs))
  | .wanting fs, .call op => some (.wanting (.members op [] :: fs))
  | .wanting fs, .mark s =>
    match constant? s, g.prefix? s with
    | some v, _ => some (.holding fs (.const v) [])
    | none, some op => if g.Admits (g.rank op) fs then some (.wanting (.before op :: fs)) else none
    | none, none => none
  -- A list may have no members.
  | .wanting (.members op [x] :: fs), .closing =>
    if g.layout op = .list then some (.holding fs (.app op x []) []) else none
  | .holding fs x words, .mark s =>
    match g.sign? (" ".intercalate (words ++ [s])) with
    | some op => if g.layout op = .list then some (.holding fs x (words ++ [s])) else g.shift op fs x
    | none => some (.holding fs x (words ++ [s]))
  | .holding fs x words, .opening =>
    match g.sign? (" ".intercalate words) with
    | some op => if g.layout op = .list then g.shift op fs x else none
    | none => none
  | .holding fs x [], .closing =>
    let (fs, x) := g.settle loosest fs x
    close fs x
  | .holding fs x [], .comma =>
    let (fs, x) := g.settle loosest fs x
    next fs x
  | _, _ => none

/-- What has been read when the tokens end. -/
def finish (g : Grammar) : Reader → Option Expr
  | .holding fs x [] =>
    match g.settle loosest fs x with
    | ([], x) => some x
    | _ => none
  | _ => none

/-- The expression that the tokens are read as. -/
def read (g : Grammar) (ts : List Token) : Option Expr :=
  (ts.foldlM g.step (.wanting [])).bind g.finish

/-! ## Ranks -/

variable {g : Grammar} {op op' : Operator}

theorem rank_lt_loosest (g : Grammar) (op : Operator) : g.rank op < loosest := by
  cases g <;> cases op <;> decide

theorem rank_le_closes (g : Grammar) (op : Operator) : g.rank op ≤ g.closes op := by
  unfold closes
  split <;> omega

theorem closes_le (g : Grammar) (op : Operator) : g.closes op ≤ g.rank op + 1 := by
  unfold closes
  split <;> omega

theorem rank_before (h : g.layout op = .before) : g.rank op = 1 ∨ g.rank op = 10 := by
  cases g <;> cases op <;> first | decide | cases h

theorem rank_range (h : g.layout op = .range) : g.rank op = 8 := by
  cases g <;> cases op <;> first | rfl | cases h

/-- No sign that follows an operand is of the rank of one that is written before it. -/
theorem rank_after (hbefore : g.layout op ≠ .before) (hcall : g.layout op ≠ .call) :
    g.rank op ≠ 1 ∧ g.rank op ≠ 10 ∧ 0 < g.rank op := by
  cases g <;> cases op <;> first | decide | exact absurd rfl hbefore | exact absurd rfl hcall

/-- Frames that admit an operator are not completed by its sign. -/
theorem settle_of_admits {fs : List Frame} (hbefore : g.layout op ≠ .before) (hcall : g.layout op ≠ .call)
    (h : g.Admits (g.rank op) fs) (x : Expr) : g.settle (g.closes op) fs x = (fs, x) := by
  have hcloses := closes_le g op
  match fs with
  | [] | .group :: fs | .members _ _ :: fs | .low _ _ :: fs => rfl
  | .before op' :: fs =>
    obtain ⟨hbefore', hle⟩ := h
    have hne : g.rank op ≠ g.rank op' := by
      have hop := rank_after hbefore hcall
      rcases rank_before (g := g) hbefore' with h | h <;> omega
    rw [settle, if_neg (by omega)]
  | .infixed op' y ys :: fs =>
    have hlt : g.rank op < g.rank op' := h
    rw [settle, if_neg (by omega)]
  | .high op' y low :: fs =>
    have hlt : g.rank op < g.rank op' := h
    rw [settle, if_neg (by omega)]

/-- The sign of an operator begins it, if what is left when frames have been completed admits it. -/
theorem shift_of_settle {fs fs' : List Frame} {x x' : Expr} (hbefore : g.layout op ≠ .before)
    (hcall : g.layout op ≠ .call) (h : g.Admits (g.rank op) fs)
    (hsettle : g.settle (g.closes op) fs' x' = (fs, x)) : g.shift op fs' x' = g.begin op fs x := by
  rw [shift.eq_def, hsettle]
  match fs with
  | [] | .group :: fs | .members _ _ :: fs | .before _ :: fs | .high _ _ _ :: fs => cases op <;> rfl
  | .low range y :: fs =>
    have hne : op ≠ .and := by
      rintro rfl
      have hlt : 11 < g.rank range := by cases g <;> exact h.2
      rw [rank_range h.1] at hlt
      omega
    cases op <;> first | rfl | exact absurd rfl hne
  | .infixed op' y ys :: fs =>
    have hne : op' ≠ op := by
      rintro rfl
      exact absurd h (Nat.lt_irrefl _)
    cases op <;> exact if_neg fun h => hne h.1

theorem Admits.mono {fs : List Frame} {r r' : Nat} (h : g.Admits r fs) (hle : r' ≤ r) : g.Admits r' fs := by
  match fs with
  | [] | .group :: fs | .members _ _ :: fs => trivial
  | .before _ :: fs => exact ⟨h.1, Nat.le_trans hle h.2⟩
  | .low _ _ :: fs => exact ⟨h.1, Nat.lt_of_le_of_lt hle h.2⟩
  | .infixed _ _ _ :: fs | .high _ _ _ :: fs => exact Nat.lt_of_le_of_lt hle h

end Grammar

end TableQuery
