import Mathlib.Data.List.Chain
import TableQuery.Proofs.Sql.Pieces
import TableQuery.Proofs.Sql.Reading
import TableQuery.Value.Literal

/- What stands outside of the identifiers of a text. Pieces spell identifiers (`Spells`) if

     1. they are read as they were put together, with these identifiers,
     2. no quote and no semicolon stands outside of them, and
     3. no two characters that stand next to each other there begin a comment.

   The third is about what stands at the end of one piece and at the beginning of the next. Raw texts end in a
   character that begins no comment (`Tame`), and so pieces spell identifiers if their parts do (`Spells.append`,
   `Spells.joinedCons`). Only the minus sign is no such text, and what follows it must not begin with another
   (`Spells.minus`). -/
namespace TableQuery.Sql

/-! ## Parts -/

/-- The text of a part. -/
def Part.written (d : Dialect) : Part → List Char
  | name cs => (d.quote (String.ofList cs)).toList
  | char c => [c]

/-- The quotes of literals and of identifiers, in any dialect, and what ends a statement. -/
def delicate : List Char :=
  [Value.quoteChar, Dialect.quoteChar .postgres, Dialect.quoteChar .mysql, ';']

/-- The two characters begin a comment. -/
def opensComment (a b : Char) : Bool :=
  (a == '-' && b == '-') || (a == '/' && b == '*')

/-- No comment begins where the first part stands before the second. -/
def Calm : Part → Part → Prop
  | .char a, .char b => opensComment a b = false
  | _, _ => True

/-- Outside of identifiers, nothing is quoted, no statement ends and no comment begins. -/
structure Sound (parts : List Part) : Prop where
  harmless : ∀ c, .char c ∈ parts → c ∉ delicate
  calm : parts.IsChain Calm

/-- No comment begins with the character. -/
def settles (c : Char) : Bool :=
  c != '-' && c != '/'

theorem opensComment_of_settles {a : Char} (h : settles a = true) (b : Char) : opensComment a b = false := by
  simp only [settles, Bool.and_eq_true, bne_iff_ne] at h
  simp [opensComment, h.1, h.2]

theorem calm_of_settles {a : Char} (h : settles a = true) (p : Part) : Calm (.char a) p := by
  cases p with
  | name cs => trivial
  | char b => exact opensComment_of_settles h b

/-- Text that separates goes on with no comment. -/
theorem calm_of_isSeparator {c : Char} (h : isSeparator c = true) (p : Part) : Calm p (.char c) := by
  cases p with
  | name cs => trivial
  | char a =>
    simp only [isSeparator, Bool.or_eq_true, beq_iff_eq] at h
    rcases h with (rfl | rfl) | rfl
    · simp [Calm, opensComment]
    · simp [Calm, opensComment]
    · simp [Calm, opensComment]

namespace Sound

variable {parts parts' : List Part}

theorem append (h : Sound parts) (h' : Sound parts')
    (hbetween : ∀ p ∈ parts.getLast?, ∀ p' ∈ parts'.head?, Calm p p') : Sound (parts ++ parts') := by
  refine ⟨?_, List.isChain_append.mpr ⟨h.calm, h'.calm, hbetween⟩⟩
  intro c hc
  rcases List.mem_append.mp hc with hc | hc
  · exact h.harmless c hc
  · exact h'.harmless c hc

/-- Characters as parts. -/
theorem chars {cs : List Char} (hharmless : ∀ c ∈ cs, c ∉ delicate)
    (hcalm : cs.IsChain fun a b => opensComment a b = false) : Sound (cs.map .char) := by
  refine ⟨?_, (List.isChain_map Part.char).mpr hcalm⟩
  intro c hc
  exact hharmless c (char_mem_map_iff.mp hc)

/-- Two characters that begin a comment do not stand next to each other. -/
theorem no_comment (h : Sound parts) {a b : Char} (hab : opensComment a b = true) :
    ¬ [.char a, .char b] <:+: parts := by
  intro hwithin
  have hchain := List.IsChain.infix h.calm hwithin
  have hcalm : Calm (.char a) (.char b) := List.isChain_pair.mp hchain
  rw [Calm, hab] at hcalm
  cases hcalm

end Sound

variable {β : Type} {d : Dialect} {ps qs : List (Piece β)} {s t : String} {names names' : List String}

/-- The parts make up the whole text. -/
theorem written_partsFrom (d : Dialect) (index : Nat) (ps : List (Piece β)) :
    (partsFrom d index ps).flatMap (Part.written d) = (textFrom d index ps).toList := by
  have hchars : ∀ cs : List Char, (cs.map Part.char).flatMap (Part.written d) = cs := by
    intro cs
    rw [List.flatMap_map]
    exact List.flatMap_singleton' cs
  induction ps generalizing index with
  | nil => rfl
  | cons p ps ih =>
    cases p with
    | raw s => rw [partsFrom, List.flatMap_append, hchars, ih, textFrom, String.toList_append]
    | name s =>
      rw [partsFrom, List.flatMap_cons, ih, textFrom, String.toList_append, Part.written, String.ofList_toList]
    | bound b => rw [partsFrom, List.flatMap_append, hchars, ih, textFrom, String.toList_append]

/-! ## Raw text -/

/-- Text that can stand anywhere, as no comment begins in it or at its end. -/
structure Tame (s : String) : Prop where
  quiet : Quiet s
  harmless : ∀ c ∈ s.toList, c ∉ delicate
  calm : s.toList.IsChain fun a b => opensComment a b = false
  settled : s.toList.getLast?.all settles = true

instance (s : String) : Decidable (Tame s) :=
  have : Decidable (∀ c ∈ s.toList, c ∉ delicate) := List.decidableBAll (fun c => c ∉ delicate) s.toList
  decidable_of_iff
    (Quiet s ∧ (∀ c ∈ s.toList, c ∉ delicate) ∧ (s.toList.IsChain fun a b => opensComment a b = false) ∧
      s.toList.getLast?.all settles = true)
    ⟨fun h => ⟨h.1, h.2.1, h.2.2.1, h.2.2.2⟩, fun h => ⟨h.quiet, h.harmless, h.calm, h.settled⟩⟩

namespace Tame

theorem settles_last (h : Tame s) {c : Char} (hc : c ∈ s.toList.getLast?) : settles c = true := by
  have hlast := h.settled
  rw [Option.mem_def.mp hc] at hlast
  exact hlast

theorem append (hs : Tame s) (ht : Tame t) : Tame (s ++ t) := by
  constructor
  · rw [Quiet, String.toList_append]
    exact List.forall_mem_append.mpr ⟨hs.quiet, ht.quiet⟩
  · rw [String.toList_append]
    exact List.forall_mem_append.mpr ⟨hs.harmless, ht.harmless⟩
  · rw [String.toList_append, List.isChain_append]
    exact ⟨hs.calm, ht.calm, fun a ha b _ => opensComment_of_settles (hs.settles_last ha) b⟩
  · rw [String.toList_append, List.getLast?_append]
    cases hlast : t.toList.getLast? with
    | none => exact hs.settled
    | some c => exact ht.settles_last hlast

/-- A minus sign may stand before anything that does not begin with one. -/
theorem minus (h : Tame s) (hfirst : s.toList.head?.any (· != '-') = true) : Tame ("-" ++ s) := by
  have hchars : ("-" ++ s).toList = '-' :: s.toList := by simp
  obtain ⟨hquiet, hharmless, hcalm, hlast⟩ := h
  rw [Quiet] at hquiet
  cases hcs : s.toList with
  | nil =>
    rw [hcs] at hfirst
    cases hfirst
  | cons c cs =>
    rw [hcs] at hfirst hquiet hharmless hcalm hlast
    rw [List.head?_cons, Option.any_some, bne_iff_ne] at hfirst
    constructor
    · rw [Quiet, hchars, hcs]
      exact List.forall_mem_cons.mpr ⟨by decide, hquiet⟩
    · rw [hchars, hcs]
      exact List.forall_mem_cons.mpr ⟨by decide, hharmless⟩
    · rw [hchars, hcs]
      exact List.isChain_cons_cons.mpr ⟨by simp [opensComment, hfirst], hcalm⟩
    · rw [hchars, hcs, List.getLast?_cons_cons]
      exact hlast

end Tame

theorem settles_of_isDigit {c : Char} (h : c.isDigit = true) : settles c = true := by
  simp only [settles, Bool.and_eq_true, bne_iff_ne]
  constructor
  · intro hc
    rw [hc] at h
    cases h
  · intro hc
    rw [hc] at h
    cases h

theorem harmless_of_isDigit {c : Char} (h : c.isDigit = true) : c ∉ delicate := by
  intro hc
  simp only [delicate, List.mem_cons, List.not_mem_nil, or_false] at hc
  rcases hc with rfl | rfl | rfl | rfl
  · cases h
  · cases h
  · cases h
  · cases h

theorem isChain_of_settles {cs : List Char} (h : ∀ c ∈ cs, settles c = true) :
    cs.IsChain fun a b => opensComment a b = false := by
  induction cs with
  | nil => exact .nil
  | cons c cs ih =>
    obtain ⟨hc, hcs⟩ := List.forall_mem_cons.mp h
    exact List.isChain_cons.mpr ⟨fun b _ => opensComment_of_settles hc b, ih hcs⟩

theorem tame_nat (n : Nat) : Tame (toString n) := by
  have hdigits := isDigit_toString n
  constructor
  · exact fun c hc => isQuiet_of_isDigit (hdigits c hc)
  · exact fun c hc => harmless_of_isDigit (hdigits c hc)
  · exact isChain_of_settles fun c hc => settles_of_isDigit (hdigits c hc)
  · cases hlast : (toString n).toList.getLast? with
    | none => rfl
    | some c => exact settles_of_isDigit (hdigits c (List.mem_of_getLast? hlast))

/-- A number may begin with a minus sign, behind which there is a digit. -/
theorem tame_int (n : Int) : Tame (toString n) := by
  rw [Int.toString_eq_repr, Int.repr_eq_if]
  split
  · exact tame_nat _
  · apply (tame_nat _).minus
    have hdigits := isDigit_toString (-n).toNat
    cases hcs : (toString (-n).toNat).toList with
    | nil => exact absurd hcs (toString_ne_nil _)
    | cons c cs =>
      rw [hcs] at hdigits
      rw [List.head?_cons, Option.any_some, bne_iff_ne]
      intro hminus
      have hdigit := hdigits c List.mem_cons_self
      rw [hminus] at hdigit
      cases hdigit

/-! ## Pieces -/

/-- The piece stands for no text. -/
def Piece.isBlank : Piece β → Bool
  | raw s => s == ""
  | _ => false

/-- The pieces that stand for some text. -/
def solid (ps : List (Piece β)) : List (Piece β) :=
  ps.filter fun p => !p.isBlank

/-- The pieces spell the identifiers, whatever stands before them. -/
structure Spells (d : Dialect) (names : List String) (ps : List (Piece β)) : Prop where
  clear : Clear (solid ps)
  sound : ∀ index, Sound (partsFrom d index ps)
  identifiers : Sql.identifiers ps = names

/-- The text does not begin with a minus sign. -/
def Unsigned (d : Dialect) (ps : List (Piece β)) : Prop :=
  ∀ index, (partsFrom d index ps).head? ≠ some (.char '-')

/-- The pieces may stand behind others: they begin with text that separates, or are no text. -/
def Behind (ps : List (Piece β)) : Prop :=
  Separated (solid ps)

@[simp] theorem solid_append (ps qs : List (Piece β)) : solid (ps ++ qs) = solid ps ++ solid qs :=
  List.filter_append ..

theorem solid_raw (hs : s ≠ "") (ps : List (Piece β)) : solid (.raw s :: ps) = .raw s :: solid ps := by
  simp [solid, Piece.isBlank, hs]

theorem solid_blank (ps : List (Piece β)) : solid (.raw "" :: ps) = solid ps := by
  simp [solid, Piece.isBlank]

theorem partsFrom_solid (d : Dialect) (index : Nat) (ps : List (Piece β)) :
    partsFrom d index (solid ps) = partsFrom d index ps := by
  induction ps generalizing index with
  | nil => rfl
  | cons p ps ih =>
    cases p with
    | raw s =>
      by_cases hs : s = ""
      · subst hs
        rw [solid_blank, ih]
        rfl
      · rw [solid_raw hs, partsFrom, ih, partsFrom]
    | name s => exact congrArg (Part.name s.toList :: ·) (ih index)
    | bound b => exact congrArg ((d.placeholder (index + 1)).toList.map Part.char ++ ·) (ih (index + 1))

theorem textFrom_solid (d : Dialect) (index : Nat) (ps : List (Piece β)) :
    textFrom d index (solid ps) = textFrom d index ps := by
  rw [← String.toList_inj, ← written_partsFrom, ← written_partsFrom, partsFrom_solid]

theorem bindings_solid (ps : List (Piece β)) : bindings (solid ps) = bindings ps := by
  induction ps with
  | nil => rfl
  | cons p ps ih =>
    cases p with
    | raw s =>
      by_cases hs : s = ""
      · subst hs
        rw [solid_blank, ih]
        rfl
      · rw [solid_raw hs]
        exact ih
    | name s => exact ih
    | bound b => exact congrArg (b :: ·) ih

theorem ne_empty_of_separating (h : Separating s) : s ≠ "" := by
  intro hs
  subst hs
  cases h

theorem behind_raw (h : Separating s) (ps : List (Piece β)) : Behind (.raw s :: ps) := by
  rw [Behind, solid_raw (ne_empty_of_separating h)]
  exact h

theorem behind_blank : Behind [(.raw "" : Piece β)] :=
  trivial

theorem Behind.append (hps : Behind ps) (hqs : Behind qs) : Behind (ps ++ qs) := by
  rw [Behind, solid_append]
  exact Separated.append hps hqs

/-- No comment begins where pieces stand behind something. -/
theorem calm_of_separated (d : Dialect) (index : Nat) (h : Separated ps) (p : Part) :
    ∀ p' ∈ (partsFrom d index ps).head?, Calm p p' := by
  intro p' hp'
  cases ps with
  | nil => cases hp'
  | cons q ps =>
    cases q with
    | raw s =>
      cases hs : s.toList with
      | nil =>
        rw [Separated, Separating, hs] at h
        cases h
      | cons c cs =>
        rw [Separated, Separating, hs] at h
        rw [partsFrom, hs] at hp'
        cases hp'
        exact calm_of_isSeparator h p
    | name s => cases h
    | bound b => cases h

theorem unsigned_raw (h : s.toList.head?.any (· != '-') = true) (ps : List (Piece β)) : Unsigned d (.raw s :: ps) := by
  intro index
  cases hs : s.toList with
  | nil =>
    rw [hs] at h
    cases h
  | cons c cs =>
    rw [hs, List.head?_cons, Option.any_some, bne_iff_ne] at h
    rw [partsFrom, hs, List.map_cons, List.cons_append, List.head?_cons]
    intro hc
    cases hc
    exact h rfl

theorem unsigned_name (s : String) (ps : List (Piece β)) : Unsigned d (.name s :: ps) := by
  intro index hc
  cases hc

theorem sound_placeholder (d : Dialect) (n : Nat) : Sound ((d.placeholder n).toList.map .char) := by
  have hmark : settles (mark d) = true ∧ mark d ∉ delicate := by cases d <;> decide
  have hall : ∀ c ∈ (d.placeholder n).toList, settles c = true ∧ c ∉ delicate := by
    rw [placeholder_toList]
    refine List.forall_mem_cons.mpr ⟨hmark, ?_⟩
    intro c hc
    exact ⟨settles_of_isDigit (isDigit_numeral d n c hc), harmless_of_isDigit (isDigit_numeral d n c hc)⟩
  exact .chars (fun c hc => (hall c hc).2) (isChain_of_settles fun c hc => (hall c hc).1)

namespace Spells

theorem nil : Spells d [] ([] : List (Piece β)) :=
  ⟨trivial, fun _ => ⟨nofun, .nil⟩, rfl⟩

theorem name (s : String) : Spells d [s] [(.name s : Piece β)] :=
  ⟨⟨trivial, trivial⟩, fun _ => ⟨fun _ hc => by simp [partsFrom] at hc, .singleton _⟩, rfl⟩

theorem bound (b : β) : Spells d [] [.bound b] := by
  refine ⟨⟨trivial, trivial⟩, ?_, rfl⟩
  intro index
  rw [partsFrom, partsFrom, List.append_nil]
  exact sound_placeholder d (index + 1)

/-- Tame text may stand before anything. -/
theorem raw (hs : Tame s) (h : Spells d names ps) : Spells d names (.raw s :: ps) := by
  refine ⟨?_, ?_, h.identifiers⟩
  · by_cases hempty : s = ""
    · rw [hempty, solid_blank]
      exact h.clear
    · rw [solid_raw hempty]
      exact ⟨hs.quiet, h.clear⟩
  · intro index
    refine (Sound.chars hs.harmless hs.calm).append (h.sound index) ?_
    intro p hp p' _
    rw [List.getLast?_map] at hp
    obtain ⟨c, hc, rfl⟩ := Option.map_eq_some_iff.mp hp
    exact calm_of_settles (hs.settles_last hc) p'

/-- A minus sign may stand before what does not begin with one. -/
theorem minus (h : Spells d names ps) (hfirst : Unsigned d ps) : Spells d names (.raw "-" :: ps) := by
  refine ⟨⟨by decide, h.clear⟩, ?_, h.identifiers⟩
  intro index
  have hminus : Sound (['-'].map .char) := .chars (List.forall_mem_singleton.mpr (by decide)) (.singleton _)
  refine hminus.append (h.sound index) ?_
  intro p hp p' hp'
  cases hp
  cases p' with
  | name cs => trivial
  | char c =>
    have hc : c ≠ '-' := by
      intro hc
      exact hfirst index (by rw [Option.mem_def.mp hp', hc])
    simp [Calm, opensComment, hc]

theorem append (h : Spells d names ps) (h' : Spells d names' qs) (hbehind : Behind qs) :
    Spells d (names ++ names') (ps ++ qs) := by
  refine ⟨?_, ?_, ?_⟩
  · rw [solid_append]
    exact h.clear.append hbehind h'.clear
  · intro index
    rw [partsFrom_append]
    refine (h.sound index).append (h'.sound _) ?_
    intro p _
    rw [← partsFrom_solid]
    exact calm_of_separated d _ hbehind p
  · rw [identifiers_append, h.identifiers, h'.identifiers]

/-- Text behind the pieces. -/
theorem followed (h : Spells d names ps) (htame : Tame s) (hs : Separating s) :
    Spells d names (ps ++ [.raw s]) := by
  have happended := h.append (nil.raw htame) (behind_raw hs [])
  rw [List.append_nil] at happended
  exact happended

/-- Text before the pieces, and a closing parenthesis behind them. -/
theorem enclosed (htame : Tame s) (h : Spells d names ps) : Spells d names (.raw s :: (ps ++ [.raw ")"])) :=
  (h.followed (by decide) (by decide)).raw htame

/-- One more among pieces with text between them. -/
theorem joinedCons {separator : String} (hs : Separating separator) (htame : Tame separator)
    {rest : List (List (Piece β))} (h : Spells d names ps) (hrest : Spells d names' (joined separator rest)) :
    Spells d (names ++ names') (joined separator (ps :: rest)) := by
  cases rest with
  | nil =>
    obtain rfl : [] = names' := hrest.identifiers
    rw [List.append_nil]
    exact h
  | cons qs rest => exact h.append (hrest.raw htame) (behind_raw hs _)

end Spells

end TableQuery.Sql
