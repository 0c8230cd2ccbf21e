import TableQuery.Proofs.Text.Numeral
import TableQuery.Sql.Piece

/- The text of a statement, read from the left as a database reads it. An identifier goes from a quote to the next
   quote that is not written twice (`names`); the other characters stand for themselves, and those that mark
   placeholders are found among these (`placeholders`).

   If no raw text holds a quote or a mark, and text that separates follows each identifier and each placeholder,
   then the text is read as it was put together (`read_textFrom`): the identifiers that are read are those that were
   written (`names_text`), and so are the placeholders, numbered from 1 on (`placeholders_text`). Which characters the
   identifiers have does not matter.

   Words are found where they stand outside of identifiers, so that the identifiers of one clause of a statement can be
   read alone (`namesBetween`, `namesBetween_of_read`). -/
namespace TableQuery.Sql

/-! ## Reading -/

/-- What is read in a text. -/
inductive Part where
  | name (cs : List Char)
  | char (c : Char)

/-- Where a reader stands. -/
inductive Reading where
  | outside
  | inside (name : List Char)
  /-- Behind a quote that ends the identifier, or is the first of two for one. -/
  | closing (name : List Char)

/-- The parts of the characters that are left. An identifier that does not end is none. -/
def readFrom (q : Char) : Reading → List Char → List Part
  | .outside, [] => []
  | .inside _, [] => []
  | .closing name, [] => [.name name]
  | .outside, c :: cs => if c = q then readFrom q (.inside []) cs else .char c :: readFrom q .outside cs
  | .inside name, c :: cs =>
    if c = q then readFrom q (.closing name) cs else readFrom q (.inside (name ++ [c])) cs
  | .closing name, c :: cs =>
    if c = q then readFrom q (.inside (name ++ [q])) cs else .name name :: .char c :: readFrom q .outside cs

def read (d : Dialect) (cs : List Char) : List Part :=
  readFrom d.quoteChar .outside cs

def Part.name? : Part → Option String
  | name cs => some (String.ofList cs)
  | char _ => none

/-- The identifiers in a text, in the order in which they appear. -/
def names (d : Dialect) (sql : String) : List String :=
  (read d sql.toList).filterMap Part.name?

def leadingDigits : List Part → List Char
  | .char c :: ps => if c.isDigit then c :: leadingDigits ps else []
  | _ => []

/-- The character that a placeholder begins with. -/
def mark : Dialect → Char
  | .postgres => '$'
  | .mysql | .sqlite => '?'

/-- The number of a placeholder: it is written behind the mark, or counted. -/
def numberAt (d : Dialect) (count : Nat) (behind : List Part) : Nat :=
  match d with
  | .postgres => Nat.ofDigitChars 10 (leadingDigits behind) 0
  | .mysql | .sqlite => count + 1

/-- The numbers of the placeholders in the parts, `count` placeholders further. -/
def placesFrom (d : Dialect) (count : Nat) : List Part → List Nat
  | [] => []
  | .name _ :: ps => placesFrom d count ps
  | .char c :: ps =>
    if c = mark d then numberAt d count ps :: placesFrom d (count + 1) ps else placesFrom d count ps

/-- The numbers of the placeholders in a text, in the order in which they appear. -/
def placeholders (d : Dialect) (sql : String) : List Nat :=
  placesFrom d 0 (read d sql.toList)

/-- What stands behind a word that the parts begin with. -/
def behindWord? : List Char → List Part → Option (List Part)
  | [], ps => some ps
  | c :: cs, .char b :: ps => if b = c then behindWord? cs ps else none
  | _ :: _, _ => none

/-- The parts in front of the first place at which a word stands, and those behind it. If it stands nowhere, all are
in front. -/
def cutAt (word : List Char) : List Part → List Part × List Part
  | [] => ([], [])
  | p :: ps =>
    match behindWord? word (p :: ps) with
    | some rest => ([], rest)
    | none => (p :: (cutAt word ps).1, (cutAt word ps).2)

/-- The identifiers in a text from the first word `opening` to the next word `closing`. -/
def namesBetween (d : Dialect) (opening closing : String) (sql : String) : List String :=
  let behind := (cutAt opening.toList (read d sql.toList)).2
  (cutAt closing.toList behind).1.filterMap Part.name?

/-! ## Identifiers -/

/-- What follows does not go on with an identifier or a number that stands before it. -/
def Broken (d : Dialect) : List Char → Prop
  | [] => True
  | c :: _ => c ≠ d.quoteChar ∧ c.isDigit = false

variable {d : Dialect} {cs : List Char}

theorem readFrom_closing (name : List Char) (h : Broken d cs) :
    readFrom d.quoteChar (.closing name) cs = .name name :: read d cs := by
  cases cs with
  | nil => rfl
  | cons c cs =>
    rw [readFrom, if_neg h.1, read, readFrom, if_neg h.1]

/-- The characters of a name between quotes are read one by one, a quote that is written twice as one. -/
theorem readFrom_inside (q : Char) (name rest : List Char) (cs : List Char) :
    readFrom q (.inside name) ((rest.flatMap fun c => if c = q then [q, q] else [c]) ++ q :: cs) =
      readFrom q (.closing (name ++ rest)) cs := by
  induction rest generalizing name with
  | nil => rw [List.flatMap_nil, List.nil_append, readFrom, if_pos rfl, List.append_nil]
  | cons c rest ih =>
    rw [List.flatMap_cons]
    by_cases hc : c = q
    · subst hc
      simp only [if_true, List.cons_append, List.nil_append, readFrom, ih, List.append_assoc]
    · simp only [if_neg hc, List.cons_append, List.nil_append, readFrom, ih, List.append_assoc]

/-- An identifier is read as its name, whatever characters that has. -/
theorem read_quote (name : String) (h : Broken d cs) :
    read d ((d.quote name).toList ++ cs) = .name name.toList :: read d cs := by
  rw [read, Dialect.quote, String.toList_ofList, List.append_cons, List.append_assoc, List.append_assoc,
    List.singleton_append, List.cons_append, List.nil_append, readFrom, if_pos rfl, readFrom_inside, List.nil_append,
    readFrom_closing name.toList h]

/-! ## Text as it stands -/

/-- The character is no quote and marks no placeholder, in any dialect. -/
def isQuiet (c : Char) : Bool :=
  Dialect.all.all fun d => c != mark d && c != d.quoteChar

/-- The text holds no quote and no mark. -/
def Quiet (s : String) : Prop :=
  ∀ c ∈ s.toList, isQuiet c = true

instance (s : String) : Decidable (Quiet s) :=
  List.decidableBAll (fun c => isQuiet c = true) s.toList

theorem ne_of_isQuiet {c : Char} (h : isQuiet c = true) (d : Dialect) : c ≠ mark d ∧ c ≠ d.quoteChar := by
  have hd : d ∈ Dialect.all := by cases d <;> decide
  have hboth := List.all_eq_true.mp h d hd
  simpa only [Bool.and_eq_true, bne_iff_ne] using hboth

theorem char_mem_map_iff {c : Char} {cs : List Char} : Part.char c ∈ cs.map Part.char ↔ c ∈ cs := by
  simp

/-- Characters outside of identifiers stand for themselves. -/
theorem read_append {as : List Char} (h : ∀ c ∈ as, c ≠ d.quoteChar) :
    read d (as ++ cs) = as.map .char ++ read d cs := by
  induction as with
  | nil => rfl
  | cons c as ih =>
    obtain ⟨hc, has⟩ := List.forall_mem_cons.mp h
    rw [List.cons_append, read, readFrom, if_neg hc, List.map_cons, List.cons_append, ← ih has, read]

theorem names_append (as : List Char) (ps : List Part) :
    (as.map Part.char ++ ps).filterMap Part.name? = ps.filterMap Part.name? := by
  rw [List.filterMap_append, List.filterMap_map]
  simp [Part.name?, Function.comp_def]

theorem placesFrom_append {as : List Char} (h : ∀ c ∈ as, c ≠ mark d) (count : Nat) (ps : List Part) :
    placesFrom d count (as.map .char ++ ps) = placesFrom d count ps := by
  induction as with
  | nil => rfl
  | cons c as ih =>
    obtain ⟨hc, has⟩ := List.forall_mem_cons.mp h
    rw [List.map_cons, List.cons_append, placesFrom, if_neg hc, ih has]

/-! ## Placeholders -/

theorem leadingDigits_append {as : List Char} (h : ∀ c ∈ as, c.isDigit = true) (hcs : Broken d cs) :
    leadingDigits (as.map .char ++ read d cs) = as := by
  induction as with
  | nil =>
    cases cs with
    | nil => rfl
    | cons c cs => simp [read, readFrom, leadingDigits, hcs.1, hcs.2]
  | cons c as ih =>
    obtain ⟨hc, has⟩ := List.forall_mem_cons.mp h
    rw [List.map_cons, List.cons_append, leadingDigits, if_pos hc, ih has]

theorem isQuiet_of_isDigit {c : Char} (h : c.isDigit = true) : isQuiet c = true := by
  simp only [isQuiet, List.all_eq_true, Bool.and_eq_true, bne_iff_ne]
  intro d _
  constructor
  · rintro rfl
    cases d <;> cases h
  · rintro rfl
    cases d <;> cases h

/-- What a placeholder has behind its mark. -/
def numeral (d : Dialect) (n : Nat) : List Char :=
  match d with
  | .postgres => (toString n).toList
  | .mysql | .sqlite => []

theorem placeholder_toList (d : Dialect) (n : Nat) : (d.placeholder n).toList = mark d :: numeral d n := by
  cases d <;> simp [Dialect.placeholder, mark, numeral]

theorem isDigit_numeral (d : Dialect) (n : Nat) : ∀ c ∈ numeral d n, c.isDigit = true := by
  intro c hc
  cases d with
  | postgres => exact isDigit_toString n c hc
  | mysql => cases hc
  | sqlite => cases hc

theorem numberAt_numeral (d : Dialect) (count : Nat) (h : Broken d cs) :
    numberAt d count ((numeral d (count + 1)).map .char ++ read d cs) = count + 1 := by
  have hdigits := leadingDigits_append (isDigit_numeral d (count + 1)) h
  cases d with
  | postgres => rw [numberAt, hdigits, numeral, ofDigitChars_toString]
  | mysql => rfl
  | sqlite => rfl

/-- A placeholder is read as its characters. -/
theorem read_placeholder (d : Dialect) (n : Nat) (cs : List Char) :
    read d ((d.placeholder n).toList ++ cs) = (d.placeholder n).toList.map .char ++ read d cs := by
  apply read_append
  intro c hc
  rw [placeholder_toList] at hc
  rcases List.mem_cons.mp hc with hmark | hdigit
  · rw [hmark]
    cases d <;> decide
  · exact (ne_of_isQuiet (isQuiet_of_isDigit (isDigit_numeral d n c hdigit)) d).2

/-- A placeholder is read with its number, and there is no other in it. -/
theorem placesFrom_placeholder (count : Nat) (h : Broken d cs) :
    placesFrom d count (read d ((d.placeholder (count + 1)).toList ++ cs)) =
      (count + 1) :: placesFrom d (count + 1) (read d cs) := by
  have hnone : ∀ c ∈ numeral d (count + 1), c ≠ mark d :=
    fun c hc => (ne_of_isQuiet (isQuiet_of_isDigit (isDigit_numeral d (count + 1) c hc)) d).1
  rw [read_placeholder, placeholder_toList, List.map_cons, List.cons_append, placesFrom, if_pos rfl,
    numberAt_numeral d count h, placesFrom_append hnone]

/-! ## Statements -/

/-- Characters that may stand behind an identifier or a placeholder. -/
def isSeparator (c : Char) : Bool :=
  c == ' ' || c == ',' || c == ')'

section

variable {β : Type} {ps qs : List (Piece β)} {s : String}

/-- Text that separates what stands before it from what comes behind. -/
def Separating (s : String) : Prop :=
  s.toList.head?.any isSeparator = true

instance (s : String) : Decidable (Separating s) :=
  instDecidableEqBool _ _

/-- The pieces end, or go on with text that separates. -/
def Separated : List (Piece β) → Prop
  | [] => True
  | .raw s :: _ => Separating s
  | _ => False

/-- Raw texts are quiet, and each identifier and each placeholder is separated from what follows. -/
def Clear : List (Piece β) → Prop
  | [] => True
  | .raw s :: ps => Quiet s ∧ Clear ps
  | .name _ :: ps => Separated ps ∧ Clear ps
  | .bound _ :: ps => Separated ps ∧ Clear ps

theorem clear_raw (hs : Quiet s) (h : Clear ps) : Clear (.raw s :: ps) :=
  ⟨hs, h⟩

theorem clear_name (name : String) (hs : Separating s) (h : Clear (.raw s :: ps)) :
    Clear (.name name :: .raw s :: ps) :=
  ⟨hs, h⟩

theorem Separated.append (hps : Separated ps) (hqs : Separated qs) : Separated (ps ++ qs) := by
  cases ps with
  | nil => exact hqs
  | cons p ps =>
    cases p with
    | raw s => exact hps
    | name s => cases hps
    | bound b => cases hps

/-- Pieces may be followed by others that begin with text that separates. -/
theorem Clear.append (hps : Clear ps) (hsep : Separated qs) (hqs : Clear qs) : Clear (ps ++ qs) := by
  induction ps with
  | nil => exact hqs
  | cons p ps ih =>
    cases p with
    | raw s => exact ⟨hps.1, ih hps.2⟩
    | name s => exact ⟨hps.1.append hsep, ih hps.2⟩
    | bound b => exact ⟨hps.1.append hsep, ih hps.2⟩

theorem clear_append (hps : Clear ps) (hs : Separating s) (hrest : Clear (.raw s :: qs)) :
    Clear (ps ++ .raw s :: qs) :=
  Clear.append hps hs hrest

theorem clear_joined {separator : String} (hs : Separating separator) (hquiet : Quiet separator)
    {parts : List (List (Piece β))} (h : ∀ ps ∈ parts, Clear ps) : Clear (joined separator parts) := by
  induction parts with
  | nil => trivial
  | cons ps rest ih =>
    obtain ⟨hps, hrest⟩ := List.forall_mem_cons.mp h
    cases rest with
    | nil => exact hps
    | cons qs rest => exact clear_append hps hs ⟨hquiet, ih hrest⟩

theorem broken_textFrom (d : Dialect) (count : Nat) (h : Separated ps) : Broken d (textFrom d count ps).toList := by
  cases ps with
  | nil => trivial
  | cons p ps =>
    cases p with
    | raw s =>
      rw [textFrom, String.toList_append]
      cases hs : s.toList with
      | nil =>
        rw [Separated, Separating, hs] at h
        cases h
      | cons c cs =>
        rw [Separated, Separating, hs, List.head?_cons, Option.any_some] at h
        simp only [isSeparator, Bool.or_eq_true, beq_iff_eq] at h
        rcases h with (rfl | rfl) | rfl
        · cases d <;> exact ⟨by decide, rfl⟩
        · cases d <;> exact ⟨by decide, rfl⟩
        · cases d <;> exact ⟨by decide, rfl⟩
    | name s => cases h
    | bound b => cases h

/-- The identifiers in the pieces, in order. -/
def identifiers : List (Piece β) → List String
  | [] => []
  | .name s :: ps => s :: identifiers ps
  | _ :: ps => identifiers ps

@[simp] theorem identifiers_append (ps qs : List (Piece β)) :
    identifiers (ps ++ qs) = identifiers ps ++ identifiers qs := by
  induction ps with
  | nil => rfl
  | cons p ps ih => cases p <;> simp only [List.cons_append, identifiers, ih]

@[simp] theorem identifiers_joined (separator : String) (parts : List (List (Piece β))) :
    identifiers (joined separator parts) = (parts.map identifiers).flatten := by
  induction parts with
  | nil => rfl
  | cons ps rest ih =>
    cases rest with
    | nil => simp only [joined, List.map_cons, List.map_nil, List.flatten_cons, List.flatten_nil, List.append_nil]
    | cons qs rest =>
      simp only [joined, identifiers_append, identifiers, ih]
      rfl

/-- The parts that pieces are put together from, `index` placeholders further. -/
def partsFrom (d : Dialect) (index : Nat) : List (Piece β) → List Part
  | [] => []
  | .raw s :: ps => s.toList.map .char ++ partsFrom d index ps
  | .name s :: ps => .name s.toList :: partsFrom d index ps
  | .bound _ :: ps => (d.placeholder (index + 1)).toList.map .char ++ partsFrom d (index + 1) ps

theorem partsFrom_append (d : Dialect) (index : Nat) (ps qs : List (Piece β)) :
    partsFrom d index (ps ++ qs) = partsFrom d index ps ++ partsFrom d (index + (bindings ps).length) qs := by
  induction ps generalizing index with
  | nil => simp [partsFrom, bindings]
  | cons p ps ih =>
    cases p with
    | raw s => simp only [List.cons_append, partsFrom, bindings, ih, List.append_assoc]
    | name s => simp only [List.cons_append, partsFrom, bindings, ih]
    | bound b =>
      simp only [List.cons_append, partsFrom, bindings, ih, List.append_assoc, List.length_cons]
      rw [show index + 1 + (bindings ps).length = index + ((bindings ps).length + 1) by omega]

/-- The text of pieces is read as the parts that it was put together from. -/
theorem read_textFrom (d : Dialect) (index : Nat) (h : Clear ps) :
    read d (textFrom d index ps).toList = partsFrom d index ps := by
  induction ps generalizing index with
  | nil => rfl
  | cons p ps ih =>
    cases p with
    | raw s =>
      rw [textFrom, String.toList_append, read_append fun c hc => (ne_of_isQuiet (h.1 c hc) d).2, ih index h.2]
      rfl
    | name s =>
      rw [textFrom, String.toList_append, read_quote s (broken_textFrom d index h.1), ih index h.2]
      rfl
    | bound b =>
      rw [textFrom, String.toList_append, read_placeholder, ih (index + 1) h.2]
      rfl

theorem names_partsFrom (d : Dialect) (index : Nat) (ps : List (Piece β)) :
    (partsFrom d index ps).filterMap Part.name? = identifiers ps := by
  induction ps generalizing index with
  | nil => rfl
  | cons p ps ih =>
    cases p with
    | raw s => simp only [partsFrom, names_append, ih, identifiers]
    | name s => simp only [partsFrom, List.filterMap_cons, Part.name?, ih, identifiers, String.ofList_toList]
    | bound b => simp only [partsFrom, names_append, ih, identifiers]

/-- The identifiers that are read in the text are those of the pieces. -/
theorem names_text (d : Dialect) (h : Clear ps) : names d (text d ps) = identifiers ps := by
  rw [names, text, read_textFrom d 0 h, names_partsFrom]

/-- The placeholders that are read in the text are those of what is bound in the pieces, in order. -/
theorem placesFrom_textFrom (d : Dialect) (count : Nat) (h : Clear ps) :
    placesFrom d count (read d (textFrom d count ps).toList) = List.range' (count + 1) (bindings ps).length := by
  -- From any number on, as each placeholder moves the count.
  induction ps generalizing count with
  | nil => rfl
  | cons p ps ih =>
    cases p with
    | raw s =>
      have hquiet := fun c hc => ne_of_isQuiet (h.1 c hc) d
      rw [textFrom, String.toList_append, read_append fun c hc => (hquiet c hc).2,
        placesFrom_append fun c hc => (hquiet c hc).1]
      exact ih count h.2
    | name s =>
      rw [textFrom, String.toList_append, read_quote s (broken_textFrom d count h.1), placesFrom]
      exact ih count h.2
    | bound b =>
      rw [textFrom, String.toList_append, placesFrom_placeholder count (broken_textFrom d (count + 1) h.1),
        ih (count + 1) h.2, bindings, List.length_cons, List.range'_succ]

/-- The placeholders of a statement are numbered from 1 on, one for each thing that is bound. -/
theorem placeholders_text (d : Dialect) (h : Clear ps) :
    placeholders d (text d ps) = List.range' 1 (bindings ps).length :=
  placesFrom_textFrom d 0 h

/-! ## Words -/

theorem behindWord?_word (word : List Char) (rest : List Part) :
    behindWord? word (word.map .char ++ rest) = some rest := by
  induction word with
  | nil => rfl
  | cons c cs ih => rw [List.map_cons, List.cons_append, behindWord?, if_pos rfl, ih]

theorem behindWord?_of_ne {c : Char} {p : Part} (h : p ≠ .char c) (cs : List Char) (ps : List Part) :
    behindWord? (c :: cs) (p :: ps) = none := by
  cases p with
  | name name => rfl
  | char b => rw [behindWord?, if_neg fun hb => h (congrArg Part.char hb)]

/-- A word is found where it stands, if its first character does not stand before it. -/
theorem cutAt_word {word : List Char} {c : Char} {front : List Part} (hword : word.head? = some c)
    (h : .char c ∉ front) (rest : List Part) : cutAt word (front ++ (word.map .char ++ rest)) = (front, rest) := by
  obtain ⟨cs, rfl⟩ := List.head?_eq_some_iff.mp hword
  induction front with
  | nil =>
    have hfound := behindWord?_word (c :: cs) rest
    rw [List.map_cons, List.cons_append] at hfound
    rw [List.nil_append, List.map_cons, List.cons_append, cutAt, hfound]
  | cons p front ih =>
    have hp : p ≠ .char c := Ne.symm (List.ne_of_not_mem_cons h)
    have hfront : .char c ∉ front := List.not_mem_of_not_mem_cons h
    rw [List.cons_append, cutAt, behindWord?_of_ne hp, ih hfront]

/-- The identifiers between two words are those of the parts between them. -/
theorem namesBetween_of_read {opening closing sql : String} {b c : Char} {front middle rest : List Part}
    (hread : read d sql.toList =
      front ++ (opening.toList.map .char ++ (middle ++ (closing.toList.map .char ++ rest))))
    (hopening : opening.toList.head? = some b) (hfront : .char b ∉ front)
    (hclosing : closing.toList.head? = some c) (hmiddle : .char c ∉ middle) :
    namesBetween d opening closing sql = middle.filterMap Part.name? := by
  rw [namesBetween, hread, cutAt_word hopening hfront, cutAt_word hclosing hmiddle]

/-- No raw text of the pieces holds the character. -/
def Lacks (c : Char) (ps : List (Piece β)) : Prop :=
  ∀ s, .raw s ∈ ps → c ∉ s.toList

theorem lacks_joined {c : Char} {separator : String} (hs : c ∉ separator.toList) {parts : List (List (Piece β))}
    (h : ∀ ps ∈ parts, Lacks c ps) : Lacks c (joined separator parts) := by
  induction parts with
  | nil => exact fun _ hmem => absurd hmem List.not_mem_nil
  | cons ps rest ih =>
    obtain ⟨hps, hrest⟩ := List.forall_mem_cons.mp h
    cases rest with
    | nil => exact hps
    | cons qs rest =>
      intro s hmem
      simp only [joined, List.mem_append, List.mem_cons] at hmem
      rcases hmem with hmem | hmem | hmem
      · exact hps s hmem
      · cases hmem
        exact hs
      · exact ih hrest s hmem

/-- A character that no raw text holds stands in an identifier or in a placeholder. -/
theorem not_mem_partsFrom {c : Char} (h : Lacks c ps) (hmark : c ≠ mark d) (hdigit : c.isDigit = false)
    (index : Nat) : .char c ∉ partsFrom d index ps := by
  induction ps generalizing index with
  | nil => exact List.not_mem_nil
  | cons p ps ih =>
    have hps : Lacks c ps := fun s hs => h s (List.mem_cons_of_mem p hs)
    cases p with
    | raw s =>
      rw [partsFrom, List.mem_append, not_or, char_mem_map_iff]
      exact ⟨h s List.mem_cons_self, ih hps index⟩
    | name s =>
      rw [partsFrom, List.mem_cons, not_or]
      exact ⟨nofun, ih hps index⟩
    | bound b =>
      rw [partsFrom, List.mem_append, not_or, char_mem_map_iff, placeholder_toList, List.mem_cons, not_or]
      refine ⟨⟨hmark, fun hmem => ?_⟩, ih hps (index + 1)⟩
      rw [isDigit_numeral d (index + 1) c hmem] at hdigit
      cases hdigit

-- Quotes and marks in a name are characters of the name.
example : names .sqlite (text .sqlite [.name "a \"?\" b", .raw " = ", .bound ()]) = ["a \"?\" b"] := by
  decide

example : placeholders .postgres (text .postgres [.name "$5 or $6?", .raw " = ", .bound ()]) = [1] := by
  decide

end

end TableQuery.Sql
