import TableQuery.Sql.Piece

/- Statements put together from pieces. Placeholders are numbered on from one part to the next
   (`textFrom_append`, `textFrom_joined`), and what is bound in the parts comes in their order
   (`bindings_append`, `bindings_joined`). -/
namespace TableQuery.Sql

variable {β : Type}

theorem textFrom_append (d : Dialect) (index : Nat) (ps qs : List (Piece β)) :
    textFrom d index (ps ++ qs) = textFrom d index ps ++ textFrom d (index + (bindings ps).length) qs := by
  -- From any number on, as each placeholder moves the numbering.
  induction ps generalizing index with
  | nil => simp only [List.nil_append, textFrom, bindings, List.length_nil, Nat.add_zero, String.empty_append]
  | cons p ps ih =>
    cases p with
    | raw s => simp only [List.cons_append, textFrom, bindings, ih, String.append_assoc]
    | name s => simp only [List.cons_append, textFrom, bindings, ih, String.append_assoc]
    | bound b =>
      simp only [List.cons_append, textFrom, bindings, ih, String.append_assoc, List.length_cons]
      rw [show index + 1 + (bindings ps).length = index + ((bindings ps).length + 1) by omega]

@[simp] theorem bindings_append (ps qs : List (Piece β)) : bindings (ps ++ qs) = bindings ps ++ bindings qs := by
  induction ps with
  | nil => rfl
  | cons p ps ih =>
    cases p <;> simp only [List.cons_append, bindings, ih]

@[simp] theorem bindings_joined (separator : String) (parts : List (List (Piece β))) :
    bindings (joined separator parts) = (parts.map bindings).flatten := by
  induction parts with
  | nil => rfl
  | cons ps rest ih =>
    cases rest with
    | nil => simp only [joined, List.map_cons, List.map_nil, List.flatten_cons, List.flatten_nil, List.append_nil]
    | cons qs rest =>
      simp only [joined, bindings_append, bindings, ih]
      rfl

/-- The texts of parts that stand one after the other. -/
def textsFrom (d : Dialect) : Nat → List (List (Piece β)) → List String
  | _, [] => []
  | index, ps :: rest => textFrom d index ps :: textsFrom d (index + (bindings ps).length) rest

/-- Parts are written one after the other, with the separator between them. -/
theorem textFrom_joined (d : Dialect) (index : Nat) (separator : String) (parts : List (List (Piece β))) :
    textFrom d index (joined separator parts) = separator.intercalate (textsFrom d index parts) := by
  induction parts generalizing index with
  | nil => rfl
  | cons ps rest ih =>
    cases rest with
    | nil => rw [joined, textsFrom, textsFrom, String.intercalate_singleton]
    | cons qs rest =>
      have hrest := ih (index + (bindings ps).length)
      simp only [textsFrom] at hrest
      simp only [joined, textFrom_append, textFrom, hrest, textsFrom, String.intercalate_cons_cons, String.append_assoc]

end TableQuery.Sql
