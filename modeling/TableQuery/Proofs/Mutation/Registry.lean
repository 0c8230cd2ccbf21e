import TableQuery.Mapping

/- The registry of properties after any requests. A request adds a property only where the record type has none of that
   name yet (`lookup_resolve`), so that of all requests the first one for a name of a record type is remembered
   (`lookup_after`). What it has declared is the answer to all later ones, whatever type they ask for
   (`first_declaration_stays`). -/
namespace TableQuery.Registry

/-- The registry after requests for these properties, one after the other. -/
def after (requests : List Property) (r : Registry) : Registry :=
  requests.foldl (fun r p => (r.resolve p.model p.name p.type).2) r

/-- The first of the requests for a name of a record type. -/
def first? (requests : List Property) (model name : String) : Option Property :=
  requests.find? fun p => (p.model, p.name) = (model, name)

variable {requests : List Property} {model name : String} {p : Property}

theorem resolve_fst (r : Registry) (model name : String) (type : ValueType) :
    (r.resolve model name type).1 = (r.lookup (model, name)).getD ⟨name, model, type⟩ := by
  rw [resolve]
  cases r.lookup (model, name) <;> rfl

/-- What is remembered stays, and what is asked for is added where nothing is remembered. -/
theorem lookup_resolve (r : Registry) (p : Property) (key : String × String) :
    (r.resolve p.model p.name p.type).2.lookup key =
      (r.lookup key).or (if (p.model, p.name) = key then some p else none) := by
  rw [resolve]
  cases hp : r.lookup (p.model, p.name) with
  | some q =>
    show r.lookup key = _
    by_cases hkey : (p.model, p.name) = key
    · rw [← hkey, hp, Option.some_or]
    · rw [if_neg hkey, Option.or_none]
  | none =>
    show (r ++ [((p.model, p.name), p)]).lookup key = _
    rw [List.lookup_append, List.lookup_cons, List.lookup_nil]
    by_cases hkey : (p.model, p.name) = key
    · rw [if_pos hkey, hkey, beq_self_eq_true]
    · rw [if_neg hkey, beq_false_of_ne (Ne.symm hkey)]

theorem first?_cons (p : Property) (requests : List Property) (model name : String) :
    first? (p :: requests) model name =
      (if (p.model, p.name) = (model, name) then some p else none).or (first? requests model name) := by
  rw [first?, List.find?_cons]
  by_cases hkey : (p.model, p.name) = (model, name)
  · rw [if_pos hkey, decide_eq_true hkey, Option.some_or]
  · rw [if_neg hkey, decide_eq_false hkey, Option.none_or]
    rfl

/-- After requests, what was remembered before them stays, and otherwise the first of them is. -/
theorem lookup_after (requests : List Property) (r : Registry) (model name : String) :
    (after requests r).lookup (model, name) = (r.lookup (model, name)).or (first? requests model name) := by
  induction requests generalizing r with
  | nil => exact Option.or_none.symm
  | cons p requests ih =>
    have hafter := ih (r.resolve p.model p.name p.type).2
    rw [lookup_resolve, Option.or_assoc, ← first?_cons] at hafter
    exact hafter

theorem first?_some (h : first? requests model name = some p) : p = ⟨name, model, p.type⟩ := by
  have hkey := List.find?_some h
  simp only [decide_eq_true_eq, Prod.mk.injEq] at hkey
  obtain ⟨rfl, rfl⟩ := hkey
  rfl

/-- Asked for after any requests, a property has the name and the record type that are asked for, and the type that the
first of the requests for them has declared; if there was none, the type that is asked for. So it is the property of an
empty registry, if and only if that first request was for the same type: others do not matter. A version column has
the width that follows from the type that was declared first. -/
theorem first_declaration_stays (requests : List Property) (model name : String) (type : ValueType) :
    let p := ((after requests []).resolve model name type).1
    let declared := ((first? requests model name).map Property.type).getD type
    p = ⟨name, model, declared⟩ ∧
    (p = (resolve [] model name type).1 ↔ ∀ q, first? requests model name = some q → q.type = type) ∧
    ∀ (ε : Type) (m : Mapping ε) (get : ε → Value) (set : ε → Value → Except Failure ε),
      (m.withVersion ⟨p, get, set⟩).versioning =
        (VersionWidth.ofProperty ⟨name, model, declared⟩).map fun w => some ⟨⟨p, get, set⟩, w⟩ := by
  intro p declared
  have hp : p = ⟨name, model, declared⟩ := by
    show ((after requests []).resolve model name type).1 = _
    rw [resolve_fst, lookup_after]
    show (first? requests model name).getD ⟨name, model, type⟩ = ⟨name, model, declared⟩
    cases hfirst : first? requests model name with
    | none => simp [declared, hfirst]
    | some q => simpa [declared, hfirst] using first?_some hfirst
  refine ⟨hp, ?_, ?_⟩
  · rw [hp]
    show (⟨name, model, declared⟩ : Property) = ⟨name, model, type⟩ ↔ _
    cases hfirst : first? requests model name with
    | none => simp [declared, hfirst]
    | some q => simp [declared, hfirst]
  · intro ε m get set
    rw [← hp]
    rfl

/-- A note is declared with a version of 32 bits first and one of 64 bits then, which keeps the width of the first. -/
theorem later_declaration_ignored :
    let r := after [⟨"version", "Note", .int⟩] []
    (r.resolve "Note" "version" .long).1 = ⟨"version", "Note", .int⟩ ∧
    (resolve [] "Note" "version" .long).1 = ⟨"version", "Note", .long⟩ ∧
    VersionWidth.ofProperty (r.resolve "Note" "version" .long).1 = .ok .int ∧
    VersionWidth.ofProperty (resolve [] "Note" "version" .long).1 = .ok .long := by
  exact ⟨by decide, by decide, rfl, rfl⟩

end TableQuery.Registry
