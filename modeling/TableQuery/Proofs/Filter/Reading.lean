import TableQuery.Proofs.Expr.Connectives
import TableQuery.Proofs.Filter.Writing

/- How written conditions are to be read. A formula puts given conditions together by `all`, `any` and
   `opposite`. A reading keeps, for each clause, the formula that is settled, if there is one, and at most
   one open chain, which is a list of groups: the chain holds where any of its groups does, and a group
   where all its formulas do. Steps change a reading by five rules:

     1. `filter` and `having` settle the open chain, by conjunction with its clause, and open a new one.
     2. `and` and `andWhere` extend the last group; `or` and `orWhere` begin a new group.
     3. Where no chain is open, these four open one whose first group is the settled filter, if there is
        a filter.
     4. `not` turns the open chain into its opposite, or the settled filter where no chain is open;
        without chain and filter it changes nothing.
     5. `filterBy` settles the open chain and adds a predicate to the filter. -/
namespace TableQuery

/-- What a condition is meant to say. -/
inductive Formula where
  /-- An expression as it stands. -/
  | given (e : Expr)
  | all (fs : List Formula)
  | any (fs : List Formula)
  | opposite (f : Formula)

namespace Formula

mutual

/-- The truth of a formula in a scope. All parts are evaluated, and the first that fails decides. -/
def meaning (scope : Memory.Scope) : Formula → Except Failure Truth
  | given e => Memory.truth e scope
  | all fs => meaningAll scope fs
  | any fs => meaningAny scope fs
  | opposite f => (meaning scope f).map Truth.not

def meaningAll (scope : Memory.Scope) : List Formula → Except Failure Truth
  | [] => .ok .yes
  | f :: fs => Memory.join Truth.and (meaning scope f) (meaningAll scope fs)

def meaningAny (scope : Memory.Scope) : List Formula → Except Failure Truth
  | [] => .ok .no
  | f :: fs => Memory.join Truth.or (meaning scope f) (meaningAny scope fs)

end

def ofGroups (groups : List (List Formula)) : Formula :=
  any (groups.map all)

/-- Adds a formula to the last group; the first one makes a group. -/
def extendLast (groups : List (List Formula)) (f : Formula) : List (List Formula) :=
  match groups with
  | [] => [[f]]
  | [g] => [g ++ [f]]
  | g :: h :: rest => g :: extendLast (h :: rest) f

def conjoin (base : Option Formula) (f : Formula) : Formula :=
  match base with
  | none => f
  | some b => all [b, f]

end Formula

def Sentence.groups : Sentence → List (List Formula)
  | start c => [[.given c.condition]]
  | and p c => Formula.extendLast p.groups (.given c.condition)
  | or p c => p.groups ++ [[.given c.condition]]
  | andWhere p q => Formula.extendLast p.groups (.ofGroups q.groups)
  | orWhere p q => p.groups ++ [[.ofGroups q.groups]]
  | not p => [[.opposite (.ofGroups p.groups)]]

/-- The groups of the open chain and the clause that it belongs to. -/
structure OpenGroups where
  clause : ConditionClause
  groups : List (List Formula)

structure Reading where
  /-- What is settled in each clause, if anything is. -/
  settled : ConditionClause → Option Formula
  chain : Option OpenGroups

namespace Reading

/-- The conditions of a query without an open chain; the constant true is no condition. -/
def ofQuery (q : Query) : Reading where
  settled
    | .filter => if q.clauses.filter.isTrue then none else some (.given q.clauses.filter)
    | .having => if q.clauses.having.isTrue then none else some (.given q.clauses.having)
  chain := none

/-- Puts another formula into a clause, or none. -/
def put (settled : ConditionClause → Option Formula) (clause : ConditionClause) (f : Option Formula) :
    ConditionClause → Option Formula :=
  fun k => if k = clause then f else settled k

/-- What is settled once the open chain is. -/
def settle (r : Reading) : ConditionClause → Option Formula :=
  match r.chain with
  | none => r.settled
  | some c => put r.settled c.clause (some (Formula.conjoin (r.settled c.clause) (.ofGroups c.groups)))

/-- What is settled apart from the open chain, and that chain. Where none is open, the filter becomes
one. -/
def resume (r : Reading) : (ConditionClause → Option Formula) × OpenGroups :=
  match r.chain with
  | some c => (r.settled, c)
  | none => (put r.settled .filter none, ⟨.filter, ((r.settled .filter).map fun f => [f]).toList⟩)

/-- Goes on in the last group. -/
def extend (r : Reading) (f : Formula) : Reading :=
  ⟨r.resume.1, some ⟨r.resume.2.clause, Formula.extendLast r.resume.2.groups f⟩⟩

/-- Goes on in a new group. -/
def branch (r : Reading) (f : Formula) : Reading :=
  ⟨r.resume.1, some ⟨r.resume.2.clause, r.resume.2.groups ++ [[f]]⟩⟩

/-- The opposite of the open chain, or else of the filter, if there is one. -/
def oppose (r : Reading) : Reading :=
  match r.chain with
  | some c => ⟨r.settled, some ⟨c.clause, [[.opposite (.ofGroups c.groups)]]⟩⟩
  | none => ⟨put r.settled .filter ((r.settled .filter).map .opposite), none⟩

def take (r : Reading) : Step → Reading
  | .filter c => ⟨r.settle, some ⟨.filter, [[.given c.condition]]⟩⟩
  | .having c => ⟨r.settle, some ⟨.having, [[.given c.condition]]⟩⟩
  | .and c => r.extend (.given c.condition)
  | .or c => r.branch (.given c.condition)
  | .andWhere p => r.extend (.ofGroups p.groups)
  | .orWhere p => r.branch (.ofGroups p.groups)
  | .not => r.oppose
  | .filterBy p => ⟨put r.settle .filter (some (Formula.conjoin (r.settle .filter) (.ofGroups p.groups))), none⟩

def run (r : Reading) (steps : List Step) : Reading :=
  steps.foldl take r

/-- What the reading says about a clause; nothing settled holds everywhere. -/
def condition (r : Reading) (clause : ConditionClause) : Formula :=
  (r.settle clause).getD (.all [])

end Reading

/-! ## What chains of groups mean -/

namespace Formula

variable (scope : Memory.Scope)

theorem meaning_all_append (g : List Formula) (f : Formula) :
    meaning scope (all (g ++ [f])) = Memory.join Truth.and (meaning scope (all g)) (meaning scope f) := by
  simp only [meaning]
  -- On the formulas before the last one: the connective is associative, and failures come in order.
  induction g with
  | nil =>
    simp only [List.nil_append, meaningAll, Memory.join_neutral Truth.and_yes, Memory.neutral_join Truth.yes_and]
  | cons h g ih => simp only [List.cons_append, meaningAll, ih, Memory.join_assoc Truth.and_assoc]

theorem meaning_all_singleton (f : Formula) : meaning scope (all [f]) = meaning scope f := by
  simp only [meaning, meaningAll, Memory.join_neutral Truth.and_yes]

theorem meaning_ofGroups_singleton (f : Formula) : meaning scope (ofGroups [[f]]) = meaning scope f := by
  simp only [ofGroups, List.map_cons, List.map_nil, meaning, meaningAny, meaningAll, Memory.join_neutral Truth.or_no,
    Memory.join_neutral Truth.and_yes]

/-- A formula added to a clause joins what was there; nothing holds everywhere. -/
theorem meaning_conjoin (base : Option Formula) (f : Formula) :
    meaning scope (conjoin base f) =
      Memory.join Truth.and (meaning scope (base.getD (all []))) (meaning scope f) := by
  cases base with
  | none => simp only [conjoin, Option.getD_none, meaning, meaningAll, Memory.neutral_join Truth.yes_and]
  | some b =>
    simp only [conjoin, Option.getD_some, meaning, meaningAll, Memory.join_neutral Truth.and_yes]

end Formula

theorem Formula.extendLast_append (gs : List (List Formula)) (g : List Formula) (f : Formula) :
    extendLast (gs ++ [g]) f = gs ++ [g ++ [f]] := by
  induction gs with
  | nil => rfl
  | cons h gs ih =>
    cases gs with
    | nil => rfl
    | cons k gs => simp only [List.cons_append, extendLast] at ih ⊢; rw [ih]

end TableQuery
