import TableQuery.Query.Basic

/- Clauses of queries. A step on the clauses leaves what the query reads as it is, and two steps on the
   clauses are one. -/
namespace TableQuery.Query

@[simp] theorem clauses_update (f : Clauses → Clauses) (q : Query) : (q.update f).clauses = f q.clauses := by
  cases q <;> rfl

@[simp] theorem update_update (f g : Clauses → Clauses) (q : Query) :
    (q.update f).update g = q.update (g ∘ f) := by
  cases q <;> rfl

end TableQuery.Query
