import StreamScope.Proofs.Resolver.Health

/-!
Clauses do not interfere. Either stage keeps one account for all clauses of a
request and settles it at the end, yet lists of clauses succeed together exactly
when each does alone, with what each gives set side by side; and the first list
with a forbidden stream decides which one is reported.
-/

namespace StreamScope.Resolver

open Outcome Registry
open Permitted (Offence verdict restrict entitlement)

variable {r : Resolver} {caller : Caller} {state : StreamState}

theorem reduceClauses_append (xs more : List ExpandedClause) :
    reduceClauses (xs ++ more) = ⟨(reduceClauses xs).clauses ++ (reduceClauses more).clauses⟩ := by
  simp [reduceClauses]

/-- Lists of clauses have a scope together when each has one. -/
theorem scope_append_eq_ok_iff (r : Resolver) (caller : Caller) (state : StreamState)
    (clauses more : List QueryClause) (q : ResolvedQuery) :
    r.scope caller state (clauses ++ more) = .ok q ↔
      ∃ q₁ q₂, r.scope caller state clauses = .ok q₁ ∧ r.scope caller state more = .ok q₂ ∧
        q = ⟨q₁.clauses ++ q₂.clauses⟩ := by
  simp only [scope_eq_ok_iff, forall₂_append_iff]
  constructor
  · rintro ⟨_, ⟨xs, rest, hxs, hrest, rfl⟩, rfl⟩
    exact ⟨_, _, ⟨xs, hxs, rfl⟩, ⟨rest, hrest, rfl⟩, reduceClauses_append xs rest⟩
  · rintro ⟨_, _, ⟨xs, hxs, rfl⟩, ⟨rest, hrest, rfl⟩, rfl⟩
    exact ⟨xs ++ rest, ⟨xs, rest, hxs, hrest, rfl⟩, reduceClauses_append xs rest⟩

/-- A forbidden stream is reported before anything else, and the first of them. -/
theorem scope_eq_forbidden_iff (hr : r.registry.InMemory) (clauses : List QueryClause)
    (id : StreamId) : r.scope caller state clauses = .error (.forbidden id) ↔
      (clauses.flatMap (r.offences caller)).findSome? Offence.forbidden? = some id := by
  simp only [scope_eq_error_iff hr, Permitted.verdict_eq_error_iff, report_eq_error_iff,
    reduceCtorEq, and_false, or_false, ResolveError.forbidden.injEq, exists_eq_right']

/-- Lists of clauses succeed together exactly when each does, and then side by side; together they
end in what the first of them finds forbidden. -/
theorem clauses_independent (hr : r.registry.InMemory) (caller : Caller) (state : StreamState)
    (clauses more : List QueryClause) :
    (∀ q, r.scope caller state (clauses ++ more) = .ok q ↔
      ∃ q₁ q₂, r.scope caller state clauses = .ok q₁ ∧ r.scope caller state more = .ok q₂ ∧
        q = ⟨q₁.clauses ++ q₂.clauses⟩) ∧
    ∀ id, r.scope caller state (clauses ++ more) = .error (.forbidden id) ↔
      r.scope caller state clauses = .error (.forbidden id) ∨
        (∀ first, r.scope caller state clauses ≠ .error (.forbidden first)) ∧
          r.scope caller state more = .error (.forbidden id) := by
  refine ⟨fun q => scope_append_eq_ok_iff r caller state clauses more q, fun id => ?_⟩
  simp only [ne_eq, scope_eq_forbidden_iff hr, List.flatMap_append, List.findSome?_append]
  cases (clauses.flatMap (r.offences caller)).findSome? Offence.forbidden? <;> simp

def homeClauses : List QueryClause := [.ofIds ⟨"local"⟩ [⟨"home"⟩]]

def wholeClauses : List QueryClause := [.wildcard ⟨"local"⟩]

/-- A clause with a stream that the caller must not read. -/
def bankClauses : List QueryClause := [.ofIds ⟨"local"⟩ [⟨"bank"⟩]]

theorem clauses_independent_home : homeResolver.registry.InMemory ∧
    homeResolver.scope homeCaller .live homeClauses = .ok homeQuery ∧
    homeResolver.scope homeCaller .live wholeClauses = .ok homeQuery ∧
    homeResolver.scope homeCaller .live bankClauses = .error (.forbidden ⟨"bank"⟩) ∧
    homeResolver.scope homeCaller .live (homeClauses ++ wholeClauses) =
      .ok ⟨homeQuery.clauses ++ homeQuery.clauses⟩ ∧
    homeResolver.scope homeCaller .live (homeClauses ++ bankClauses) =
      .error (.forbidden ⟨"bank"⟩) := by
  have hhome : homeResolver.scope homeCaller .live homeClauses = .ok homeQuery := by cbv
  have hwhole : homeResolver.scope homeCaller .live wholeClauses = .ok homeQuery := by cbv
  have hbank : homeResolver.scope homeCaller .live bankClauses =
      .error (.forbidden ⟨"bank"⟩) := by
    cbv
  have htogether :=
    (clauses_independent home_inMemory homeCaller .live homeClauses wholeClauses).1
  have hforbidden :=
    (clauses_independent home_inMemory homeCaller .live homeClauses bankClauses).2
  refine ⟨home_inMemory, hhome, hwhole, hbank, ?_, ?_⟩
  · exact (htogether _).mpr ⟨homeQuery, homeQuery, hhome, hwhole, rfl⟩
  · refine (hforbidden _).mpr (.inr ⟨fun first hfirst => ?_, hbank⟩)
    rw [hhome] at hfirst
    cases hfirst

end StreamScope.Resolver
