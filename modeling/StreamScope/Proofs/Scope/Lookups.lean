import StreamScope.Proofs.Scope.Entitlement
import StreamScope.Proofs.Scope.Reach

/-!
What the stages ask of the stores. A stage that succeeds had an answer to each of
its look-ups, and wherever these are answered in the same way it comes to the
same result: a failed look-up is never taken for an empty one.
-/

namespace StreamScope

open Outcome

namespace Expansion

variable {e : Expansion} {other : Registry} {store : StoreId} {excluded seeds : List StreamId}

/-- The same expansion over other stores. -/
def withRegistry (e : Expansion) (registry : Registry) : Expansion := { e with registry }

theorem included_below
    (h : ∀ seed ∈ seeds, Below (e.reach store excluded seed) ((e.withRegistry other).reach store excluded seed)) :
    Below (e.included store excluded seeds) ((e.withRegistry other).included store excluded seeds) :=
  .bind (.mapM fun seed hseed => (h seed hseed).bind fun _ _ => .refl _) fun _ _ => .refl _

theorem excludedIds_below
    (h : ∀ seed ∈ seeds, Below (e.reach store excluded seed) ((e.withRegistry other).reach store excluded seed)) :
    Below (e.excludedIds store excluded seeds) ((e.withRegistry other).excludedIds store excluded seeds) :=
  .bind (.mapM fun seed hseed => (h seed hseed).map _) fun _ _ => .refl _

theorem forcedIds_below
    (h : ∀ seed ∈ seeds, Below (e.reach store excluded seed) ((e.withRegistry other).reach store excluded seed)) :
    Below (e.forcedIds store excluded seeds) ((e.withRegistry other).forcedIds store excluded seeds) :=
  .mapM fun seed hseed => (h seed hseed).map _

/-- Where the look-ups of a clause are answered alike, it expands alike. -/
theorem clause_below {p : QueryClause}
    (hin : ∀ seed ∈ Expansion.seeds p ++ p.all ++ p.forced,
      Below (e.reach p.store (e.pruned p) seed) ((e.withRegistry other).reach p.store (e.pruned p) seed))
    (hnot : ∀ seed ∈ p.not,
      Below (e.reach p.store (e.spared p) seed) ((e.withRegistry other).reach p.store (e.spared p) seed)) :
    Below (e.clause p) ((e.withRegistry other).clause p) := by
  simp only [List.mem_append, or_imp, forall_and] at hin
  obtain ⟨⟨hany, hall⟩, hforced⟩ := hin
  have hincluded : Below (e.includedAny p) ((e.withRegistry other).includedAny p) := by
    unfold includedAny
    cases hp : p.any with
    | none => exact .refl _
    | some inclusion =>
      simp only [Expansion.seeds, hp] at hany
      exact (included_below hany).map some
  rw [clause_eq, clause_eq]
  refine hincluded.bind fun _ _ => ?_
  refine .bind (.mapM fun seed hseed => included_below ?_) fun _ _ => ?_
  · simpa using hall seed hseed
  · exact (forcedIds_below hforced).bind fun _ _ => (excludedIds_below hnot).bind fun _ _ => .refl _

end Expansion

end StreamScope
