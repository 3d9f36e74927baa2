import StreamScope.Proofs.Forest.Nearest
import StreamScope.Proofs.Scope.Mention
import StreamScope.Query.Validation

/-!
Streams that a clause both includes and excludes. What `any` names is spared when
an unmarked id of `not` is expanded, so such a stream stays out of the exclusions
even where `not` names it outright; a marked id of `not` looks at nothing and
excludes its stream all the same. A stream that is not excluded is carried by
some match as soon as there is one, since a match may carry more streams than it
needs.
-/

namespace StreamScope

open Outcome

namespace ExpandedClause

/-- No match carries a stream exactly if the stream is excluded or nothing matches. -/
theorem absent_iff (x : ExpandedClause) (d : StreamId) :
    (∀ record, x.Selects record → d ∉ record) ↔ d ∈ x.not ∨ ∀ record, ¬ x.Selects record := by
  constructor
  · intro habsent
    by_contra hkept
    obtain ⟨hout, hsome⟩ := not_or.mp hkept
    refine hsome fun record hselects => ?_
    exact habsent (d :: record) (hselects.cons hout) List.mem_cons_self
  · rintro (hd | hnone) record hselects hrecord
    · exact hselects.excluded ⟨d, hd, hrecord⟩
    · exact hnone record hselects

end ExpandedClause

namespace Expansion

variable {e : Expansion} {p : QueryClause} {x : ExpandedClause} {f : Forest} {seed : StreamId}

/-- A stream that `not` names is excluded by a marked id, or because `any` does not name it. -/
theorem Expands.named_mem_not_iff (hf : e.registry.Holds p.store f)
    (hstate : e.state.includesTrashed = true) (h : e.Expands p x) (hseed : seed ∈ p.not)
    (hlisted : e.conventions.stripMarker seed ∈ f.ids) :
    e.conventions.stripMarker seed ∈ x.not ↔
      (∃ m ∈ p.not, e.conventions.isNoExpand m = true ∧
        e.conventions.stripMarker m = e.conventions.stripMarker seed) ∨
      e.conventions.stripMarker seed ∉ e.spared p := by
  rw [h.mem_not_iff hf hlisted]
  constructor
  · intro hreached
    obtain ⟨m, hm, hreaches⟩ := hreached
    cases hmark : e.conventions.isNoExpand m with
    | true => exact .inl ⟨m, hm, hmark, ((reaches_of_isNoExpand hmark _).mp hreaches).symm⟩
    | false => exact .inr (hreaches.notMem_excluded hmark hf)
  · rintro (⟨m, hm, hmark, hsame⟩ | hout)
    · exact ⟨m, hm, (reaches_of_isNoExpand hmark _).mpr hsame.symm⟩
    · refine ⟨seed, hseed, ?_⟩
      cases hmark : e.conventions.isNoExpand seed with
      | true => exact (reaches_of_isNoExpand hmark _).mpr rfl
      | false =>
        have hself : e.conventions.stripMarker seed = seed := Marker.strip_of_not_isMarked hmark
        rw [hself] at hlisted hout ⊢
        have hw : seed ≠ .wildcard := fun heq => f.wildcard_notMem_ids (heq ▸ hlisted)
        rw [reaches_iff_descends hmark hw hf, Forest.descends_self_iff hlisted]
        exact (Forest.shows_iff_notMem hstate hlisted).mpr hout

end Expansion

/-- A stream that `not` names is in no match exactly if `not` names it by a marked id, `any` does
not name it, or nothing matches. -/
theorem named_exclusion_absent_iff {e : Expansion} {f : Forest} {p : QueryClause}
    {xs : List ExpandedClause} {seed : StreamId} (hf : e.registry.Holds p.store f)
    (hstate : e.state = .trashed ∨ e.state = .all) (hexpand : expandClauses e [p] = .ok xs)
    (hseed : seed ∈ p.not) (hlisted : e.conventions.stripMarker seed ∈ f.ids) :
    (∀ record, (reduceClauses xs).compile.holds record = true →
        e.conventions.stripMarker seed ∉ record) ↔
      (∃ m ∈ p.not, e.conventions.isNoExpand m = true ∧
        e.conventions.stripMarker m = e.conventions.stripMarker seed) ∨
      e.conventions.stripMarker seed ∉ p.anyIds.map e.conventions.stripMarker ∨
      ∀ record, (reduceClauses xs).compile.holds record = false := by
  have hincludes := StreamState.includesTrashed_of_trashed_or_all hstate
  obtain ⟨x, rfl, hx⟩ := exists_clause_of_expandClauses hexpand
  have hexpands := Expansion.expands_of_clause hx
  simp only [← Bool.not_eq_true, holds_compile_reduce_single]
  rw [x.absent_iff, hexpands.named_mem_not_iff hf hincludes hseed hlisted, or_assoc]
  rfl

/-- Excludes two streams and includes both as well, the first one by a marked id. -/
def sparedClause : QueryClause where
  store := ⟨"local"⟩
  any := some (.ids [⟨"#home"⟩, ⟨"public"⟩])
  not := [⟨"home"⟩, ⟨"public"⟩]

def sparedExpanded : List ExpandedClause :=
  [{ store := ⟨"local"⟩, any := some [⟨"home"⟩] }]

theorem spared_expand : expandClauses nestedExpansion [sparedClause] = .ok sparedExpanded := by
  cbv

theorem spared_holds : nestedExpansion.registry.Holds sparedClause.store nestedForest :=
  Registry.holds_single ⟨"local"⟩ nestedForest

theorem named_exclusion_absent_spared :
    nestedExpansion.registry.Holds sparedClause.store nestedForest ∧
    (nestedExpansion.state = .trashed ∨ nestedExpansion.state = .all) ∧
    expandClauses nestedExpansion [sparedClause] = .ok sparedExpanded ∧
    ⟨"home"⟩ ∈ sparedClause.not ∧
    nestedExpansion.conventions.stripMarker ⟨"home"⟩ ∈ nestedForest.ids ∧
    ((∀ record, (reduceClauses sparedExpanded).compile.holds record = true →
        nestedExpansion.conventions.stripMarker ⟨"home"⟩ ∉ record) ↔
      (∃ m ∈ sparedClause.not, nestedExpansion.conventions.isNoExpand m = true ∧
        nestedExpansion.conventions.stripMarker m =
          nestedExpansion.conventions.stripMarker ⟨"home"⟩) ∨
      nestedExpansion.conventions.stripMarker ⟨"home"⟩ ∉
        sparedClause.anyIds.map nestedExpansion.conventions.stripMarker ∨
      ∀ record, (reduceClauses sparedExpanded).compile.holds record = false) := by
  have hseed : ⟨"home"⟩ ∈ sparedClause.not := List.mem_cons_self
  have hlisted : nestedExpansion.conventions.stripMarker ⟨"home"⟩ ∈ nestedForest.ids := by
    decide +kernel
  exact ⟨spared_holds, .inr rfl, spared_expand, hseed, hlisted,
    named_exclusion_absent_iff spared_holds (.inr rfl) spared_expand hseed hlisted⟩

/-- A record matches that carries both streams that the clause excludes. -/
theorem named_exclusion_matched :
    validate nestedExpansion.conventions
        [⟨[("any", .array [.string "#home", .string "public"]),
          ("not", .array [.string "home", .string "public"])]⟩] = .ok [sparedClause] ∧
    expandClauses nestedExpansion [sparedClause] = .ok sparedExpanded ∧
    ⟨"home"⟩ ∈ sparedClause.not ∧ ⟨"home"⟩ ∈ nestedForest.ids ∧
    ⟨"public"⟩ ∈ sparedClause.not ∧ ⟨"public"⟩ ∈ nestedForest.ids ∧
    (reduceClauses sparedExpanded).compile.holds [⟨"home"⟩, ⟨"public"⟩] = true :=
  ⟨rfl, spared_expand, by decide, by decide, by decide, by decide, by cbv⟩

end StreamScope
