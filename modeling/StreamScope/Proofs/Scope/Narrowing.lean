import StreamScope.Proofs.Scope.Meaning
import StreamScope.Proofs.Scope.Reach

/-!
More ids in the `not` of a clause. They shrink every set that the clause
includes, its forced sets too, and enlarge the set that it excludes. A set that
is shrunk to nothing is left out by reduction, and with it goes the demand that
it made; apart from these demands the wider clause admits all that the narrower
one does.
-/

namespace StreamScope

open Outcome

namespace ExpandedClause

variable {x y : ExpandedClause} {record : List StreamId}

/-- Set for set, the other clause includes no more and excludes no less. -/
structure Narrows (x y : ExpandedClause) : Prop where
  inclusions : List.Forall₂ (fun ids ids' => ∀ d ∈ ids', d ∈ ids) x.inclusions y.inclusions
  forced : List.Forall₂ (fun ids ids' => ∀ d ∈ ids', d ∈ ids) x.forced y.forced
  not : ∀ d ∈ x.not, d ∈ y.not

/-- The inclusions that hold streams but are empty in the other clause. -/
def emptied (x y : ExpandedClause) : List (List StreamId) :=
  ((x.inclusions.zip y.inclusions).filter fun sets => !sets.1.isEmpty && sets.2.isEmpty).map
    Prod.fst

theorem mem_emptied_iff (x y : ExpandedClause) (ids : List StreamId) :
    ids ∈ x.emptied y ↔ (ids, []) ∈ x.inclusions.zip y.inclusions ∧ ids ≠ [] := by
  simp only [emptied, List.mem_map, List.mem_filter, Bool.and_eq_true, Bool.not_eq_true',
    List.isEmpty_eq_false_iff, List.isEmpty_iff]
  constructor
  · intro hpair
    obtain ⟨⟨_, _⟩, ⟨hzip, hne, rfl⟩, rfl⟩ := hpair
    exact ⟨hzip, hne⟩
  · intro hpair
    obtain ⟨hzip, hne⟩ := hpair
    exact ⟨(ids, []), ⟨hzip, hne, rfl⟩, rfl⟩

namespace Narrows

theorem includes (h : x.Narrows y) (hy : y.Selects record) : ∃ ids ∈ x.inclusions, ids ≠ [] := by
  obtain ⟨ids', hids', hne⟩ := hy.includes
  obtain ⟨ids, hids, hsub⟩ := exists_left_of_mem h.inclusions hids'
  obtain ⟨d, hd⟩ := List.exists_mem_of_ne_nil ids' hne
  exact ⟨ids, hids, List.ne_nil_of_mem (hsub d hd)⟩

theorem forced_hit (h : x.Narrows y) (hy : y.Selects record) :
    ∀ ids ∈ x.forced, Hits record ids := by
  intro ids hids
  obtain ⟨ids', hids', hsub⟩ := exists_right_of_mem h.forced hids
  exact (hy.forced ids' hids').mono hsub

theorem not_excluded (h : x.Narrows y) (hy : y.Selects record) : ¬ Hits record x.not :=
  fun hit => hy.excluded (hit.mono h.not)

/-- What the narrower clause selects, the wider one selects too, if it meets the sets that only
the narrower one has lost. -/
theorem selects_iff (h : x.Narrows y) (hy : y.Selects record) :
    x.Selects record ↔ ∀ ids ∈ x.emptied y, Hits record ids := by
  constructor
  · intro hx ids hids
    obtain ⟨hzip, hne⟩ := (mem_emptied_iff x y ids).mp hids
    exact hx.included ids (List.of_mem_zip hzip).1 hne
  · intro hlost
    refine ⟨h.includes hy, ?_, h.forced_hit hy, h.not_excluded hy⟩
    intro ids hids hne
    obtain ⟨ids', hzip, hsub⟩ := exists_zip_of_mem h.inclusions hids
    by_cases hempty : ids' = []
    · subst hempty
      exact hlost ids ((mem_emptied_iff x y ids).mpr ⟨hzip, hne⟩)
    · exact (hy.included ids' (List.of_mem_zip hzip).2 hempty).mono hsub

end Narrows

end ExpandedClause

namespace Expansion

variable {e : Expansion} {p : QueryClause} {more : List StreamId} {x y : ExpandedClause}

theorem mem_pruned_append (e : Expansion) (p : QueryClause) (more : List StreamId) :
    ∀ id ∈ e.pruned p, id ∈ e.pruned { p with not := p.not ++ more } := by
  intro id hid
  rw [pruned, List.map_append]
  exact List.mem_append_left _ hid

/-- Sets told by a stronger condition each lie in the set told by the weaker one. -/
theorem forall₂_subset {α : Type} {G G' : α → StreamId → Prop} (himp : ∀ a d, G' a d → G a d)
    {as : List α} {sets sets' : List (List StreamId)}
    (h : List.Forall₂ (fun a ids => ∀ d, d ∈ ids ↔ G a d) as sets)
    (h' : List.Forall₂ (fun a ids => ∀ d, d ∈ ids ↔ G' a d) as sets') :
    List.Forall₂ (fun ids ids' => ∀ d ∈ ids', d ∈ ids) sets sets' := by
  apply ((forall₂_comp_iff sets sets').mp ⟨as, h.flip, h'⟩).imp
  intro ids ids' hsets d hd
  obtain ⟨a, hids, hids'⟩ := hsets
  exact (hids d).mpr (himp a d ((hids' d).mp hd))

theorem Expands.narrows (hr : e.registry.InMemory) (hx : e.Expands p x)
    (hy : e.Expands { p with not := p.not ++ more } y) : x.Narrows y := by
  have hmono (seed d : StreamId)
      (h : e.Reaches p.store (e.pruned { p with not := p.not ++ more }) seed d) :
      e.Reaches p.store (e.pruned p) seed d := h.mono hr (e.mem_pruned_append p more)
  refine ⟨?_, forall₂_subset hmono hx.forced hy.forced, ?_⟩
  · refine List.rel_append ?_ (forall₂_subset hmono hx.all hy.all)
    refine forall₂_subset ?_ (forall₂_toList hx.any) (forall₂_toList hy.any)
    intro inclusion d hreached
    obtain ⟨seed, hseed, hreaches⟩ := hreached
    exact ⟨seed, hseed, hmono seed d hreaches⟩
  · intro d hd
    obtain ⟨seed, hseed, hreach⟩ := (hx.not d).mp hd
    exact (hy.not d).mpr ⟨seed, List.mem_append_left _ hseed, hreach⟩

end Expansion

/-- A record that a clause matches with more exclusions is matched without them exactly if it
carries a stream of each inclusion that the exclusions have emptied. -/
theorem holds_without_exclusions_iff {e : Expansion} (hr : e.registry.InMemory) {p : QueryClause}
    {more : List StreamId} {before after : List ExpandedClause}
    (hbefore : expandClauses e [p] = .ok before)
    (hafter : expandClauses e [{ p with not := p.not ++ more }] = .ok after) :
    ∃ x y, before = [x] ∧ after = [y] ∧ ∀ record,
      (reduceClauses after).compile.holds record = true →
        ((reduceClauses before).compile.holds record = true ↔
          ∀ ids ∈ x.emptied y, Hits record ids) := by
  obtain ⟨x, rfl, hx⟩ := exists_clause_of_expandClauses hbefore
  obtain ⟨y, rfl, hy⟩ := exists_clause_of_expandClauses hafter
  refine ⟨x, y, rfl, rfl, fun record hholds => ?_⟩
  have hnarrows := (Expansion.expands_of_clause hx).narrows hr (Expansion.expands_of_clause hy)
  rw [holds_compile_reduceClauses] at hholds ⊢
  simp only [List.mem_singleton, exists_eq_left] at hholds ⊢
  exact hnarrows.selects_iff hholds

/-- Two streams side by side. -/
def twinForest : Forest where
  streams := [⟨⟨"home"⟩, none, false⟩, ⟨⟨"work"⟩, none, false⟩]
  grown := .pair (by decide) rfl (by decide) (by decide) (by decide)

def twinExpansion : Expansion where
  conventions := .standard
  registry := .single ⟨"local"⟩ twinForest
  state := .live

/-- What is in both streams. -/
def bothClause : QueryClause where
  store := ⟨"local"⟩
  any := some (.ids [⟨"home"⟩])
  all := [⟨"work"⟩]

def bothExpanded : List ExpandedClause :=
  [{ store := ⟨"local"⟩, any := some [⟨"home"⟩], all := [[⟨"work"⟩]] }]

/-- What is in both streams without what is in the second. -/
def excludedExpanded : List ExpandedClause :=
  [{ store := ⟨"local"⟩, any := some [⟨"home"⟩], all := [[]], not := [⟨"work"⟩] }]

theorem twin_inMemory : twinExpansion.registry.InMemory :=
  Registry.inMemory_single ⟨"local"⟩ twinForest

theorem both_expand : expandClauses twinExpansion [bothClause] = .ok bothExpanded := by
  cbv

theorem excluded_expand : expandClauses twinExpansion
    [{ bothClause with not := bothClause.not ++ [⟨"work"⟩] }] = .ok excludedExpanded := by
  cbv

theorem holds_without_exclusions_twins : twinExpansion.registry.InMemory ∧
    expandClauses twinExpansion [bothClause] = .ok bothExpanded ∧
    expandClauses twinExpansion [{ bothClause with not := bothClause.not ++ [⟨"work"⟩] }] =
      .ok excludedExpanded ∧
    ∃ x y, bothExpanded = [x] ∧ excludedExpanded = [y] ∧ ∀ record,
      (reduceClauses excludedExpanded).compile.holds record = true →
        ((reduceClauses bothExpanded).compile.holds record = true ↔
          ∀ ids ∈ x.emptied y, Hits record ids) :=
  ⟨twin_inMemory, both_expand, excluded_expand,
    holds_without_exclusions_iff twin_inMemory both_expand excluded_expand⟩

/-- An exclusion that empties a set lets a record in. -/
theorem exclusion_shows_more : twinExpansion.registry.InMemory ∧
    expandClauses twinExpansion [bothClause] = .ok bothExpanded ∧
    expandClauses twinExpansion [{ bothClause with not := bothClause.not ++ [⟨"work"⟩] }] =
      .ok excludedExpanded ∧
    (reduceClauses excludedExpanded).compile.holds [⟨"home"⟩] = true ∧
    (reduceClauses bothExpanded).compile.holds [⟨"home"⟩] = false := by
  exact ⟨twin_inMemory, both_expand, excluded_expand, by cbv, by cbv⟩

end StreamScope
