import StreamScope.Proofs.Repetition
import StreamScope.Proofs.Scope.Mention
import StreamScope.Proofs.Scope.Report

/-!
Clauses that name the same ids, in another order or more often. Their sets hold
the same streams, though not one by one: an id that is repeated under `all`
repeats its set. A record is held against every set, so it makes no difference
how often a set stands in a clause and in which place, and the ids that are
reported missing are the same, each reported once.
-/

namespace StreamScope

open Outcome

/-- The clauses name the same ids, list by list. To list the wildcard alone is to include
everything, and to list nothing under `any` is to leave it out. -/
structure QueryClause.SameIds (p q : QueryClause) : Prop where
  store : p.store = q.store
  any : ∀ id, id ∈ Expansion.seeds p ↔ id ∈ Expansion.seeds q
  all : ∀ id, id ∈ p.all ↔ id ∈ q.all
  not : ∀ id, id ∈ p.not ↔ id ∈ q.not
  forced : ∀ id, id ∈ p.forced ↔ id ∈ q.forced

theorem QueryClause.SameIds.symm {p q : QueryClause} (h : p.SameIds q) : q.SameIds p where
  store := h.store.symm
  any id := (h.any id).symm
  all id := (h.all id).symm
  not id := (h.not id).symm
  forced id := (h.forced id).symm

theorem ne_nil_of_same {ids ids' : List StreamId} (h : ∀ d, d ∈ ids' ↔ d ∈ ids) (hne : ids ≠ []) :
    ids' ≠ [] := by
  obtain ⟨d, hd⟩ := List.exists_mem_of_ne_nil ids hne
  exact List.ne_nil_of_mem ((h d).mpr hd)

namespace ExpandedClause

variable {x y : ExpandedClause} {record : List StreamId}

/-- Every set of the one clause that counts has its like in the other. -/
structure Matches (x y : ExpandedClause) : Prop where
  inclusions : ∀ ids ∈ x.inclusions, ids ≠ [] → ∃ ids' ∈ y.inclusions, ∀ d, d ∈ ids' ↔ d ∈ ids
  forced : ∀ ids ∈ x.forced, ∃ ids' ∈ y.forced, ∀ d, d ∈ ids' ↔ d ∈ ids
  not : ∀ d ∈ x.not, d ∈ y.not

theorem Matches.selects (hxy : x.Matches y) (hyx : y.Matches x) (h : x.Selects record) :
    y.Selects record where
  includes := by
    obtain ⟨ids, hids, hne⟩ := h.includes
    obtain ⟨ids', hids', hsame⟩ := hxy.inclusions ids hids hne
    exact ⟨ids', hids', ne_nil_of_same hsame hne⟩
  included ids hids hne := by
    obtain ⟨ids', hids', hsame⟩ := hyx.inclusions ids hids hne
    exact (h.included ids' hids' (ne_nil_of_same hsame hne)).mono fun d hd => (hsame d).mp hd
  forced ids hids := by
    obtain ⟨ids', hids', hsame⟩ := hyx.forced ids hids
    exact (h.forced ids' hids').mono fun d hd => (hsame d).mp hd
  excluded hhit := h.excluded (hhit.mono hyx.not)

end ExpandedClause

namespace QueryClause.SameIds

variable {e : Expansion} {p q : QueryClause}

theorem mem_pruned (h : p.SameIds q) : ∀ id ∈ e.pruned q, id ∈ e.pruned p := by
  intro id hid
  obtain ⟨named, hnamed, rfl⟩ := List.mem_map.mp hid
  exact List.mem_map_of_mem ((h.not named).mpr hnamed)

/-- A listed wildcard is spared, the wildcard itself is not. -/
theorem mem_spared (h : p.SameIds q) :
    ∀ id ∈ e.spared q, id ∈ e.spared p ∨ id = .wildcard := by
  intro id hid
  obtain ⟨named, hnamed, rfl⟩ := List.mem_map.mp hid
  have hseed := (h.any named).mpr ((Expansion.mem_seeds_iff q named).mpr (.inr hnamed))
  rcases (Expansion.mem_seeds_iff p named).mp hseed with ⟨-, rfl⟩ | hlisted
  · exact .inr (Marker.strip_of_not_isMarked e.conventions.isNoExpand_wildcard)
  · exact .inl (List.mem_map_of_mem hlisted)

theorem reaches_pruned_iff (h : p.SameIds q) (hr : e.registry.InMemory) (seed d : StreamId) :
    e.Reaches q.store (e.pruned q) seed d ↔ e.Reaches p.store (e.pruned p) seed d := by
  rw [h.store]
  exact ⟨fun hreaches => hreaches.mono hr h.symm.mem_pruned,
    fun hreaches => hreaches.mono hr h.mem_pruned⟩

theorem reaches_spared_iff (h : p.SameIds q) (hr : e.registry.InMemory) (seed d : StreamId) :
    e.Reaches q.store (e.spared q) seed d ↔ e.Reaches p.store (e.spared p) seed d := by
  rw [h.store]
  exact ⟨fun hreaches => hreaches.past hr h.symm.mem_spared,
    fun hreaches => hreaches.past hr h.mem_spared⟩

/-- The same ids are missing, though not in the same order. -/
theorem mem_missing_iff (h : p.SameIds q) (hr : e.registry.InMemory) (id : StreamId) :
    id ∈ e.missing q ↔ id ∈ e.missing p := by
  unfold Expansion.missing
  rw [← h.store, Expansion.reported_congr hr (e.pruned q) (e.pruned p)]
  simp only [List.mem_flatMap, List.mem_append, h.any, h.all]

end QueryClause.SameIds

namespace Expansion

variable {e : Expansion} {p q : QueryClause} {x y : ExpandedClause}

/-- Of two lists of ids, each id with the set of what it reaches, the longer has all sets of the
shorter. -/
theorem exists_same_set {R R' : StreamId → StreamId → Prop} {ids ids' : List StreamId}
    {sets sets' : List (List StreamId)}
    (h : List.Forall₂ (fun seed set => ∀ d, d ∈ set ↔ R seed d) ids sets)
    (h' : List.Forall₂ (fun seed set => ∀ d, d ∈ set ↔ R' seed d) ids' sets')
    (hsub : ∀ id ∈ ids, id ∈ ids') (hsame : ∀ seed d, R' seed d ↔ R seed d) :
    ∀ set ∈ sets, ∃ set' ∈ sets', ∀ d, d ∈ set' ↔ d ∈ set := by
  intro set hset
  obtain ⟨seed, hseed, hmem⟩ := exists_left_of_mem h hset
  obtain ⟨set', hset', hmem'⟩ := exists_right_of_mem h' (hsub seed hseed)
  exact ⟨set', hset', fun d => by rw [hmem', hmem, hsame]⟩

theorem Expands.mem_any_iff_of_sameIds (hr : e.registry.InMemory) (h : p.SameIds q)
    (hx : e.Expands p x) (hy : e.Expands q y) (d : StreamId) :
    d ∈ y.any.getD [] ↔ d ∈ x.any.getD [] := by
  rw [hx.mem_any_iff, hy.mem_any_iff]
  refine exists_congr fun seed => ?_
  rw [h.any, h.reaches_pruned_iff hr]

theorem Expands.matches_of_sameIds (hr : e.registry.InMemory) (h : p.SameIds q)
    (hx : e.Expands p x) (hy : e.Expands q y) : x.Matches y where
  inclusions ids hids hne := by
    rcases (x.mem_inclusions_iff ids).mp hids with hany | hall
    · have hmem := hx.mem_any_iff_of_sameIds hr h hy
      rw [hany, Option.getD_some] at hmem
      have hne' := ne_nil_of_same hmem hne
      cases hyany : y.any with
      | none => simp [hyany] at hne'
      | some ids' =>
        rw [hyany, Option.getD_some] at hmem
        exact ⟨ids', (y.mem_inclusions_iff ids').mpr (.inl hyany), hmem⟩
    · obtain ⟨ids', hids', hsame⟩ := exists_same_set hx.all hy.all (fun id => (h.all id).mp)
        (h.reaches_pruned_iff hr) ids hall
      exact ⟨ids', (y.mem_inclusions_iff ids').mpr (.inr hids'), hsame⟩
  forced := exists_same_set hx.forced hy.forced (fun id => (h.forced id).mp)
    (h.reaches_pruned_iff hr)
  not d hd := by
    rw [hy.mem_not_iff_reached_or_literal]
    rcases (hx.mem_not_iff_reached_or_literal d).mp hd with ⟨seed, hseed, hreaches⟩ | ⟨hid, hnone⟩
    · exact .inl ⟨seed, (h.not seed).mp hseed, (h.reaches_spared_iff hr seed d).mpr hreaches⟩
    · refine .inr ⟨(h.not d).mp hid, ?_⟩
      rw [← h.store]
      exact (reach_eq_none_congr hr p.store (e.spared p) (e.spared q) d).mp hnone

end Expansion

/-- The same ids are reported alike, whatever their order. -/
theorem report_of_same {ids ids' : List StreamId} (h : ∀ id, id ∈ ids' ↔ id ∈ ids) :
    report ids = .ok () ∧ report ids' = .ok () ∨
      ∃ reported reported', report ids = .error (.unknownStreams reported) ∧
        report ids' = .error (.unknownStreams reported') ∧ reported.Perm reported' := by
  by_cases hids : ids = []
  · subst hids
    have hids' : ids' = [] := List.eq_nil_iff_forall_not_mem.mpr fun id => by simp [h]
    exact .inl ⟨rfl, by rw [hids']; rfl⟩
  · refine .inr ⟨_, _, report_of_ne_nil hids,
      report_of_ne_nil (ne_nil_of_same h hids), ?_⟩
    rw [List.perm_ext_iff_of_nodup (nodup_eraseDups ids) (nodup_eraseDups ids')]
    simp [List.mem_eraseDups, h]

/-- Clauses that name the same ids match the same records, or the same unknown ids are reported of
both. -/
theorem expansion_ignores_order {e : Expansion} {p q : QueryClause} (hr : e.registry.InMemory)
    (h : p.SameIds q) :
    (∃ xs ys, expandClauses e [p] = .ok xs ∧ expandClauses e [q] = .ok ys ∧
      ∀ record, (reduceClauses xs).compile.holds record =
        (reduceClauses ys).compile.holds record) ∨
    ∃ ids ids', expandClauses e [p] = .error (.unknownStreams ids) ∧
      expandClauses e [q] = .error (.unknownStreams ids') ∧ ids.Perm ids' := by
  obtain ⟨xs, hxs⟩ := exists_expandClauses_eq hr [p]
  obtain ⟨ys, hys⟩ := exists_expandClauses_eq hr [q]
  rw [List.flatMap_singleton] at hxs hys
  rcases report_of_same (h.mem_missing_iff hr) with
    ⟨hp, hq⟩ | ⟨ids, ids', hp, hq, hperm⟩
  · rw [hp] at hxs
    rw [hq] at hys
    refine .inl ⟨xs, ys, hxs, hys, fun record => ?_⟩
    obtain ⟨x, rfl, hx⟩ := exists_clause_of_expandClauses hxs
    obtain ⟨y, rfl, hy⟩ := exists_clause_of_expandClauses hys
    have hxp := Expansion.expands_of_clause hx
    have hyq := Expansion.expands_of_clause hy
    have hxy := hxp.matches_of_sameIds hr h hyq
    have hyx := hyq.matches_of_sameIds hr h.symm hxp
    rw [Bool.eq_iff_iff, holds_compile_reduce_single, holds_compile_reduce_single]
    exact ⟨hxy.selects hyx, hyx.selects hxy⟩
  · rw [hp] at hxs
    rw [hq] at hys
    exact .inr ⟨ids, ids', hxs, hys, hperm⟩

/-- Names the top under `any` and `forced`, demands the two below it, and takes one out again. -/
def onceClause : QueryClause where
  store := ⟨"local"⟩
  any := some (.ids [⟨"home"⟩, ⟨"public"⟩])
  all := [⟨"bank"⟩, ⟨"home"⟩]
  not := [⟨"#public"⟩, ⟨"ghost"⟩]
  forced := [⟨"home"⟩]

/-- Names the same ids, some of them twice. -/
def repeatedClause : QueryClause where
  store := ⟨"local"⟩
  any := some (.ids [⟨"public"⟩, ⟨"home"⟩, ⟨"public"⟩])
  all := [⟨"home"⟩, ⟨"bank"⟩, ⟨"home"⟩]
  not := [⟨"ghost"⟩, ⟨"#public"⟩, ⟨"ghost"⟩]
  forced := [⟨"home"⟩, ⟨"home"⟩]

theorem once_sameIds_repeated : onceClause.SameIds repeatedClause where
  store := rfl
  any id := by simp [Expansion.seeds, Expansion.anySeeds, onceClause, repeatedClause]; tauto
  all id := by simp [onceClause, repeatedClause]; tauto
  not id := by simp [onceClause, repeatedClause]; tauto
  forced id := by simp [onceClause, repeatedClause]

theorem expansion_ignores_order_repeated :
    nestedExpansion.registry.InMemory ∧ onceClause.SameIds repeatedClause ∧
    ∃ xs ys, expandClauses nestedExpansion [onceClause] = .ok xs ∧
      expandClauses nestedExpansion [repeatedClause] = .ok ys ∧
      ∀ record, (reduceClauses xs).compile.holds record =
        (reduceClauses ys).compile.holds record := by
  have hr : nestedExpansion.registry.InMemory :=
    Registry.inMemory_single ⟨"local"⟩ nestedForest
  refine ⟨hr, once_sameIds_repeated,
    (expansion_ignores_order hr once_sameIds_repeated).resolve_right ?_⟩
  rintro ⟨ids, ids', herror, -, -⟩
  have hok : (expandClauses nestedExpansion [onceClause]).isOk = true := by decide +kernel
  rw [herror] at hok
  cases hok

end StreamScope
