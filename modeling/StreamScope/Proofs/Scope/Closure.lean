import StreamScope.Proofs.Repetition
import StreamScope.Proofs.Scope.Mention

/-!
Expanding once more. What a clause includes is closed: from the included streams
nothing new is reached, and though all of them now bound what is excluded, they
bound no more than the ids from which they were reached. For a stream on the way
down from an excluded id cannot be included, or the two nearest mentions of it
would differ.
-/

namespace StreamScope

open Outcome

namespace Forest

variable {f : Forest} {ids excluded closed : List StreamId} {state : StreamState} {d : StreamId}

/-- The stream descends from one of the ids, and past none that is excluded. -/
def Reached (f : Forest) (ids excluded : List StreamId) (state : StreamState) (d : StreamId) :
    Prop :=
  ∃ top ∈ ids, f.Descends (f.Shows excluded state) top d

theorem Reached.exists_nearest (h : f.Reached ids excluded state d)
    (hdisjoint : ∀ id ∈ ids, id ∉ excluded) :
    ∃ m ∈ ids, f.nearest? (ids ++ excluded) d = some m := by
  rw [← exists_descends_iff_nearest hdisjoint]
  obtain ⟨top, htop, hway⟩ := h
  exact ⟨top, htop, hway.mono fun _ hshows => hshows.1⟩

/-- No stream is reached from either side past the other. -/
theorem Reached.not_reached (h : f.Reached ids excluded state d)
    (hdisjoint : ∀ id ∈ ids, id ∉ excluded) : ¬ f.Reached excluded ids state d := by
  intro hother
  have hdisjoint' : ∀ id ∈ excluded, id ∉ ids := fun id hout hin => hdisjoint id hin hout
  obtain ⟨m, hm, hnear⟩ := h.exists_nearest hdisjoint
  obtain ⟨m', hm', hnear'⟩ := hother.exists_nearest hdisjoint'
  rw [nearest?_append_comm, hnear] at hnear'
  obtain rfl := Option.some.inj hnear'
  exact hdisjoint m hm hm'

theorem Reached.shows (h : f.Reached ids excluded state d) : f.Shows excluded state d := by
  obtain ⟨_, -, hway⟩ := h
  exact hway.opened

section

variable (hclosed : ∀ d, d ∈ closed ↔ f.Reached ids excluded state d)
include hclosed

/-- Nothing new is reached from what is reached already. -/
theorem reached_closed_iff (d : StreamId) :
    f.Reached closed excluded state d ↔ f.Reached ids excluded state d := by
  constructor
  · intro h
    obtain ⟨mid, hmid, hrest⟩ := h
    obtain ⟨top, htop, hway⟩ := (hclosed mid).mp hmid
    exact ⟨top, htop, hway.trans hrest⟩
  · intro h
    exact ⟨d, (hclosed d).mpr h, .top (mem_ids_of_shows h.shows) h.shows⟩

/-- Nor does it bound the other side any more than the ids themselves. -/
theorem reached_past_closed_iff (hdisjoint : ∀ id ∈ ids, id ∉ excluded) (d : StreamId) :
    f.Reached excluded closed state d ↔ f.Reached excluded ids state d := by
  constructor
  · intro h
    obtain ⟨top, htop, hway⟩ := h
    refine ⟨top, htop, hway.mono fun id hshows => ⟨fun hid => hshows.1 ?_, hshows.2⟩⟩
    -- an id that shows reaches itself
    have hself : f.Shows excluded state id := ⟨hdisjoint id hid, hshows.2⟩
    exact (hclosed id).mpr ⟨id, hid, .top (mem_ids_of_shows hself) hself⟩
  · intro h
    obtain ⟨top, htop, hway⟩ := h
    refine ⟨top, htop, hway.restrict fun id hid => ⟨fun hin => ?_, hid.opened.2⟩⟩
    exact ((hclosed id).mp hin).not_reached hdisjoint ⟨top, htop, hid⟩

end

end Forest

namespace Expansion

variable {e : Expansion} {store : StoreId} {p : QueryClause} {x : ExpandedClause}

theorem nodup_of_included {excluded seeds ids missing : List StreamId}
    (h : e.included store excluded seeds = .ok (ids, missing)) : ids.Nodup := by
  obtain ⟨reached, -, heq⟩ := bind_eq_ok_iff.mp h
  obtain ⟨rfl, -⟩ := Prod.mk.inj (Except.ok.inj heq)
  exact nodup_eraseDups _

theorem nodup_of_excludedIds {spared seeds ids : List StreamId}
    (h : e.excludedIds store spared seeds = .ok ids) : ids.Nodup := by
  obtain ⟨reached, -, heq⟩ := bind_eq_ok_iff.mp h
  obtain rfl := Except.ok.inj heq
  exact nodup_eraseDups _

/-- A set of streams is a list without repetitions. -/
theorem nodup_of_clause {missing : List StreamId} (h : e.clause p = .ok (x, missing)) :
    (x.any.getD []).Nodup ∧ x.not.Nodup := by
  rw [clause_eq] at h
  obtain ⟨any, hany, h⟩ := bind_eq_ok_iff.mp h
  obtain ⟨_, -, h⟩ := bind_eq_ok_iff.mp h
  obtain ⟨_, -, h⟩ := bind_eq_ok_iff.mp h
  obtain ⟨not, hnot, h⟩ := bind_eq_ok_iff.mp h
  obtain ⟨rfl, -⟩ := Prod.mk.inj (Except.ok.inj h)
  refine ⟨?_, nodup_of_excludedIds hnot⟩
  have hincluded := includedAny_eq_ok hany
  generalize p.any = inclusion at hincluded
  cases hincluded with
  | none => exact List.nodup_nil
  | some hids => exact nodup_of_included hids

end Expansion

namespace QueryClause.Plain

variable {e : Expansion} {f : Forest} {p : QueryClause} {x : ExpandedClause}
  {ids : List StreamId}

theorem mem_any_iff_reached (h : p.Plain e.conventions f) (hf : e.registry.Holds p.store f)
    (hany : p.any = some (.ids ids)) (hx : e.Expands p x) (d : StreamId) :
    d ∈ x.any.getD [] ↔ f.Reached ids p.not e.state d := by
  have hseeds : Expansion.seeds p = ids := Expansion.seeds_eq hany
  have hids : p.anyIds = ids := QueryClause.anyIds_eq hany
  rw [hx.mem_any_iff, hseeds, h.pruned_eq]
  refine exists_congr fun seed => and_congr_right fun hseed => ?_
  exact h.reaches_included_iff hf (hids ▸ hseed) p.not d

theorem mem_not_iff_reached (h : p.Plain e.conventions f) (hf : e.registry.Holds p.store f)
    (hx : e.Expands p x) (d : StreamId) :
    d ∈ x.not ↔ f.Reached p.not p.anyIds e.state d ∨ d ∈ p.not ∧ ¬ e.Stands f d := by
  rw [hx.mem_not_iff_reached_or_literal, h.spared_eq, Expansion.reach_eq_none_iff hf]
  refine or_congr_left (exists_congr fun seed => and_congr_right fun hseed => ?_)
  exact h.reaches_excluded_iff hf hseed p.anyIds d

/-- With the reached streams in the place of the included ids the clause stays plain. -/
theorem closed (h : p.Plain e.conventions f)
    (hunmarked : ∀ id ∈ f.ids, e.conventions.isNoExpand id = false) {closed : List StreamId}
    (hclosed : ∀ d, d ∈ closed ↔ f.Reached ids p.not e.state d) :
    { p with any := some (.ids closed) }.Plain e.conventions f where
  any := rfl
  all := h.all
  forced := h.forced
  known id hid := by
    have hlisted := Forest.mem_ids_of_shows ((hclosed id).mp hid).shows
    exact ⟨hlisted, hunmarked id hlisted⟩
  excluded := h.excluded
  disjoint id hid := ((hclosed id).mp hid).shows.1

/-- A plain clause of ids expands. It includes what its ids reach past its exclusions and excludes
what these reach past its ids, and no stream stands twice in its two sets. -/
theorem exists_expansion (h : p.Plain e.conventions f) (hf : e.registry.Holds p.store f)
    (hany : p.any = some (.ids ids)) :
    ∃ x any, expandClauses e [p] = .ok [x] ∧ x.any = some any ∧
      (∀ d, d ∈ any ↔ f.Reached ids p.not e.state d) ∧
      (∀ d, d ∈ x.not ↔ f.Reached p.not ids e.state d ∨ d ∈ p.not ∧ ¬ e.Stands f d) ∧
      (any ++ x.not).Nodup := by
  have hids : p.anyIds = ids := QueryClause.anyIds_eq hany
  obtain ⟨x, hclause⟩ := Expansion.exists_clause hf h.stands
  have hok := (expandClauses_eq_ok_iff e [p] [x]).mpr (.cons hclause .nil)
  have hx := Expansion.expands_of_clause hclause
  obtain ⟨any, hxany⟩ : ∃ any, x.any = some any := by
    have hsets := hx.any
    rw [hany] at hsets
    generalize x.any = included at hsets ⊢
    cases hsets with
    | some _ => exact ⟨_, rfl⟩
  have hmem := h.mem_any_iff_reached hf hany hx
  have hnot := h.mem_not_iff_reached hf hx
  obtain ⟨hincluded, hexcluded⟩ := Expansion.nodup_of_clause hclause
  rw [hxany, Option.getD_some] at hincluded hmem
  rw [hids] at hnot
  refine ⟨x, any, hok, hxany, hmem, hnot, hincluded.append hexcluded fun d hd hout => ?_⟩
  have hreached := (hmem d).mp hd
  rcases (hnot d).mp hout with hother | ⟨-, hnone⟩
  · exact hreached.not_reached (hids ▸ h.disjoint) hother
  · exact hnone (.inr (.inr (Forest.mem_ids_of_shows hreached.shows)))

end QueryClause.Plain

/-- Expansion is a closure: expanding a clause once more, from the streams that it includes, changes
neither what it includes nor what it excludes. No stream stands twice in its two sets. -/
theorem expansion_idempotent {e : Expansion} {f : Forest} {p : QueryClause} {ids : List StreamId}
    (hf : e.registry.Holds p.store f)
    (hunmarked : ∀ id ∈ f.ids, e.conventions.isNoExpand id = false)
    (h : p.Plain e.conventions f) (hany : p.any = some (.ids ids)) :
    ∃ x any, expandClauses e [p] = .ok [x] ∧ x.any = some any ∧
      ∃ y any', expandClauses e [{ p with any := some (.ids any) }] = .ok [y] ∧
        y.any = some any' ∧ (∀ d, d ∈ any' ↔ d ∈ any) ∧ (∀ d, d ∈ y.not ↔ d ∈ x.not) ∧
        (any ++ x.not).Nodup ∧ (any' ++ y.not).Nodup := by
  have hids : p.anyIds = ids := QueryClause.anyIds_eq hany
  have hdisjoint : ∀ id ∈ ids, id ∉ p.not := hids ▸ h.disjoint
  obtain ⟨x, any, hok, hxany, hmem, hnot, hnodup⟩ := h.exists_expansion hf hany
  obtain ⟨y, any', hok', hyany, hmem', hnot', hnodup'⟩ :=
    (h.closed hunmarked hmem).exists_expansion hf rfl
  refine ⟨x, any, hok, hxany, y, any', hok', hyany, fun d => ?_, fun d => ?_, hnodup, hnodup'⟩
  · rw [hmem', hmem, Forest.reached_closed_iff hmem]
  · rw [hnot', hnot, Forest.reached_past_closed_iff hmem hdisjoint]

/-- The sets of the clause of nested streams. -/
def nestedSets : ExpandedClause where
  store := ⟨"local"⟩
  any := some [⟨"home"⟩, ⟨"public"⟩]
  not := [⟨"bank"⟩, ⟨"ghost"⟩]

theorem expansion_idempotent_nested :
    nestedExpansion.registry.Holds nestedClause.store nestedForest ∧
    (∀ id ∈ nestedForest.ids, nestedExpansion.conventions.isNoExpand id = false) ∧
    nestedClause.Plain nestedExpansion.conventions nestedForest ∧
    nestedClause.any = some (.ids [⟨"home"⟩, ⟨"public"⟩]) ∧
    expandClauses nestedExpansion [nestedClause] = .ok [nestedSets] ∧
    (nestedSets.any.getD [] ++ nestedSets.not).Nodup ∧
    ∃ y any', expandClauses nestedExpansion
        [{ nestedClause with any := some (.ids [⟨"home"⟩, ⟨"public"⟩]) }] = .ok [y] ∧
      y.any = some any' ∧ (∀ d, d ∈ any' ↔ d = ⟨"home"⟩ ∨ d = ⟨"public"⟩) ∧
      (∀ d, d ∈ y.not ↔ d = ⟨"bank"⟩ ∨ d = ⟨"ghost"⟩) ∧ (any' ++ y.not).Nodup := by
  have hunmarked : ∀ id ∈ nestedForest.ids, nestedExpansion.conventions.isNoExpand id = false := by
    decide +kernel
  have hfirst : expandClauses nestedExpansion [nestedClause] = .ok [nestedSets] := by cbv
  obtain ⟨x, any, hx, hxany, y, any', hy, hyany, hany, hnot, honce, hnodup⟩ :=
    expansion_idempotent nested_holds hunmarked nested_plain rfl
  obtain rfl : nestedSets = x := List.singleton_inj.mp (Except.ok.inj (hfirst.symm.trans hx))
  obtain rfl : [⟨"home"⟩, ⟨"public"⟩] = any := Option.some.inj hxany
  refine ⟨nested_holds, hunmarked, nested_plain, rfl, hfirst, honce, y, any', hy, hyany, ?_, ?_,
    hnodup⟩
  · simpa using hany
  · simpa [nestedSets] using hnot

end StreamScope
