import StreamScope.Backend
import StreamScope.Proofs.Forest.Nearest
import StreamScope.Proofs.Outcome

/-!
A forest seen from above and from below. An expansion looks down the lists of
children and passes over what is excluded or hidden, with all below it; the way
up follows parent links and looks at neither. Both tell the same: a stream is
expanded from another exactly if it finds the other on its way up and nothing is
passed over from the one to the other.
-/

namespace StreamScope.Forest

open Lineage Outcome

variable {f : Forest} {excluded : List StreamId} {state : StreamState} {s d y : StreamId}

/-- An expansion passes over a stream that is excluded, or trashed in the default state. -/
def Prunes (f : Forest) (excluded : List StreamId) (state : StreamState) (y : StreamId) : Prop :=
  y ∈ excluded ∨ state = .live ∧ ∃ s ∈ f.streams, s.id = y ∧ s.trashed = true

theorem includesTrashed_iff (state : StreamState) :
    state.includesTrashed = true ↔ state ≠ .live := by
  cases state <;> simp [StreamState.includesTrashed]

theorem shows_iff_not_prunes (hy : y ∈ f.ids) :
    f.Shows excluded state y ↔ ¬ f.Prunes excluded state y := by
  obtain ⟨s, hs, rfl⟩ := (mem_ids_iff f y).mp hy
  have honly : ∀ t ∈ f.streams, t.id = s.id → t = s :=
    fun t ht hid => List.inj_on_of_nodup_map f.grown.nodup ht hs hid
  unfold Shows Prunes
  rw [not_or, includesTrashed_iff]
  refine and_congr_right fun _ => ?_
  constructor
  · rintro ⟨t, ht, hid, hshown⟩ ⟨hlive, u, hu, hid', htrashed⟩
    obtain rfl := honly t ht hid
    obtain rfl := honly u hu hid'
    exact hshown htrashed hlive
  · intro hkept
    exact ⟨s, hs, rfl, fun htrashed hlive => hkept ⟨hlive, s, hs, rfl, htrashed⟩⟩

theorem ancestors_ofForest (hd : d ∈ f.ids) :
    (Backend.ofForest f).ancestors d = .ok (some (f.wayUp d)) :=
  mapError_eq_ok_iff.mpr ((ancestors_eq_ok_some_iff f.streams d _).mpr (chain_wayUp hd))

/-- From a stream the expansion comes to what finds the stream on an open part of its way up. -/
theorem exists_expand (hs : s ∈ f.ids) (excluded : List StreamId) (state : StreamState) :
    ∃ ids, f.expand s excluded state = some ids ∧ ∀ d, d ∈ ids ↔
      ∃ below above, f.wayUp d = below ++ s :: above ∧
        ∀ y ∈ below ++ [s], f.Shows excluded state y := by
  have hw : s ≠ .wildcard := fun heq => f.wildcard_notMem_ids (heq ▸ hs)
  obtain ⟨ids, hids⟩ := Option.isSome_iff_exists.mp
    ((expand_isSome_iff f s excluded state).mpr (.inr hs))
  refine ⟨ids, hids, fun d => ?_⟩
  have hmem := mem_expand_iff f s excluded state d
  simpa [hids, hw, descends_iff_wayUp] using hmem

/-- From all roots it comes to what has an open way up. -/
theorem exists_expand_wildcard (f : Forest) (excluded : List StreamId) (state : StreamState) :
    ∃ ids, f.expand .wildcard excluded state = some ids ∧ ∀ d, d ∈ ids ↔
      d ∈ f.ids ∧ ∀ y ∈ f.wayUp d, f.Shows excluded state y := by
  obtain ⟨ids, hids⟩ := Option.isSome_iff_exists.mp
    ((expand_isSome_iff f .wildcard excluded state).mpr (.inl rfl))
  refine ⟨ids, hids, fun d => ?_⟩
  have hnone : ¬ f.Descends (f.Shows excluded state) .wildcard d :=
    fun h => wildcard_notMem_ids f h.top_mem_ids
  have hmem := mem_expand_iff f .wildcard excluded state d
  rw [← descends_from_root_iff]
  simpa [hids, hnone, or_and_right, exists_or] using hmem

/-- A stream is expanded from another exactly if the other stands on its way up and neither they nor
a stream between them is passed over; from all roots, if nothing on its way up is. -/
theorem expanded_iff_way_up (hs : s ∈ f.ids) (hd : d ∈ f.ids) :
    ∃ chain, (Backend.ofForest f).ancestors d = .ok (some chain) ∧
      ∀ excluded state,
        (∃ ids, (Backend.ofForest f).expand s excluded state = .ok (some ids) ∧
          (d ∈ ids ↔ ∃ below above, chain = below ++ s :: above ∧
            ∀ y ∈ below ++ [s], ¬ f.Prunes excluded state y)) ∧
        ∃ ids, (Backend.ofForest f).expand .wildcard excluded state = .ok (some ids) ∧
          (d ∈ ids ↔ ∀ y ∈ chain, ¬ f.Prunes excluded state y) := by
  refine ⟨f.wayUp d, ancestors_ofForest hd, fun excluded state => ⟨?_, ?_⟩⟩
  · obtain ⟨ids, hids, hmem⟩ := exists_expand hs excluded state
    refine ⟨ids, congrArg Except.ok hids, (hmem d).trans ?_⟩
    refine exists_congr fun below => exists_congr fun above => and_congr_right fun hway => ?_
    have hlisted : ∀ y ∈ below ++ [s], y ∈ f.ids := by
      intro y hy
      apply mem_ids_of_mem_wayUp (d := d)
      rw [hway, ← List.singleton_append, ← List.append_assoc]
      exact List.mem_append_left above hy
    exact forall₂_congr fun y hy => shows_iff_not_prunes (hlisted y hy)
  · obtain ⟨ids, hids, hmem⟩ := f.exists_expand_wildcard excluded state
    refine ⟨ids, congrArg Except.ok hids, (hmem d).trans ?_⟩
    rw [and_iff_right hd]
    exact forall₂_congr fun y hy => shows_iff_not_prunes (mem_ids_of_mem_wayUp hy)

/-- A trunk with a trashed leaf. -/
def leafForest : Forest where
  streams := [⟨⟨"trunk"⟩, none, false⟩, ⟨⟨"leaf"⟩, some ⟨"trunk"⟩, true⟩]
  grown := .pair (by decide) rfl (by decide) (by decide) (by simp)

theorem expanded_iff_way_up_leaf : ⟨"trunk"⟩ ∈ leafForest.ids ∧ ⟨"leaf"⟩ ∈ leafForest.ids ∧
    ∃ chain, (Backend.ofForest leafForest).ancestors ⟨"leaf"⟩ = .ok (some chain) ∧
      ∀ excluded state,
        (∃ ids, (Backend.ofForest leafForest).expand ⟨"trunk"⟩ excluded state = .ok (some ids) ∧
          (⟨"leaf"⟩ ∈ ids ↔ ∃ below above, chain = below ++ ⟨"trunk"⟩ :: above ∧
            ∀ y ∈ below ++ [⟨"trunk"⟩], ¬ leafForest.Prunes excluded state y)) ∧
        ∃ ids, (Backend.ofForest leafForest).expand .wildcard excluded state = .ok (some ids) ∧
          (⟨"leaf"⟩ ∈ ids ↔ ∀ y ∈ chain, ¬ leafForest.Prunes excluded state y) :=
  have hs : ⟨"trunk"⟩ ∈ leafForest.ids := by decide
  have hd : ⟨"leaf"⟩ ∈ leafForest.ids := by decide
  ⟨hs, hd, expanded_iff_way_up hs hd⟩

end StreamScope.Forest
