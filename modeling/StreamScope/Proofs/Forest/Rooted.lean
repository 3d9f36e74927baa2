import Mathlib.Logic.Relation
import StreamScope.Proofs.Forest.Ancestry

/-!
Where parent links lead in a list of streams that need not be a forest. Followed
from a listed stream they lead to a root, into a cycle, or to a stream whose
parent is not listed. Where every stream has an id of its own, none that leads to
a root lies on a cycle, and all streams of a forest lead to a root.
-/

namespace StreamScope.Lineage

open Relation

variable {streams more : List Stream} {id x parent : StreamId} {chain : List StreamId}

/-- A listed stream with the one id has the other as its parent. -/
def Linked (streams : List Stream) (id parent : StreamId) : Prop :=
  ∃ s ∈ streams, s.id = id ∧ s.parent = some parent

/-- Parent links lead from the id back to it. -/
def OnCycle (streams : List Stream) (id : StreamId) : Prop := TransGen (Linked streams) id id

/-- A listed stream with the id has a parent that is not listed. -/
def Dangles (streams : List Stream) (id : StreamId) : Prop :=
  ∃ parent, Linked streams id parent ∧ parent ∉ streams.map Stream.id

/-- Parent links lead from the id to a listed root. -/
inductive Rooted (streams : List Stream) : StreamId → Prop
  | root {s : Stream} (listed : s ∈ streams) (unlinked : s.parent = none) : Rooted streams s.id
  | child {s : Stream} {parent : StreamId} (listed : s ∈ streams) (linked : s.parent = some parent)
      (above : Rooted streams parent) : Rooted streams s.id

theorem Linked.mem_ids (h : Linked streams id parent) : id ∈ streams.map Stream.id := by
  obtain ⟨s, hs, rfl, -⟩ := h
  exact List.mem_map_of_mem hs

theorem Linked.mono (h : Linked streams id parent) (hsub : streams ⊆ more) :
    Linked more id parent := by
  obtain ⟨s, hs, hid, hp⟩ := h
  exact ⟨s, hsub hs, hid, hp⟩

theorem OnCycle.mono (h : OnCycle streams id) (hsub : streams ⊆ more) : OnCycle more id :=
  TransGen.mono (fun _ _ hlink => Linked.mono hlink hsub) _ _ h

/-- The parent of a stream on a cycle is on the cycle too. -/
theorem OnCycle.exists_next (h : OnCycle streams id) :
    ∃ parent, Linked streams id parent ∧ OnCycle streams parent := by
  obtain ⟨parent, hlink, hback⟩ := TransGen.head'_iff.mp h
  exact ⟨parent, hlink, TransGen.tail' hback hlink⟩

theorem OnCycle.mem_ids (h : OnCycle streams id) : id ∈ streams.map Stream.id := by
  obtain ⟨_, hlink, -⟩ := h.exists_next
  exact hlink.mem_ids

theorem Rooted.mem_ids (h : Rooted streams id) : id ∈ streams.map Stream.id := by
  cases h with
  | root listed _ => exact List.mem_map_of_mem listed
  | child listed _ _ => exact List.mem_map_of_mem listed

theorem Rooted.mono (h : Rooted streams id) (hsub : streams ⊆ more) : Rooted more id := by
  induction h with
  | root listed unlinked => exact .root (hsub listed) unlinked
  | child listed linked _ ih => exact .child (hsub listed) linked ih

theorem Linked.rooted (h : Linked streams id parent) (hp : Rooted streams parent) :
    Rooted streams id := by
  obtain ⟨s, hs, rfl, hlink⟩ := h
  exact .child hs hlink hp

/-! ## The climb -/

/-- The climb fails at a stream of a cycle, and parent links lead there. -/
theorem onCycle_of_climb {s : Stream} {passed : List StreamId} (hs : s ∈ streams)
    (hpassed : ∀ y ∈ passed, ReflTransGen (Linked streams) y s.id)
    (h : climb streams passed s = .error x) :
    OnCycle streams x ∧ ReflTransGen (Linked streams) s.id x := by
  fun_induction climb streams passed s with
  | case1 => cases h
  | case2 passed s parent hp hin =>
    obtain rfl := Except.error.inj h
    have hlink : Linked streams s.id parent := ⟨s, hs, rfl, hp⟩
    exact ⟨TransGen.tail' (hpassed parent hin) hlink, .single hlink⟩
  | case3 => cases h
  | case4 passed s parent hp hnot next hf ih =>
    obtain ⟨hnext, rfl⟩ := mem_of_find? hf
    have hlink : Linked streams s.id next.id := ⟨s, hs, rfl, hp⟩
    have hpassed' : ∀ y ∈ passed ++ [next.id], ReflTransGen (Linked streams) y next.id := by
      intro y hy
      rcases List.mem_append.mp hy with hy | hy
      · exact (hpassed y hy).tail hlink
      · rw [List.mem_singleton.mp hy]
    obtain ⟨hcycle, hway⟩ := ih hnext hpassed' h
    exact ⟨hcycle, .head hlink hway⟩

theorem onCycle_of_ancestors (h : ancestors streams id = .error x) :
    OnCycle streams x ∧ ReflTransGen (Linked streams) id x := by
  unfold ancestors at h
  split at h
  case h_1 => cases h
  case h_2 s hf =>
    obtain ⟨hs, rfl⟩ := mem_of_find? hf
    cases hc : climb streams [s.id] s with
    | ok ids => simp [hc, Except.map] at h
    | error y =>
      obtain rfl : y = x := by simpa [hc, Except.map] using h
      refine onCycle_of_climb hs (fun z hz => ?_) hc
      rw [List.mem_singleton.mp hz]

/-- A chain ends at a root or at a stream whose parent is not listed. -/
theorem Chain.rooted_or_dangles (h : Chain streams id chain) :
    Rooted streams id ∨ ∃ x, ReflTransGen (Linked streams) id x ∧ Dangles streams x := by
  induction h with
  | @last id s found unlinked =>
    obtain ⟨hs, rfl⟩ := mem_of_find? found
    cases hp : s.parent with
    | none => exact .inl (.root hs hp)
    | some parent =>
      have hout : parent ∉ streams.map Stream.id := by
        intro hin
        obtain ⟨t, ht⟩ := exists_find?_of_mem_ids hin
        rw [unlinked parent hp] at ht
        cases ht
      exact .inr ⟨s.id, .refl, parent, ⟨s, hs, rfl, hp⟩, hout⟩
  | @link id parent s above found linked rest ih =>
    obtain ⟨hs, rfl⟩ := mem_of_find? found
    rcases ih with hrooted | ⟨x, hway, hx⟩
    · exact .inl (.child hs linked hrooted)
    · exact .inr ⟨x, .head ⟨s, hs, rfl, linked⟩ hway, hx⟩

/-- What keeps a listed stream from its root is a cycle or a missing parent. -/
theorem rooted_or_obstructed (h : id ∈ streams.map Stream.id) :
    Rooted streams id ∨
      ∃ x, ReflTransGen (Linked streams) id x ∧ (OnCycle streams x ∨ Dangles streams x) := by
  cases hanswer : ancestors streams id with
  | error x =>
    obtain ⟨hcycle, hway⟩ := onCycle_of_ancestors hanswer
    exact .inr ⟨x, hway, .inl hcycle⟩
  | ok found =>
    cases found with
    | none =>
      obtain ⟨s, hs⟩ := exists_find?_of_mem_ids h
      cases hc : climb streams [id] s <;> simp [ancestors, hs, hc, Except.map] at hanswer
    | some chain =>
      have hchain := (ancestors_eq_ok_some_iff streams id chain).mp hanswer
      refine hchain.rooted_or_dangles.imp_right fun hdangles => ?_
      obtain ⟨x, hway, hx⟩ := hdangles
      exact ⟨x, hway, .inr hx⟩

/-! ## Lists in which every stream has an id of its own -/

section

variable (hdistinct : (streams.map Stream.id).Nodup)
include hdistinct

/-- A stream has one parent. -/
theorem Linked.eq_parent {s : Stream} (h : Linked streams s.id parent) (hs : s ∈ streams) :
    s.parent = some parent := by
  obtain ⟨t, ht, hid, hp⟩ := h
  rwa [List.inj_on_of_nodup_map hdistinct ht hs hid] at hp

/-- No chain starts on a cycle. -/
theorem Chain.not_onCycle (h : Chain streams id chain) : ¬ OnCycle streams id := by
  induction h with
  | @last id s found unlinked =>
    intro hcycle
    obtain ⟨hs, rfl⟩ := mem_of_find? found
    obtain ⟨parent, hlink, hnext⟩ := hcycle.exists_next
    obtain ⟨t, ht⟩ := exists_find?_of_mem_ids hnext.mem_ids
    rw [unlinked parent (hlink.eq_parent hdistinct hs)] at ht
    cases ht
  | @link id parent s above found linked rest ih =>
    intro hcycle
    obtain ⟨hs, rfl⟩ := mem_of_find? found
    obtain ⟨next, hlink, hnext⟩ := hcycle.exists_next
    obtain rfl := Option.some.inj (linked.symm.trans (hlink.eq_parent hdistinct hs))
    exact ih hnext

theorem Rooted.exists_chain (h : Rooted streams id) : ∃ chain, Chain streams id chain := by
  induction h with
  | root listed unlinked => exact ⟨_, .last (find?_of_mem hdistinct listed) (by simp [unlinked])⟩
  | child listed linked _ ih =>
    obtain ⟨above, habove⟩ := ih
    exact ⟨_, .link (find?_of_mem hdistinct listed) linked habove⟩

theorem Rooted.not_onCycle (h : Rooted streams id) : ¬ OnCycle streams id := by
  obtain ⟨chain, hchain⟩ := h.exists_chain hdistinct
  exact hchain.not_onCycle hdistinct

end

end StreamScope.Lineage

namespace StreamScope.Forest

open Lineage

theorem Grown.rooted {streams : List Stream} (h : Grown streams) :
    ∀ s ∈ streams, Rooted streams s.id := by
  induction h with
  | empty => simp
  | @insert streams new _ _ _ rooted ih =>
    have hold : ∀ s ∈ streams, Rooted (streams ++ [new]) s.id :=
      fun s hs => (ih s hs).mono (List.subset_append_left _ _)
    intro s hs
    rcases List.mem_append.mp hs with hmem | hmem
    · exact hold s hmem
    · obtain rfl := List.mem_singleton.mp hmem
      cases hp : s.parent with
      | none => exact .root hs hp
      | some p =>
        obtain ⟨t, ht, rfl⟩ := List.mem_map.mp (rooted p hp)
        exact .child hs hp (hold t ht)

end StreamScope.Forest
