import StreamScope.Proofs.Forest.Chain

/-!
Chains in a forest. Parents enter a forest before their children, so every
stream has a chain up to a root, and the way down to a stream is its chain read
backwards: a stream descends from the streams of its chain, and from no others.
-/

namespace StreamScope.Forest

open Lineage

variable {f : Forest} {isOpen : StreamId → Prop} {top d : StreamId}

theorem Grown.exists_chain {streams all : List Stream} (h : Grown streams)
    (hfind : ∀ s ∈ streams, Lineage.find? all s.id = some s) :
    ∀ s ∈ streams, ∃ chain, Chain all s.id chain := by
  induction h with
  | empty => simp
  | @insert streams new _ _ _ rooted ih =>
    have hold := ih fun s hs => hfind s (List.mem_append_left _ hs)
    intro s hs
    rcases List.mem_append.mp hs with hs | hs
    · exact hold s hs
    · obtain rfl := List.mem_singleton.mp hs
      have hnew := hfind s (List.mem_append_right _ List.mem_cons_self)
      cases hp : s.parent with
      | none => exact ⟨_, .last hnew (by simp [hp])⟩
      | some p =>
        obtain ⟨t, ht, rfl⟩ := List.mem_map.mp (rooted p hp)
        obtain ⟨above, habove⟩ := hold t ht
        exact ⟨_, .link hnew hp habove⟩

theorem exists_chain (h : d ∈ f.ids) : ∃ chain, Chain f.streams d chain := by
  obtain ⟨s, hs, rfl⟩ := (mem_ids_iff f d).mp h
  exact f.grown.exists_chain (fun t ht => find?_id ht) s hs

theorem chain_of_mem_roots (h : top ∈ f.roots) : Chain f.streams top [top] := by
  obtain ⟨s, hs, hroot, rfl⟩ := (mem_roots_iff f top).mp h
  exact .last (find?_id hs) (by simp [hroot])

theorem mem_ids_of_chain {chain : List StreamId} (h : Chain f.streams d chain) : d ∈ f.ids := by
  obtain ⟨s, found⟩ := h.found
  obtain ⟨hs, rfl⟩ := mem_of_find? found
  exact id_mem_ids hs

theorem Descends.exists_chain (h : f.Descends isOpen top d) :
    ∃ between above, Chain f.streams d (between ++ top :: above) ∧
      ∀ x ∈ between ++ [top], isOpen x := by
  induction h with
  | top listed opened =>
    obtain ⟨chain, hchain⟩ := Forest.exists_chain listed
    obtain ⟨above, rfl⟩ := hchain.eq_cons
    exact ⟨[], above, hchain, by simpa using opened⟩
  | @child s parent _ listed link opened ih =>
    obtain ⟨between, above, hchain, hopen⟩ := ih
    refine ⟨s.id :: between, above, .link (find?_id listed) link hchain, ?_⟩
    intro x hx
    rcases List.mem_cons.mp hx with rfl | hx
    · exact opened
    · exact hopen x hx

theorem descends_of_chain {between above : List StreamId}
    (h : Chain f.streams d (between ++ top :: above)) (hopen : ∀ x ∈ between ++ [top], isOpen x) :
    f.Descends isOpen top d := by
  induction between generalizing d with
  | nil =>
    obtain ⟨_, heq⟩ := h.eq_cons
    obtain rfl := (List.cons.inj heq).1
    exact .top (mem_ids_of_chain h) (hopen top (by simp))
  | cons x between ih =>
    generalize heq : (x :: between) ++ top :: above = chain at h
    cases h with
    | last _ _ => simp at heq
    | @link _ parent s _ found linked rest =>
      obtain ⟨rfl, rfl⟩ := List.cons.inj heq
      obtain ⟨hs, rfl⟩ := mem_of_find? found
      have habove := ih rest fun y hy => hopen y (List.mem_cons_of_mem _ hy)
      exact .child habove hs linked (hopen s.id List.mem_cons_self)

/-- A stream descends from the ids of its chain, as far as the chain is open. -/
theorem descends_iff (f : Forest) (isOpen : StreamId → Prop) (top d : StreamId) :
    f.Descends isOpen top d ↔ ∃ between above, Chain f.streams d (between ++ top :: above) ∧
      ∀ x ∈ between ++ [top], isOpen x := by
  constructor
  · exact Descends.exists_chain
  · intro hway
    obtain ⟨between, above, hchain, hopen⟩ := hway
    exact descends_of_chain hchain hopen

end StreamScope.Forest
