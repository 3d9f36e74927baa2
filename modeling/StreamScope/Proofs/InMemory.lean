import StreamScope.Proofs.Forest.Ancestry
import StreamScope.Proofs.Outcome
import StreamScope.Registry
import StreamScope.Query.Conventions

/-!
Registries whose stores are all forests. Every look-up in such a registry is
answered, and what the stores answer is said in terms of their forests; a store
that is not registered answers like one without streams.
-/

namespace StreamScope.Registry

open Outcome Lineage

variable {r : Registry} {store : StoreId} {f : Forest}

def InMemory (r : Registry) : Prop :=
  ∀ entry ∈ r.stores, ∃ f : Forest, entry.2 = .ofForest f

/-- The store is registered, with this forest. -/
def Holds (r : Registry) (store : StoreId) (f : Forest) : Prop :=
  r.backend? store = some (.ofForest f)

/-- No stream of any store has an id that begins with the marker. -/
def Unmarked (r : Registry) (k : Conventions) : Prop :=
  ∀ store id s, r.find store id = .ok (some s) → k.isNoExpand id = false

/-- A stream of the store that is `top` or lies below it. -/
def InSubtree (r : Registry) (store : StoreId) (top d : StreamId) : Prop :=
  ∃ chain, r.ancestors store d = .ok (some chain) ∧ top ∈ chain

theorem InMemory.holds (h : r.InMemory) (store : StoreId) :
    (∃ f, r.Holds store f) ∨ r.backend? store = none := by
  cases hb : r.backend? store with
  | none => exact .inr rfl
  | some backend =>
    obtain ⟨entry, hentry, rfl⟩ := Option.map_eq_some_iff.mp hb
    obtain ⟨f, hf⟩ := h entry (List.mem_of_find?_eq_some hentry)
    exact .inl ⟨f, by rw [Holds, hb, hf]⟩

namespace Holds

theorem find_eq (h : r.Holds store f) (id : StreamId) : r.find store id = .ok (f.find? id) := by
  unfold Holds at h
  simp [find, h, Backend.ofForest]

theorem expand_eq (h : r.Holds store f) (id : StreamId) (excluded : List StreamId)
    (state : StreamState) : r.expand store id excluded state = .ok (f.expand id excluded state) := by
  unfold Holds at h
  simp [expand, h, Backend.ofForest]

theorem ancestors_eq (h : r.Holds store f) (id : StreamId) :
    r.ancestors store id = (Lineage.ancestors f.streams id).mapError .cycle := by
  unfold Holds at h
  simp [ancestors, h, Backend.ofForest, Backend.ancestorsIn]

theorem exists_find_iff (h : r.Holds store f) (id : StreamId) :
    (∃ s, r.find store id = .ok (some s)) ↔ id ∈ f.ids := by
  simp [h.find_eq, Forest.find?_eq_some_iff, Forest.mem_ids_iff]

theorem ancestors_eq_ok_some_iff (h : r.Holds store f) (id : StreamId) (chain : List StreamId) :
    r.ancestors store id = .ok (some chain) ↔ Chain f.streams id chain := by
  rw [h.ancestors_eq, mapError_eq_ok_iff, Lineage.ancestors_eq_ok_some_iff]

theorem inSubtree_iff (h : r.Holds store f) (top d : StreamId) :
    r.InSubtree store top d ↔ f.Descends (fun _ => True) top d := by
  rw [Forest.descends_iff]
  constructor
  · intro hbelow
    obtain ⟨chain, hchain, htop⟩ := hbelow
    obtain ⟨between, above, rfl, -⟩ := ((h.ancestors_eq_ok_some_iff d chain).mp hchain).suffix htop
    exact ⟨between, above, (h.ancestors_eq_ok_some_iff d _).mp hchain, fun _ _ => trivial⟩
  · intro hway
    obtain ⟨between, above, hchain, -⟩ := hway
    exact ⟨_, (h.ancestors_eq_ok_some_iff d _).mpr hchain, by simp⟩

theorem unmarked (h : r.Holds store f) {k : Conventions} (hk : r.Unmarked k) {id : StreamId}
    (hid : id ∈ f.ids) : k.isNoExpand id = false := by
  obtain ⟨s, hs⟩ := (h.exists_find_iff id).mpr hid
  exact hk store id s hs

end Holds

theorem find_of_unregistered (h : r.backend? store = none) (id : StreamId) :
    r.find store id = .ok none := by
  simp [find, h]

theorem expand_of_unregistered (h : r.backend? store = none) (id : StreamId)
    (excluded : List StreamId) (state : StreamState) :
    r.expand store id excluded state = .ok none := by
  simp [expand, h]

theorem ancestors_of_unregistered (h : r.backend? store = none) (id : StreamId) :
    r.ancestors store id = .ok none := by
  simp [ancestors, h]

theorem contains_iff (r : Registry) (store : StoreId) :
    r.contains store = true ↔ (r.backend? store).isSome = true := by
  rw [contains, decide_eq_true_iff]
  simp [names, backend?]

/-- Every look-up of a stream is answered. -/
theorem InMemory.exists_find_eq_ok (h : r.InMemory) (store : StoreId) (id : StreamId) :
    ∃ found, r.find store id = .ok found := by
  rcases h.holds store with ⟨f, hf⟩ | hnone
  · exact ⟨_, hf.find_eq id⟩
  · exact ⟨_, find_of_unregistered hnone id⟩

/-- So is every climb from a stream to its parents: no forest has a cycle. -/
theorem InMemory.exists_ancestors_eq_ok (h : r.InMemory) (store : StoreId) (id : StreamId) :
    ∃ found, r.ancestors store id = .ok found := by
  rcases h.holds store with ⟨f, hf⟩ | hnone
  · cases hfind : Lineage.find? f.streams id with
    | none => exact ⟨none, by rw [hf.ancestors_eq, Lineage.ancestors, hfind]; rfl⟩
    | some s =>
      obtain ⟨hs, rfl⟩ := mem_of_find? hfind
      obtain ⟨chain, hchain⟩ := Forest.exists_chain (Forest.id_mem_ids hs)
      exact ⟨some chain, (hf.ancestors_eq_ok_some_iff s.id chain).mpr hchain⟩
  · exact ⟨_, ancestors_of_unregistered hnone id⟩

/-- A stream that is found lies in the forest of a registered store. -/
theorem InMemory.exists_forest (h : r.InMemory) {id : StreamId}
    (hfind : ∃ s, r.find store id = .ok (some s)) : ∃ f, r.Holds store f ∧ id ∈ f.ids := by
  rcases h.holds store with ⟨f, hf⟩ | hnone
  · exact ⟨f, hf, (hf.exists_find_iff id).mp hfind⟩
  · obtain ⟨s, hs⟩ := hfind
    rw [find_of_unregistered hnone] at hs
    cases hs

/-- So does a stream that lies below another. -/
theorem InMemory.exists_forest_of_inSubtree (h : r.InMemory) {top d : StreamId}
    (hbelow : r.InSubtree store top d) : ∃ f, r.Holds store f ∧ d ∈ f.ids := by
  obtain ⟨chain, hchain, -⟩ := hbelow
  rcases h.holds store with ⟨f, hf⟩ | hnone
  · exact ⟨f, hf, Forest.mem_ids_of_chain ((hf.ancestors_eq_ok_some_iff d chain).mp hchain)⟩
  · rw [ancestors_of_unregistered hnone] at hchain
    cases hchain

/-- The registry of one store. -/
def single (store : StoreId) (f : Forest) : Registry :=
  ⟨[(store, .ofForest f)], List.nodup_singleton store⟩

theorem inMemory_single (store : StoreId) (f : Forest) : (single store f).InMemory := by
  intro entry hentry
  obtain rfl := List.mem_singleton.mp hentry
  exact ⟨f, rfl⟩

theorem holds_single (store : StoreId) (f : Forest) : (single store f).Holds store f := by
  simp [Holds, backend?, single]

theorem unmarked_single {k : Conventions} (store : StoreId)
    (h : ∀ id ∈ f.ids, k.isNoExpand id = false) : (single store f).Unmarked k := by
  intro store' id s hs
  by_cases hstore : store = store'
  · subst hstore
    exact h id (((holds_single store f).exists_find_iff id).mp ⟨s, hs⟩)
  · have hnone : (single store f).backend? store' = none := by simp [backend?, single, hstore]
    rw [find_of_unregistered hnone] at hs
    cases hs

end StreamScope.Registry
