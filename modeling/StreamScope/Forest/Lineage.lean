import StreamScope.Stream

/-!
The chain of parents of a stream in a list of streams, the stream first. The
list is not trusted: parents may be missing, and links may lead back to a stream
already passed. Every step passes a listed stream not passed before, so the
climb ends.
-/

namespace StreamScope.Lineage

/-- The first listed stream with the id. -/
def find? (streams : List Stream) (id : StreamId) : Option Stream :=
  streams.find? fun s => s.id = id

/-- How many listed streams have an id that was not passed. -/
def remaining (streams : List Stream) (passed : List StreamId) : Nat :=
  streams.countP fun s => s.id ∉ passed

theorem mem_of_find? {streams : List Stream} {id : StreamId} {s : Stream}
    (h : find? streams id = some s) : s ∈ streams ∧ s.id = id := by
  refine ⟨List.mem_of_find?_eq_some h, ?_⟩
  simpa using List.find?_some h

theorem remaining_lt {streams : List Stream} {passed more : List StreamId} {s : Stream}
    (hs : s ∈ streams) (hp : s.id ∉ passed) (hm : s.id ∈ more) (hsub : passed ⊆ more) :
    remaining streams more < remaining streams passed := by
  have hle (rest : List Stream) : remaining rest more ≤ remaining rest passed :=
    List.countP_mono_left fun t _ ht => by
      simp only [decide_eq_true_eq] at ht ⊢
      exact fun h => ht (hsub h)
  obtain ⟨before, after, rfl⟩ := List.append_of_mem hs
  have hb := hle before
  have ha := hle after
  simp only [remaining] at hb ha
  simp only [remaining, List.countP_append, List.countP_cons, hp, hm, not_true_eq_false,
    not_false_eq_true, decide_true, decide_false, if_true]
  simp only [Bool.false_eq_true, if_false]
  omega

/-- Climbs from a stream, the last of the chain so far, to one without a listed parent. Fails with
the id of the stream to which a link leads back. -/
def climb (streams : List Stream) (chain : List StreamId) (current : Stream) :
    Except StreamId (List StreamId) :=
  match current.parent with
  | none => .ok chain
  | some parent =>
      if _hp : parent ∈ chain then .error parent
      else
        match _hf : find? streams parent with
        | none => .ok chain
        | some next => climb streams (chain ++ [parent]) next
termination_by remaining streams chain
decreasing_by
  obtain ⟨hmem, hid⟩ := mem_of_find? _hf
  exact remaining_lt hmem (by rwa [hid]) (by simp [hid]) (List.subset_append_left _ _)

/-- The stream and its parents, or nothing if it is not listed. -/
def ancestors (streams : List Stream) (id : StreamId) :
    Except StreamId (Option (List StreamId)) :=
  match find? streams id with
  | none => .ok none
  | some s => (climb streams [id] s).map some

end StreamScope.Lineage
