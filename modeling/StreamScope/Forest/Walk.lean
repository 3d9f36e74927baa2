import StreamScope.Forest.Basic

/-!
The streams below a seed, in the order of a walk that visits a stream before its
children and the children in insertion order. An excluded stream and, unless
trashed streams are in scope, a trashed one is passed over with all below it.
-/

namespace StreamScope.Forest

/-- The stream with the id, unless it is excluded or hidden in the state. -/
def visible? (f : Forest) (excluded : List StreamId) (state : StreamState) (id : StreamId) :
    Option Stream :=
  if id ∈ excluded then none
  else (f.find? id).filter fun s => !s.trashed || state.includesTrashed

theorem mem_of_visible? {f : Forest} {excluded : List StreamId} {state : StreamState}
    {id : StreamId} {s : Stream} (h : f.visible? excluded state id = some s) :
    s ∈ f.streams ∧ s.id = id := by
  unfold visible? at h
  split at h
  · simp at h
  · exact Lineage.mem_of_find? (Option.filter_eq_some_iff.1 h).1

/-- Walks the forest from a stack of ids. A stream is listed once, when it is first met. -/
def walk (f : Forest) (excluded : List StreamId) (state : StreamState) (seen : List StreamId) :
    List StreamId → List StreamId
  | [] => []
  | id :: stack =>
      if _hs : id ∈ seen then walk f excluded state seen stack
      else
        match _hv : f.visible? excluded state id with
        | none => walk f excluded state seen stack
        | some _ => id :: walk f excluded state (id :: seen) (f.children id ++ stack)
termination_by stack => (Lineage.remaining f.streams seen, stack.length)
decreasing_by
  · exact Prod.Lex.right _ (by simp)
  · exact Prod.Lex.right _ (by simp)
  · obtain ⟨hmem, hid⟩ := mem_of_visible? _hv
    exact Prod.Lex.left _ _
      (Lineage.remaining_lt hmem (by rwa [hid]) (by simp [hid]) (List.subset_cons_self _ _))

/-- A stream and those below it, or nothing if it is unknown. The wildcard stands for all roots. -/
def expand (f : Forest) (id : StreamId) (excluded : List StreamId) (state : StreamState) :
    Option (List StreamId) :=
  if id = .wildcard then some (f.walk excluded state [] f.roots)
  else if f.contains id then some (f.walk excluded state [] [id])
  else none

end StreamScope.Forest
