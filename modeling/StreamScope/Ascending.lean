/-!
Lists in ascending order without repetition, under a comparison. A later
element replaces an equal one, so such a list of pairs compared by key is a map.
-/

namespace StreamScope.Ascending

def insert (cmp : α → α → Ordering) (x : α) : List α → List α
  | [] => [x]
  | y :: ys =>
      match cmp x y with
      | .lt => x :: y :: ys
      | .eq => x :: ys
      | .gt => y :: insert cmp x ys

def ofList (cmp : α → α → Ordering) (xs : List α) : List α :=
  xs.foldl (fun sorted x => insert cmp x sorted) []

/-- Pairs by their first component. -/
def byKey [Ord κ] (a b : κ × α) : Ordering := compare a.1 b.1

/-- Pairs by the first component, then by the second. -/
def byPair [Ord α] [Ord β] (a b : α × β) : Ordering :=
  (compare a.1 b.1).then (compare a.2 b.2)

theorem mem_of_mem_insert {cmp : α → α → Ordering} {x y : α} {xs : List α}
    (h : y ∈ insert cmp x xs) : y = x ∨ y ∈ xs := by
  induction xs with
  | nil => simpa [insert] using h
  | cons z zs ih =>
    unfold insert at h
    split at h
    · simpa using h
    · rcases List.mem_cons.1 h with h | h
      · exact .inl h
      · exact .inr (List.mem_cons_of_mem _ h)
    · rcases List.mem_cons.1 h with h | h
      · exact .inr (h ▸ List.mem_cons_self)
      · exact (ih h).imp id (List.mem_cons_of_mem _)

end StreamScope.Ascending
