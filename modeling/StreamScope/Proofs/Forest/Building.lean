import StreamScope.Forest.Building
import StreamScope.Proofs.Outcome

/-!
How a forest grows. A stream is stored behind all others, and so it stands last
among the roots or the children of its parent. A pass over pending streams stores
some of them and hands back the others, and loses none. A forest that is built
from streams therefore holds exactly these, each after its parent.
-/

namespace StreamScope.Forest

open Outcome
open scoped List

variable {f g : Forest} {s : Stream} {pending deferred streams : List Stream}

theorem streams_of_insert (h : f.insert s = .ok g) : g.streams = f.streams ++ [s] := by
  unfold insert at h
  split at h
  · cases h
  · split at h
    · cases h
    · split at h
      · cases h
      · cases h
        rfl

theorem roots_append (h : g.streams = f.streams ++ [s]) :
    g.roots = f.roots ++ if s.parent = none then [s.id] else [] := by
  unfold roots
  rw [h, List.filter_append, List.map_append]
  cases hp : s.parent <;> simp [hp]

theorem children_append (h : g.streams = f.streams ++ [s]) (p : StreamId) :
    g.children p = f.children p ++ if s.parent = some p then [s.id] else [] := by
  unfold children
  rw [h, List.filter_append, List.map_append]
  by_cases hp : s.parent = some p <;> simp [hp]

theorem perm_of_insertReady (h : f.insertReady pending = .ok (g, deferred)) :
    (g.streams ++ deferred).Perm (f.streams ++ pending) := by
  induction pending generalizing f deferred with
  | nil =>
    cases h
    exact .refl _
  | cons s rest ih =>
    unfold insertReady at h
    split at h
    case h_1 =>
      obtain ⟨between, hinsert, hrest⟩ := bind_eq_ok_iff.mp h
      have hperm := ih hrest
      rwa [streams_of_insert hinsert, List.append_assoc, List.singleton_append] at hperm
    case h_2 =>
      obtain ⟨⟨between, later⟩, hrest, heq⟩ := bind_eq_ok_iff.mp h
      cases heq
      calc g.streams ++ s :: later
        _ ~ s :: (g.streams ++ later) := List.perm_middle
        _ ~ s :: (f.streams ++ rest) := (ih hrest).cons s
        _ ~ f.streams ++ s :: rest := List.perm_middle.symm

theorem perm_of_insertAll (h : f.insertAll pending = .ok g) :
    g.streams.Perm (f.streams ++ pending) := by
  fun_induction insertAll f pending with
  | case1 => cases h
  | case2 f pending g' hready =>
    cases h
    simpa using perm_of_insertReady hready
  | case3 f pending f' first rest hready hless ih => exact (ih h).trans (perm_of_insertReady hready)
  | case4 => cases h

theorem perm_of_ofStreams (h : ofStreams streams = .ok g) : g.streams.Perm streams :=
  perm_of_insertAll h

end StreamScope.Forest
