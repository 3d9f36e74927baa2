import Mathlib.Data.Nat.Basic
import Mathlib.Order.Basic
import StreamScope.Proofs.Forest.Coherence
import StreamScope.Proofs.Forest.Rooted

/-!
Which streams make a forest, in whatever order they come. A pass stores every
stream whose parent is already there, so the passes end, and they end either
with all streams stored or at streams none of which has its parent stored. What
is left then is what has no root above it: it lies on or below a cycle, or on or
below a stream whose parent is not listed.
-/

namespace StreamScope.Lineage

variable {streams more : List Stream}

/-- Every stream has an id of its own, and none has the wildcard's. -/
structure Named (streams : List Stream) : Prop where
  distinct : (streams.map Stream.id).Nodup
  proper : .wildcard ∉ streams.map Stream.id

/-- The streams of a forest, in any order. -/
structure WellFormed (streams : List Stream) : Prop extends Named streams where
  parents_listed : ∀ s ∈ streams, ∀ p, s.parent = some p → p ∈ streams.map Stream.id
  acyclic : ∀ id, ¬ OnCycle streams id

theorem Named.perm (h : Named streams) (hperm : more.Perm streams) : Named more where
  distinct := (hperm.map Stream.id).nodup_iff.mpr h.distinct
  proper := (hperm.map Stream.id).mem_iff.not.mpr h.proper

theorem Named.sublist (h : Named streams) (hsub : more.Sublist streams) : Named more where
  distinct := h.distinct.sublist (hsub.map Stream.id)
  proper hin := h.proper ((hsub.map Stream.id).subset hin)

theorem WellFormed.perm (h : WellFormed streams) (hperm : more.Perm streams) :
    WellFormed more where
  toNamed := h.toNamed.perm hperm
  parents_listed s hs p hp :=
    (hperm.map Stream.id).mem_iff.mpr (h.parents_listed s (hperm.mem_iff.mp hs) p hp)
  acyclic id hcycle := h.acyclic id (hcycle.mono hperm.subset)

/-- Every stream of a well-formed list has a root above it. -/
theorem WellFormed.rooted (h : WellFormed streams) {id : StreamId}
    (hid : id ∈ streams.map Stream.id) : Rooted streams id := by
  rcases rooted_or_obstructed hid with hrooted | ⟨x, -, hcycle | hdangles⟩
  · exact hrooted
  · exact absurd hcycle (h.acyclic x)
  · obtain ⟨parent, ⟨s, hs, -, hp⟩, hout⟩ := hdangles
    exact absurd (h.parents_listed s hs parent hp) hout

end StreamScope.Lineage

namespace StreamScope.Forest

open Lineage Outcome
open scoped List

variable {f g : Forest} {s : Stream} {pending deferred streams : List Stream}

theorem Grown.wellFormed (h : Grown streams) : WellFormed streams where
  distinct := h.nodup
  proper hin := by
    obtain ⟨s, hs, hid⟩ := List.mem_map.mp hin
    exact h.ne_wildcard s hs hid
  parents_listed := h.parent_listed
  acyclic id hcycle := by
    obtain ⟨s, hs, rfl⟩ := List.mem_map.mp hcycle.mem_ids
    exact (h.rooted s hs).not_onCycle h.nodup hcycle

/-! ## One pass -/

theorem missingParent?_eq_some_iff {p : StreamId} :
    f.missingParent? s = some p ↔ s.parent = some p ∧ p ∉ f.ids := by
  simp [missingParent?, contains]

theorem exists_insert_eq_ok (hw : s.id ≠ .wildcard) (hd : s.id ∉ f.ids)
    (hp : f.missingParent? s = none) : ∃ g, f.insert s = .ok g := by
  unfold insert
  rw [dif_neg hw, dif_neg hd]
  split
  case h_1 p hmissing => simp [hp] at hmissing
  case h_2 => exact ⟨_, rfl⟩

theorem sublist_of_insertReady (h : f.insertReady pending = .ok (g, deferred)) :
    deferred.Sublist pending := by
  induction pending generalizing f deferred with
  | nil =>
    cases h
    exact .slnil
  | cons s rest ih =>
    unfold insertReady at h
    split at h
    case h_1 =>
      obtain ⟨between, -, hrest⟩ := bind_eq_ok_iff.mp h
      exact (ih hrest).cons s
    case h_2 =>
      obtain ⟨⟨between, later⟩, hrest, heq⟩ := bind_eq_ok_iff.mp h
      cases heq
      exact (ih hrest).cons_cons s

/-- Where every stream has an id of its own nothing is refused in a pass. -/
theorem exists_insertReady_eq_ok (h : Named (f.streams ++ pending)) :
    ∃ g deferred, f.insertReady pending = .ok (g, deferred) := by
  induction pending generalizing f with
  | nil => exact ⟨f, [], rfl⟩
  | cons s rest ih =>
    unfold insertReady
    split
    case h_1 hp =>
      have hfirst := h.perm List.perm_middle.symm
      have hw : s.id ≠ .wildcard := fun heq => hfirst.proper (by simp [heq])
      have hd : s.id ∉ f.ids := by
        have hnew := (List.nodup_cons.mp hfirst.distinct).1
        exact fun hin => hnew (by simpa using .inl ((mem_ids_iff f s.id).mp hin))
      obtain ⟨between, hinsert⟩ := exists_insert_eq_ok hw hd hp
      have hnext : Named (between.streams ++ rest) := by
        rwa [streams_of_insert hinsert, List.append_assoc, List.singleton_append]
      obtain ⟨g, deferred, hrest⟩ := ih hnext
      exact ⟨g, deferred, bind_eq_ok_iff.mpr ⟨between, hinsert, hrest⟩⟩
    case h_2 =>
      have hless : (f.streams ++ rest).Sublist (f.streams ++ s :: rest) :=
        List.Sublist.append_left (List.sublist_cons_self s rest) f.streams
      obtain ⟨g, deferred, hrest⟩ := ih (h.sublist hless)
      exact ⟨g, s :: deferred, bind_eq_ok_iff.mpr ⟨_, hrest, rfl⟩⟩

/-- A pass that stores nothing has met no stream whose parent is there. -/
theorem stuck_of_insertReady (h : f.insertReady pending = .ok (g, deferred))
    (hlength : ¬ deferred.length < pending.length) :
    g = f ∧ deferred = pending ∧ ∀ s ∈ pending, ∃ p, s.parent = some p ∧ p ∉ f.ids := by
  induction pending generalizing deferred with
  | nil =>
    cases h
    simp
  | cons s rest ih =>
    unfold insertReady at h
    split at h
    case h_1 =>
      obtain ⟨between, -, hrest⟩ := bind_eq_ok_iff.mp h
      have hle := (sublist_of_insertReady hrest).length_le
      simp only [List.length_cons] at hlength
      omega
    case h_2 p hp =>
      obtain ⟨⟨between, later⟩, hrest, heq⟩ := bind_eq_ok_iff.mp h
      cases heq
      obtain ⟨rfl, rfl, hmissing⟩ := ih hrest (by simpa using hlength)
      exact ⟨rfl, rfl, List.forall_mem_cons.mpr ⟨⟨p, missingParent?_eq_some_iff.mp hp⟩, hmissing⟩⟩

/-! ## All passes -/

/-- What is left of the streams when no pass can store any more. -/
structure Stuck (streams : List Stream) (f : Forest) (left : List Stream) : Prop where
  perm : (f.streams ++ left).Perm streams
  sublist : left.Sublist streams
  missing : ∀ s ∈ left, ∃ p, s.parent = some p ∧ p ∉ f.ids

/-- Streams with ids of their own are refused only where they are stuck. -/
theorem exists_stuck_of_insertAll {fault : Fault} (hnamed : Named (f.streams ++ pending))
    (h : f.insertAll pending = .error fault) :
    ∃ (g : Forest) (first : Stream) (rest : List Stream), fault = diagnose first rest ∧
      (first :: rest).Sublist pending ∧ (g.streams ++ first :: rest).Perm (f.streams ++ pending) ∧
      ∀ s ∈ first :: rest, ∃ p, s.parent = some p ∧ p ∉ g.ids := by
  fun_induction insertAll f pending with
  | case1 f pending fault' hready =>
    obtain ⟨g, deferred, hok⟩ := exists_insertReady_eq_ok hnamed
    rw [hok] at hready
    cases hready
  | case2 => cases h
  | case3 f pending f' first rest hready hless ih =>
    have hperm := perm_of_insertReady hready
    obtain ⟨g, first', rest', hfault, hsub, hleft, hmissing⟩ := ih (hnamed.perm hperm) h
    exact ⟨g, first', rest', hfault, hsub.trans (sublist_of_insertReady hready),
      hleft.trans hperm, hmissing⟩
  | case4 f pending f' first rest hready hmore =>
    obtain ⟨rfl, rfl, hmissing⟩ := stuck_of_insertReady hready hmore
    exact ⟨f', first, rest, (Except.error.inj h).symm, .refl _, .refl _, hmissing⟩

theorem exists_stuck_of_ofStreams {fault : Fault} (hnamed : Named streams)
    (h : ofStreams streams = .error fault) :
    ∃ f first rest, fault = diagnose first rest ∧ Stuck streams f (first :: rest) := by
  have hpending : Named (empty.streams ++ streams) := hnamed
  obtain ⟨f, first, rest, hfault, hsub, hperm, hmissing⟩ := exists_stuck_of_insertAll hpending h
  exact ⟨f, first, rest, hfault, hperm, hsub, hmissing⟩

/-- The streams that are stored are those with a root above them. -/
theorem Stuck.rooted_iff {left : List Stream} (h : Stuck streams f left) (id : StreamId) :
    Rooted streams id ↔ id ∈ f.ids := by
  have hstored : f.streams ⊆ streams := fun s hs => h.perm.subset (List.mem_append_left _ hs)
  constructor
  · intro hrooted
    induction hrooted with
    | @root s listed unlinked =>
      rcases List.mem_append.mp (h.perm.mem_iff.mpr listed) with hs | hs
      · exact id_mem_ids hs
      · obtain ⟨p, hp, -⟩ := h.missing s hs
        rw [unlinked] at hp
        cases hp
    | @child s parent listed linked _ ih =>
      rcases List.mem_append.mp (h.perm.mem_iff.mpr listed) with hs | hs
      · exact id_mem_ids hs
      · obtain ⟨p, hp, hout⟩ := h.missing s hs
        obtain rfl := Option.some.inj (linked.symm.trans hp)
        exact absurd ih hout
  · intro hid
    obtain ⟨s, hs, rfl⟩ := (mem_ids_iff f id).mp hid
    exact (f.grown.rooted s hs).mono hstored

/-- Of streams with ids of their own those are left that have no root above them. -/
theorem Stuck.mem_left_iff {left : List Stream} (hnamed : Named streams) (h : Stuck streams f left)
    (hs : s ∈ streams) : s ∈ left ↔ ¬ Rooted streams s.id := by
  rw [h.rooted_iff]
  have hdistinct := (hnamed.perm h.perm).distinct
  rw [List.map_append, List.nodup_append] at hdistinct
  constructor
  · exact fun hleft hin => hdistinct.2.2 s.id hin s.id (List.mem_map_of_mem hleft) rfl
  · intro hout
    rcases List.mem_append.mp (h.perm.mem_iff.mpr hs) with hstored | hleft
    · exact absurd (id_mem_ids hstored) hout
    · exact hleft

theorem exists_ofStreams_eq_ok_iff (streams : List Stream) :
    (∃ f, ofStreams streams = .ok f) ↔ WellFormed streams := by
  constructor
  · intro hok
    obtain ⟨f, hf⟩ := hok
    exact f.grown.wellFormed.perm (perm_of_ofStreams hf).symm
  · intro h
    cases hanswer : ofStreams streams with
    | ok f => exact ⟨f, rfl⟩
    | error fault =>
      obtain ⟨f, first, rest, -, hstuck⟩ := exists_stuck_of_ofStreams h.toNamed hanswer
      have hfirst : first ∈ streams := hstuck.sublist.subset List.mem_cons_self
      exact absurd (h.rooted (List.mem_map_of_mem hfirst))
        ((hstuck.mem_left_iff h.toNamed hfirst).mp List.mem_cons_self)

namespace Index

variable {i j : Index}

/-- The passes over pending streams, one after the other, until none is left or a pass stores
nothing: how many there are, and what is answered. -/
inductive Passes : Index → List Stream → ℕ → Except Fault Index → Prop
  | refused {i j : Index} {pending : List Stream} {fault : Fault}
      (pass : i.exec (insertReady pending) = (.error fault, j)) :
      Passes i pending 1 (.error fault)
  | complete {i j : Index} {pending : List Stream}
      (pass : i.exec (insertReady pending) = (.ok [], j)) : Passes i pending 1 (.ok j)
  | idle {i j : Index} {pending rest : List Stream} {first : Stream}
      (pass : i.exec (insertReady pending) = (.ok (first :: rest), j))
      (same : (first :: rest).length = pending.length) :
      Passes i pending 1 (.error (diagnose first rest))
  | again {i j : Index} {pending rest : List Stream} {first : Stream} {n : ℕ}
      {answer : Except Fault Index}
      (pass : i.exec (insertReady pending) = (.ok (first :: rest), j))
      (fewer : (first :: rest).length ≠ pending.length)
      (next : Passes j (first :: rest) n answer) : Passes i pending (n + 1) answer

theorem length_le_of_insertReady {pending deferred : List Stream}
    (h : i.exec (insertReady pending) = (.ok deferred, j)) : deferred.length ≤ pending.length := by
  induction pending generalizing i deferred with
  | nil =>
    cases h
    exact le_rfl
  | cons s rest ih =>
    simp only [insertReady, exec_bind, exec_get, exec_ite] at h
    split at h
    case isTrue =>
      split at h
      case h_1 between _ =>
        exact (ih h).trans (Nat.le_succ _)
      case h_2 => cases h
    case isFalse =>
      split at h
      case h_1 later between hrest =>
        cases h
        exact Nat.succ_le_succ (ih hrest)
      case h_2 => cases h

/-- Every pass but the last leaves fewer streams for the next, so the passes end. -/
theorem exists_passes (i : Index) (pending : List Stream) :
    ∃ n ≤ max 1 pending.length, Passes i pending n
      ((i.exec (insertAll pending)).1.map fun _ => (i.exec (insertAll pending)).2) := by
  induction hn : pending.length using Nat.strongRecOn generalizing i pending with
  | ind n ih =>
    rw [insertAll, exec_bind]
    cases hpass : i.exec (insertReady pending) with
    | mk answer j =>
      cases answer with
      | error fault => exact ⟨1, le_max_left _ _, .refused hpass⟩
      | ok deferred =>
        cases deferred with
        | nil => exact ⟨1, le_max_left _ _, .complete hpass⟩
        | cons first rest =>
          have hle := length_le_of_insertReady hpass
          simp only [exec_ite]
          split
          case isTrue hless =>
            obtain ⟨m, hm, hnext⟩ := ih _ (hn ▸ hless) j (first :: rest) rfl
            refine ⟨m + 1, ?_, .again hpass hless.ne hnext⟩
            simp only [List.length_cons] at hm hless
            omega
          case isFalse hmore =>
            exact ⟨1, le_max_left _ _, .idle hpass (le_antisymm hle (not_lt.mp hmore))⟩

theorem ofStreams_eq_exec (streams : List Stream) : ofStreams streams =
    (exec {} (insertAll streams)).1.map fun _ => (exec {} (insertAll streams)).2 := by
  unfold ofStreams
  rcases exec {} (insertAll streams) with ⟨answer, i⟩
  cases answer <;> rfl

/-- Building ends, after no more passes than there are streams; it succeeds exactly for the streams
of a forest, in whatever order they come, and then the tables hold these streams and no others. -/
theorem builds_exactly_wellFormed (streams : List Stream) :
    (∃ n ≤ max 1 streams.length, Passes {} streams n (ofStreams streams)) ∧
      ((∃ i, ofStreams streams = .ok i) ↔ WellFormed streams) ∧
      (∀ reordered, reordered.Perm streams →
        ((∃ i, ofStreams reordered = .ok i) ↔ ∃ i, ofStreams streams = .ok i)) ∧
      ∀ i, ofStreams streams = .ok i → i.streams.Perm streams ∧
        ∀ id s, i.find? id = some s ↔ s ∈ streams ∧ s.id = id := by
  have haccepts (given : List Stream) : (∃ i, ofStreams given = .ok i) ↔ WellFormed given :=
    (exists_ofStreams_eq_ok_iff_forest given).trans (exists_ofStreams_eq_ok_iff given)
  refine ⟨?_, haccepts streams, ?_, ?_⟩
  · rw [ofStreams_eq_exec]
    exact exists_passes {} streams
  · intro reordered hperm
    rw [haccepts, haccepts]
    exact ⟨fun h => h.perm hperm.symm, fun h => h.perm hperm⟩
  · intro i hi
    obtain ⟨f, hf, hholds⟩ := exists_holds_of_ofStreams hi
    have hperm := perm_of_ofStreams hf
    refine ⟨hholds.streams ▸ hperm, fun id s => ?_⟩
    rw [find?, hholds.streams, ← hperm.mem_iff]
    exact find?_eq_some_iff f id s

end Index

end StreamScope.Forest
