import Mathlib.Data.List.Chain
import Mathlib.Data.List.Perm.Subperm
import StreamScope.Backend
import StreamScope.Proofs.Forest.Chain
import StreamScope.Proofs.Outcome

/-!
The parent walk in a list of streams that nobody has checked. An id may be listed
twice, and then its first stream counts; parents may be missing, and links may
lead back. From a listed id the walk passes listed ids, none of them twice, so it
has no more steps than the list has streams. It ends where there is no listed
parent, or at the first link that leads back to an id it has passed, and a store
answers the ids passed in the one case and the id it is led back to in the other.
-/

namespace StreamScope.Lineage

open Outcome

variable {streams : List Stream} {id x y parent : StreamId} {s : Stream}
  {passed first more chain : List StreamId}

/-- The stream that is found under the id has the other id as its parent. -/
def Follows (streams : List Stream) (id parent : StreamId) : Prop :=
  ∃ s, find? streams id = some s ∧ s.parent = some parent

/-- The ids that the parent walk from an id has passed. -/
structure Trail (streams : List Stream) (id : StreamId) (passed : List StreamId) : Prop where
  starts : passed.head? = some id
  listed : ∀ x ∈ passed, x ∈ streams.map Stream.id
  linked : passed.IsChain (Follows streams)
  distinct : passed.Nodup

/-- The parent walk from the id leads back to `x`, which it has passed. -/
def LeadsBack (streams : List Stream) (id x : StreamId) : Prop :=
  ∃ before last, Trail streams id (before ++ [last]) ∧ Follows streams last x ∧
    x ∈ before ++ [last]

/-- The parent walk from the id passes the chain and ends: the last stream has no listed parent. -/
def EndsAfter (streams : List Stream) (id : StreamId) (chain : List StreamId) : Prop :=
  ∃ before last, chain = before ++ [last] ∧ Trail streams id chain ∧
    ∀ parent, Follows streams last parent → parent ∉ streams.map Stream.id

theorem find?_eq_none_iff : find? streams id = none ↔ id ∉ streams.map Stream.id := by
  simp [find?]

theorem follows_iff (found : find? streams id = some s) :
    Follows streams id parent ↔ s.parent = some parent := by
  simp [Follows, found]

namespace Trail

theorem singleton (h : id ∈ streams.map Stream.id) : Trail streams id [id] where
  starts := rfl
  listed := by simpa using h
  linked := List.IsChain.singleton id
  distinct := List.nodup_singleton id

/-- A step of the walk to an id that it has not passed. -/
theorem snoc (h : Trail streams id (first ++ [y])) (hlink : Follows streams y parent)
    (hlisted : parent ∈ streams.map Stream.id) (hnew : parent ∉ first ++ [y]) :
    Trail streams id ((first ++ [y]) ++ [parent]) where
  starts := by rw [List.head?_append_of_ne_nil _ (by simp), h.starts]
  listed z hz := by
    rcases List.mem_append.mp hz with hz | hz
    · exact h.listed z hz
    · exact List.mem_singleton.mp hz ▸ hlisted
  linked := List.isChain_append.mpr ⟨h.linked, List.IsChain.singleton parent, by simpa using hlink⟩
  distinct := by
    refine h.distinct.append (List.nodup_singleton parent) ?_
    simpa [List.disjoint_singleton] using hnew

/-- The walk passes no more ids than there are streams. -/
theorem length_le (h : Trail streams id passed) : passed.length ≤ streams.length := by
  have hle := (h.distinct.subperm h.listed).length_le
  rwa [List.length_map] at hle

end Trail

/-! ## The climb -/

theorem climb_of_next {next : Stream} (hp : s.parent = some parent) (hnew : parent ∉ passed)
    (hnext : find? streams parent = some next) :
    climb streams passed s = climb streams (passed ++ [parent]) next := by
  conv_lhs => unfold climb
  split
  case h_1 hroot => simp [hroot] at hp
  case h_2 p hp' =>
    obtain rfl := Option.some.inj (hp.symm.trans hp')
    rw [dif_neg hnew]
    split
    case h_1 hnone => simp [hnext] at hnone
    case h_2 t ht =>
      obtain rfl := Option.some.inj (hnext.symm.trans ht)
      rfl

theorem climb_of_passed (hp : s.parent = some parent) (hin : parent ∈ passed) :
    climb streams passed s = .error parent := by
  unfold climb
  split
  case h_1 hroot => simp [hroot] at hp
  case h_2 p hp' =>
    obtain rfl := Option.some.inj (hp.symm.trans hp')
    exact dif_pos hin

/-- A climb that fails was led back to an id that it had passed. -/
theorem leadsBack_of_climb (h : Trail streams id (first ++ [s.id]))
    (found : find? streams s.id = some s)
    (hfail : climb streams (first ++ [s.id]) s = .error x) : LeadsBack streams id x := by
  generalize hpassed : first ++ [s.id] = passed at hfail
  fun_induction climb streams passed s generalizing first with
  | case1 => cases hfail
  | case2 passed s parent hp hin =>
    obtain rfl := Except.error.inj hfail
    exact ⟨first, s.id, h, (follows_iff found).mpr hp, hpassed ▸ hin⟩
  | case3 => cases hfail
  | case4 passed s parent hp hnew next hnext ih =>
    subst hpassed
    obtain ⟨hlisted, rfl⟩ := mem_of_find? hnext
    have hlink : Follows streams s.id next.id := (follows_iff found).mpr hp
    exact ih (h.snoc hlink (List.mem_map_of_mem hlisted) hnew) hnext rfl hfail

/-- The climb goes along a trail to its end. -/
theorem climb_along (h : Trail streams id (first ++ y :: more))
    (found : find? streams y = some s) : ∃ before last t, first ++ y :: more = before ++ [last] ∧
      find? streams last = some t ∧
      climb streams (first ++ [y]) s = climb streams (before ++ [last]) t := by
  induction more generalizing first y s with
  | nil => exact ⟨first, y, s, rfl, found, rfl⟩
  | cons z more ih =>
    have hlink : Follows streams y z := (List.isChain_append_cons_cons.mp h.linked).2.1
    have hsplit : first ++ y :: z :: more = (first ++ [y]) ++ z :: more := by simp
    rw [hsplit] at h ⊢
    have hnew : z ∉ first ++ [y] := fun hz =>
      (List.nodup_append.mp h.distinct).2.2 z hz z List.mem_cons_self rfl
    obtain ⟨t, ht⟩ := exists_find?_of_mem_ids (h.listed z (by simp))
    rw [climb_of_next ((follows_iff found).mp hlink) hnew ht]
    exact ih h ht

theorem ancestors_eq_error_iff (streams : List Stream) (id x : StreamId) :
    ancestors streams id = .error x ↔ LeadsBack streams id x := by
  constructor
  · intro h
    unfold ancestors at h
    split at h
    case h_1 => cases h
    case h_2 s found =>
      obtain ⟨hs, rfl⟩ := mem_of_find? found
      have htrail : Trail streams s.id ([] ++ [s.id]) := .singleton (List.mem_map_of_mem hs)
      exact leadsBack_of_climb htrail found (map_eq_error_iff.mp h)
  · rintro ⟨before, last, htrail, hlink, hin⟩
    obtain ⟨rest, hrest⟩ : ∃ rest, before ++ [last] = [] ++ id :: rest :=
      List.head?_eq_some_iff.mp htrail.starts
    rw [hrest] at htrail
    obtain ⟨s, found⟩ := exists_find?_of_mem_ids (htrail.listed id List.mem_cons_self)
    obtain ⟨before', last', t, heq, hlast, hclimb⟩ := climb_along htrail found
    rw [← hrest] at heq
    obtain ⟨rfl, hsame⟩ := List.append_inj' heq rfl
    obtain rfl := (List.cons.inj hsame).1
    have hfail : climb streams [id] s = .error x :=
      hclimb.trans (climb_of_passed ((follows_iff hlast).mp hlink) hin)
    simp only [ancestors, found, hfail, Except.map]

/-! ## The chain -/

theorem EndsAfter.of_chain (h : Chain streams id chain) : EndsAfter streams id chain := by
  induction h with
  | @last id s found unlinked =>
    obtain ⟨hs, rfl⟩ := mem_of_find? found
    refine ⟨[], s.id, rfl, .singleton (List.mem_map_of_mem hs), fun parent hlink => ?_⟩
    exact find?_eq_none_iff.mp (unlinked parent ((follows_iff found).mp hlink))
  | @link id parent s above found linked rest ih =>
    obtain ⟨before, last, rfl, htrail, hend⟩ := ih
    obtain ⟨hs, rfl⟩ := mem_of_find? found
    refine ⟨s.id :: before, last, rfl, ?_, hend⟩
    exact {
      starts := rfl
      listed := List.forall_mem_cons.mpr ⟨List.mem_map_of_mem hs, htrail.listed⟩
      linked := List.isChain_cons.mpr ⟨fun y hy => by
        obtain rfl := Option.some.inj (htrail.starts.symm.trans hy)
        exact (follows_iff found).mpr linked, htrail.linked⟩
      distinct := (Chain.link found linked rest).nodup }

theorem EndsAfter.to_chain (h : EndsAfter streams id chain) : Chain streams id chain := by
  obtain ⟨before, last, rfl, htrail, hend⟩ := h
  have hlinked := htrail.linked
  have hlisted := htrail.listed
  have hstarts := htrail.starts
  clear htrail
  induction before generalizing id with
  | nil =>
    obtain rfl : last = id := by simpa using hstarts
    obtain ⟨s, found⟩ := exists_find?_of_mem_ids (hlisted last List.mem_cons_self)
    exact .last found fun p hp => find?_eq_none_iff.mpr (hend p ((follows_iff found).mpr hp))
  | cons y before ih =>
    obtain rfl : y = id := by simpa using hstarts
    obtain ⟨hfirst, hrest⟩ := List.isChain_cons.mp hlinked
    cases hhead : (before ++ [last]).head? with
    | none => simp at hhead
    | some z =>
      obtain ⟨s, found, hp⟩ := hfirst z hhead
      exact .link found hp
        (ih hrest (fun x hx => hlisted x (List.mem_cons_of_mem y hx)) hhead)

theorem chain_iff_endsAfter (streams : List Stream) (id : StreamId) (chain : List StreamId) :
    Chain streams id chain ↔ EndsAfter streams id chain :=
  ⟨.of_chain, EndsAfter.to_chain⟩

theorem ancestors_eq_ok_none_iff (streams : List Stream) (id : StreamId) :
    ancestors streams id = .ok none ↔ id ∉ streams.map Stream.id := by
  rw [← find?_eq_none_iff]
  unfold ancestors
  cases find? streams id with
  | none => simp
  | some s => cases hc : climb streams [id] s <;> simp [hc, Except.map]

/-- In any list of streams the way up from an id is answered in one of three ways: there is none
exactly if the id is not listed, it fails exactly if parents lead back, with the first id that they
lead back to, and otherwise it is the chain of parents up to a stream without a listed one. No
such walk has more steps than the list has streams. -/
theorem parent_walk_decided (store : StoreId) (streams : List Stream) (id : StreamId) :
    ((Backend.ofListing store streams).ancestors id = .ok none ↔ id ∉ streams.map Stream.id) ∧
      (∀ e, (Backend.ofListing store streams).ancestors id = .error e ↔
        ∃ x, LeadsBack streams id x ∧ e = .cycle x) ∧
      (∀ chain, (Backend.ofListing store streams).ancestors id = .ok (some chain) ↔
        EndsAfter streams id chain) ∧
      (id ∈ streams.map Stream.id → (∀ x, ¬ LeadsBack streams id x) →
        ∃ chain, (Backend.ofListing store streams).ancestors id = .ok (some chain)) ∧
      ∀ passed, Trail streams id passed → passed.length ≤ streams.length := by
  have hanswer : (Backend.ofListing store streams).ancestors id =
    (ancestors streams id).mapError .cycle := rfl
  rw [hanswer]
  refine ⟨?_, fun e => ?_, fun chain => ?_, fun hlisted hstraight => ?_, fun _ h => h.length_le⟩
  · rw [mapError_eq_ok_iff, ancestors_eq_ok_none_iff]
  · rw [mapError_eq_error_iff]
    exact exists_congr fun x => and_congr (ancestors_eq_error_iff streams id x) eq_comm
  · rw [mapError_eq_ok_iff, ancestors_eq_ok_some_iff, chain_iff_endsAfter]
  · cases h : ancestors streams id with
    | error x => exact absurd ((ancestors_eq_error_iff streams id x).mp h) (hstraight x)
    | ok found =>
      cases found with
      | none => exact absurd hlisted ((ancestors_eq_ok_none_iff streams id).mp h)
      | some chain => exact ⟨chain, rfl⟩

/-- Two streams that are each other's parent, a third below them, and below that one a stream whose
id is listed twice. -/
def tangledStreams : List Stream :=
  [⟨⟨"leaf"⟩, some ⟨"twig"⟩, false⟩, ⟨⟨"twig"⟩, some ⟨"a"⟩, false⟩, ⟨⟨"leaf"⟩, none, false⟩,
    ⟨⟨"a"⟩, some ⟨"b"⟩, false⟩, ⟨⟨"b"⟩, some ⟨"a"⟩, false⟩, ⟨⟨"stray"⟩, some ⟨"ghost"⟩, true⟩]

/-- From the leaf the walk comes back to the first of the two, and from the stray it ends at once. -/
theorem parent_walk_decided_tangled :
    LeadsBack tangledStreams ⟨"leaf"⟩ ⟨"a"⟩ ∧ EndsAfter tangledStreams ⟨"stray"⟩ [⟨"stray"⟩] ∧
      ⟨"ghost"⟩ ∉ tangledStreams.map Stream.id ∧
      ∀ passed, Trail tangledStreams ⟨"leaf"⟩ passed → passed.length ≤ 6 := by
  obtain ⟨-, hleaf, -, -, hlength⟩ := parent_walk_decided ⟨"raw"⟩ tangledStreams ⟨"leaf"⟩
  obtain ⟨-, -, hstray, -, -⟩ := parent_walk_decided ⟨"raw"⟩ tangledStreams ⟨"stray"⟩
  have hcycle : (Backend.ofListing ⟨"raw"⟩ tangledStreams).ancestors ⟨"leaf"⟩ =
      .error (.cycle ⟨"a"⟩) := by cbv
  have hends : (Backend.ofListing ⟨"raw"⟩ tangledStreams).ancestors ⟨"stray"⟩ =
      .ok (some [⟨"stray"⟩]) := by cbv
  obtain ⟨x, hback, hx⟩ := (hleaf _).mp hcycle
  obtain rfl : ⟨"a"⟩ = x := LookupError.cycle.inj hx
  exact ⟨hback, (hstray _).mp hends, by decide, hlength⟩

end StreamScope.Lineage
