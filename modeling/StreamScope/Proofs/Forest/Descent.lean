import StreamScope.Forest.Walk
import Mathlib.Data.List.Nodup

/-!
The streams at or below a stream, reached through open streams only. What is
open is left to a predicate: everything for the whole subtree, what is neither
excluded nor hidden for a walk. The walk lists exactly the streams that descend
from its stack, and an expansion exactly those that descend from its seed.
-/

namespace StreamScope.Lineage

variable {streams : List Stream}

theorem exists_find?_of_mem_ids {id : StreamId} (h : id ∈ streams.map Stream.id) :
    ∃ s, find? streams id = some s := by
  obtain ⟨s, hs, rfl⟩ := List.mem_map.mp h
  cases hf : find? streams s.id with
  | some t => exact ⟨t, rfl⟩
  | none =>
    have hnone := List.find?_eq_none.mp hf s hs
    simp at hnone

/-- Where every stream has an id of its own each of them is found. -/
theorem find?_of_mem {s : Stream} (hdistinct : (streams.map Stream.id).Nodup) (hs : s ∈ streams) :
    find? streams s.id = some s := by
  obtain ⟨t, ht⟩ := exists_find?_of_mem_ids (List.mem_map_of_mem hs)
  obtain ⟨hmem, hid⟩ := mem_of_find? ht
  rw [ht, List.inj_on_of_nodup_map hdistinct hmem hs hid]

end StreamScope.Lineage

namespace StreamScope.Forest

variable {f : Forest} {isOpen isOpen' : StreamId → Prop} {top d : StreamId}

/-- A stream at or below `top`, every stream on the way down being open. -/
inductive Descends (f : Forest) (isOpen : StreamId → Prop) (top : StreamId) : StreamId → Prop
  | top (listed : top ∈ f.ids) (opened : isOpen top) : Descends f isOpen top top
  | child {s : Stream} {parent : StreamId} (above : Descends f isOpen top parent)
      (listed : s ∈ f.streams) (link : s.parent = some parent) (opened : isOpen s.id) :
      Descends f isOpen top s.id

/-- A stream that an expansion passes: it is there, it is not excluded, and the state shows it. -/
def Shows (f : Forest) (excluded : List StreamId) (state : StreamState) (id : StreamId) : Prop :=
  id ∉ excluded ∧ ∃ s ∈ f.streams, s.id = id ∧ (s.trashed = true → state.includesTrashed = true)

theorem mem_ids_iff (f : Forest) (id : StreamId) : id ∈ f.ids ↔ ∃ s ∈ f.streams, s.id = id := by
  simp [ids]

theorem id_mem_ids {s : Stream} (h : s ∈ f.streams) : s.id ∈ f.ids :=
  List.mem_map_of_mem h

theorem mem_ids_of_shows {excluded : List StreamId} {state : StreamState} {id : StreamId}
    (h : f.Shows excluded state id) : id ∈ f.ids := by
  obtain ⟨-, s, hs, hid, -⟩ := h
  exact (mem_ids_iff f id).mpr ⟨s, hs, hid⟩

theorem mem_children_iff (f : Forest) (id c : StreamId) :
    c ∈ f.children id ↔ ∃ s ∈ f.streams, s.parent = some id ∧ s.id = c := by
  simp [children, and_assoc]

theorem mem_roots_iff (f : Forest) (id : StreamId) :
    id ∈ f.roots ↔ ∃ s ∈ f.streams, s.parent = none ∧ s.id = id := by
  simp [roots, and_assoc]

theorem Grown.pair {s t : Stream} (hs : s.id ≠ .wildcard) (hroot : s.parent = none)
    (ht : t.id ≠ .wildcard) (hne : t.id ≠ s.id) (hlink : ∀ p, t.parent = some p → p = s.id) :
    Grown [s, t] := by
  have hfirst : Grown ([] ++ [s]) := .insert .empty hs (by simp) (by simp [hroot])
  apply Grown.insert hfirst ht (by simpa using hne)
  intro p hp
  simpa using hlink p hp

theorem Grown.nodup {streams : List Stream} (h : Grown streams) :
    (streams.map Stream.id).Nodup := by
  induction h with
  | empty => exact List.nodup_nil
  | insert _ _ fresh _ ih =>
    rw [List.map_append]
    apply List.Nodup.append ih (List.nodup_singleton _)
    simpa using fresh

theorem Grown.ne_wildcard {streams : List Stream} (h : Grown streams) :
    ∀ s ∈ streams, s.id ≠ .wildcard := by
  induction h with
  | empty => simp
  | insert _ proper _ _ ih =>
    intro s hs
    rcases List.mem_append.mp hs with hs | hs
    · exact ih s hs
    · rwa [List.mem_singleton.mp hs]

theorem wildcard_notMem_ids (f : Forest) : StreamId.wildcard ∉ f.ids := by
  intro h
  obtain ⟨s, hs, hid⟩ := (mem_ids_iff f _).mp h
  exact f.grown.ne_wildcard s hs hid

/-- A stream of the forest is the one that its id finds. -/
theorem find?_id {s : Stream} (h : s ∈ f.streams) : f.find? s.id = some s :=
  Lineage.find?_of_mem f.grown.nodup h

theorem find?_eq_some_iff (f : Forest) (id : StreamId) (s : Stream) :
    f.find? id = some s ↔ s ∈ f.streams ∧ s.id = id := by
  constructor
  · exact fun h => Lineage.mem_of_find? h
  · intro hmem
    obtain ⟨hs, rfl⟩ := hmem
    exact find?_id hs

theorem visible?_isSome_iff (f : Forest) (excluded : List StreamId) (state : StreamState)
    (id : StreamId) : (f.visible? excluded state id).isSome ↔ f.Shows excluded state id := by
  unfold visible? Shows
  split
  case isTrue h => simp [h]
  case isFalse h =>
    simp only [Option.isSome_iff_exists, Option.filter_eq_some_iff, find?_eq_some_iff, h,
      not_false_eq_true, true_and, and_assoc]
    refine exists_congr fun s => and_congr_right fun _ => and_congr_right fun _ => ?_
    cases s.trashed <;> simp

theorem not_shows_of_visible? {excluded : List StreamId} {state : StreamState} {id : StreamId}
    (h : f.visible? excluded state id = none) :
    ¬ f.Shows excluded state id := by
  rw [← visible?_isSome_iff, h]
  simp

theorem shows_of_visible? {excluded : List StreamId} {state : StreamState} {id : StreamId}
    {s : Stream} (h : f.visible? excluded state id = some s) :
    f.Shows excluded state id := by
  rw [← visible?_isSome_iff, h]
  rfl

namespace Descends

theorem mem_ids (h : f.Descends isOpen top d) : d ∈ f.ids := by
  cases h with
  | top listed _ => exact listed
  | child _ listed _ _ => exact id_mem_ids listed

theorem top_mem_ids (h : f.Descends isOpen top d) : top ∈ f.ids := by
  induction h with
  | top listed _ => exact listed
  | child _ _ _ _ ih => exact ih

theorem opened_top (h : f.Descends isOpen top d) : isOpen top := by
  induction h with
  | top _ opened => exact opened
  | child _ _ _ _ ih => exact ih

theorem opened (h : f.Descends isOpen top d) : isOpen d := by
  cases h with
  | top _ opened => exact opened
  | child _ _ _ opened => exact opened

/-- A way down stays open if all that it passes does. -/
theorem restrict (h : f.Descends isOpen top d)
    (himp : ∀ id, f.Descends isOpen top id → isOpen' id) : f.Descends isOpen' top d := by
  induction h with
  | top listed opened => exact .top listed (himp _ (.top listed opened))
  | child above listed link opened ih =>
    exact .child ih listed link (himp _ (.child above listed link opened))

theorem mono (h : f.Descends isOpen top d) (himp : ∀ id, isOpen id → isOpen' id) :
    f.Descends isOpen' top d :=
  h.restrict fun id hid => himp id hid.opened

theorem trans {mid : StreamId} (hmid : f.Descends isOpen top mid) (h : f.Descends isOpen mid d) :
    f.Descends isOpen top d := by
  induction h with
  | top _ _ => exact hmid
  | child _ listed link opened ih => exact .child ih listed link opened

theorem of_mem_children {c parent : StreamId} (h : f.Descends isOpen top parent)
    (hc : c ∈ f.children parent) (hopen : isOpen c) : f.Descends isOpen top c := by
  obtain ⟨s, hs, hlink, rfl⟩ := (mem_children_iff f parent c).mp hc
  exact .child h hs hlink hopen

/-- Past a stream, the way goes on below one of its children and does not come back to it. -/
theorem past (id : StreamId) (h : f.Descends isOpen top d) :
    d = id ∨ ∃ next, (next = top ∨ next ∈ f.children id) ∧
      f.Descends (fun x => x ≠ id ∧ isOpen x) next d := by
  induction h with
  | top listed opened =>
    by_cases htop : top = id
    · exact .inl htop
    · exact .inr ⟨top, .inl rfl, .top listed ⟨htop, opened⟩⟩
  | @child s parent _ listed link opened ih =>
    by_cases hs : s.id = id
    · exact .inl hs
    · refine .inr ?_
      rcases ih with rfl | ⟨next, hnext, hway⟩
      · refine ⟨s.id, .inr ?_, .top (id_mem_ids listed) ⟨hs, opened⟩⟩
        exact (mem_children_iff f _ _).mpr ⟨s, listed, link, rfl⟩
      · exact ⟨next, hnext, .child hway listed link ⟨hs, opened⟩⟩

end Descends

/-- The walk lists what descends from the stack through streams not seen before. -/
theorem mem_walk_iff (f : Forest) (excluded : List StreamId) (state : StreamState)
    (seen stack : List StreamId) (d : StreamId) :
    d ∈ f.walk excluded state seen stack ↔
      ∃ top ∈ stack, f.Descends (fun id => id ∉ seen ∧ f.Shows excluded state id) top d := by
  fun_induction walk f excluded state seen stack with
  | case1 => simp
  | case2 seen id stack hs ih =>
    have hclosed : ¬ f.Descends (fun x => x ∉ seen ∧ f.Shows excluded state x) id d :=
      fun h => h.opened_top.1 hs
    simp [ih, hclosed]
  | case3 seen id stack hs hv ih =>
    have hclosed : ¬ f.Descends (fun x => x ∉ seen ∧ f.Shows excluded state x) id d :=
      fun h => not_shows_of_visible? hv h.opened_top.2
    simp [ih, hclosed]
  | case4 seen id stack hs s hv ih =>
    have hshown := shows_of_visible? hv
    obtain ⟨hmem, hid⟩ := mem_of_visible? hv
    have hids : id ∈ f.ids := hid ▸ id_mem_ids hmem
    rw [List.mem_cons, ih]
    constructor
    · rintro (rfl | ⟨top, htop, hway⟩)
      · exact ⟨d, List.mem_cons_self, .top hids ⟨hs, hshown⟩⟩
      · have hold : f.Descends (fun x => x ∉ seen ∧ f.Shows excluded state x) top d :=
          hway.mono fun x hx => ⟨fun hseen => hx.1 (List.mem_cons_of_mem _ hseen), hx.2⟩
        rcases List.mem_append.mp htop with hchild | hstack
        · have hstep : f.Descends (fun x => x ∉ seen ∧ f.Shows excluded state x) id top :=
            Descends.of_mem_children (.top hids ⟨hs, hshown⟩) hchild hold.opened_top
          exact ⟨id, List.mem_cons_self, hstep.trans hold⟩
        · exact ⟨top, List.mem_cons_of_mem _ hstack, hold⟩
    · intro hbelow
      obtain ⟨top, htop, hway⟩ := hbelow
      rcases hway.past id with rfl | ⟨next, hnext, hrest⟩
      · exact .inl rfl
      · refine .inr ⟨next, ?_, hrest.mono fun x hx => ⟨?_, hx.2.2⟩⟩
        · rcases hnext with rfl | hchild
          · rcases List.mem_cons.mp htop with rfl | hstack
            · exact absurd rfl hrest.opened_top.1
            · exact List.mem_append_right _ hstack
          · exact List.mem_append_left _ hchild
        · simpa using ⟨hx.1, hx.2.1⟩

/-- An expansion lists what descends from its seed, the wildcard standing for all roots. -/
theorem mem_expand_iff (f : Forest) (id : StreamId) (excluded : List StreamId)
    (state : StreamState) (d : StreamId) :
    (∃ ids, f.expand id excluded state = some ids ∧ d ∈ ids) ↔
      ∃ top, (top = id ∨ id = .wildcard ∧ top ∈ f.roots) ∧
        f.Descends (f.Shows excluded state) top d := by
  have hnone : ¬ f.Descends (f.Shows excluded state) .wildcard d :=
    fun h => wildcard_notMem_ids f h.top_mem_ids
  unfold expand
  split
  case isTrue hw =>
    subst hw
    simp [mem_walk_iff, or_and_right, exists_or, hnone]
  case isFalse hw =>
    split
    case isTrue hin => simp [mem_walk_iff, hw]
    case isFalse hout =>
      have hids : id ∉ f.ids := by simpa [contains] using hout
      have hno : ¬ f.Descends (f.Shows excluded state) id d := fun h => hids h.top_mem_ids
      simp [hw, hno]

theorem expand_isSome_iff (f : Forest) (id : StreamId) (excluded : List StreamId)
    (state : StreamState) :
    (f.expand id excluded state).isSome ↔ id = .wildcard ∨ id ∈ f.ids := by
  unfold expand contains
  split
  case isTrue hw => simp [hw]
  case isFalse hw => split <;> simp_all

end StreamScope.Forest
