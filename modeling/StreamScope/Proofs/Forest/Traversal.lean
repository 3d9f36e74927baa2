import StreamScope.Proofs.Forest.Descent
import StreamScope.Proofs.Repetition

/-!
What a walk reads, and how walks join. A walk reads only the streams at or below
its stack, so it goes the same way through all forests that agree on these. A
walk from several ids lists what the walks from each of them list, every stream
where it is first met: below a stream met before nothing is left to list.
-/

namespace StreamScope

namespace Forest

variable {f g : Forest} {excluded excluded' seen seen' stack : List StreamId}
  {state : StreamState} {region : StreamId → Prop} {id top d : StreamId}

theorem walk_cons_of_mem (h : id ∈ seen) :
    f.walk excluded state seen (id :: stack) = f.walk excluded state seen stack := by
  rw [walk, dif_pos h]

theorem walk_cons_of_not_shows (h : ¬ f.Shows excluded state id) :
    f.walk excluded state seen (id :: stack) = f.walk excluded state seen stack := by
  rw [walk]
  split
  case isTrue hs => rfl
  case isFalse hs =>
    split
    case h_1 hv => rfl
    case h_2 s hv => exact absurd (shows_of_visible? hv) h

theorem walk_cons_of_shows (hs : id ∉ seen) (h : f.Shows excluded state id) :
    f.walk excluded state seen (id :: stack) =
      id :: f.walk excluded state (id :: seen) (f.children id ++ stack) := by
  rw [walk, dif_neg hs]
  split
  case h_1 hv => exact absurd h (not_shows_of_visible? hv)
  case h_2 s hv => rfl

/-- Ids that no child link leaves, on which two forests list the same children and show the same
streams. -/
structure Agree (f g : Forest) (excluded excluded' : List StreamId) (state : StreamState)
    (region : StreamId → Prop) : Prop where
  closed : ∀ d, region d → ∀ c ∈ f.children d, region c
  children : ∀ d, region d → g.children d = f.children d
  shows : ∀ d, region d → (g.Shows excluded' state d ↔ f.Shows excluded state d)

namespace Agree

/-- A walk goes the same way through forests that agree on where it goes. -/
theorem walk_eq (h : Agree f g excluded excluded' state region)
    (hseen : ∀ d, region d → (d ∈ seen' ↔ d ∈ seen)) (hstack : ∀ d ∈ stack, region d) :
    g.walk excluded' state seen' stack = f.walk excluded state seen stack := by
  fun_induction walk f excluded state seen stack generalizing seen' with
  | case1 => rw [walk]
  | case2 seen id stack hs ih =>
    obtain ⟨hid, hrest⟩ := List.forall_mem_cons.mp hstack
    rw [walk_cons_of_mem ((hseen id hid).mpr hs), ih hseen hrest]
  | case3 seen id stack hs hv ih =>
    obtain ⟨hid, hrest⟩ := List.forall_mem_cons.mp hstack
    rw [walk_cons_of_not_shows (mt (h.shows id hid).mp (not_shows_of_visible? hv)),
      ih hseen hrest]
  | case4 seen id stack hs s hv ih =>
    obtain ⟨hid, hrest⟩ := List.forall_mem_cons.mp hstack
    rw [walk_cons_of_shows (mt (hseen id hid).mp hs) ((h.shows id hid).mpr (shows_of_visible? hv)),
      h.children id hid, ih]
    · intro d hd
      simp [hseen d hd]
    · intro d hd
      rcases List.mem_append.mp hd with hchild | hd
      · exact h.closed id hid d hchild
      · exact hrest d hd

theorem expand_eq (h : Agree f g excluded excluded' state region)
    (htop : top ∈ f.ids → region top) (hlisted : top ∈ g.ids ↔ top ∈ f.ids)
    (hw : top ≠ .wildcard) : g.expand top excluded' state = f.expand top excluded state := by
  by_cases hin : top ∈ f.ids
  · have hwalk : g.walk excluded' state [] [top] = f.walk excluded state [] [top] :=
      h.walk_eq (fun _ _ => Iff.rfl) (by simpa using htop hin)
    simp [expand, hw, contains, hlisted, hin, hwalk]
  · simp [expand, hw, contains, hlisted, hin]

theorem refl (f : Forest) (excluded : List StreamId) (state : StreamState) :
    Agree f f excluded excluded state fun _ => True where
  closed _ _ _ _ := trivial
  children _ _ := rfl
  shows _ _ := Iff.rfl

end Agree

/-- Two forests have the same streams at and below an id, or both have none: the same children in
the same order, trashed alike. -/
structure SameSubtree (f g : Forest) (top : StreamId) : Prop where
  streams : ∀ d, g.Descends (fun _ => True) top d ↔ f.Descends (fun _ => True) top d
  children : ∀ d, f.Descends (fun _ => True) top d → g.children d = f.children d
  trashed : ∀ d, f.Descends (fun _ => True) top d →
    (g.find? d).map Stream.trashed = (f.find? d).map Stream.trashed

theorem shows_iff_find? (f : Forest) (excluded : List StreamId) (state : StreamState)
    (id : StreamId) : f.Shows excluded state id ↔ id ∉ excluded ∧
      ∃ trashed, (f.find? id).map Stream.trashed = some trashed ∧
        (trashed = true → state.includesTrashed = true) := by
  simp only [Shows, Option.map_eq_some_iff, find?_eq_some_iff]
  refine and_congr_right fun _ => ⟨?_, ?_⟩
  · rintro ⟨s, hs, hid, hstate⟩
    exact ⟨s.trashed, ⟨s, ⟨hs, hid⟩, rfl⟩, hstate⟩
  · rintro ⟨_, ⟨s, ⟨hs, hid⟩, rfl⟩, hstate⟩
    exact ⟨s, hs, hid, hstate⟩

theorem mem_ids_iff_find? (f : Forest) (id : StreamId) :
    id ∈ f.ids ↔ ((f.find? id).map Stream.trashed).isSome = true := by
  simp [mem_ids_iff, Option.isSome_iff_exists, find?_eq_some_iff]

/-- On ids that no child link leaves and that have the same children in another forest, the way down
is a way down there. -/
theorem Descends.of_region {region : List StreamId} (h : f.Descends (fun _ => True) top d)
    (hclosed : ∀ d ∈ region, ∀ c ∈ f.children d, c ∈ region)
    (hchildren : ∀ d ∈ region, g.children d = f.children d) (hlisted : top ∈ f.ids → top ∈ g.ids)
    (htop : top ∈ region) : d ∈ region ∧ g.Descends (fun _ => True) top d := by
  induction h with
  | top listed _ => exact ⟨htop, .top (hlisted listed) trivial⟩
  | @child s parent _ listed link _ ih =>
    obtain ⟨hin, hway⟩ := ih
    have hc : s.id ∈ f.children parent :=
      (mem_children_iff f parent s.id).mpr ⟨s, listed, link, rfl⟩
    exact ⟨hclosed parent hin s.id hc, hway.of_mem_children (hchildren parent hin ▸ hc) trivial⟩

namespace SameSubtree

theorem agree (h : SameSubtree f g top) (excluded : List StreamId) (state : StreamState) :
    Agree f g excluded excluded state (f.Descends (fun _ => True) top) where
  closed _ hd _ hc := hd.of_mem_children hc trivial
  children := h.children
  shows d hd := by rw [shows_iff_find?, shows_iff_find?, h.trashed d hd]

theorem mem_ids_iff (h : SameSubtree f g top) : top ∈ g.ids ↔ top ∈ f.ids := by
  constructor
  · exact fun hg => ((h.streams top).mp (.top hg trivial)).mem_ids
  · exact fun hf => ((h.streams top).mpr (.top hf trivial)).mem_ids

/-- An id has the same expansion where it has the same subtree. -/
theorem expand_eq (h : SameSubtree f g top) (hw : top ≠ .wildcard) (excluded : List StreamId)
    (state : StreamState) : g.expand top excluded state = f.expand top excluded state :=
  (h.agree excluded state).expand_eq (fun hlisted => .top hlisted trivial) h.mem_ids_iff hw

/-- Forests that list the same children and flags on ids that no child link leaves have the same
subtrees there. -/
theorem of_region {region : List StreamId}
    (hclosed : ∀ d ∈ region, ∀ c ∈ f.children d, c ∈ region)
    (hchildren : ∀ d ∈ region, g.children d = f.children d)
    (htrashed : ∀ d ∈ region, (g.find? d).map Stream.trashed = (f.find? d).map Stream.trashed)
    (htop : top ∈ region) : SameSubtree f g top := by
  have hlisted : top ∈ g.ids ↔ top ∈ f.ids := by
    rw [mem_ids_iff_find?, mem_ids_iff_find?, htrashed top htop]
  have hclosed' : ∀ d ∈ region, ∀ c ∈ g.children d, c ∈ region :=
    fun d hd c hc => hclosed d hd c (hchildren d hd ▸ hc)
  have hin (d : StreamId) (h : f.Descends (fun _ => True) top d) :=
    h.of_region hclosed hchildren hlisted.mpr htop
  have hout (d : StreamId) (h : g.Descends (fun _ => True) top d) :=
    h.of_region hclosed' (fun d hd => (hchildren d hd).symm) hlisted.mp htop
  exact ⟨fun d => ⟨fun h => (hout d h).2, fun h => (hin d h).2⟩,
    fun d h => hchildren d (hin d h).1, fun d h => htrashed d (hin d h).1⟩

end SameSubtree

theorem walk_congr_seen (h : ∀ d, d ∈ seen ↔ d ∈ seen') :
    f.walk excluded state seen stack = f.walk excluded state seen' stack :=
  (Agree.refl f excluded state).walk_eq (fun d _ => h d) fun _ _ => trivial

theorem walk_append (f : Forest) (excluded : List StreamId) (state : StreamState)
    (seen stack more : List StreamId) : f.walk excluded state seen (stack ++ more) =
      f.walk excluded state seen stack ++
        f.walk excluded state (f.walk excluded state seen stack ++ seen) more := by
  fun_induction walk f excluded state seen stack with
  | case1 => simp
  | case2 seen id stack hs ih => rw [List.cons_append, walk_cons_of_mem hs, ih]
  | case3 seen id stack hs hv ih =>
    rw [List.cons_append, walk_cons_of_not_shows (not_shows_of_visible? hv), ih]
  | case4 seen id stack hs s hv ih =>
    rw [List.cons_append, walk_cons_of_shows hs (shows_of_visible? hv), ← List.append_assoc, ih,
      List.cons_append]
    congr 2
    exact walk_congr_seen fun d => by grind

theorem walk_eq_nil (h : ∀ d ∈ stack, d ∈ seen ∨ ¬ f.Shows excluded state d) :
    f.walk excluded state seen stack = [] := by
  rw [List.eq_nil_iff_forall_not_mem]
  intro d hd
  obtain ⟨top, htop, hway⟩ := (mem_walk_iff f excluded state seen stack d).mp hd
  rcases h top htop with hseen | hhidden
  · exact hway.opened_top.1 hseen
  · exact hhidden hway.opened_top.2

/-- When all that lies below the ids that were passed is passed or seen too, the walk goes on as if
it did not know of them, but does not list them. -/
theorem walk_past {past : List StreamId}
    (hpast : ∀ id ∈ past, ∀ c ∈ f.children id, f.Shows excluded state c → c ∈ seen ∨ c ∈ past) :
    f.walk excluded state (past ++ seen) stack =
      (f.walk excluded state seen stack).filter fun d => d ∉ past := by
  fun_induction walk f excluded state seen stack with
  | case1 => rw [walk]; rfl
  | case2 seen id stack hs ih =>
    rw [walk_cons_of_mem (List.mem_append_right _ hs), ih hpast]
  | case3 seen id stack hs hv ih =>
    rw [walk_cons_of_not_shows (not_shows_of_visible? hv), ih hpast]
  | case4 seen id stack hs s hv ih =>
    have hmore : ∀ id' ∈ past, ∀ c ∈ f.children id', f.Shows excluded state c →
        c ∈ id :: seen ∨ c ∈ past := by
      intro id' hid' c hc hshown
      exact (hpast id' hid' c hc hshown).imp_left (List.mem_cons_of_mem _)
    have hrest := ih hmore
    by_cases hid : id ∈ past
    · have hchildren : f.walk excluded state (past ++ id :: seen) (f.children id) = [] := by
        refine walk_eq_nil fun c hc => ?_
        by_cases hshown : f.Shows excluded state c
        · have hmet := hmore id hid c hc hshown
          exact .inl (List.mem_append.mpr hmet.symm)
        · exact .inr hshown
      rw [walk_append, hchildren] at hrest
      rw [walk_cons_of_mem (List.mem_append_left _ hid), List.filter_cons_of_neg (by simp [hid]),
        ← hrest]
      exact walk_congr_seen fun d => by grind
    · rw [walk_cons_of_shows (by simp [hid, hs]) (shows_of_visible? hv),
        List.filter_cons_of_pos (by simp [hid]), ← hrest]
      congr 1
      exact walk_congr_seen fun d => by grind

theorem walk_nodup (f : Forest) (excluded : List StreamId) (state : StreamState)
    (seen stack : List StreamId) : (f.walk excluded state seen stack).Nodup := by
  fun_induction walk f excluded state seen stack with
  | case1 => exact List.nodup_nil
  | case2 _ _ _ _ ih => exact ih
  | case3 _ _ _ _ _ ih => exact ih
  | case4 seen id stack hs s hv ih =>
    refine List.nodup_cons.mpr ⟨fun hin => ?_, ih⟩
    obtain ⟨_, _, hway⟩ := (mem_walk_iff f excluded state _ _ id).mp hin
    exact hway.opened.1 List.mem_cons_self

/-- Ids that are not shown have no part in a walk. -/
theorem walk_filter {p : StreamId → Bool}
    (h : ∀ d ∈ stack, p d = false → ¬ f.Shows excluded state d) :
    f.walk excluded state seen (stack.filter p) = f.walk excluded state seen stack := by
  induction stack generalizing seen with
  | nil => rfl
  | cons d stack ih =>
    obtain ⟨hd, hrest⟩ := List.forall_mem_cons.mp h
    cases hp : p d with
    | true =>
      rw [List.filter_cons_of_pos hp, ← List.singleton_append, walk_append, ih hrest,
        ← walk_append, List.singleton_append]
    | false =>
      rw [List.filter_cons_of_neg (by simp [hp]), walk_cons_of_not_shows (hd hp), ih hrest]

/-- A walk from several ids joins the walks from each of them. -/
theorem walk_eq_eraseDups (f : Forest) (excluded : List StreamId) (state : StreamState)
    (stack : List StreamId) : f.walk excluded state [] stack =
      (stack.flatMap fun top => f.walk excluded state [] [top]).eraseDups := by
  induction stack with
  | nil => rw [walk]; rfl
  | cons top stack ih =>
    have hpast : ∀ id ∈ f.walk excluded state [] [top], ∀ c ∈ f.children id,
        f.Shows excluded state c → c ∈ [] ∨ c ∈ f.walk excluded state [] [top] := by
      intro id hid c hc hshown
      obtain ⟨start, hstart, hway⟩ := (mem_walk_iff f excluded state [] [top] id).mp hid
      exact .inr ((mem_walk_iff f excluded state [] [top] c).mpr
        ⟨start, hstart, hway.of_mem_children hc ⟨List.not_mem_nil, hshown⟩⟩)
    have hfirst := eraseDups_of_nodup (walk_nodup f excluded state [] [top])
    calc f.walk excluded state [] (top :: stack)
        = f.walk excluded state [] [top] ++
          f.walk excluded state (f.walk excluded state [] [top] ++ []) stack :=
            walk_append f excluded state [] [top] stack
      _ = f.walk excluded state [] [top] ++
          (f.walk excluded state [] stack).filter (fun d => d ∉ f.walk excluded state [] [top]) := by
            rw [walk_past hpast]
      _ = ((top :: stack).flatMap fun top => f.walk excluded state [] [top]).eraseDups := by
            rw [List.flatMap_cons, List.eraseDups_append, hfirst, ih, filter_eraseDups,
              List.removeAll]
            simp

end Forest

end StreamScope
