import StreamScope.Proofs.Forest.Ancestry

/-!
The way up from a stream: the stream, its parent, and so on to a root. A stream
descends from the streams on its way up, as far as the way is open, and the
nearest of some ids is the one that the way up meets first. Where inclusions and
exclusions share no id, a stream lies below an inclusion and past no exclusion
exactly if the nearest of all of them is an inclusion.
-/

namespace StreamScope.Forest

open Lineage

variable {f : Forest} {isOpen : StreamId → Prop} {excluded ids : List StreamId}
  {state : StreamState} {top d y m : StreamId}

/-- The stream and those above it, nearest first. An unknown id has no way up. -/
def wayUp (f : Forest) (d : StreamId) : List StreamId :=
  match Lineage.ancestors f.streams d with
  | .ok (some chain) => chain
  | _ => []

/-- The first of the ids on the way up from a stream. -/
def nearest? (f : Forest) (ids : List StreamId) (d : StreamId) : Option StreamId :=
  (f.wayUp d).find? fun y => y ∈ ids

theorem wayUp_of_chain {chain : List StreamId} (h : Chain f.streams d chain) :
    f.wayUp d = chain := by
  rw [wayUp, (ancestors_eq_ok_some_iff f.streams d chain).mpr h]

theorem chain_wayUp (h : d ∈ f.ids) : Chain f.streams d (f.wayUp d) := by
  obtain ⟨chain, hchain⟩ := exists_chain h
  rwa [wayUp_of_chain hchain]

theorem wayUp_of_notMem_ids (h : d ∉ f.ids) : f.wayUp d = [] := by
  have hfind : Lineage.find? f.streams d = none := by
    cases hs : Lineage.find? f.streams d with
    | none => rfl
    | some s =>
      obtain ⟨hmem, rfl⟩ := mem_of_find? hs
      exact absurd (id_mem_ids hmem) h
  simp [wayUp, Lineage.ancestors, hfind]

theorem mem_ids_of_wayUp_ne_nil (h : f.wayUp d ≠ []) : d ∈ f.ids := by
  by_contra hout
  exact h (wayUp_of_notMem_ids hout)

theorem mem_ids_of_mem_wayUp (h : y ∈ f.wayUp d) : y ∈ f.ids := by
  have hd := mem_ids_of_wayUp_ne_nil (List.ne_nil_of_mem h)
  obtain ⟨_, _, _, hchain⟩ := (chain_wayUp hd).suffix h
  exact mem_ids_of_chain hchain

theorem self_mem_wayUp (h : d ∈ f.ids) : d ∈ f.wayUp d := by
  obtain ⟨above, habove⟩ := (chain_wayUp h).eq_cons
  simp [habove]

/-- A stream descends from the streams on its way up, as far as the way is open. -/
theorem descends_iff_wayUp (f : Forest) (isOpen : StreamId → Prop) (top d : StreamId) :
    f.Descends isOpen top d ↔ ∃ between above, f.wayUp d = between ++ top :: above ∧
      ∀ x ∈ between ++ [top], isOpen x := by
  rw [descends_iff]
  refine exists_congr fun between => exists_congr fun above => and_congr_left fun _ => ?_
  constructor
  · exact wayUp_of_chain
  · intro hway
    have hd : d ∈ f.ids := mem_ids_of_wayUp_ne_nil (by simp [hway])
    exact hway ▸ chain_wayUp hd

/-- What follows a stream on a way up is the rest of its own way up. -/
theorem wayUp_of_append {below above : List StreamId} (h : f.wayUp d = below ++ y :: above) :
    f.wayUp y = y :: above := by
  have hd : d ∈ f.ids := mem_ids_of_wayUp_ne_nil (by simp [h])
  exact wayUp_of_chain (h ▸ chain_wayUp hd).drop

/-- Without anything in the way a stream descends from all streams on its way up. -/
theorem descends_of_mem_wayUp (h : y ∈ f.wayUp d) (hopen : ∀ x ∈ f.wayUp d, isOpen x) :
    f.Descends isOpen y d := by
  obtain ⟨between, above, hway⟩ := List.append_of_mem h
  rw [descends_iff_wayUp]
  refine ⟨between, above, hway, fun x hx => hopen x ?_⟩
  rw [hway]
  rcases List.mem_append.mp hx with hx | hx
  · exact List.mem_append_left _ hx
  · exact List.mem_append_right _ (List.mem_singleton.mp hx ▸ List.mem_cons_self)

theorem Descends.mem_wayUp (h : f.Descends isOpen top d) : top ∈ f.wayUp d := by
  obtain ⟨between, above, hway, -⟩ := (descends_iff_wayUp f isOpen top d).mp h
  simp [hway]

theorem descends_self_iff (hd : d ∈ f.ids) : f.Descends isOpen d d ↔ isOpen d :=
  ⟨Descends.opened, .top hd⟩

theorem mem_wayUp_iff (f : Forest) (y d : StreamId) :
    y ∈ f.wayUp d ↔ f.Descends (fun _ => True) y d :=
  ⟨fun h => descends_of_mem_wayUp h fun _ _ => trivial, Descends.mem_wayUp⟩

/-- With one more stream closed a way down stays open exactly if it does not pass the stream. -/
theorem descends_past_iff (f : Forest) (isOpen : StreamId → Prop) (y top d : StreamId) :
    f.Descends (fun x => x ≠ y ∧ isOpen x) top d ↔
      f.Descends isOpen top d ∧ ¬ (top ∈ f.wayUp y ∧ y ∈ f.wayUp d) := by
  constructor
  · intro h
    refine ⟨h.mono fun _ hx => hx.2, ?_⟩
    rintro ⟨htop, hy⟩
    obtain ⟨between, above, hway, hopen⟩ := (descends_iff_wayUp f _ top d).mp h
    have hafter : y ∈ above := by
      rw [hway] at hy
      rcases List.mem_append.mp hy with hbetween | hy
      · exact absurd rfl (hopen y (List.mem_append_left _ hbetween)).1
      · rcases List.mem_cons.mp hy with rfl | hafter
        · exact absurd rfl (hopen y (List.mem_append_right _ List.mem_cons_self)).1
        · exact hafter
    -- the stream stands above the top, so the top cannot stand above the stream
    have hchain := wayUp_of_append hway ▸ chain_wayUp h.top_mem_ids
    obtain ⟨before, after, rfl⟩ := List.append_of_mem hafter
    have hsplit : f.wayUp d = (between ++ top :: before) ++ y :: after := by simp [hway]
    rw [wayUp_of_append hsplit] at htop
    exact hchain.notMem_tail (List.mem_append_right _ htop)
  · intro hpast
    obtain ⟨h, hnot⟩ := hpast
    obtain ⟨between, above, hway, hopen⟩ := (descends_iff_wayUp f isOpen top d).mp h
    refine (descends_iff_wayUp f _ top d).mpr
      ⟨between, above, hway, fun x hx => ⟨?_, hopen x hx⟩⟩
    rintro rfl
    apply hnot
    rw [hway]
    rcases List.mem_append.mp hx with hbetween | htop
    · obtain ⟨before, after, rfl⟩ := List.append_of_mem hbetween
      have hsplit : f.wayUp d = before ++ x :: (after ++ top :: above) := by simp [hway]
      exact ⟨by simp [wayUp_of_append hsplit], by simp⟩
    · obtain rfl := List.mem_singleton.mp htop
      exact ⟨self_mem_wayUp h.top_mem_ids, by simp⟩

/-- Parents enter a forest before their children, so the way up ends at a root. -/
theorem Grown.parent_listed {streams : List Stream} (h : Grown streams) :
    ∀ s ∈ streams, ∀ p, s.parent = some p → p ∈ streams.map Stream.id := by
  induction h with
  | empty => simp
  | insert _ _ _ rooted ih =>
    intro s hs p hp
    rw [List.map_append]
    rcases List.mem_append.mp hs with hs | hs
    · exact List.mem_append_left _ (ih s hs p hp)
    · obtain rfl := List.mem_singleton.mp hs
      exact List.mem_append_left _ (rooted p hp)

theorem exists_root_of_chain {chain : List StreamId} (h : Chain f.streams d chain) :
    ∃ below top, chain = below ++ [top] ∧ top ∈ f.roots := by
  induction h with
  | @last id s found unlinked =>
    obtain ⟨hs, rfl⟩ := mem_of_find? found
    refine ⟨[], s.id, rfl, (mem_roots_iff f s.id).mpr ⟨s, hs, ?_, rfl⟩⟩
    cases hp : s.parent with
    | none => rfl
    | some p =>
      obtain ⟨t, ht, rfl⟩ := List.mem_map.mp (f.grown.parent_listed s hs p hp)
      have hfound : Lineage.find? f.streams t.id = some t := find?_id ht
      rw [unlinked t.id hp] at hfound
      cases hfound
  | @link id parent s above found linked rest ih =>
    obtain ⟨below, top, rfl, htop⟩ := ih
    exact ⟨id :: below, top, rfl, htop⟩

/-- What a walk from the roots meets: every stream with an open way up. -/
theorem descends_from_root_iff (f : Forest) (isOpen : StreamId → Prop) (d : StreamId) :
    (∃ top ∈ f.roots, f.Descends isOpen top d) ↔ d ∈ f.ids ∧ ∀ y ∈ f.wayUp d, isOpen y := by
  constructor
  · intro hbelow
    obtain ⟨top, htop, hway⟩ := hbelow
    refine ⟨hway.mem_ids, ?_⟩
    obtain ⟨between, above, heq, hopen⟩ := (descends_iff_wayUp f isOpen top d).mp hway
    -- nothing stands above a root
    have hchain := heq ▸ chain_wayUp hway.mem_ids
    have habove := (hchain.drop).unique (chain_of_mem_roots htop)
    rw [(List.cons.inj habove).2] at heq
    rwa [heq]
  · intro hopen
    obtain ⟨hd, hopen⟩ := hopen
    obtain ⟨below, top, heq, htop⟩ := exists_root_of_chain (chain_wayUp hd)
    exact ⟨top, htop, descends_of_mem_wayUp (by simp [heq]) hopen⟩

/-- Where trashed streams are in scope, all that is listed shows unless it is excluded. -/
theorem shows_iff_notMem (hstate : state.includesTrashed = true) (hy : y ∈ f.ids) :
    f.Shows excluded state y ↔ y ∉ excluded := by
  obtain ⟨s, hs, rfl⟩ := (mem_ids_iff f y).mp hy
  constructor
  · exact fun hshows => hshows.1
  · exact fun hout => ⟨hout, s, hs, rfl, fun _ => hstate⟩

theorem descends_shows_iff (hstate : state.includesTrashed = true) :
    f.Descends (f.Shows excluded state) top d ↔ f.Descends (fun y => y ∉ excluded) top d := by
  constructor
  · exact fun h => h.mono fun _ hshows => hshows.1
  · intro h
    obtain ⟨between, above, hway, hopen⟩ := (descends_iff_wayUp f _ top d).mp h
    refine (descends_iff_wayUp f _ top d).mpr ⟨between, above, hway, fun x hx => ?_⟩
    have hx' : x ∈ f.wayUp d := by
      rw [hway]
      simp only [List.mem_append, List.mem_cons, List.not_mem_nil, or_false] at hx ⊢
      exact hx.imp id .inl
    exact (shows_iff_notMem hstate (mem_ids_of_mem_wayUp hx')).mpr (hopen x hx)

theorem nearest?_eq_some_iff (f : Forest) (ids : List StreamId) (d m : StreamId) :
    f.nearest? ids d = some m ↔ m ∈ ids ∧ ∃ below above, f.wayUp d = below ++ m :: above ∧
      ∀ y ∈ below, y ∉ ids := by
  simp [nearest?, List.find?_eq_some_iff_append]

theorem nearest?_eq_none_iff (f : Forest) (ids : List StreamId) (d : StreamId) :
    f.nearest? ids d = none ↔ ∀ y ∈ f.wayUp d, y ∉ ids := by
  simp [nearest?]

/-- The order in which ids are given does not matter. -/
theorem nearest?_append_comm (f : Forest) (ids more : List StreamId) (d : StreamId) :
    f.nearest? (ids ++ more) d = f.nearest? (more ++ ids) d := by
  simp only [nearest?, List.mem_append, or_comm]

/-- A stream lies below an inclusion and past no exclusion if its nearest mention includes it. -/
theorem exists_descends_iff_nearest {seeds : List StreamId}
    (hdisjoint : ∀ y ∈ seeds, y ∉ excluded) (d : StreamId) :
    (∃ seed ∈ seeds, f.Descends (fun y => y ∉ excluded) seed d) ↔
      ∃ m ∈ seeds, f.nearest? (seeds ++ excluded) d = some m := by
  constructor
  · intro hbelow
    obtain ⟨seed, hseed, hway⟩ := hbelow
    obtain ⟨between, above, heq, hopen⟩ := (descends_iff_wayUp f _ seed d).mp hway
    unfold nearest?
    rw [heq, List.find?_append]
    cases hnear : between.find? fun y => y ∈ seeds ++ excluded with
    | none => exact ⟨seed, hseed, by simp [hseed]⟩
    | some m =>
      have hmem : m ∈ seeds ++ excluded := by simpa using List.find?_some hnear
      have hout := hopen m (List.mem_append_left _ (List.mem_of_find?_eq_some hnear))
      exact ⟨m, (List.mem_append.mp hmem).resolve_right hout, rfl⟩
  · intro hnear
    obtain ⟨m, hm, hnear⟩ := hnear
    obtain ⟨-, below, above, heq, hfree⟩ := (nearest?_eq_some_iff f _ d m).mp hnear
    refine ⟨m, hm, (descends_iff_wayUp f _ m d).mpr ⟨below, above, heq, fun x hx => ?_⟩⟩
    rcases List.mem_append.mp hx with hx | hx
    · exact fun hin => hfree x hx (List.mem_append_right _ hin)
    · obtain rfl := List.mem_singleton.mp hx
      exact hdisjoint x hm

end StreamScope.Forest
