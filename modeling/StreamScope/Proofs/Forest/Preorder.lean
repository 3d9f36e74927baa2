import StreamScope.Proofs.Forest.Coherence
import StreamScope.Proofs.Forest.Traversal
import StreamScope.Proofs.Forest.Views

/-!
The walk as a listing in pre-order: a stream comes before the listings of its
children, and one that is passed over contributes nothing, with all below it. The
walk keeps a stack and marks what it has seen. In a forest the ids on the stack
have nothing below them in common and nothing of it was seen, so no mark ever
turns the walk away, and it lists what the recursion over the children lists.
-/

namespace StreamScope.Forest

/-- The listing of ids one after the other, in pre-order. -/
inductive Listing (children : StreamId → List StreamId) (passed : StreamId → Prop) :
    List StreamId → List StreamId → Prop
  | nil : Listing children passed [] []
  | passed {id : StreamId} {rest after : List StreamId} (hidden : passed id)
      (next : Listing children passed rest after) : Listing children passed (id :: rest) after
  | listed {id : StreamId} {rest below after : List StreamId} (kept : ¬ passed id)
      (under : Listing children passed (children id) below)
      (next : Listing children passed rest after) :
      Listing children passed (id :: rest) (id :: (below ++ after))

namespace Listing

variable {children : StreamId → List StreamId} {passed : StreamId → Prop}
  {ids more listing listing' : List StreamId}

/-- The ids have no other listing. -/
theorem unique (h : Listing children passed ids listing)
    (h' : Listing children passed ids listing') : listing = listing' := by
  induction h generalizing listing' with
  | nil =>
    cases h'
    rfl
  | passed hidden _ ih =>
    cases h' with
    | passed _ next' => exact ih next'
    | listed kept' _ _ => exact absurd hidden kept'
  | listed kept _ _ ihUnder ihNext =>
    cases h' with
    | passed hidden' _ => exact absurd hidden' kept
    | listed _ under' next' => rw [ihUnder under', ihNext next']

/-- A stream without children is listed alone. -/
theorem leaf {id : StreamId} (kept : ¬ passed id) (alone : children id = [])
    (next : Listing children passed ids listing) :
    Listing children passed (id :: ids) (id :: listing) := by
  have hunder : Listing children passed (children id) [] := by
    rw [alone]
    exact .nil
  exact .listed kept hunder next

theorem exists_of_append (h : Listing children passed (ids ++ more) listing) :
    ∃ first last, listing = first ++ last ∧ Listing children passed ids first ∧
      Listing children passed more last := by
  induction ids generalizing listing with
  | nil => exact ⟨[], listing, rfl, .nil, h⟩
  | cons id ids ih =>
    cases h with
    | passed hidden next =>
      obtain ⟨first, last, rfl, hfirst, hlast⟩ := ih next
      exact ⟨first, last, rfl, .passed hidden hfirst, hlast⟩
    | @listed _ _ below _ kept under next =>
      obtain ⟨first, last, rfl, hfirst, hlast⟩ := ih next
      exact ⟨id :: (below ++ first), last, by simp, .listed kept under hfirst, hlast⟩

end Listing

variable {f : Forest} {seen stack : List StreamId} {state : StreamState} {a b c d p : StreamId}

/-! ## The way up past a child -/

theorem wayUp_of_mem_children (h : c ∈ f.children p) : f.wayUp c = c :: f.wayUp p := by
  obtain ⟨s, hs, hp, rfl⟩ := (mem_children_iff f p c).mp h
  have hlisted : p ∈ f.ids := f.grown.parent_listed s hs p hp
  exact wayUp_of_chain (.link (find?_id hs) hp (chain_wayUp hlisted))

theorem mem_ids_of_mem_children (h : c ∈ f.children p) : c ∈ f.ids := by
  obtain ⟨s, hs, -, rfl⟩ := (mem_children_iff f p c).mp h
  exact id_mem_ids hs

/-- No stream lies below a child of its own. -/
theorem notMem_wayUp_of_mem_children (h : c ∈ f.children p) : c ∉ f.wayUp p := by
  have hchain := chain_wayUp (mem_ids_of_mem_children h)
  rw [wayUp_of_mem_children h] at hchain
  exact hchain.notMem_tail

theorem mem_wayUp_trans (hab : a ∈ f.wayUp b) (hbd : b ∈ f.wayUp d) : a ∈ f.wayUp d := by
  rw [mem_wayUp_iff] at hab hbd ⊢
  exact hab.trans hbd

theorem mem_wayUp_of_child (hc : c ∈ f.children p) (hd : c ∈ f.wayUp d) : p ∈ f.wayUp d := by
  obtain ⟨s, hs, hp, -⟩ := (mem_children_iff f p c).mp hc
  have hself := self_mem_wayUp (f.grown.parent_listed s hs p hp)
  have hparent : p ∈ f.wayUp c := by
    rw [wayUp_of_mem_children hc]
    exact List.mem_cons_of_mem c hself
  exact mem_wayUp_trans hparent hd

/-- Of two streams above a third one lies above the other. -/
theorem mem_wayUp_or (ha : a ∈ f.wayUp d) (hb : b ∈ f.wayUp d) :
    a ∈ f.wayUp b ∨ b ∈ f.wayUp a := by
  obtain ⟨below, above, hway⟩ := List.append_of_mem ha
  have hafter : f.wayUp a = a :: above := wayUp_of_append hway
  rw [hway] at hb
  rcases List.mem_append.mp hb with hbelow | habove
  · obtain ⟨before, between, rfl⟩ := List.append_of_mem hbelow
    rw [List.append_assoc, List.cons_append] at hway
    exact .inl (by simp [wayUp_of_append hway])
  · exact .inr (hafter ▸ habove)

/-- Streams that do not lie above each other have nothing below them in common. -/
theorem notMem_wayUp_of_incomparable (hab : a ∉ f.wayUp b) (hba : b ∉ f.wayUp a)
    (had : a ∈ f.wayUp d) : b ∉ f.wayUp d := fun hbd =>
  (mem_wayUp_or had hbd).elim hab hba

theorem notMem_wayUp_of_siblings (ha : a ∈ f.children p) (hb : b ∈ f.children p)
    (hne : a ≠ b) : a ∉ f.wayUp b := by
  rw [wayUp_of_mem_children hb]
  exact List.not_mem_cons_of_ne_of_not_mem hne (notMem_wayUp_of_mem_children ha)

theorem notMem_wayUp_of_mem_roots (hb : b ∈ f.roots) (hne : a ≠ b) : a ∉ f.wayUp b := by
  rw [wayUp_of_chain (chain_of_mem_roots hb)]
  exact mt List.mem_singleton.mp hne

/-! ## The stack of a walk -/

/-- Listed ids that have nothing below them in common, and none of it was seen. -/
structure Apart (f : Forest) (seen stack : List StreamId) : Prop where
  listed : ∀ a ∈ stack, a ∈ f.ids
  unseen : ∀ a ∈ stack, ∀ d ∈ seen, a ∉ f.wayUp d
  disjoint : stack.Pairwise fun a b => ∀ d, a ∈ f.wayUp d → b ∉ f.wayUp d

namespace Apart

theorem singleton (h : a ∈ f.ids) : f.Apart [] [a] where
  listed := by simpa using h
  unseen := by simp
  disjoint := List.pairwise_singleton _ a

theorem roots (f : Forest) : f.Apart [] f.roots where
  listed a ha := by
    obtain ⟨s, hs, -, rfl⟩ := (mem_roots_iff f a).mp ha
    exact id_mem_ids hs
  unseen := by simp
  disjoint := by
    have honce : f.roots.Nodup := f.grown.nodup.sublist (List.filter_sublist.map _)
    refine honce.imp_of_mem fun ha hb hne d => notMem_wayUp_of_incomparable ?_ ?_
    · exact notMem_wayUp_of_mem_roots hb hne
    · exact notMem_wayUp_of_mem_roots ha hne.symm

theorem notMem_seen (h : f.Apart seen (a :: stack)) : a ∉ seen := fun hseen =>
  h.unseen a List.mem_cons_self a hseen (self_mem_wayUp (h.listed a List.mem_cons_self))

theorem tail (h : f.Apart seen (a :: stack)) : f.Apart seen stack where
  listed b hb := h.listed b (List.mem_cons_of_mem a hb)
  unseen b hb := h.unseen b (List.mem_cons_of_mem a hb)
  disjoint := (List.pairwise_cons.mp h.disjoint).2

/-- A step of the walk: a stream is marked and its children take its place. -/
theorem step (h : f.Apart seen (a :: stack)) :
    f.Apart (a :: seen) (f.children a ++ stack) where
  listed b hb := by
    rcases List.mem_append.mp hb with hchild | hrest
    · exact mem_ids_of_mem_children hchild
    · exact h.tail.listed b hrest
  unseen b hb d hd hbelow := by
    rcases List.mem_append.mp hb with hchild | hrest
    · rcases List.mem_cons.mp hd with rfl | hd
      · exact notMem_wayUp_of_mem_children hchild hbelow
      · exact h.unseen a List.mem_cons_self d hd (mem_wayUp_of_child hchild hbelow)
    · rcases List.mem_cons.mp hd with rfl | hd
      · have hself := self_mem_wayUp (h.listed d List.mem_cons_self)
        exact (List.pairwise_cons.mp h.disjoint).1 b hrest d hself hbelow
      · exact h.tail.unseen b hrest d hd hbelow
  disjoint := by
    refine List.pairwise_append.mpr ⟨?_, h.tail.disjoint, ?_⟩
    · have honce : (f.children a).Nodup := f.grown.nodup.sublist (List.filter_sublist.map _)
      refine honce.imp_of_mem fun hb hc hne d => notMem_wayUp_of_incomparable ?_ ?_
      · exact notMem_wayUp_of_siblings hb hc hne
      · exact notMem_wayUp_of_siblings hc hb hne.symm
    · intro c hc b hb d hcd
      exact (List.pairwise_cons.mp h.disjoint).1 b hb d (mem_wayUp_of_child hc hcd)

/-- From a stack of ids with nothing in common the walk lists them in pre-order. -/
theorem preorder_walk {excluded : List StreamId} (h : f.Apart seen stack) :
    Listing f.children (f.Prunes excluded state) stack (f.walk excluded state seen stack) := by
  fun_induction walk f excluded state seen stack with
  | case1 => exact .nil
  | case2 seen id stack hseen => exact absurd hseen h.notMem_seen
  | case3 seen id stack hseen hv ih =>
    have hid := h.listed id List.mem_cons_self
    have hpassed := not_not.mp (mt (shows_iff_not_prunes hid).mpr (not_shows_of_visible? hv))
    exact .passed hpassed (ih h.tail)
  | case4 seen id stack hseen s hv ih =>
    have hid := h.listed id List.mem_cons_self
    obtain ⟨below, after, hwalk, hbelow, hafter⟩ := (ih h.step).exists_of_append
    rw [hwalk]
    exact .listed ((shows_iff_not_prunes hid).mp (shows_of_visible? hv)) hbelow hafter

end Apart

theorem head?_walk {excluded : List StreamId} (f : Forest) (state : StreamState) (id : StreamId)
    (h : f.walk excluded state [] [id] ≠ []) :
    (f.walk excluded state [] [id]).head? = some id := by
  by_cases hshown : f.Shows excluded state id
  · rw [walk_cons_of_shows List.not_mem_nil hshown, List.head?_cons]
  · rw [walk_cons_of_not_shows hshown, walk] at h
    exact absurd rfl h

namespace Index

variable {i : Index}

/-- Where the expansion of an id starts: at the stream, or at all roots. -/
def seeds (i : Index) (id : StreamId) : List StreamId :=
  if id = .wildcard then i.roots else [id]

theorem expand_eq_walk (i : Index) {id : StreamId} (excluded : List StreamId)
    (state : StreamState) (hid : id = .wildcard ∨ id ∈ i.ids) :
    i.expand id excluded state = some (i.walk excluded state [] (i.seeds id)) := by
  unfold expand seeds
  split
  case isTrue => rfl
  case isFalse hw => rw [if_pos (by simpa [contains, hw] using hid)]

theorem Holds.apart_seeds (h : i.Holds f) {id : StreamId} (hid : id = .wildcard ∨ id ∈ i.ids) :
    f.Apart [] (i.seeds id) := by
  unfold seeds
  split
  case isTrue => exact h.roots ▸ .roots f
  case isFalse hw => exact .singleton (h.ids ▸ hid.resolve_left hw)

/-- Whatever was asked of the tables before, the walk from a stream, or from the roots, lists in
pre-order: the recursive listing over the streams and their children in the order of insertion,
without what is passed over. No stream comes twice, and a single seed comes first. -/
theorem walk_lists_preorder {streams : List Stream} (h : ofStreams streams = .ok i)
    (calls : List Call) : ∃ f : Forest, (i.run calls).Holds f ∧
      f.ids = i.ids ++ i.inserted calls ∧
      (∃ g, Forest.ofStreams streams = .ok g ∧ f = g.run calls) ∧
      ∀ excluded state id, id = .wildcard ∨ id ∈ (i.run calls).ids →
        ∃ listing, (i.run calls).walk excluded state [] ((i.run calls).seeds id) = listing ∧
          (i.run calls).expand id excluded state = some listing ∧
          (∀ out, Listing f.children (f.Prunes excluded state) ((i.run calls).seeds id) out ↔
            out = listing) ∧
          listing.Nodup ∧ (id ≠ .wildcard → listing ≠ [] → listing.head? = some id) := by
  obtain ⟨g, hbuilt, hg⟩ := exists_holds_of_ofStreams h
  obtain ⟨hf, hids⟩ := hg.run calls
  refine ⟨g.run calls, hf, hf.ids.symm.trans hids, ⟨g, hbuilt, rfl⟩, fun excluded state id hid =>
    ⟨_, rfl, expand_eq_walk _ _ _ hid, ?_, ?_, ?_⟩⟩
  · have hlisting : Listing (g.run calls).children ((g.run calls).Prunes excluded state)
        ((i.run calls).seeds id) ((g.run calls).walk excluded state [] ((i.run calls).seeds id)) :=
      (hf.apart_seeds hid).preorder_walk
    rw [← hf.walk] at hlisting
    exact fun out => ⟨fun hout => hout.unique hlisting, fun hout => hout ▸ hlisting⟩
  · rw [hf.walk]
    exact (g.run calls).walk_nodup excluded state [] _
  · intro hw
    rw [hf.walk, seeds, if_neg hw]
    exact (g.run calls).head?_walk state id

/-- A page, which is trashed, comes below the book, and a map beside it. -/
def libraryCalls : List Call :=
  [.insert ⟨⟨"page"⟩, some ⟨"book"⟩, false⟩, .insert ⟨⟨"map"⟩, some ⟨"shelf"⟩, false⟩,
    .setTrashed ⟨"page"⟩ true]

theorem library_children (h : (shelfIndex.run libraryCalls).Holds f) :
    f.children ⟨"shelf"⟩ = [⟨"book"⟩, ⟨"map"⟩] ∧ f.children ⟨"book"⟩ = [⟨"page"⟩] ∧
      f.children ⟨"page"⟩ = [] ∧ f.children ⟨"map"⟩ = [] :=
  ⟨(h.children _).symm.trans rfl, (h.children _).symm.trans rfl, (h.children _).symm.trans rfl,
    (h.children _).symm.trans rfl⟩

theorem library_prunes_iff (h : (shelfIndex.run libraryCalls).Holds f) (state : StreamState)
    (y : StreamId) : f.Prunes [] state y ↔ state = .live ∧ y = ⟨"page"⟩ := by
  have hstreams : f.streams = [⟨⟨"shelf"⟩, none, false⟩, ⟨⟨"book"⟩, some ⟨"shelf"⟩, false⟩,
      ⟨⟨"page"⟩, some ⟨"book"⟩, true⟩, ⟨⟨"map"⟩, some ⟨"shelf"⟩, false⟩] := h.streams.symm
  simp [Prunes, hstreams, @eq_comm _ y]

/-- The book, listed with what its page contributes, and then the map. -/
theorem library_listing (h : (shelfIndex.run libraryCalls).Holds f) {state : StreamState}
    {page : List StreamId}
    (hpage : Listing f.children (f.Prunes [] state) [⟨"page"⟩] page) :
    Listing f.children (f.Prunes [] state) [⟨"shelf"⟩]
      ([⟨"shelf"⟩, ⟨"book"⟩] ++ page ++ [⟨"map"⟩]) := by
  obtain ⟨hshelf, hbook, -, hmap⟩ := library_children h
  have hkept {y : StreamId} (hy : y ≠ ⟨"page"⟩) : ¬ f.Prunes [] state y := fun hpruned =>
    hy ((library_prunes_iff h state y).mp hpruned).2
  have hlast : Listing f.children (f.Prunes [] state) [⟨"map"⟩] [⟨"map"⟩] :=
    .leaf (hkept (by decide)) hmap .nil
  have hboth : Listing f.children (f.Prunes [] state) [⟨"book"⟩, ⟨"map"⟩]
      (⟨"book"⟩ :: (page ++ [⟨"map"⟩])) := .listed (hkept (by decide)) (hbook ▸ hpage) hlast
  have hall := Listing.listed (hkept (by decide)) (hshelf ▸ hboth) .nil
  simpa using hall

theorem walk_lists_preorder_library : ofStreams shelfStreams = .ok shelfIndex ∧
    ⟨"shelf"⟩ ∈ (shelfIndex.run libraryCalls).ids ∧
    (∃ f : Forest, (shelfIndex.run libraryCalls).Holds f ∧
      (∀ out, Listing f.children (f.Prunes [] .all) [⟨"shelf"⟩] out ↔
        out = [⟨"shelf"⟩, ⟨"book"⟩, ⟨"page"⟩, ⟨"map"⟩]) ∧
      ∀ out, Listing f.children (f.Prunes [] .live) [⟨"shelf"⟩] out ↔
        out = [⟨"shelf"⟩, ⟨"book"⟩, ⟨"map"⟩]) ∧
    (shelfIndex.run libraryCalls).expand ⟨"shelf"⟩ [] .all =
      some [⟨"shelf"⟩, ⟨"book"⟩, ⟨"page"⟩, ⟨"map"⟩] ∧
    (shelfIndex.run libraryCalls).expand ⟨"shelf"⟩ [] .live =
      some [⟨"shelf"⟩, ⟨"book"⟩, ⟨"map"⟩] := by
  have hin : ⟨"shelf"⟩ ∈ (shelfIndex.run libraryCalls).ids := by decide
  obtain ⟨f, hf, -, -, hwalk⟩ := walk_lists_preorder shelf_ofStreams libraryCalls
  obtain ⟨all, -, hexpand, hall, -⟩ := hwalk [] .all ⟨"shelf"⟩ (.inr hin)
  obtain ⟨live, -, hexpandLive, hlive, -⟩ := hwalk [] .live ⟨"shelf"⟩ (.inr hin)
  have hpage : Listing f.children (f.Prunes [] .all) [⟨"page"⟩] [⟨"page"⟩] := by
    have hkept : ¬ f.Prunes [] .all ⟨"page"⟩ := by simp [library_prunes_iff hf]
    exact .leaf hkept (library_children hf).2.2.1 .nil
  have htrashed : f.Prunes [] .live ⟨"page"⟩ := (library_prunes_iff hf _ _).mpr ⟨rfl, rfl⟩
  obtain rfl := (hall _).mp (library_listing hf hpage)
  obtain rfl := (hlive _).mp (library_listing hf (.passed htrashed .nil))
  exact ⟨shelf_ofStreams, hin, ⟨f, hf, hall, hlive⟩, hexpand, hexpandLive⟩

end Index

end StreamScope.Forest
