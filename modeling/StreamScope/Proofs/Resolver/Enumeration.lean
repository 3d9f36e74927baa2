import StreamScope.Proofs.Forest.Traversal
import StreamScope.Proofs.Resolver.Wildcard

/-!
The wildcard of a caller who may read the whole store stands for the list of the
roots of the store that are not forbidden. It is expanded by one walk from all
roots, and the list by one walk from each of its ids: these join to the same
walk, in which the forbidden roots have no part. Excluded ids are expanded past
the listed roots or past nothing, but a way down from one of them meets no root.
-/

namespace StreamScope

open Outcome

namespace Forest

variable {f : Forest} {spared : List StreamId} {state : StreamState} {isOpen : StreamId → Prop}
  {top d : StreamId}

theorem Descends.eq_of_mem_roots (h : f.Descends isOpen top d) (hd : d ∈ f.roots) : top = d := by
  have hway := h.mem_wayUp
  rw [wayUp_of_chain (chain_of_mem_roots hd)] at hway
  exact List.mem_singleton.mp hway

/-- Roots that are spared make no difference to the expansion of another id. -/
theorem expand_spared (hroots : ∀ d ∈ spared, d ∈ f.roots) (htop : top ∉ spared)
    (hw : top ≠ .wildcard) : f.expand top spared state = f.expand top [] state := by
  have hagree : Agree f f [] spared state (f.Descends (fun _ => True) top) := {
    closed := fun _ hd _ hc => hd.of_mem_children hc trivial
    children := fun _ _ => rfl
    shows := by
      intro d hd
      have hout : d ∉ spared := fun hin => htop (hd.eq_of_mem_roots (hroots d hin) ▸ hin)
      simp [Shows, hout] }
  exact hagree.expand_eq (fun hlisted => .top hlisted trivial) Iff.rfl hw

end Forest

namespace Expansion

variable {e : Expansion} {store : StoreId} {f : Forest} {excluded seeds : List StreamId}

/-- Where each id has a stream, none is missing. -/
theorem included_of_reach {streams : StreamId → List StreamId}
    (h : ∀ seed ∈ seeds, e.reach store excluded seed = .ok (some (streams seed))) :
    e.included store excluded seeds = .ok (union (seeds.map streams), []) := by
  refine bind_eq_ok_iff.mpr ⟨seeds.map fun seed => (seed, some (streams seed)),
    (mapM_eq_ok_iff _ _ _).mpr ?_, ?_⟩
  · rw [List.forall₂_map_right_iff, List.forall₂_same]
    intro seed hseed
    rw [h seed hseed]
    rfl
  · refine congrArg Except.ok (Prod.ext ?_ ?_)
    · simp
    · simp

/-- The streams of listed ids are those of one walk from all of them. -/
theorem included_eq (hf : e.registry.Holds store f)
    (hseeds : ∀ seed ∈ seeds, e.conventions.isNoExpand seed = false ∧ seed ∈ f.ids) :
    e.included store excluded seeds = .ok (f.walk excluded e.state [] seeds, []) := by
  rw [Forest.walk_eq_eraseDups, List.flatMap_def]
  refine included_of_reach fun seed hseed => ?_
  obtain ⟨hm, hlisted⟩ := hseeds seed hseed
  have hw : seed ≠ .wildcard := fun heq => f.wildcard_notMem_ids (heq ▸ hlisted)
  simp [reach, hm, hf.expand_eq, Forest.expand, hw, Forest.contains, hlisted]

/-- Those of the wildcard are those of one walk from all roots. -/
theorem included_wildcard (hf : e.registry.Holds store f) (excluded : List StreamId) :
    e.included store excluded [.wildcard] = .ok (f.walk excluded e.state [] f.roots, []) := by
  have hreach : ∀ seed ∈ [StreamId.wildcard],
      e.reach store excluded seed = .ok (some (f.walk excluded e.state [] f.roots)) := by
    simp [reach, e.conventions.isNoExpand_wildcard, hf.expand_eq, Forest.expand]
  rw [included_of_reach hreach, List.map_singleton, union, List.flatten_singleton,
    eraseDups_of_nodup (f.walk_nodup excluded e.state [] f.roots)]

/-- Excluded ids past which a walk meets no root are expanded as if no root were spared. -/
theorem excludedIds_spared {spared : List StreamId} (hf : e.registry.Holds store f)
    (hroots : ∀ d ∈ spared, d ∈ f.roots)
    (hseeds : ∀ seed ∈ seeds, seed ∉ spared ∧ seed ≠ .wildcard) :
    e.excludedIds store spared seeds = e.excludedIds store [] seeds := by
  have hreach : ∀ seed ∈ seeds, e.reach store spared seed = e.reach store [] seed := by
    intro seed hseed
    obtain ⟨hout, hw⟩ := hseeds seed hseed
    simp only [reach, hf.expand_eq, Forest.expand_spared hroots hout hw]
  unfold excludedIds
  rw [mapM_congr fun seed hseed => by rw [hreach seed hseed]]

end Expansion

namespace Permitted

variable {k : Conventions} {caller : Caller} {r : Registry} {store : StoreId} {f : Forest}

/-- The roots of the store, without the forbidden ones. -/
def openRoots (caller : Caller) (f : Forest) (store : StoreId) : List StreamId :=
  f.roots.filter fun id => id ∉ caller.forbidden store

theorem mem_openRoots_iff (caller : Caller) (f : Forest) (store : StoreId) (id : StreamId) :
    id ∈ openRoots caller f store ↔ id ∈ f.roots ∧ id ∉ caller.forbidden store := by
  simp [openRoots]

theorem mem_ids_of_openRoots {id : StreamId} (h : id ∈ openRoots caller f store) : id ∈ f.ids :=
  Forest.mem_ids_of_chain
    (Forest.chain_of_mem_roots ((mem_openRoots_iff caller f store id).mp h).1)

theorem canRead_of_openRoots (hf : r.Holds store f) (hblanket : caller.hasBlanketRead store = true)
    {id : StreamId} (h : id ∈ openRoots caller f store) :
    caller.canRead r store id = .ok true := by
  obtain ⟨hroot, hout⟩ := (mem_openRoots_iff caller f store id).mp h
  cases hp : caller.access.isPersonal with
  | true => simp [Caller.canRead, hp]
  | false => exact Caller.canRead_of_mem_roots hp hf hblanket hroot hout

theorem permit_openRoots (hf : r.Holds store f) (hblanket : caller.hasBlanketRead store = true)
    (hmarks : ∀ id ∈ f.ids, k.isNoExpand id = false) :
    permit k caller r (.ofIds store (openRoots caller f store)) =
      .ok (restrict caller (.ofIds store (openRoots caller f store)), []) := by
  refine permit_unmarked_eq_ok hf rfl fun id hid => ?_
  have hroot : id ∈ openRoots caller f store := by
    simpa [QueryClause.ofIds, QueryClause.anyIds, Inclusion.listed] using hid
  have hlisted := mem_ids_of_openRoots hroot
  exact ⟨hlisted, hmarks id hlisted, canRead_of_openRoots hf hblanket hroot⟩

section Expanding

variable {e : Expansion}

theorem mem_pruned_of_forbidden (hmarks : ∀ id ∈ f.ids, e.conventions.isNoExpand id = false)
    {id : StreamId} (hid : id ∈ f.ids) (h : id ∈ caller.forbidden store) :
    id ∈ e.pruned (restrict caller (.wildcard store)) :=
  List.mem_map.mpr ⟨id, (mem_not_restrict_of_nil caller rfl id).mpr h,
    Marker.strip_of_not_isMarked (hmarks id hid)⟩

theorem included_openRoots (hf : e.registry.Holds store f)
    (hmarks : ∀ id ∈ f.ids, e.conventions.isNoExpand id = false) {excluded : List StreamId}
    (hexcluded : ∀ id ∈ f.ids, id ∈ caller.forbidden store → id ∈ excluded) :
    e.included store excluded (openRoots caller f store) =
      e.included store excluded [.wildcard] := by
  have hseeds : ∀ id ∈ openRoots caller f store, e.conventions.isNoExpand id = false ∧ id ∈ f.ids :=
    fun id hid => ⟨hmarks id (mem_ids_of_openRoots hid), mem_ids_of_openRoots hid⟩
  have hwalk : f.walk excluded e.state [] (openRoots caller f store) =
      f.walk excluded e.state [] f.roots := by
    refine Forest.walk_filter fun d hd hout hshown => hshown.1 ?_
    exact hexcluded d (Forest.mem_ids_of_chain (Forest.chain_of_mem_roots hd)) (by simpa using hout)
  rw [Expansion.included_eq hf hseeds, Expansion.included_wildcard hf, hwalk]

theorem excludedIds_openRoots (hf : e.registry.Holds store f) (hg : (caller.held store).Sound)
    {excluded : List StreamId} (hexcluded : ∀ id ∈ excluded, id ∈ caller.forbidden store) :
    e.excludedIds store (openRoots caller f store) excluded = e.excludedIds store [] excluded := by
  refine Expansion.excludedIds_spared hf (fun d hd => ((mem_openRoots_iff ..).mp hd).1)
    fun seed hseed => ?_
  have hforbidden := hexcluded seed hseed
  refine ⟨fun hin => ((mem_openRoots_iff ..).mp hin).2 hforbidden, ?_⟩
  rintro rfl
  exact Caller.wildcard_notMem_forbidden hg hforbidden

/-- Beside the forbidden ids the list of the open roots and the wildcard expand alike. -/
theorem clause_openRoots (hf : e.registry.Holds store f) (hg : (caller.held store).Sound)
    (hmarks : ∀ id ∈ f.ids, e.conventions.isNoExpand id = false) :
    e.clause (restrict caller (.ofIds store (openRoots caller f store))) =
      e.clause (restrict caller (.wildcard store)) := by
  have hspared : e.spared (restrict caller (.ofIds store (openRoots caller f store))) =
      openRoots caller f store :=
    Conventions.map_stripMarker fun id hid => hmarks id (mem_ids_of_openRoots hid)
  have hany : e.includedAny (restrict caller (.ofIds store (openRoots caller f store))) =
      e.includedAny (restrict caller (.wildcard store)) :=
    congrArg (Except.map some) (included_openRoots hf hmarks fun id hid =>
      mem_pruned_of_forbidden hmarks hid)
  have hnot := excludedIds_openRoots (e := e) hf hg fun id hid =>
    (mem_not_restrict_of_nil caller (c := .wildcard store) rfl id).mp hid
  rw [Expansion.clause_eq, Expansion.clause_eq, hany, hspared]
  refine bind_congr_of_ok fun any _ => bind_congr_of_ok fun all _ =>
    bind_congr_of_ok fun forced _ => ?_
  exact congrArg (· >>= _) hnot

end Expanding

end Permitted

namespace Resolver

open Permitted

variable {r : Resolver} {caller : Caller} {state : StreamState} {store : StoreId} {f : Forest}
  {a : Access}

/-- The wildcard of a caller who may read the whole store resolves to the same scope as the list of
the roots that are not forbidden. -/
theorem wildcard_enumerates (hf : r.registry.Holds store f)
    (hmarks : ∀ id ∈ f.ids, r.config.conventions.isNoExpand id = false)
    (hcaller : Caller.ofAccess r.config.conventions a = .ok caller)
    (hblanket : caller.hasBlanketRead store = true) :
    ∃ q, r.scope caller state [.wildcard store] = .ok q ∧
      r.scope caller state [.ofIds store (openRoots caller f store)] = .ok q := by
  have hlist := permit_openRoots (k := r.config.conventions) hf hblanket hmarks
  have hexpand := clause_openRoots (e := r.expansion state) hf (Caller.held_sound hcaller store)
    hmarks
  obtain ⟨x, hcourse⟩ := exists_course_of_blanket state hf hblanket
  have hcourse' : r.Course caller state (.ofIds store (openRoots caller f store))
      (restrict caller (.ofIds store (openRoots caller f store))) x :=
    ⟨hlist, hexpand.trans hcourse.expanded⟩
  exact ⟨_, (scope_singleton_iff r caller state _ _).mpr ⟨_, x, hcourse, rfl⟩,
    (scope_singleton_iff r caller state _ _).mpr ⟨_, x, hcourse', rfl⟩⟩

theorem wildcard_enumerates_everything :
    nestedResolver.registry.Holds ⟨"local"⟩ nestedForest ∧
    (∀ id ∈ nestedForest.ids, nestedResolver.config.conventions.isNoExpand id = false) ∧
    Caller.ofAccess nestedResolver.config.conventions everythingCaller.access =
      .ok everythingCaller ∧
    everythingCaller.hasBlanketRead ⟨"local"⟩ = true ∧
    openRoots everythingCaller nestedForest ⟨"local"⟩ = [⟨"home"⟩] ∧
    nestedResolver.scope everythingCaller .live [.wildcard ⟨"local"⟩] = .ok everythingQuery ∧
    nestedResolver.scope everythingCaller .live [.ofIds ⟨"local"⟩ [⟨"home"⟩]] =
      .ok everythingQuery := by
  have hmarks : ∀ id ∈ nestedForest.ids,
      nestedResolver.config.conventions.isNoExpand id = false := by decide
  have hblanket : everythingCaller.hasBlanketRead ⟨"local"⟩ = true := rfl
  have hroots : openRoots everythingCaller nestedForest ⟨"local"⟩ = [⟨"home"⟩] := by decide
  have hwild : nestedResolver.scope everythingCaller .live [.wildcard ⟨"local"⟩] =
      .ok everythingQuery := by cbv
  obtain ⟨q, hq, hlist⟩ :=
    wildcard_enumerates nestedResolver_holds hmarks everything_ofAccess hblanket
  obtain rfl : everythingQuery = q := Except.ok.inj (hwild.symm.trans hq)
  rw [hroots] at hlist
  exact ⟨nestedResolver_holds, hmarks, everything_ofAccess, hblanket, hroots, hwild, hlist⟩

end Resolver

end StreamScope
