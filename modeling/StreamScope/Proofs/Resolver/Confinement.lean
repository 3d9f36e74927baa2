import StreamScope.Proofs.Forest.Traversal
import StreamScope.Proofs.Resolver.Isolation
import StreamScope.Proofs.Resolver.Wildcard

/-!
The wildcard reveals nothing outside the grants. Without a grant on the whole
store it becomes a clause that names only what the access names: granted,
forbidden and forced streams. Each of these is looked up for itself and expanded
downwards, so two stores that have the same streams at and below the named ones
cannot be told apart by the scope that the wildcard resolves to.
-/

namespace StreamScope

open Outcome

/-- The streams of a store that an access names, in an entry or in its forced list. -/
def Caller.named (caller : Caller) (store : StoreId) : List StreamId :=
  (caller.held store).entries.map Prod.fst ++ caller.forced store

theorem Caller.named_ne_wildcard {caller : Caller} {store : StoreId} {id : StreamId}
    (hg : (caller.held store).Sound) (hid : id ∈ caller.named store) : id ≠ .wildcard := by
  rintro rfl
  rcases List.mem_append.mp hid with hentry | hforced
  · exact hg.named hentry
  · exact hg.proper hforced

/-- The ids that a clause looks up when it is expanded. -/
def Expansion.lookups (p : QueryClause) : List StreamId :=
  Expansion.seeds p ++ p.all ++ p.forced ++ p.not

namespace Permitted

variable {caller : Caller} {store : StoreId} {f g : Forest} {id : StreamId}

theorem mem_named_of_readableRoots (h : id ∈ caller.readableRoots store) :
    id ∈ caller.named store :=
  List.mem_append_left _ ((StoreGrants.mem_entries_iff _ id).mpr (.inl h))

theorem rootsClause_congr (h : ∀ id ∈ caller.named store, id ∈ g.ids ↔ id ∈ f.ids) :
    rootsClause caller g store = rootsClause caller f store := by
  unfold rootsClause
  congr 1
  exact List.filter_congr fun id hid => by simp [h id (mem_named_of_readableRoots hid)]

/-- What the wildcard becomes looks up nothing but what the access names. -/
theorem mem_named_of_lookups
    (h : id ∈ Expansion.lookups (restrict caller (rootsClause caller f store))) :
    id ∈ caller.named store := by
  simp only [Expansion.lookups, List.mem_append, Expansion.mem_seeds_iff] at h
  rcases h with ((hany | hall) | hforced) | hnot
  · rcases hany with ⟨hwild, -⟩ | hroot
    · cases hwild
    · exact mem_named_of_readableRoots ((mem_rootsClause_iff caller f store id).mp hroot).1
  · cases hall
  · have hown := (mem_appendNew_iff [] _ id).mp hforced
    simp only [List.not_mem_nil, false_or, List.mem_filter] at hown
    exact List.mem_append_right _ hown.1
  · have hout := (mem_not_restrict_of_nil caller rfl id).mp hnot
    exact List.mem_append_left _ ((StoreGrants.mem_entries_iff _ id).mpr (.inr hout))

end Permitted

namespace Expansion

variable {e : Expansion} {other : Registry} {store : StoreId} {f g : Forest} {seed : StreamId}

/-- An id is looked up alike in two stores that have the same streams at and below it. -/
theorem reach_congr (hf : e.registry.Holds store f) (hg : other.Holds store g)
    (hsame : f.SameSubtree g seed) (hw : seed ≠ .wildcard) (excluded : List StreamId) :
    (e.withRegistry other).reach store excluded seed = e.reach store excluded seed := by
  simp only [reach, withRegistry, hf.expand_eq, hg.expand_eq, hsame.expand_eq hw]

end Expansion

namespace Resolver

open Permitted

variable {r : Resolver} {other : Registry} {caller : Caller} {state : StreamState}
  {store : StoreId} {f g : Forest} {a : Access}

/-- A clause that is permitted over other stores too keeps its course where its ids are looked up
alike. -/
theorem Course.withRegistry {c p : QueryClause} {x : ExpandedClause}
    (h : r.Course caller state c p x)
    (hpermit : permit r.config.conventions caller other c = .ok (p, []))
    (hreach : ∀ id ∈ Expansion.lookups p, ∀ excluded,
      ((r.expansion state).withRegistry other).reach p.store excluded id =
        (r.expansion state).reach p.store excluded id) :
    (r.withRegistry other).Course caller state c p x := by
  have hbelow (id : StreamId) (hid : id ∈ Expansion.lookups p) (excluded : List StreamId) :
      Below ((r.expansion state).reach p.store excluded id)
        (((r.expansion state).withRegistry other).reach p.store excluded id) := by
    rw [hreach id hid]
    exact .refl _
  have hexpand : Below ((r.expansion state).clause p)
      (((r.expansion state).withRegistry other).clause p) :=
    Expansion.clause_below (fun id hid => hbelow id (List.mem_append_left _ hid) _)
      fun id hid => hbelow id (List.mem_append_right _ hid) _
  exact ⟨hpermit, hexpand _ h.expanded⟩

/-- Where two forests have the same subtrees at the streams that the access names, the wildcard of
a caller without a grant on the whole store resolves to the same scope. -/
theorem wildcard_confined (hf : r.registry.Holds store f) (hg : other.Holds store g)
    (hcaller : Caller.ofAccess r.config.conventions a = .ok caller)
    (hp : caller.access.isPersonal = false)
    (hwide : ∀ level, (caller.held store).storeWide = some level → level.canRead = false)
    (hmarksf : ∀ id ∈ f.ids, r.config.conventions.isNoExpand id = false)
    (hmarksg : ∀ id ∈ g.ids, r.config.conventions.isNoExpand id = false)
    (hsame : ∀ id ∈ caller.named store, f.SameSubtree g id) :
    ∃ q, r.scope caller state [.wildcard store] = .ok q ∧
      (r.withRegistry other).scope caller state [.wildcard store] = .ok q := by
  have hsound := Caller.held_sound hcaller store
  have hblanket := Caller.hasBlanketRead_eq_false hp hwide
  -- both stores permit the same clause, and it asks only for what the access names
  have hpermit : permit r.config.conventions caller r.registry (.wildcard store) =
      .ok (restrict caller (rootsClause caller f store), []) :=
    permit_rootsClause hf hp hsound hblanket fun id _ hid => hmarksf id hid
  have hpermit' : permit r.config.conventions caller other (.wildcard store) =
      .ok (restrict caller (rootsClause caller f store), []) := by
    rw [← rootsClause_congr fun id hid => (hsame id hid).mem_ids_iff]
    exact permit_rootsClause hg hp hsound hblanket fun id _ hid => hmarksg id hid
  have hstands : ∀ id ∈ (restrict caller (rootsClause caller f store)).anyIds ++ [],
      (r.expansion state).Stands f id := by
    intro id hid
    rw [List.append_nil] at hid
    exact .inr (.inr ((mem_rootsClause_iff caller f store id).mp hid).2)
  obtain ⟨x, hcourse⟩ := exists_course hf hpermit hstands
  have hcourse' := hcourse.withRegistry hpermit' fun id hid excluded =>
    have hnamed := mem_named_of_lookups hid
    Expansion.reach_congr (e := r.expansion state) hf hg (hsame id hnamed)
      (Caller.named_ne_wildcard hsound hnamed) excluded
  exact ⟨_, (scope_singleton_iff r caller state _ _).mpr ⟨_, x, hcourse, rfl⟩,
    (scope_singleton_iff _ caller state _ _).mpr ⟨_, x, hcourse', rfl⟩⟩

/-- The streams of home below another one, and one more beside them. -/
def houseForest : Forest where
  streams := [⟨⟨"attic"⟩, none, true⟩, ⟨⟨"home"⟩, some ⟨"attic"⟩, false⟩,
    ⟨⟨"bank"⟩, some ⟨"home"⟩, false⟩, ⟨⟨"cellar"⟩, none, false⟩]
  grown := by
    have hpair : Forest.Grown [⟨⟨"attic"⟩, none, true⟩, ⟨⟨"home"⟩, some ⟨"attic"⟩, false⟩] :=
      .pair (by decide) rfl (by decide) (by decide) (by decide)
    exact .insert (.insert hpair (by decide) (by decide) (by decide)) (by decide) (by decide)
      (by decide)

theorem home_sameSubtree_house :
    ∀ id ∈ homeCaller.named ⟨"local"⟩, homeForest.SameSubtree houseForest id := by
  intro id hid
  have hnamed : homeCaller.named ⟨"local"⟩ = [⟨"home"⟩, ⟨"bank"⟩] := rfl
  exact .of_region (by decide) (by decide +kernel) (by decide +kernel) (hnamed ▸ hid)

theorem wildcard_confined_home :
    homeResolver.registry.Holds ⟨"local"⟩ homeForest ∧
    (Registry.single ⟨"local"⟩ houseForest).Holds ⟨"local"⟩ houseForest ∧
    Caller.ofAccess homeResolver.config.conventions homeCaller.access = .ok homeCaller ∧
    homeCaller.access.isPersonal = false ∧
    (∀ level, (homeCaller.held ⟨"local"⟩).storeWide = some level → level.canRead = false) ∧
    (∀ id ∈ homeForest.ids, homeResolver.config.conventions.isNoExpand id = false) ∧
    (∀ id ∈ houseForest.ids, homeResolver.config.conventions.isNoExpand id = false) ∧
    (∀ id ∈ homeCaller.named ⟨"local"⟩, homeForest.SameSubtree houseForest id) ∧
    homeResolver.scope homeCaller .live [.wildcard ⟨"local"⟩] = .ok homeQuery ∧
    (homeResolver.withRegistry (.single ⟨"local"⟩ houseForest)).scope homeCaller .live
      [.wildcard ⟨"local"⟩] = .ok homeQuery := by
  have hcaller : Caller.ofAccess homeResolver.config.conventions homeCaller.access =
      .ok homeCaller := rfl
  have hstoreWide : (homeCaller.held ⟨"local"⟩).storeWide = none := rfl
  have hwide : ∀ level, (homeCaller.held ⟨"local"⟩).storeWide = some level →
      level.canRead = false := by simp [hstoreWide]
  have hmarks : ∀ id ∈ homeForest.ids, homeResolver.config.conventions.isNoExpand id = false := by
    decide
  have hmarks' : ∀ id ∈ houseForest.ids, homeResolver.config.conventions.isNoExpand id = false := by
    decide
  have hholds := Registry.holds_single ⟨"local"⟩ homeForest
  have hholds' := Registry.holds_single ⟨"local"⟩ houseForest
  have hhome : homeResolver.scope homeCaller .live [.wildcard ⟨"local"⟩] = .ok homeQuery := by cbv
  obtain ⟨q, hq, hhouse⟩ :=
    wildcard_confined hholds hholds' hcaller rfl hwide hmarks hmarks' home_sameSubtree_house
  obtain rfl : homeQuery = q := Except.ok.inj (hhome.symm.trans hq)
  exact ⟨hholds, hholds', hcaller, rfl, hwide, hmarks, hmarks', home_sameSubtree_house, hhome,
    hhouse⟩

end Resolver

end StreamScope
