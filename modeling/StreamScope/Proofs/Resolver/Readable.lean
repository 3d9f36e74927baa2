import StreamScope.Proofs.Resolver.Course

/-!
Nothing unreadable is included. The ids that a clause includes pass a check, and
what they reach lies below them past no forbidden stream, because the forbidden
ids are pruned. So the nearest entry above a reached stream lets it be read,
whether the way down began at an id, at a root that was granted, or at the roots
of a store that is read as a whole.
-/

namespace StreamScope.Resolver

open Outcome Registry

variable {r : Resolver} {caller : Caller} {state : StreamState} {request : Request}
  {q : ResolvedQuery} {c p : QueryClause} {x : ExpandedClause} {store : StoreId}
  {seed d : StreamId}

/-- A stream that exists and that the caller may read. -/
structure Readable (r : Resolver) (caller : Caller) (store : StoreId) (d : StreamId) : Prop where
  exists_find : ∃ s, r.registry.find store d = .ok (some s)
  canRead : caller.canRead r.registry store d = .ok true

namespace Course

theorem notMem_forbidden_of_shows (hk : r.registry.Unmarked r.config.conventions) {f : Forest}
    (hf : r.registry.Holds c.store f) (h : r.Course caller state c p x) {id : StreamId}
    (hshows : f.Shows ((r.expansion state).pruned p) state id) :
    id ∉ caller.forbidden c.store := by
  intro hin
  obtain ⟨hout, s, hs, rfl, -⟩ := hshows
  have hplain := hf.unmarked hk (Forest.id_mem_ids hs)
  have hnot := (h.admitted.not s.id).mpr (.inr hin)
  exact hout (List.mem_map.mpr ⟨s.id, hnot, Marker.strip_of_not_isMarked hplain⟩)

theorem readable_of_seed (hr : r.registry.InMemory)
    (hk : r.registry.Unmarked r.config.conventions) (hp : caller.access.isPersonal = false)
    (h : r.Course caller state c p x) (hseed : seed ∈ p.anyIds ++ p.all)
    (hreaches : (r.expansion state).Reaches c.store ((r.expansion state).pruned p) seed d) :
    r.Readable caller c.store d := by
  have hfind := h.admitted.exists_find seed hseed
  have hread := h.admitted.readable seed hseed
  cases hm : r.config.conventions.isNoExpand seed with
  | true =>
    obtain rfl := (Expansion.reaches_of_isNoExpand hm d).mp hreaches
    exact ⟨hfind, hread⟩
  | false =>
    have hstrip : r.config.conventions.stripMarker seed = seed := Marker.strip_of_not_isMarked hm
    rw [hstrip] at hfind hread
    obtain ⟨f, hf, hid⟩ := hr.exists_forest hfind
    have hw : seed ≠ .wildcard := fun heq => f.wildcard_notMem_ids (heq ▸ hid)
    have hway := (Expansion.reaches_iff_descends hm hw hf d).mp hreaches
    refine ⟨(hf.exists_find_iff d).mpr hway.mem_ids, ?_⟩
    exact Caller.canRead_of_descends hp hf
      (fun id hid => h.notMem_forbidden_of_shows hk hf hid) hway hread

theorem readable_of_wildcard (hr : r.registry.InMemory)
    (hk : r.registry.Unmarked r.config.conventions) (hp : caller.access.isPersonal = false)
    (h : r.Course caller state c p x) (hany : p.any = some .wildcard)
    (hreaches : (r.expansion state).Reaches c.store ((r.expansion state).pruned p) .wildcard d) :
    r.Readable caller c.store d := by
  rcases hr.holds c.store with ⟨f, hf⟩ | hnone
  · obtain ⟨top, htop, hway⟩ := (Expansion.reaches_wildcard_iff hf d).mp hreaches
    refine ⟨(hf.exists_find_iff d).mpr hway.mem_ids, ?_⟩
    have hroot := Caller.canRead_of_mem_roots hp hf (h.admitted.blanket hany) htop
      (h.notMem_forbidden_of_shows hk hf hway.opened_top)
    exact Caller.canRead_of_descends hp hf
      (fun id hid => h.notMem_forbidden_of_shows hk hf hid) hway hroot
  · have hm := r.config.conventions.isNoExpand_wildcard
    exact absurd hreaches (Expansion.not_reaches_of_unregistered hm hnone d)

/-- Whatever a clause includes by `any` or `all`, the caller may read. -/
theorem readable_of_included (hr : r.registry.InMemory)
    (hk : r.registry.Unmarked r.config.conventions) (hp : caller.access.isPersonal = false)
    (h : r.Course caller state c p x) {ids : List StreamId} (hids : ids ∈ x.inclusions)
    (hd : d ∈ ids) : r.Readable caller c.store d := by
  obtain ⟨seed, hseed, hreaches⟩ := h.expands.exists_seed hids hd
  rw [h.admitted.store] at hreaches
  rw [List.mem_append, Expansion.mem_seeds_iff] at hseed
  rcases hseed with (⟨hwild, rfl⟩ | hany) | hall
  · exact h.readable_of_wildcard hr hk hp hwild hreaches
  · exact h.readable_of_seed hr hk hp (List.mem_append_left _ hany) hreaches
  · exact h.readable_of_seed hr hk hp (List.mem_append_right _ hall) hreaches

end Course

/-- For a caller that needs entries, every inclusion of a resolved clause that no forced stream
brought in consists of readable streams, and every match carries one. -/
theorem included_readable (hr : r.registry.InMemory)
    (hk : r.registry.Unmarked r.config.conventions) (hp : caller.access.isPersonal = false)
    (h : r.resolve caller request = .ok q) :
    ∃ clauses, r.clauses request = .ok clauses ∧
      (∀ rc ∈ q.clauses, ∃ c ∈ clauses, ∃ p x, r.Course caller request.state c p x ∧
        x.reduce? = some rc ∧
        (∀ ids, rc.any = some ids → ∀ d ∈ ids, r.Readable caller rc.store d) ∧
        (∀ ids, .any ids ∈ rc.branches → ids ∈ x.all ∨ ids ∈ x.forced) ∧
        ∀ ids ∈ x.all, ∀ d ∈ ids, r.Readable caller rc.store d) ∧
      ∀ store record, (q.compileForStore store).holds record = true →
        ∃ d ∈ record, r.Readable caller store d := by
  obtain ⟨clauses, hclauses, -⟩ := (resolve_eq_ok_iff r caller request q).mp h
  refine ⟨clauses, hclauses, ?_, ?_⟩
  · intro rc hrc
    obtain ⟨c, hc, p, x, hcourse, hreduce⟩ := (mem_clauses_iff hclauses h rc).mp hrc
    have hstore : rc.store = c.store :=
      (ExpandedClause.store_of_reduce? hreduce).trans hcourse.store_eq
    have hreduced : x.reduced = rc := ((x.reduce?_eq_some_iff rc).mp hreduce).2.2
    refine ⟨c, hc, p, x, hcourse, hreduce, ?_, ?_, ?_⟩
    · intro ids hids d hd
      rw [← hreduced] at hids
      have hany := ((x.reduced_any_eq_some_iff ids).mp hids).1
      rw [hstore]
      exact hcourse.readable_of_included hr hk hp ((x.mem_inclusions_iff ids).mpr (.inl hany)) hd
    · intro ids hids
      rw [← hreduced] at hids
      exact x.mem_all_or_forced hids
    · intro ids hids d hd
      rw [hstore]
      exact hcourse.readable_of_included hr hk hp ((x.mem_inclusions_iff ids).mpr (.inr hids)) hd
  · intro store record hholds
    obtain ⟨c, -, rfl, p, x, hcourse, hselects⟩ :=
      (holds_compileForStore_iff hclauses h store record).mp hholds
    obtain ⟨ids, hids, hne⟩ := hselects.includes
    obtain ⟨d, hd, hrecord⟩ := hselects.included ids hids hne
    exact ⟨d, hrecord, hcourse.readable_of_included hr hk hp hids hd⟩

/-- A stream with one below it. -/
def homeForest : Forest where
  streams := [⟨⟨"home"⟩, none, false⟩, ⟨⟨"bank"⟩, some ⟨"home"⟩, false⟩]
  grown := .pair (by decide) rfl (by decide) (by decide) (by decide)

def homeResolver : Resolver := ⟨{}, [], .single ⟨"local"⟩ homeForest⟩

/-- Reads the upper stream, but not the one below. -/
def homeCaller : Caller where
  access := { id := "reader", permissions := [⟨⟨"home"⟩, .read⟩, ⟨⟨"bank"⟩, .denied⟩] }
  grants := [(⟨"local"⟩, { entries := [(⟨"home"⟩, .read), (⟨"bank"⟩, .denied)] })]

def wholeRequest : Request where
  streams := some (.object [("any", .array [.string "*"])])

def homeQuery : ResolvedQuery :=
  ⟨[{ store := ⟨"local"⟩, any := some [⟨"home"⟩], branches := [.not [⟨"bank"⟩]] }]⟩

theorem home_inMemory : homeResolver.registry.InMemory :=
  inMemory_single ⟨"local"⟩ homeForest

theorem home_unmarked :
    homeResolver.registry.Unmarked homeResolver.config.conventions := by
  apply unmarked_single
  intro id hid
  simp only [Forest.ids, homeForest, List.map_cons, List.map_nil, List.mem_cons,
    List.not_mem_nil, or_false] at hid
  rcases hid with rfl | rfl <;> cbv

theorem home_clauses : homeResolver.clauses wholeRequest = .ok [.wildcard ⟨"local"⟩] := rfl

theorem whole_resolve : homeResolver.resolve homeCaller wholeRequest = .ok homeQuery :=
  (resolve_eq_ok_iff ..).mpr ⟨_, home_clauses, by cbv⟩

theorem included_readable_home : homeResolver.registry.InMemory ∧
    homeResolver.registry.Unmarked homeResolver.config.conventions ∧
    homeCaller.access.isPersonal = false ∧
    homeResolver.resolve homeCaller wholeRequest = .ok homeQuery ∧
    ∃ clauses, homeResolver.clauses wholeRequest = .ok clauses ∧
      (∀ rc ∈ homeQuery.clauses, ∃ c ∈ clauses, ∃ p x,
        homeResolver.Course homeCaller wholeRequest.state c p x ∧ x.reduce? = some rc ∧
        (∀ ids, rc.any = some ids →
          ∀ d ∈ ids, homeResolver.Readable homeCaller rc.store d) ∧
        (∀ ids, .any ids ∈ rc.branches → ids ∈ x.all ∨ ids ∈ x.forced) ∧
        ∀ ids ∈ x.all, ∀ d ∈ ids, homeResolver.Readable homeCaller rc.store d) ∧
      ∀ store record, (homeQuery.compileForStore store).holds record = true →
        ∃ d ∈ record, homeResolver.Readable homeCaller store d :=
  ⟨home_inMemory, home_unmarked, rfl, whole_resolve,
    included_readable home_inMemory home_unmarked rfl whole_resolve⟩

end StreamScope.Resolver
