import StreamScope.Proofs.Resolver.Course

/-!
Forced streams in a resolved scope. A forced id that the request leaves out of
its `all` becomes a set of its own, and every record that matches carries a
stream of it. One that the request names in `all` stands there only, where a set
that turns out empty is left out. So the restriction holds unless a clause names
the id, passes it over, and is not confined to the subtree by another inclusion.
-/

namespace StreamScope.Resolver

open Outcome Registry

variable {r : Resolver} {caller : Caller} {state : StreamState} {request : Request}
  {q : ResolvedQuery} {c p : QueryClause} {x : ExpandedClause} {store : StoreId}
  {id d : StreamId} {record : List StreamId}

/-- A stream that satisfies a forced id: one of its subtree, or the stream itself if the id is
marked. -/
def Covers (r : Resolver) (store : StoreId) (id d : StreamId) : Prop :=
  if r.config.conventions.isNoExpand id then d = r.config.conventions.stripMarker id
  else r.registry.InSubtree store id d

/-- A clause names the id in `all`, where it stands for no stream: it is excluded as well, or
trashed and out of sight. -/
structure Lapses (r : Resolver) (caller : Caller) (state : StreamState) (c : QueryClause)
    (id : StreamId) : Prop where
  named : id ∈ c.all
  unmarked : r.config.conventions.isNoExpand id = false
  passed : id ∈ (c.not ++ caller.forbidden c.store).map r.config.conventions.stripMarker ∨
    ∃ s, r.registry.find c.store id = .ok (some s) ∧ s.trashed = true ∧
      state.includesTrashed = false

theorem covers_of_reaches (hr : r.registry.InMemory) (hid : id ≠ .wildcard)
    {excluded : List StreamId} (h : (r.expansion state).Reaches store excluded id d) :
    r.Covers store id d := by
  unfold Covers
  cases hm : r.config.conventions.isNoExpand id with
  | true => exact (Expansion.reaches_of_isNoExpand hm d).mp h
  | false =>
    rcases hr.holds store with ⟨f, hf⟩ | hnone
    · have hway := (Expansion.reaches_iff_descends hm hid hf d).mp h
      exact (hf.inSubtree_iff id d).mpr (hway.mono fun _ _ => trivial)
    · exact absurd h (Expansion.not_reaches_of_unregistered hm hnone d)

namespace Course

/-- The stream of an unmarked id of `all` is neither excluded nor hidden unless the id lapses. -/
theorem shows_iff_not_lapses {f : Forest} (hf : r.registry.Holds c.store f)
    (h : r.Course caller state c p x) (hnamed : id ∈ c.all)
    (hm : r.config.conventions.isNoExpand id = false) (hid : id ∈ f.ids) :
    f.Shows ((r.expansion state).pruned p) state id ↔ ¬ r.Lapses caller state c id := by
  obtain ⟨s, hs, rfl⟩ := (f.mem_ids_iff id).mp hid
  have hfind : r.registry.find c.store s.id = .ok (some s) := by
    rw [hf.find_eq, Forest.find?_id hs]
  constructor
  · intro hshows hl
    obtain ⟨hout, t, ht, hsame, hshown⟩ := hshows
    rcases hl.passed with hin | ⟨u, hu, htrashed, hhidden⟩
    · exact hout ((h.mem_pruned_iff _).mpr hin)
    · obtain rfl := Option.some.inj (Except.ok.inj (hfind.symm.trans hu))
      obtain rfl : t = s := List.inj_on_of_nodup_map f.grown.nodup ht hs hsame
      have hincludes := hshown htrashed
      simp [hhidden] at hincludes
  · intro hkept
    refine ⟨?_, s, hs, rfl, ?_⟩
    · intro hin
      exact hkept ⟨hnamed, hm, .inl ((h.mem_pruned_iff _).mp hin)⟩
    · intro htrashed
      by_contra hhidden
      exact hkept ⟨hnamed, hm, .inr ⟨s, hfind, htrashed, by simpa using hhidden⟩⟩

/-- An id of `all` stands for some stream unless it lapses. -/
theorem exists_reaches_iff (hr : r.registry.InMemory) (h : r.Course caller state c p x)
    (hnamed : id ∈ c.all) (hw : id ≠ .wildcard) :
    (∃ d, (r.expansion state).Reaches c.store ((r.expansion state).pruned p) id d) ↔
      ¬ r.Lapses caller state c id := by
  cases hm : r.config.conventions.isNoExpand id with
  | true =>
    have hkept : ¬ r.Lapses caller state c id :=
      fun hl => Bool.noConfusion (hm.symm.trans hl.unmarked)
    exact iff_of_true ⟨_, (Expansion.reaches_of_isNoExpand hm _).mpr rfl⟩ hkept
  | false =>
    have hfind := h.admitted.exists_find id (by simp [h.admitted.all, hnamed])
    have hstrip : r.config.conventions.stripMarker id = id := Marker.strip_of_not_isMarked hm
    rw [hstrip] at hfind
    obtain ⟨f, hf, hid⟩ := hr.exists_forest hfind
    have hreaches (d : StreamId) :
        (r.expansion state).Reaches c.store ((r.expansion state).pruned p) id d ↔
          f.Descends (f.Shows ((r.expansion state).pruned p) state) id d :=
      Expansion.reaches_iff_descends hm hw hf d
    rw [← h.shows_iff_not_lapses hf hnamed hm hid]
    simp only [hreaches]
    constructor
    · intro hsome
      obtain ⟨d, hway⟩ := hsome
      exact hway.opened_top
    · intro hshows
      exact ⟨id, .top hid hshows⟩

theorem covers_of_forced (hr : r.registry.InMemory) (h : r.Course caller state c p x)
    (hw : id ≠ .wildcard) (hid : id ∈ p.forced) (hselects : x.Selects record) :
    ∃ d ∈ record, r.Covers c.store id d := by
  obtain ⟨ids, hids, hmem⟩ := exists_right_of_mem h.expands.forced hid
  rw [h.admitted.store] at hmem
  obtain ⟨d, hd, hrecord⟩ := hselects.forced ids hids
  exact ⟨d, hrecord, covers_of_reaches hr hw ((hmem d).mp hd)⟩

theorem covers_of_named (hr : r.registry.InMemory) (h : r.Course caller state c p x)
    (hw : id ≠ .wildcard) (hnamed : id ∈ c.all) (hkept : ¬ r.Lapses caller state c id)
    (hselects : x.Selects record) : ∃ d ∈ record, r.Covers c.store id d := by
  obtain ⟨ids, hids, hmem⟩ := exists_right_of_mem h.expands.all (h.admitted.all ▸ hnamed)
  rw [h.admitted.store] at hmem
  obtain ⟨first, hfirst⟩ := (h.exists_reaches_iff hr hnamed hw).mpr hkept
  have hne : ids ≠ [] := List.ne_nil_of_mem ((hmem first).mpr hfirst)
  have hincluded := (x.mem_inclusions_iff ids).mpr (.inr hids)
  obtain ⟨d, hd, hrecord⟩ := hselects.included ids hincluded hne
  exact ⟨d, hrecord, covers_of_reaches hr hw ((hmem d).mp hd)⟩

end Course

/-- A forced id binds every match of its store exactly if each clause in which it lapses is
confined to the subtree all the same. -/
theorem covers_forced_iff {a : Access} (hr : r.registry.InMemory)
    (hcaller : Caller.ofAccess r.config.conventions a = .ok caller)
    (h : r.resolve caller request = .ok q) :
    ∃ clauses, r.clauses request = .ok clauses ∧ ∀ store, ∀ id ∈ caller.forced store,
      ((∀ record, (q.compileForStore store).holds record = true →
          ∃ d ∈ record, r.Covers store id d) ↔
        ∀ c ∈ clauses, c.store = store → r.Lapses caller request.state c id →
          ∀ p x, r.Course caller request.state c p x →
            ∀ rc, x.reduce? = some rc → rc.Confined (r.Covers store id)) := by
  obtain ⟨clauses, hclauses, -⟩ := (resolve_eq_ok_iff r caller request q).mp h
  refine ⟨clauses, hclauses, fun store id hid => ?_⟩
  have hw := Caller.forced_ne_wildcard hcaller hid
  constructor
  · intro hbound c hc hstore _ p x hcourse rc hreduce
    rw [ResolvedClause.confined_iff]
    intro record hadmits
    have hselects : x.Selects record := (x.selects_iff record).mpr ⟨rc, hreduce, hadmits⟩
    apply hbound record
    rw [holds_compileForStore_iff hclauses h]
    exact ⟨c, hc, hstore, p, x, hcourse, hselects⟩
  · intro hconfined record hholds
    obtain ⟨c, hc, rfl, p, x, hcourse, hselects⟩ :=
      (holds_compileForStore_iff hclauses h store record).mp hholds
    by_cases hnamed : id ∈ c.all
    · by_cases hlapse : r.Lapses caller request.state c id
      · obtain ⟨rc, hreduce, hadmits⟩ := (x.selects_iff record).mp hselects
        have hrc := hconfined c hc rfl hlapse p x hcourse rc hreduce
        exact (rc.confined_iff _).mp hrc record hadmits
      · exact hcourse.covers_of_named hr hw hnamed hlapse hselects
    · have hforced := (hcourse.admitted.forced id).mpr (.inr ⟨hid, hnamed⟩)
      exact hcourse.covers_of_forced hr hw hforced hselects

/-- Two streams side by side. -/
def pinnedForest : Forest where
  streams := [⟨⟨"work"⟩, none, false⟩, ⟨⟨"pin"⟩, none, false⟩]
  grown := .pair (by decide) rfl (by decide) (by decide) (by decide)

def pinnedResolver : Resolver := ⟨{}, [], .single ⟨"local"⟩ pinnedForest⟩

/-- Reads the whole store, but only what is in the second stream too. -/
def pinnedCaller : Caller where
  access := { id := "reader", permissions := [⟨⟨"*"⟩, .read⟩], forced := [⟨"pin"⟩] }
  grants := [(⟨"local"⟩, { storeWide := some .read, forced := [⟨"pin"⟩] })]

/-- Names the forced stream in `all`, and in `not` as well. -/
def evadingRequest : Request where
  streams := some (.object [("any", .array [.string "work"]), ("all", .array [.string "pin"]),
    ("not", .array [.string "pin"])])

def evadingQuery : ResolvedQuery :=
  ⟨[{ store := ⟨"local"⟩, any := some [⟨"work"⟩], branches := [.not [⟨"pin"⟩]] }]⟩

theorem pinned_inMemory : pinnedResolver.registry.InMemory :=
  inMemory_single ⟨"local"⟩ pinnedForest

theorem pinned_ofAccess : Caller.ofAccess pinnedResolver.config.conventions pinnedCaller.access =
    .ok pinnedCaller := rfl

theorem evading_resolve :
    pinnedResolver.resolve pinnedCaller evadingRequest = .ok evadingQuery :=
  (resolve_eq_ok_iff ..).mpr ⟨_, rfl, by cbv⟩

theorem covers_forced_pinned : pinnedResolver.registry.InMemory ∧
    Caller.ofAccess pinnedResolver.config.conventions pinnedCaller.access = .ok pinnedCaller ∧
    pinnedResolver.resolve pinnedCaller evadingRequest = .ok evadingQuery ∧
    ∃ clauses, pinnedResolver.clauses evadingRequest = .ok clauses ∧
      ∀ store, ∀ id ∈ pinnedCaller.forced store,
        ((∀ record, (evadingQuery.compileForStore store).holds record = true →
            ∃ d ∈ record, pinnedResolver.Covers store id d) ↔
          ∀ c ∈ clauses, c.store = store →
            pinnedResolver.Lapses pinnedCaller evadingRequest.state c id →
              ∀ p x, pinnedResolver.Course pinnedCaller evadingRequest.state c p x →
                ∀ rc, x.reduce? = some rc → rc.Confined (pinnedResolver.Covers store id)) :=
  ⟨pinned_inMemory, pinned_ofAccess, evading_resolve,
    covers_forced_iff pinned_inMemory pinned_ofAccess evading_resolve⟩

/-- A record outside the forced stream matches. -/
theorem forced_evaded : pinnedResolver.registry.InMemory ∧
    Caller.ofAccess pinnedResolver.config.conventions pinnedCaller.access = .ok pinnedCaller ∧
    pinnedResolver.resolve pinnedCaller evadingRequest = .ok evadingQuery ∧
    ⟨"pin"⟩ ∈ pinnedCaller.forced ⟨"local"⟩ ∧
    (evadingQuery.compileForStore ⟨"local"⟩).holds [⟨"work"⟩] = true ∧
    ¬ ∃ d ∈ [⟨"work"⟩], pinnedResolver.Covers ⟨"local"⟩ ⟨"pin"⟩ d := by
  refine ⟨pinned_inMemory, pinned_ofAccess, evading_resolve, by decide, by cbv, ?_⟩
  intro hcovered
  obtain ⟨d, hd, hcovers⟩ := hcovered
  obtain rfl := List.mem_singleton.mp hd
  have hchain : pinnedResolver.registry.ancestors ⟨"local"⟩ ⟨"work"⟩ = .ok (some [⟨"work"⟩]) := by
    cbv
  have hmarked : pinnedResolver.config.conventions.isNoExpand ⟨"pin"⟩ = false := by
    cbv
  unfold Covers at hcovers
  rw [hmarked] at hcovers
  obtain ⟨chain, hwork, hpin⟩ := hcovers
  obtain rfl := Option.some.inj (Except.ok.inj (hchain.symm.trans hwork))
  simp at hpin

end StreamScope.Resolver
