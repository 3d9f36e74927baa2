import StreamScope.Proofs.Resolver.Course

/-!
Forbidden streams in a resolved scope. The forbidden ids join the `not` of every
clause, and a match carries nothing that its clause excludes. But the `not` is
expanded in the state of the request: it reaches a stream below a forbidding
entry only while every stream from the entry down to it is in sight. Where one
on the way is hidden, only another exclusion can still keep the stream out.
-/

namespace StreamScope.Resolver

open Lineage Outcome Registry

variable {r : Resolver} {caller : Caller} {state : StreamState} {request : Request}
  {q : ResolvedQuery} {c p : QueryClause} {x : ExpandedClause} {store : StoreId}
  {d y top : StreamId} {below : List StreamId} {f : Forest}

/-- The nearest entry on the way up from a stream stands on `top`, past the streams of `below`,
and forbids reading. -/
structure Barred (r : Resolver) (caller : Caller) (store : StoreId) (d : StreamId)
    (below : List StreamId) (top : StreamId) : Prop where
  chain : ∃ above, r.registry.ancestors store d = .ok (some (below ++ top :: above))
  nearest : ∀ y ∈ below, (caller.held store).levelOf? y = none
  forbids : ∃ level, (caller.held store).levelOf? top = some level ∧ level.forbidsRead = true

/-- A stream that is not hidden in this state. -/
def Shown (r : Resolver) (state : StreamState) (store : StoreId) (y : StreamId) : Prop :=
  ∀ s, r.registry.find store y = .ok (some s) → s.trashed = true → state.includesTrashed = true

namespace Barred

theorem holds (hr : r.registry.InMemory) (h : r.Barred caller store d below top) :
    ∃ f, r.registry.Holds store f := by
  rcases hr.holds store with hf | hnone
  · exact hf
  · obtain ⟨above, hchain⟩ := h.chain
    rw [ancestors_of_unregistered hnone] at hchain
    cases hchain

theorem top_mem_forbidden (h : r.Barred caller store d below top) :
    top ∈ caller.forbidden store := by
  obtain ⟨level, hlevel, hforbids⟩ := h.forbids
  exact (Caller.mem_forbidden_iff caller store top).mpr
    ⟨level, StoreGrants.mem_of_levelOf? hlevel, hforbids⟩

/-- The streams on the way up to the entry are barred by it as well. -/
theorem of_mem (hf : r.registry.Holds store f) (h : r.Barred caller store d below top)
    (hy : y ∈ below ++ [top]) : ∃ below', r.Barred caller store y below' top := by
  obtain ⟨above, hancestors⟩ := h.chain
  have hchain := (hf.ancestors_eq_ok_some_iff d _).mp hancestors
  rcases List.mem_append.mp hy with hbelow | htop
  · obtain ⟨before, after, rfl⟩ := List.append_of_mem hbelow
    rw [List.append_assoc, List.cons_append] at hchain
    refine ⟨y :: after, ⟨above, ?_⟩, ?_, h.forbids⟩
    · exact (hf.ancestors_eq_ok_some_iff y _).mpr hchain.drop
    · intro z hz
      exact h.nearest z (List.mem_append_right _ hz)
  · obtain rfl := List.mem_singleton.mp htop
    refine ⟨[], ⟨above, ?_⟩, by simp, h.forbids⟩
    exact (hf.ancestors_eq_ok_some_iff y _).mpr hchain.drop

theorem not_canRead (hf : r.registry.Holds store f) (hp : caller.access.isPersonal = false)
    (h : r.Barred caller store d below top) : caller.canRead r.registry store d ≠ .ok true := by
  obtain ⟨above, hancestors⟩ := h.chain
  obtain ⟨level, hlevel, hforbids⟩ := h.forbids
  have hchain := (hf.ancestors_eq_ok_some_iff d _).mp hancestors
  rw [ne_eq, Caller.canRead_of_chain hp hf hchain,
    StoreGrants.decides_of_nearest h.nearest hlevel]
  intro hreadable
  obtain ⟨decided, hdecided, hread⟩ := hreadable
  obtain rfl := Option.some.inj hdecided
  rw [PermissionLevel.forbidsRead_eq_not_canRead, hread] at hforbids
  cases hforbids

end Barred

namespace Course

/-- What is included is readable, so no stream on the way to a forbidding entry is spared. -/
theorem notMem_spared (hf : r.registry.Holds c.store f) (hp : caller.access.isPersonal = false)
    (h : r.Course caller state c p x) (hd : r.Barred caller c.store d below top)
    (hy : y ∈ below ++ [top]) : y ∉ (r.expansion state).spared p := by
  intro hin
  obtain ⟨seed, hseed, rfl⟩ := List.mem_map.mp hin
  obtain ⟨below', hbarred⟩ := hd.of_mem hf hy
  exact hbarred.not_canRead hf hp (h.admitted.readable seed (List.mem_append_left _ hseed))

/-- A forbidding entry reaches a stream below it exactly if nothing on the way is hidden. -/
theorem reaches_barred_iff (hf : r.registry.Holds c.store f)
    (hk : r.registry.Unmarked r.config.conventions) (hp : caller.access.isPersonal = false)
    (h : r.Course caller state c p x) (hd : r.Barred caller c.store d below top) :
    (r.expansion state).Reaches c.store ((r.expansion state).spared p) top d ↔
      ∀ y ∈ below ++ [top], r.Shown state c.store y := by
  obtain ⟨above, hancestors⟩ := hd.chain
  have hchain := (hf.ancestors_eq_ok_some_iff d _).mp hancestors
  have htop : top ∈ f.ids := Forest.mem_ids_of_chain hchain.drop
  have hw : top ≠ .wildcard := fun heq => f.wildcard_notMem_ids (heq ▸ htop)
  rw [Expansion.reaches_iff_descends (hf.unmarked hk htop) hw hf, Forest.descends_iff]
  constructor
  · rintro ⟨between, above', hchain', hopen⟩ y hy s hs htrashed
    -- the chain passes the entry once, so both ways down are the same
    have hbetween : top ∉ between :=
      fun hin => (List.nodup_append.mp hchain'.nodup).2.2 top hin top List.mem_cons_self rfl
    have habove : top ∉ above' := hchain'.drop.notMem_tail
    obtain ⟨rfl, -, -⟩ := (List.append_cons_inj_of_notMem hbetween habove).mp
      (hchain'.unique hchain)
    obtain ⟨-, t, ht, rfl, hshown⟩ := hopen y hy
    rw [hf.find_eq, Forest.find?_id ht] at hs
    obtain rfl := Option.some.inj (Except.ok.inj hs)
    exact hshown htrashed
  · intro hshown
    refine ⟨below, above, hchain, fun y hy => ⟨h.notMem_spared hf hp hd hy, ?_⟩⟩
    obtain ⟨below', hbarred⟩ := hd.of_mem hf hy
    obtain ⟨above', hancestors'⟩ := hbarred.chain
    have hmem := Forest.mem_ids_of_chain ((hf.ancestors_eq_ok_some_iff y _).mp hancestors')
    obtain ⟨s, hs, rfl⟩ := (Forest.mem_ids_iff f y).mp hmem
    refine ⟨s, hs, rfl, hshown s.id hy s ?_⟩
    rw [hf.find_eq, Forest.find?_id hs]

end Course

/-- A stream below a forbidding entry stays out of every match exactly if all streams from the
entry down to it are in sight, or every clause that can match excludes it by another id. -/
theorem barred_excluded_iff (hr : r.registry.InMemory)
    (hk : r.registry.Unmarked r.config.conventions) (hp : caller.access.isPersonal = false)
    (h : r.resolve caller request = .ok q) :
    ∃ clauses, r.clauses request = .ok clauses ∧
      ∀ store d below top, r.Barred caller store d below top →
        ((∀ record, (q.compileForStore store).holds record = true → d ∉ record) ↔
          (∀ y ∈ below ++ [top], r.Shown request.state store y) ∨
            ∀ c ∈ clauses, c.store = store → ∀ p x, r.Course caller request.state c p x →
              (∃ record, x.Selects record) → ∃ seed ∈ p.not, seed ≠ top ∧
                (r.expansion request.state).Reaches store
                  ((r.expansion request.state).spared p) seed d) := by
  obtain ⟨clauses, hclauses, -⟩ := (resolve_eq_ok_iff r caller request q).mp h
  refine ⟨clauses, hclauses, fun store d below top hd => ?_⟩
  obtain ⟨f, hf⟩ := hd.holds hr
  have hmem : d ∈ f.ids := by
    obtain ⟨above, hancestors⟩ := hd.chain
    exact Forest.mem_ids_of_chain ((hf.ancestors_eq_ok_some_iff d _).mp hancestors)
  constructor
  · intro hout
    rw [or_iff_not_imp_left]
    intro hhidden c hc hstore p x hcourse hsome
    subst hstore
    obtain ⟨record, hselects⟩ := hsome
    have hnot : d ∈ x.not := by
      by_contra hkept
      apply hout (d :: record) _ List.mem_cons_self
      rw [holds_compileForStore_iff hclauses h]
      exact ⟨c, hc, rfl, p, x, hcourse, hselects.cons hkept⟩
    obtain ⟨seed, hseed, hreaches⟩ := (hcourse.mem_not_iff hf hmem).mp hnot
    refine ⟨seed, hseed, ?_, hreaches⟩
    rintro rfl
    exact hhidden ((hcourse.reaches_barred_iff hf hk hp hd).mp hreaches)
  · intro hcovered record hholds hin
    obtain ⟨c, hc, rfl, p, x, hcourse, hselects⟩ :=
      (holds_compileForStore_iff hclauses h store record).mp hholds
    refine hselects.excluded ⟨d, (hcourse.mem_not_iff hf hmem).mpr ?_, hin⟩
    rcases hcovered with hshown | hother
    · have hnot := (hcourse.admitted.not top).mpr (.inr hd.top_mem_forbidden)
      exact ⟨top, hnot, (hcourse.reaches_barred_iff hf hk hp hd).mpr hshown⟩
    · obtain ⟨seed, hseed, -, hreaches⟩ := hother c hc rfl p x hcourse ⟨record, hselects⟩
      exact ⟨seed, hseed, hreaches⟩

/-- A live stream and a trashed one. -/
def trashedForest : Forest where
  streams := [⟨⟨"work"⟩, none, false⟩, ⟨⟨"bank"⟩, none, true⟩]
  grown := .pair (by decide) rfl (by decide) (by decide) (by decide)

def trashedResolver : Resolver := ⟨{}, [], .single ⟨"local"⟩ trashedForest⟩

/-- Reads the live stream and must not read the trashed one. -/
def trashedCaller : Caller where
  access := { id := "reader", permissions := [⟨⟨"work"⟩, .read⟩, ⟨⟨"bank"⟩, .denied⟩] }
  grants := [(⟨"local"⟩, { entries := [(⟨"work"⟩, .read), (⟨"bank"⟩, .denied)] })]

def workRequest : Request where
  streams := some (.object [("any", .array [.string "work"])])

def workQuery : ResolvedQuery :=
  ⟨[{ store := ⟨"local"⟩, any := some [⟨"work"⟩] }]⟩

theorem trashed_inMemory : trashedResolver.registry.InMemory :=
  inMemory_single ⟨"local"⟩ trashedForest

theorem trashed_unmarked :
    trashedResolver.registry.Unmarked trashedResolver.config.conventions := by
  apply unmarked_single
  intro id hid
  simp only [Forest.ids, trashedForest, List.map_cons, List.map_nil, List.mem_cons,
    List.not_mem_nil, or_false] at hid
  rcases hid with rfl | rfl <;> cbv

theorem trashed_ofAccess : Caller.ofAccess trashedResolver.config.conventions trashedCaller.access =
    .ok trashedCaller := rfl

theorem work_resolve : trashedResolver.resolve trashedCaller workRequest = .ok workQuery :=
  (resolve_eq_ok_iff ..).mpr ⟨_, rfl, by cbv⟩

theorem trashed_barred : trashedResolver.Barred trashedCaller ⟨"local"⟩ ⟨"bank"⟩ [] ⟨"bank"⟩ where
  chain := ⟨[], by cbv⟩
  nearest := by simp
  forbids := ⟨.denied, by cbv, rfl⟩

theorem barred_excluded_trashed : trashedResolver.registry.InMemory ∧
    trashedResolver.registry.Unmarked trashedResolver.config.conventions ∧
    trashedCaller.access.isPersonal = false ∧
    trashedResolver.resolve trashedCaller workRequest = .ok workQuery ∧
    trashedResolver.Barred trashedCaller ⟨"local"⟩ ⟨"bank"⟩ [] ⟨"bank"⟩ ∧
    ∃ clauses, trashedResolver.clauses workRequest = .ok clauses ∧
      ((∀ record, (workQuery.compileForStore ⟨"local"⟩).holds record = true →
          ⟨"bank"⟩ ∉ record) ↔
        (∀ y ∈ [] ++ [⟨"bank"⟩], trashedResolver.Shown workRequest.state ⟨"local"⟩ y) ∨
          ∀ c ∈ clauses, c.store = ⟨"local"⟩ →
            ∀ p x, trashedResolver.Course trashedCaller workRequest.state c p x →
              (∃ record, x.Selects record) → ∃ seed ∈ p.not, seed ≠ ⟨"bank"⟩ ∧
                (trashedResolver.expansion workRequest.state).Reaches ⟨"local"⟩
                  ((trashedResolver.expansion workRequest.state).spared p) seed ⟨"bank"⟩) := by
  refine ⟨trashed_inMemory, trashed_unmarked, rfl, work_resolve, trashed_barred, ?_⟩
  obtain ⟨clauses, hclauses, hiff⟩ :=
    barred_excluded_iff trashed_inMemory trashed_unmarked rfl work_resolve
  exact ⟨clauses, hclauses, hiff ⟨"local"⟩ ⟨"bank"⟩ [] ⟨"bank"⟩ trashed_barred⟩

/-- A record in a forbidden stream that is trashed matches. -/
theorem trashed_matched : trashedResolver.registry.InMemory ∧
    trashedResolver.registry.Unmarked trashedResolver.config.conventions ∧
    Caller.ofAccess trashedResolver.config.conventions trashedCaller.access = .ok trashedCaller ∧
    trashedCaller.access.isPersonal = false ∧
    trashedResolver.resolve trashedCaller workRequest = .ok workQuery ∧
    trashedResolver.Barred trashedCaller ⟨"local"⟩ ⟨"bank"⟩ [] ⟨"bank"⟩ ∧
    (workQuery.compileForStore ⟨"local"⟩).holds [⟨"work"⟩, ⟨"bank"⟩] = true := by
  refine ⟨trashed_inMemory, trashed_unmarked, trashed_ofAccess, rfl, work_resolve, trashed_barred, ?_⟩
  cbv

end StreamScope.Resolver
