import StreamScope.Proofs.Query.Grammar
import StreamScope.Proofs.Resolver.Readable

/-!
Which ids stand in a resolved scope. An id is clean if it carries no marker and
is not the wildcard. What a store was asked for comes out clean, and so does what
a valid clause excludes. But an entry of an access can carry a marker behind the
name of its store: a forbidden or forced id then loses one marker and is handed
on without being looked up. What is left of such ids is all that can be unclean.
-/

namespace StreamScope

open Outcome

variable {k : Conventions} {store : StoreId} {seed d id : StreamId}

/-- No marker stands before the id, and it is not the wildcard. -/
def Conventions.Clean (k : Conventions) (id : StreamId) : Prop :=
  id ≠ .wildcard ∧ k.isNoExpand id = false

/-- The ids in the lists of a clause, all of them together. -/
def ResolvedClause.ids (c : ResolvedClause) : List StreamId :=
  c.any.getD [] ++ c.branches.flatMap Branch.ids

theorem ExpandedClause.mem_ids_reduced_iff (x : ExpandedClause) (id : StreamId) :
    id ∈ x.reduced.ids ↔
      (∃ ids ∈ x.inclusions, id ∈ ids) ∨ (∃ ids ∈ x.forced, id ∈ ids) ∨ id ∈ x.not := by
  have hany : id ∈ x.reduced.any.getD [] ↔ ∃ ids, x.reduced.any = some ids ∧ id ∈ ids := by
    cases x.reduced.any <;> simp
  rw [ResolvedClause.ids, List.mem_append, hany, List.mem_flatMap]
  simp only [reduced_any_eq_some_iff, mem_reduced_branches_iff, mem_inclusions_iff]
  constructor
  · intro hlisted
    rcases hlisted with ⟨ids, ⟨hids, -⟩, hid⟩ | ⟨_, hbranch, hid⟩
    · exact .inl ⟨ids, .inl hids, hid⟩
    · rcases hbranch with ⟨ids, hids, -, rfl⟩ | ⟨ids, hids, rfl⟩ | ⟨-, rfl⟩
      · exact .inl ⟨ids, .inr hids, hid⟩
      · exact .inr (.inl ⟨ids, hids, hid⟩)
      · exact .inr (.inr hid)
  · intro hsets
    rcases hsets with ⟨ids, hids | hids, hid⟩ | ⟨ids, hids, hid⟩ | hid
    · exact .inl ⟨ids, ⟨hids, List.ne_nil_of_mem hid⟩, hid⟩
    · exact .inr ⟨.any ids, .inl ⟨ids, hids, List.ne_nil_of_mem hid, rfl⟩, hid⟩
    · exact .inr ⟨.any ids, .inr (.inl ⟨ids, hids, rfl⟩), hid⟩
    · exact .inr ⟨.not x.not, .inr (.inr ⟨List.ne_nil_of_mem hid, rfl⟩), hid⟩

/-- An id without a marker is unclean only as the wildcard. -/
theorem Conventions.clean_strip_of_unmarked (hid : id ≠ .wildcard)
    (hm : k.isNoExpand id = false) : k.Clean (k.stripMarker id) := by
  have hstrip : k.stripMarker id = id := Marker.strip_of_not_isMarked hm
  rw [hstrip]
  exact ⟨hid, hm⟩

theorem StreamId.Plain.clean_strip (h : id.Plain k.marker) : k.Clean (k.stripMarker id) := by
  have hbody : ∀ c ∈ (k.stripMarker id).text.toList, c ≠ k.marker ∧ c ≠ '*' :=
    fun c hc => ⟨(h.strip.2 c hc).1, (h.strip.2 c hc).2.1⟩
  constructor
  · intro hw
    have hstar : '*' ∈ (k.stripMarker id).text.toList := by simp [hw, StreamId.wildcard]
    exact (hbody '*' hstar).2 rfl
  · rw [Bool.eq_false_iff]
    intro hm
    have hfirst : (k.stripMarker id).text.toList.head? = some k.marker := by
      simpa [Conventions.isNoExpand, Marker.isMarked] using hm
    exact (hbody _ (List.mem_of_head? hfirst)).1 rfl

theorem Registry.Holds.clean {r : Registry} {f : Forest} (hf : r.Holds store f)
    (hk : r.Unmarked k) (hid : id ∈ f.ids) : k.Clean id :=
  ⟨fun hw => f.wildcard_notMem_ids (hw ▸ hid), hf.unmarked hk hid⟩

section

variable {e : Expansion} {excluded : List StreamId}

/-- What a store answers is clean. -/
theorem Expansion.clean_of_reaches (hr : e.registry.InMemory)
    (hk : e.registry.Unmarked e.conventions) (hm : e.conventions.isNoExpand seed = false)
    (h : e.Reaches store excluded seed d) : e.conventions.Clean d := by
  rcases hr.holds store with ⟨f, hf⟩ | hnone
  · exact hf.clean hk (Expansion.mem_ids_of_reaches hm hf h)
  · exact absurd h (Expansion.not_reaches_of_unregistered hm hnone d)

/-- An unclean id is reached only from an id of which it is what the marker leaves. -/
theorem Expansion.reaches_unclean_iff (hr : e.registry.InMemory)
    (hk : e.registry.Unmarked e.conventions) (store : StoreId) (excluded : List StreamId)
    (hseed : seed ≠ .wildcard) (hd : ¬ e.conventions.Clean d) :
    e.Reaches store excluded seed d ↔ d = e.conventions.stripMarker seed := by
  cases hm : e.conventions.isNoExpand seed with
  | true => exact Expansion.reaches_of_isNoExpand hm d
  | false =>
    constructor
    · exact fun h => absurd (clean_of_reaches hr hk hm h) hd
    · rintro rfl
      exact absurd (Conventions.clean_strip_of_unmarked hseed hm) hd

end

namespace Resolver

variable {r : Resolver} {caller : Caller} {request : Request} {q : ResolvedQuery}
  {clauses : List QueryClause} {c p : QueryClause} {x : ExpandedClause} {state : StreamState}

/-- Valid clauses are bound by grammatical ones. -/
theorem exists_grammatical (h : r.clauses request = .ok clauses) (hc : c ∈ clauses) :
    ∃ raw : RawClause, raw.Grammatical r.config.conventions ∧
      c = raw.bound r.config.conventions := by
  obtain ⟨raw, -, hvalid⟩ := bind_eq_ok_iff.mp h
  exact exists_grammatical_of_validate (mapError_eq_ok_iff.mp hvalid) hc

namespace Course

/-- What is included was found in the store. -/
theorem clean_of_included (hr : r.registry.InMemory)
    (hk : r.registry.Unmarked r.config.conventions) (h : r.Course caller state c p x)
    {ids : List StreamId} (hids : ids ∈ x.inclusions) (hd : d ∈ ids) :
    r.config.conventions.Clean d := by
  obtain ⟨seed, hseed, hreaches⟩ := h.expands.exists_seed hids hd
  cases hm : r.config.conventions.isNoExpand seed with
  | false => exact Expansion.clean_of_reaches (e := r.expansion state) hr hk hm hreaches
  | true =>
    have hnamed : seed ∈ p.anyIds ++ p.all :=
      Expansion.mem_named_of_isNoExpand (e := r.expansion state) hm hseed
    obtain ⟨f, hf, hid⟩ := hr.exists_forest (h.admitted.exists_find seed hnamed)
    rw [(Expansion.reaches_of_isNoExpand hm d).mp hreaches]
    exact hf.clean hk hid

/-- A forced set holds an unclean id if a forced id, not named in `all`, leaves it. -/
theorem unclean_mem_forced_iff (hr : r.registry.InMemory)
    (hk : r.registry.Unmarked r.config.conventions) (h : r.Course caller state c p x)
    (hw : ∀ id ∈ p.forced, id ≠ .wildcard) (hd : ¬ r.config.conventions.Clean d) :
    (∃ ids ∈ x.forced, d ∈ ids) ↔ d ∈ p.forced.map r.config.conventions.stripMarker := by
  have hreaches (seed : StreamId) (hseed : seed ∈ p.forced) :=
    Expansion.reaches_unclean_iff (e := r.expansion state) hr hk p.store
      ((r.expansion state).pruned p) (hw seed hseed) hd
  constructor
  · intro hforced
    obtain ⟨ids, hids, hmem⟩ := hforced
    obtain ⟨seed, hseed, hset⟩ := exists_left_of_mem h.expands.forced hids
    exact List.mem_map.mpr ⟨seed, hseed, ((hreaches seed hseed).mp ((hset d).mp hmem)).symm⟩
  · intro hleft
    obtain ⟨seed, hseed, hstrip⟩ := List.mem_map.mp hleft
    obtain ⟨ids, hids, hset⟩ := exists_right_of_mem h.expands.forced hseed
    exact ⟨ids, hids, (hset d).mpr ((hreaches seed hseed).mpr hstrip.symm)⟩

/-- The excluded set holds an unclean id if an excluded id leaves it. -/
theorem unclean_mem_not_iff (hr : r.registry.InMemory)
    (hk : r.registry.Unmarked r.config.conventions) (h : r.Course caller state c p x)
    (hw : ∀ id ∈ p.not, id ≠ .wildcard) (hd : ¬ r.config.conventions.Clean d) :
    d ∈ x.not ↔ d ∈ p.not.map r.config.conventions.stripMarker := by
  have hreaches (seed : StreamId) (hseed : seed ∈ p.not) :=
    Expansion.reaches_unclean_iff (e := r.expansion state) hr hk p.store
      ((r.expansion state).spared p) (hw seed hseed) hd
  rw [h.expands.mem_not_iff_reached_or_literal]
  constructor
  · intro hexcluded
    rcases hexcluded with ⟨seed, hseed, hreached⟩ | ⟨hnamed, hnone⟩
    · exact List.mem_map.mpr ⟨seed, hseed, ((hreaches seed hseed).mp hreached).symm⟩
    · -- an id that stands for itself has no marker to lose
      have hm : r.config.conventions.isNoExpand d = false := by
        rw [Bool.eq_false_iff]
        intro hm
        simp [Expansion.reach, hm] at hnone
      exact absurd ⟨hw d hnamed, hm⟩ hd
  · intro hleft
    obtain ⟨seed, hseed, hstrip⟩ := List.mem_map.mp hleft
    exact .inl ⟨seed, hseed, (hreaches seed hseed).mpr hstrip.symm⟩

/-- The ids of a request are plain and leave nothing unclean, so what is left is left of entries. -/
theorem unclean_left_iff {raw : RawClause} (hraw : raw.Grammatical r.config.conventions)
    (h : r.Course caller state (raw.bound r.config.conventions) p x)
    (hd : ¬ r.config.conventions.Clean d) :
    d ∈ p.forced.map r.config.conventions.stripMarker ∨
        d ∈ p.not.map r.config.conventions.stripMarker ↔
      d ∈ (caller.forbidden x.store ++ caller.forced x.store).map
        r.config.conventions.stripMarker := by
  rw [h.store_eq]
  constructor
  · intro hleft
    rcases hleft with hforced | hnot
    · obtain ⟨seed, hseed, rfl⟩ := List.mem_map.mp hforced
      rcases (h.admitted.forced seed).mp hseed with hnone | ⟨hentry, -⟩
      · cases hnone
      · exact List.mem_map_of_mem (List.mem_append_right _ hentry)
    · obtain ⟨seed, hseed, rfl⟩ := List.mem_map.mp hnot
      rcases (h.admitted.not seed).mp hseed with hlisted | hentry
      · exact absurd (hraw.plain_of_localIds (by simp) hlisted).clean_strip hd
      · exact List.mem_map_of_mem (List.mem_append_left _ hentry)
  · intro hleft
    obtain ⟨seed, hseed, rfl⟩ := List.mem_map.mp hleft
    rcases List.mem_append.mp hseed with hforbidden | hforced
    · exact .inr (List.mem_map_of_mem ((h.admitted.not seed).mpr (.inr hforbidden)))
    · have hunlisted : seed ∉ (raw.bound r.config.conventions).all := fun hlisted =>
        hd (hraw.plain_of_localIds (by simp) hlisted).clean_strip
      exact .inl (List.mem_map_of_mem ((h.admitted.forced seed).mpr (.inr ⟨hforced, hunlisted⟩)))

theorem forced_ne_wildcard {a : Access} (hcaller : Caller.ofAccess r.config.conventions a = .ok caller)
    {raw : RawClause} (h : r.Course caller state (raw.bound r.config.conventions) p x) :
    ∀ id ∈ p.forced, id ≠ .wildcard := by
  intro id hid
  rcases (h.admitted.forced id).mp hid with hnone | ⟨hentry, -⟩
  · cases hnone
  · exact Caller.forced_ne_wildcard hcaller hentry

theorem not_ne_wildcard {a : Access} (hcaller : Caller.ofAccess r.config.conventions a = .ok caller)
    {raw : RawClause} (hraw : raw.Grammatical r.config.conventions)
    (h : r.Course caller state (raw.bound r.config.conventions) p x) :
    ∀ id ∈ p.not, id ≠ .wildcard := by
  intro id hid
  rcases (h.admitted.not id).mp hid with hlisted | hentry
  · exact (hraw.plain_of_localIds (by simp) hlisted).ne_wildcard
  · rintro rfl
    exact Caller.wildcard_notMem_forbidden (Caller.held_sound hcaller _) hentry

end Course

/-- Of the ids in a resolved clause those that are unclean are what the marker leaves of the entries
that forbid or force a stream of its store; and none of them stands in `any`. -/
theorem unclean_iff_left_of_entry {a : Access} (hr : r.registry.InMemory)
    (hk : r.registry.Unmarked r.config.conventions)
    (hcaller : Caller.ofAccess r.config.conventions a = .ok caller)
    (h : r.resolve caller request = .ok q) : ∀ rc ∈ q.clauses,
      (∀ ids, rc.any = some ids → ∀ id ∈ ids, r.config.conventions.Clean id) ∧
      ∀ id, ¬ r.config.conventions.Clean id →
        (id ∈ rc.ids ↔ id ∈ (caller.forbidden rc.store ++ caller.forced rc.store).map
          r.config.conventions.stripMarker) := by
  intro rc hrc
  obtain ⟨clauses, hclauses, -⟩ := (resolve_eq_ok_iff r caller request q).mp h
  obtain ⟨c, hc, p, x, hcourse, hreduce⟩ := (mem_clauses_iff hclauses h rc).mp hrc
  obtain ⟨raw, hraw, rfl⟩ := exists_grammatical hclauses hc
  obtain ⟨-, -, rfl⟩ := (x.reduce?_eq_some_iff rc).mp hreduce
  constructor
  · intro ids hids id hid
    have hany := ((x.reduced_any_eq_some_iff ids).mp hids).1
    exact hcourse.clean_of_included hr hk ((x.mem_inclusions_iff ids).mpr (.inl hany)) hid
  · intro id hunclean
    have hincluded : ¬ ∃ ids ∈ x.inclusions, id ∈ ids := by
      intro hany
      obtain ⟨ids, hids, hid⟩ := hany
      exact hunclean (hcourse.clean_of_included hr hk hids hid)
    rw [x.mem_ids_reduced_iff, or_iff_right hincluded,
      hcourse.unclean_mem_forced_iff hr hk (hcourse.forced_ne_wildcard hcaller) hunclean,
      hcourse.unclean_mem_not_iff hr hk (hcourse.not_ne_wildcard hcaller hraw) hunclean]
    exact hcourse.unclean_left_iff hraw hunclean

/-- Reads a stream, and has an entry with a marker behind the name of its store. -/
def starredCaller : Caller where
  access := { id := "reader", permissions := [⟨⟨"home"⟩, .read⟩, ⟨⟨":local:#*"⟩, .denied⟩] }
  grants := [(⟨"local"⟩, { entries := [(⟨"home"⟩, .read), (⟨"#*"⟩, .denied)] })]

def starredQuery : ResolvedQuery :=
  ⟨[{ store := ⟨"local"⟩, any := some [⟨"home"⟩, ⟨"bank"⟩], branches := [.not [⟨"*"⟩]] }]⟩

theorem starred_ofAccess : Caller.ofAccess homeResolver.config.conventions starredCaller.access =
    .ok starredCaller := rfl

theorem starred_resolve : homeResolver.resolve starredCaller wholeRequest = .ok starredQuery :=
  (resolve_eq_ok_iff ..).mpr ⟨_, home_clauses, by cbv⟩

theorem unclean_iff_left_of_entry_starred : homeResolver.registry.InMemory ∧
    homeResolver.registry.Unmarked homeResolver.config.conventions ∧
    Caller.ofAccess homeResolver.config.conventions starredCaller.access = .ok starredCaller ∧
    homeResolver.resolve starredCaller wholeRequest = .ok starredQuery ∧
    ∀ rc ∈ starredQuery.clauses,
      (∀ ids, rc.any = some ids → ∀ id ∈ ids, homeResolver.config.conventions.Clean id) ∧
      ∀ id, ¬ homeResolver.config.conventions.Clean id →
        (id ∈ rc.ids ↔ id ∈ (starredCaller.forbidden rc.store ++ starredCaller.forced rc.store).map
          homeResolver.config.conventions.stripMarker) :=
  ⟨home_inMemory, home_unmarked, starred_ofAccess, starred_resolve,
    unclean_iff_left_of_entry home_inMemory home_unmarked starred_ofAccess starred_resolve⟩

/-- The wildcard stands among the excluded ids. -/
theorem wildcard_excluded : homeResolver.registry.InMemory ∧
    homeResolver.registry.Unmarked homeResolver.config.conventions ∧
    Caller.ofAccess homeResolver.config.conventions starredCaller.access = .ok starredCaller ∧
    homeResolver.resolve starredCaller wholeRequest = .ok starredQuery ∧
    ∃ rc ∈ starredQuery.clauses, .wildcard ∈ rc.excludedIds :=
  ⟨home_inMemory, home_unmarked, starred_ofAccess, starred_resolve, _, List.mem_cons_self,
    List.mem_singleton_self _⟩

end Resolver

end StreamScope
