import StreamScope.Proofs.Scope.Entitlement
import StreamScope.Proofs.Scope.Reach

/-!
When the stages succeed over a store that is a forest. Every id is answered
there, so a clause expands without a missing id once its included ids are marked
or name streams of the forest, and it is permitted without an offence once they
exist and the caller may read them.
-/

namespace StreamScope

open Outcome

namespace Expansion

variable {e : Expansion} {store : StoreId} {f : Forest} {seeds : List StreamId}

/-- The id stands for streams: it is marked, it is the wildcard, or the forest has it. -/
def Stands (e : Expansion) (f : Forest) (id : StreamId) : Prop :=
  e.conventions.isNoExpand id = true ∨ id = .wildcard ∨ id ∈ f.ids

/-- Every id of the store is answered, whatever is excluded. -/
def Answers (e : Expansion) (store : StoreId) : Prop :=
  ∀ excluded seed, ∃ found, e.reach store excluded seed = .ok found

/-- A store that is a forest answers, and so does one that is not registered. -/
theorem answers (h : (∃ f, e.registry.Holds store f) ∨ e.registry.backend? store = none) :
    e.Answers store := by
  intro excluded seed
  unfold reach
  split
  · exact ⟨_, rfl⟩
  · rcases h with ⟨f, hf⟩ | hnone
    · exact ⟨_, hf.expand_eq seed excluded e.state⟩
    · exact ⟨_, Registry.expand_of_unregistered hnone seed excluded e.state⟩

theorem exists_reach_some (hf : e.registry.Holds store f) (excluded : List StreamId)
    {seed : StreamId} (h : e.Stands f seed) :
    ∃ ids, e.reach store excluded seed = .ok (some ids) := by
  unfold reach
  cases hm : e.conventions.isNoExpand seed with
  | true => exact ⟨_, rfl⟩
  | false =>
    have hlisted : seed = .wildcard ∨ seed ∈ f.ids := by simpa [Stands, hm] using h
    obtain ⟨ids, hids⟩ := Option.isSome_iff_exists.mp
      ((f.expand_isSome_iff seed excluded e.state).mpr hlisted)
    exact ⟨ids, by simp [hf.expand_eq, hids]⟩

theorem reach_eq_none_iff (hf : e.registry.Holds store f) (excluded : List StreamId)
    (seed : StreamId) : e.reach store excluded seed = .ok none ↔ ¬ e.Stands f seed := by
  constructor
  · intro hnone hstands
    obtain ⟨ids, hids⟩ := exists_reach_some hf excluded hstands
    rw [hids] at hnone
    cases hnone
  · intro hstands
    obtain ⟨hm, hlisted⟩ := not_or.mp hstands
    have hnone : f.expand seed excluded e.state = none := by
      rw [← Option.not_isSome_iff_eq_none, f.expand_isSome_iff]
      exact hlisted
    simp [reach, hm, hf.expand_eq, hnone]

/-- Whether an id stands for streams does not depend on what is excluded. -/
theorem reach_eq_none_congr (hr : e.registry.InMemory) (store : StoreId)
    (excluded excluded' : List StreamId) (seed : StreamId) :
    e.reach store excluded seed = .ok none ↔ e.reach store excluded' seed = .ok none := by
  rcases hr.holds store with ⟨f, hf⟩ | hnone
  · rw [reach_eq_none_iff hf, reach_eq_none_iff hf]
  · simp [reach, Registry.expand_of_unregistered hnone]

theorem reported_congr (hr : e.registry.InMemory) (excluded excluded' : List StreamId) :
    e.reported store excluded = e.reported store excluded' := by
  funext seed
  have hcongr := reach_eq_none_congr hr store excluded excluded' seed
  unfold reported
  grind

/-- Of the streams of its store, a clause excludes those that its excluded ids reach. -/
theorem Expands.mem_not_iff {p : QueryClause} {x : ExpandedClause} {d : StreamId}
    (hf : e.registry.Holds p.store f) (h : e.Expands p x) (hd : d ∈ f.ids) :
    d ∈ x.not ↔ ∃ seed ∈ p.not, e.Reaches p.store (e.spared p) seed d := by
  rw [h.mem_not_iff_reached_or_literal]
  -- an id that is excluded as it stands names no stream
  exact or_iff_left fun hliteral => (reach_eq_none_iff hf _ d).mp hliteral.2 (.inr (.inr hd))

theorem exists_forcedIds (h : e.Answers store) (excluded seeds : List StreamId) :
    ∃ sets, e.forcedIds store excluded seeds = .ok sets := by
  refine exists_mapM_ok fun seed _ => ?_
  obtain ⟨found, hfound⟩ := h excluded seed
  exact ⟨_, map_eq_ok_iff.mpr ⟨found, hfound, rfl⟩⟩

theorem exists_excludedIds (h : e.Answers store) (spared seeds : List StreamId) :
    ∃ ids, e.excludedIds store spared seeds = .ok ids := by
  have hsteps : ∀ seed ∈ seeds, ∃ ids, (e.reach store spared seed).map (·.getD [seed]) = .ok ids := by
    intro seed _
    obtain ⟨found, hfound⟩ := h spared seed
    exact ⟨_, map_eq_ok_iff.mpr ⟨found, hfound, rfl⟩⟩
  obtain ⟨reached, hreached⟩ := exists_mapM_ok hsteps
  exact ⟨union reached, bind_eq_ok_iff.mpr ⟨reached, hreached, rfl⟩⟩

theorem exists_included_of_answers (h : e.Answers store) (excluded seeds : List StreamId) :
    ∃ found, e.included store excluded seeds = .ok found := by
  have hsteps : ∀ seed ∈ seeds, ∃ reached : StreamId × Option (List StreamId),
      (do let streams ← e.reach store excluded seed
          pure (seed, streams) : Except LookupError _) = .ok reached := by
    intro seed _
    obtain ⟨found, hfound⟩ := h excluded seed
    exact ⟨(seed, found), bind_eq_ok_iff.mpr ⟨_, hfound, rfl⟩⟩
  obtain ⟨reached, hreached⟩ := exists_mapM_ok hsteps
  exact ⟨_, bind_eq_ok_iff.mpr ⟨reached, hreached, rfl⟩⟩

theorem exists_includedAny_of_answers {p : QueryClause} (h : e.Answers p.store) :
    ∃ any, e.includedAny p = .ok any := by
  unfold includedAny
  cases p.any with
  | none => exact ⟨none, rfl⟩
  | some inclusion =>
    obtain ⟨found, hfound⟩ := exists_included_of_answers h (e.pruned p) (anySeeds inclusion)
    exact ⟨some found, map_eq_ok_iff.mpr ⟨found, hfound, rfl⟩⟩

/-- Where every id is answered a clause expands, though some of its ids may be missing. -/
theorem exists_clause_of_answers {p : QueryClause} (h : e.Answers p.store) :
    ∃ x missing, e.clause p = .ok (x, missing) := by
  obtain ⟨any, hany⟩ := exists_includedAny_of_answers h
  have heach : ∀ seed ∈ p.all, ∃ found, e.included p.store (e.pruned p) [seed] = .ok found :=
    fun seed _ => exists_included_of_answers h (e.pruned p) [seed]
  obtain ⟨all, hall⟩ := exists_mapM_ok heach
  obtain ⟨forced, hforced⟩ := exists_forcedIds h (e.pruned p) p.forced
  obtain ⟨not, hnot⟩ := exists_excludedIds h (e.spared p) p.not
  simp only [clause_eq, hany, hall, hforced, hnot, bind, Except.bind]
  exact ⟨_, _, rfl⟩

/-- An id that stands for streams is not reported. -/
theorem reported_of_stands (hf : e.registry.Holds store f) (excluded : List StreamId)
    {seed : StreamId} (h : e.Stands f seed) : e.reported store excluded seed = [] := by
  obtain ⟨ids, hids⟩ := exists_reach_some hf excluded h
  simp [reported, hids]

/-- A clause expands without a missing id when each included id stands for streams. -/
theorem exists_clause {p : QueryClause} (hf : e.registry.Holds p.store f)
    (h : ∀ id ∈ p.anyIds ++ p.all, e.Stands f id) : ∃ x, e.clause p = .ok (x, []) := by
  have hstands : ∀ seed ∈ Expansion.seeds p ++ p.all, e.Stands f seed := by
    intro seed hseed
    rw [List.mem_append, mem_seeds_iff] at hseed
    rcases hseed with (⟨-, rfl⟩ | hany) | hall
    · exact .inr (.inl rfl)
    · exact h seed (List.mem_append_left _ hany)
    · exact h seed (List.mem_append_right _ hall)
  obtain ⟨x, missing, hx⟩ := exists_clause_of_answers (p := p) (answers (.inl ⟨f, hf⟩))
  have hmissing : missing = [] := by
    rw [missing_of_clause hx, List.flatMap_eq_nil_iff]
    exact fun seed hseed => reported_of_stands hf _ (hstands seed hseed)
  exact ⟨x, hmissing ▸ hx⟩

end Expansion

namespace Permitted

variable {k : Conventions} {caller : Caller} {r : Registry} {store : StoreId} {f : Forest}
  {c c' : QueryClause}

/-- Of the streams on which read was granted those count that the store still has. -/
theorem existingRoots_eq_filter {p : StreamId → Bool} (caller : Caller)
    (h : ∀ id, ∃ found, r.find store id = .ok found ∧ found.isSome = p id) :
    existingRoots caller r store = .ok ((caller.readableRoots store).filter p) := by
  have hfind (id : StreamId) :
      ((r.find store id).mapError ResolveError.lookup).map (fun stream => stream.map fun _ => id) =
        .ok (Option.guard p id) := by
    obtain ⟨found, hfound, hp⟩ := h id
    cases found <;> simp_all [Except.mapError, Except.map, Option.guard]
  unfold existingRoots
  rw [mapM_of_ok fun id _ => hfind id]
  refine congrArg Except.ok ?_
  rw [List.filterMap_map, ← List.filterMap_eq_filter]
  rfl

theorem existingRoots_eq (hf : r.Holds store f) (caller : Caller) :
    existingRoots caller r store =
      .ok ((caller.readableRoots store).filter fun id => id ∈ f.ids) := by
  refine existingRoots_eq_filter caller fun id => ⟨_, hf.find_eq id, ?_⟩
  rw [Bool.eq_iff_iff, decide_eq_true_iff, ← hf.exists_find_iff, hf.find_eq,
    Option.isSome_iff_exists]
  simp

/-- A clause is permitted without an offence when the caller may read each of its included ids. -/
theorem permit_eq_ok (hc : entitled caller r c = .ok c')
    (h : ∀ id ∈ c'.anyIds ++ c'.all,
      (∃ s, r.find c'.store (k.stripMarker id) = .ok (some s)) ∧
        caller.canRead r c'.store (k.stripMarker id) = .ok true) :
    permit k caller r c = .ok (restrict caller c', []) := by
  have hchecks : ∀ id ∈ c'.anyIds ++ c'.all,
      ∃ offence, check k caller r c'.store id = .ok offence ∧ offence = none :=
    fun id hid => ⟨none, (check_eq_ok_none_iff c'.store id).mpr (h id hid), rfl⟩
  obtain ⟨checked, hchecked, hnone⟩ := exists_mapM_eq_ok hchecks
  refine bind_eq_ok_iff.mpr ⟨c', hc, bind_eq_ok_iff.mpr ⟨checked, hchecked, ?_⟩⟩
  refine congrArg Except.ok (Prod.ext rfl ?_)
  exact List.filterMap_eq_nil_iff.mpr fun offence hoffence => by rw [hnone offence hoffence]

/-- So it is when these are unmarked, exist, and may be read. -/
theorem permit_unmarked_eq_ok (hf : r.Holds c'.store f) (hc : entitled caller r c = .ok c')
    (h : ∀ id ∈ c'.anyIds ++ c'.all, id ∈ f.ids ∧ k.isNoExpand id = false ∧
      caller.canRead r c'.store id = .ok true) :
    permit k caller r c = .ok (restrict caller c', []) := by
  refine permit_eq_ok hc fun id hid => ?_
  obtain ⟨hlisted, hm, hread⟩ := h id hid
  have hstrip : k.stripMarker id = id := Marker.strip_of_not_isMarked hm
  rw [hstrip]
  exact ⟨(hf.exists_find_iff id).mpr hlisted, hread⟩

end Permitted

end StreamScope
