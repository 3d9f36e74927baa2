import StreamScope.Proofs.Forest.Nearest
import StreamScope.Proofs.Scope.Mention

/-!
One more marked id in a clause. Among the ids that it joins it stands for its own
stream and nothing else. But for the other side of the clause it loses its marker
and becomes a stream that no way down may pass, and then all that is reached only
past it is lost as well: what `any` and `all` bring in, when the id joins `not`,
and what `not` takes out, when it joins `any`.
-/

namespace StreamScope

open Outcome

theorem Registry.Holds.inSubtree_iff_wayUp {r : Registry} {store : StoreId} {f : Forest}
    (h : r.Holds store f) (top d : StreamId) : r.InSubtree store top d ↔ top ∈ f.wayUp d := by
  rw [h.inSubtree_iff, f.mem_wayUp_iff]

theorem Forest.shows_append_singleton (f : Forest) (excluded : List StreamId) (y : StreamId)
    (state : StreamState) :
    f.Shows (excluded ++ [y]) state = fun x => x ≠ y ∧ f.Shows excluded state x := by
  funext x
  simp only [Shows, List.mem_append, List.mem_singleton, not_or, eq_iff_iff]
  rw [and_comm (a := x ∉ excluded), and_assoc]

namespace Expansion

variable {e : Expansion} {store : StoreId} {excluded seeds : List StreamId}
  {y seed d : StreamId} {p : QueryClause} {x : ExpandedClause}

/-- The two sets differ in `y` at most. -/
def SameBut (y : StreamId) (ids ids' : List StreamId) : Prop :=
  ∀ d, d ≠ y → (d ∈ ids' ↔ d ∈ ids)

/-- The way from an unmarked id down to a stream passes `y`: `y` lies at or below the id, and the
stream at or below `y`. The wildcard stands above all streams. -/
structure Passes (e : Expansion) (store : StoreId) (y seed d : StreamId) : Prop where
  unmarked : e.conventions.isNoExpand seed = false
  below : seed = .wildcard ∨ e.registry.InSubtree store seed y
  above : e.registry.InSubtree store y d

theorem passes_iff (f : Forest) (hf : e.registry.Holds store f)
    (hm : e.conventions.isNoExpand seed = false) : e.Passes store y seed d ↔
      (seed = .wildcard ∨ seed ∈ f.wayUp y) ∧ y ∈ f.wayUp d := by
  rw [← hf.inSubtree_iff_wayUp, ← hf.inSubtree_iff_wayUp]
  exact ⟨fun h => ⟨h.below, h.above⟩, fun h => ⟨hm, h.1, h.2⟩⟩

/-- One more excluded stream cuts off exactly the ways that pass it. -/
theorem reaches_append_iff (hr : e.registry.InMemory) (excluded : List StreamId) (seed d : StreamId) :
    e.Reaches store (excluded ++ [y]) seed d ↔
      e.Reaches store excluded seed d ∧ ¬ e.Passes store y seed d := by
  cases hm : e.conventions.isNoExpand seed with
  | true =>
    have hnot : ¬ e.Passes store y seed d := by
      intro h
      rw [h.unmarked] at hm
      cases hm
    simp only [reaches_of_isNoExpand hm, hnot, not_false_eq_true, and_true]
  | false =>
    rcases hr.holds store with ⟨f, hf⟩ | hnone
    · have hfree : (∀ z ∈ f.wayUp d, z ≠ y) ↔ y ∉ f.wayUp d :=
        ⟨fun h hy => h y hy rfl, fun h z hz heq => h (heq ▸ hz)⟩
      rw [passes_iff f hf hm]
      by_cases hw : seed = .wildcard
      · subst hw
        simp only [reaches_wildcard_iff hf, Forest.descends_from_root_iff,
          f.shows_append_singleton, true_or, true_and, forall_and, hfree]
        rw [and_comm (a := y ∉ f.wayUp d), and_assoc]
      · rw [reaches_iff_descends hm hw hf, reaches_iff_descends hm hw hf,
          f.shows_append_singleton, f.descends_past_iff]
        simp only [hw, false_or]
    · have hno (excluded : List StreamId) : ¬ e.Reaches store excluded seed d :=
        not_reaches_of_unregistered hm hnone d
      simp only [hno, false_and]

/-- The seeds reach the stream, but each of them only past `y`. -/
structure Severed (e : Expansion) (store : StoreId) (excluded seeds : List StreamId)
    (y d : StreamId) : Prop where
  reached : ∃ seed ∈ seeds, e.Reaches store excluded seed d
  past : ∀ seed ∈ seeds, e.Reaches store excluded seed d → e.Passes store y seed d

/-- Of two sets expanded from the same seeds, the second has lost what `y` severs and, but for `y`
itself, nothing else. -/
def LosesSevered (e : Expansion) (store : StoreId) (excluded seeds : List StreamId) (y : StreamId)
    (ids ids' : List StreamId) : Prop :=
  ∀ d, d ≠ y → ((d ∈ ids' ↔ d ∈ ids) ↔ ¬ e.Severed store excluded seeds y d)

/-- When one more stream is excluded, what is reached loses exactly what is severed by it. -/
theorem kept_iff_not_severed (hr : e.registry.InMemory) {ids ids' : List StreamId}
    (h : d ∈ ids ↔ ∃ seed ∈ seeds, e.Reaches store excluded seed d)
    (h' : d ∈ ids' ↔ ∃ seed ∈ seeds, e.Reaches store (excluded ++ [y]) seed d) :
    (d ∈ ids' ↔ d ∈ ids) ↔ ¬ e.Severed store excluded seeds y d := by
  rw [h, h']
  simp only [reaches_append_iff hr]
  constructor
  · intro hsame hsevered
    obtain ⟨seed, hseed, hreaches, hfree⟩ := hsame.mpr hsevered.reached
    exact hfree (hsevered.past seed hseed hreaches)
  · intro hopen
    constructor
    · rintro ⟨seed, hseed, hreaches, -⟩
      exact ⟨seed, hseed, hreaches⟩
    · intro hreached
      by_contra hlost
      refine hopen ⟨hreached, fun seed hseed hreaches => ?_⟩
      by_contra hfree
      exact hlost ⟨seed, hseed, hreaches, hfree⟩

/-- An id that is excluded as it stands is no stream, so nothing severs it. -/
theorem not_severed_of_literal (hr : e.registry.InMemory) {spared : List StreamId}
    (h : e.reach store spared d = .ok none) : ¬ e.Severed store excluded seeds y d := by
  intro hsevered
  obtain ⟨seed, hseed, hreaches⟩ := hsevered.reached
  obtain ⟨f, hf, hd⟩ := hr.exists_forest_of_inSubtree (hsevered.past seed hseed hreaches).above
  exact (reach_eq_none_iff hf spared d).mp h (.inr (.inr hd))

/-- A marked id adds its own stream to what is reached, and no other. -/
theorem exists_reaches_append_iff {m : StreamId} (hm : e.conventions.isNoExpand m = true)
    (hd : d ≠ e.conventions.stripMarker m) :
    (∃ seed ∈ seeds ++ [m], e.Reaches store excluded seed d) ↔
      ∃ seed ∈ seeds, e.Reaches store excluded seed d := by
  simp [or_and_right, exists_or, reaches_of_isNoExpand hm, hd]

/-- The sets of a clause before and after a marked id of the stream `y` joins its `not`. -/
structure OnExclusion (e : Expansion) (p : QueryClause) (y : StreamId)
    (before after : ExpandedClause) : Prop where
  any : e.LosesSevered p.store (e.pruned p) (Expansion.seeds p) y
    (before.any.getD []) (after.any.getD [])
  all : List.Forall₂ (fun seed sets => e.LosesSevered p.store (e.pruned p) [seed] y sets.1 sets.2)
    p.all (before.all.zip after.all)
  not : SameBut y before.not after.not

/-- The sets of a clause before and after a marked id of the stream `y` joins its `any`. -/
structure OnInclusion (e : Expansion) (p : QueryClause) (y : StreamId)
    (before after : ExpandedClause) : Prop where
  any : SameBut y (before.any.getD []) (after.any.getD [])
  all : List.Forall₂ (SameBut y) before.all after.all
  not : e.LosesSevered p.store (e.spared p) p.not y before.not after.not

/-- A marked id that joins `not` is never missing itself, and cuts off what a set of `any` or `all`
reaches only past its stream. -/
theorem exists_onExclusion (hr : e.registry.InMemory) (p : QueryClause) {m : StreamId}
    (hm : e.conventions.isNoExpand m = true) :
    ∃ before after missing, e.clause p = .ok (before, missing) ∧
      e.clause { p with not := p.not ++ [m] } = .ok (after, missing) ∧
      e.OnExclusion p (e.conventions.stripMarker m) before after := by
  have hanswers : e.Answers p.store := answers (hr.holds p.store)
  obtain ⟨x, missing, hx⟩ := exists_clause_of_answers hanswers
  obtain ⟨y, missing', hy⟩ :=
    exists_clause_of_answers (p := { p with not := p.not ++ [m] }) hanswers
  have hpruned : e.pruned { p with not := p.not ++ [m] } =
      e.pruned p ++ [e.conventions.stripMarker m] := by
    simp [pruned]
  have hspared : e.spared { p with not := p.not ++ [m] } = e.spared p := rfl
  have hmissing : missing' = missing := by
    rw [missing_of_clause hx, missing_of_clause hy, reported_congr hr _ (e.pruned p)]
    rfl
  have hxs := expands_of_clause hx
  have hys := expands_of_clause hy
  refine ⟨x, y, missing, hx, hmissing ▸ hy, ⟨fun d _ => ?_, ?_, fun d hd => ?_⟩⟩
  · have hany := hys.mem_any_iff d
    rw [hpruned] at hany
    exact kept_iff_not_severed hr (hxs.mem_any_iff d) hany
  · have hall := hys.all
    rw [hpruned] at hall
    refine (forall₂_zip hxs.all hall).imp fun seed sets hsets d _ => ?_
    exact kept_iff_not_severed hr (by simpa using hsets.1 d) (by simpa using hsets.2 d)
  · rw [hxs.mem_not_iff_reached_or_literal, hys.mem_not_iff_reached_or_literal, hspared]
    refine or_congr (exists_reaches_append_iff hm hd) (and_congr_left fun hliteral => ?_)
    -- the marked id has its stream, so it is not excluded as it stands
    have hne : d ≠ m := by
      rintro rfl
      simp [reach, hm] at hliteral
    simp [hne]

/-- A marked id that joins `any` is never missing itself, and keeps from being excluded what `not`
reaches only past its stream. -/
theorem exists_onInclusion (hr : e.registry.InMemory) (p : QueryClause) {ids : List StreamId}
    (hany : p.any = some (.ids ids)) {m : StreamId} (hm : e.conventions.isNoExpand m = true) :
    ∃ before after missing, e.clause p = .ok (before, missing) ∧
      e.clause { p with any := some (.ids (ids ++ [m])) } = .ok (after, missing) ∧
      e.OnInclusion p (e.conventions.stripMarker m) before after := by
  have hanswers : e.Answers p.store := answers (hr.holds p.store)
  obtain ⟨x, missing, hx⟩ := exists_clause_of_answers hanswers
  obtain ⟨y, missing', hy⟩ :=
    exists_clause_of_answers (p := { p with any := some (.ids (ids ++ [m])) }) hanswers
  have hseeds : Expansion.seeds p = ids := seeds_eq hany
  have hseeds' : Expansion.seeds { p with any := some (.ids (ids ++ [m])) } = ids ++ [m] := rfl
  have hpruned : e.pruned { p with any := some (.ids (ids ++ [m])) } = e.pruned p := rfl
  have hspared : e.spared { p with any := some (.ids (ids ++ [m])) } =
      e.spared p ++ [e.conventions.stripMarker m] := by
    simp [spared, QueryClause.anyIds, hany, Inclusion.listed]
  have hmissing : missing' = missing := by
    rw [missing_of_clause hx, missing_of_clause hy, hseeds, hseeds', hpruned]
    simp [reported_of_isNoExpand hm]
  have hxs := expands_of_clause hx
  have hys := expands_of_clause hy
  refine ⟨x, y, missing, hx, hmissing ▸ hy, ⟨fun d hd => ?_, ?_, fun d _ => ?_⟩⟩
  · rw [hxs.mem_any_iff, hys.mem_any_iff, hseeds, hseeds', hpruned]
    exact exists_reaches_append_iff hm hd
  · have hpaired := (forall₂_comp_iff x.all y.all).mp ⟨p.all, hxs.all.flip, hys.all⟩
    refine hpaired.imp ?_
    rintro set set' ⟨seed, hset, hset'⟩ d -
    rw [hset d, hset' d, hpruned]
  · have hx' := hxs.mem_not_iff_reached_or_literal d
    have hy' := hys.mem_not_iff_reached_or_literal d
    rw [hspared, reach_eq_none_congr hr p.store _ (e.spared p)] at hy'
    by_cases hliteral : d ∈ p.not ∧ e.reach p.store (e.spared p) d = .ok none
    · have hopen : ¬ e.Severed p.store (e.spared p) p.not (e.conventions.stripMarker m) d :=
        not_severed_of_literal hr hliteral.2
      simp only [hx', hy', hliteral, hopen, and_self, or_true, not_false_eq_true]
    · simp only [hliteral, or_false] at hx' hy'
      exact kept_iff_not_severed hr hx' hy'

end Expansion

/-- One more marked id changes, apart from its own stream, exactly what it severs: in `any` and
`all` when it joins `not`, and in `not` when it joins `any`. What is missing stays the same. -/
theorem marked_id_severs {e : Expansion} (hr : e.registry.InMemory) (p : QueryClause) {m : StreamId}
    (hm : e.conventions.isNoExpand m = true) :
    (∃ before after missing, e.clause p = .ok (before, missing) ∧
      e.clause { p with not := p.not ++ [m] } = .ok (after, missing) ∧
      e.OnExclusion p (e.conventions.stripMarker m) before after) ∧
    ∀ ids, p.any = some (.ids ids) → ∃ before after missing, e.clause p = .ok (before, missing) ∧
      e.clause { p with any := some (.ids (ids ++ [m])) } = .ok (after, missing) ∧
      e.OnInclusion p (e.conventions.stripMarker m) before after :=
  ⟨e.exists_onExclusion hr p hm, fun _ hany => e.exists_onInclusion hr p hany hm⟩

/-- Includes the top of the nested streams, and all that are below it. -/
def topClause : QueryClause where
  store := ⟨"local"⟩
  any := some (.ids [⟨"home"⟩])

theorem marked_id_severs_nested :
    nestedExpansion.registry.InMemory ∧
    nestedExpansion.conventions.isNoExpand ⟨"#bank"⟩ = true ∧
    (∃ before after missing, nestedExpansion.clause topClause = .ok (before, missing) ∧
      nestedExpansion.clause { topClause with not := topClause.not ++ [⟨"#bank"⟩] } =
        .ok (after, missing) ∧
      nestedExpansion.OnExclusion topClause (nestedExpansion.conventions.stripMarker ⟨"#bank"⟩)
        before after) ∧
    ∀ ids, topClause.any = some (.ids ids) → ∃ before after missing,
      nestedExpansion.clause topClause = .ok (before, missing) ∧
      nestedExpansion.clause { topClause with any := some (.ids (ids ++ [⟨"#bank"⟩])) } =
        .ok (after, missing) ∧
      nestedExpansion.OnInclusion topClause (nestedExpansion.conventions.stripMarker ⟨"#bank"⟩)
        before after := by
  have hr : nestedExpansion.registry.InMemory := Registry.inMemory_single ⟨"local"⟩ nestedForest
  have hm : nestedExpansion.conventions.isNoExpand ⟨"#bank"⟩ = true := by decide +kernel
  exact ⟨hr, hm, marked_id_severs hr topClause hm⟩

/-- With a marked id in `not` the clause loses the stream below as well. -/
theorem marked_id_severed :
    expandClauses nestedExpansion [topClause] =
      .ok [{ store := ⟨"local"⟩, any := some [⟨"home"⟩, ⟨"bank"⟩, ⟨"public"⟩] }] ∧
    expandClauses nestedExpansion [{ topClause with not := topClause.not ++ [⟨"#bank"⟩] }] =
      .ok [{ store := ⟨"local"⟩, any := some [⟨"home"⟩], not := [⟨"bank"⟩] }] ∧
    nestedExpansion.conventions.isNoExpand ⟨"#bank"⟩ = true ∧
    nestedExpansion.conventions.stripMarker ⟨"#bank"⟩ = ⟨"bank"⟩ ∧ ⟨"bank"⟩ ∈ nestedForest.ids :=
  ⟨by cbv, by cbv, by decide +kernel, by decide +kernel, by decide +kernel⟩

end StreamScope
