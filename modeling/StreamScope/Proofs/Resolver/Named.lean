import StreamScope.Proofs.Resolver.Wildcard

/-!
A readable stream that is asked for by name. The request passes every check, but
the forbidden ids join the clause. They spare what `any` names, so only an entry
that forbids the very stream takes it out there. They do not spare what `all`
names, so there each forbidden stream above takes it out as well, even where the
nearest entry grants it.
-/

namespace StreamScope.Resolver

open Permitted

variable {r : Resolver} {caller : Caller} {state : StreamState} {store : StoreId} {f : Forest}
  {a : Access} {s : StreamId}

namespace Course

variable {c p : QueryClause} {x : ExpandedClause} {d : StreamId}

/-- What `any` names lies below no exclusion, so only its own name can exclude it. -/
theorem notMem_not_of_mem_spared (hf : r.registry.Holds c.store f)
    (h : r.Course caller state c p x) (hd : d ∈ f.ids) (hw : .wildcard ∉ p.not)
    (hspared : d ∈ (r.expansion state).spared p) (hout : d ∉ (r.expansion state).pruned p) :
    d ∉ x.not := by
  rw [h.mem_not_iff_descends hf hd hw]
  rintro ⟨seed, hseed, ⟨-, rfl⟩ | ⟨-, hway⟩⟩
  · exact hout (List.mem_map_of_mem hseed)
  · exact hway.opened.1 hspared

/-- Without ids in `any`, all that lies below an excluded stream is excluded. -/
theorem notMem_not_iff_wayUp (hf : r.registry.Holds c.store f)
    (hk : ∀ id ∈ f.ids, r.config.conventions.isNoExpand id = false)
    (h : r.Course caller state c p x) (hd : d ∈ f.ids) (hw : .wildcard ∉ p.not)
    (hstate : state.includesTrashed = true) (hany : p.anyIds = [])
    (hout : d ∉ (r.expansion state).pruned p) :
    d ∉ x.not ↔ ∀ y ∈ f.wayUp d, y ∉ p.not := by
  rw [h.mem_not_iff_descends hf hd hw]
  constructor
  · intro hkept y hy hexcluded
    have hopen : ∀ z ∈ f.wayUp d, f.Shows ((r.expansion state).spared p) state z := by
      intro z hz
      rw [Forest.shows_iff_notMem hstate (Forest.mem_ids_of_mem_wayUp hz)]
      simp [Expansion.spared, hany]
    have hway := Forest.descends_of_mem_wayUp hy hopen
    exact hkept ⟨y, hexcluded, .inr ⟨hk y hway.top_mem_ids, hway⟩⟩
  · intro hfree
    rintro ⟨seed, hseed, ⟨-, rfl⟩ | ⟨-, hway⟩⟩
    · exact hout (List.mem_map_of_mem hseed)
    · exact hfree seed hway.mem_wayUp hseed

end Course

/-- A clause that names one readable stream, in `any` or in `all`, runs its course. -/
theorem exists_course_of_named {c : QueryClause} (hf : r.registry.Holds c.store f)
    (hs : s ∈ f.ids) (hm : r.config.conventions.isNoExpand s = false)
    (hread : caller.canRead r.registry c.store s = .ok true) (hwild : c.isWildcard = false)
    (hnamed : c.anyIds ++ c.all = [s]) :
    ∃ x, r.Course caller state c (restrict caller c) x := by
  have hentitled : entitled caller r.registry c = .ok c := by simp [entitled, hwild]
  have hpermit : permit r.config.conventions caller r.registry c = .ok (restrict caller c, []) := by
    refine permit_unmarked_eq_ok hf hentitled fun id hid => ?_
    obtain rfl := List.mem_singleton.mp (hnamed ▸ hid)
    exact ⟨hs, hm, hread⟩
  have hstands : ∀ id ∈ (restrict caller c).anyIds ++ (restrict caller c).all,
      (r.expansion state).Stands f id := by
    intro id hid
    obtain rfl := List.mem_singleton.mp (hnamed ▸ hid)
    exact .inr (.inr hs)
  exact exists_course hf hpermit hstands

/-- Once in scope, the stream that a clause names is reached unless an entry forbids it. -/
theorem reaches_self_iff {p : QueryClause} (hf : r.registry.Holds store f) (hs : s ∈ f.ids)
    (hm : r.config.conventions.isNoExpand s = false) (hstate : state.includesTrashed = true) :
    (r.expansion state).Reaches store ((r.expansion state).pruned p) s s ↔
      s ∉ (r.expansion state).pruned p := by
  have hne : s ≠ .wildcard := fun heq => f.wildcard_notMem_ids (heq ▸ hs)
  rw [Expansion.reaches_iff_descends hm hne hf, Forest.descends_self_iff hs]
  exact Forest.shows_iff_notMem hstate hs

/-- Named in `any`, a readable stream is shown unless an entry forbids the very stream. -/
theorem any_shown_iff (hf : r.registry.Holds store f) (hg : (caller.held store).Sound)
    (hm : r.config.conventions.isNoExpand s = false) (hforced : caller.forced store = [])
    (hstate : state.includesTrashed = true) (hs : s ∈ f.ids)
    (hread : caller.canRead r.registry store s = .ok true) :
    ∃ q, r.scope caller state [.ofIds store [s]] = .ok q ∧ (q.compile.holds [s] = true ↔
      s ∉ (caller.forbidden store).map r.config.conventions.stripMarker) := by
  obtain ⟨x, hcourse⟩ : ∃ x, r.Course caller state (.ofIds store [s]) _ x :=
    exists_course_of_named hf hs hm hread rfl rfl
  refine ⟨_, (scope_singleton_iff r caller state _ _).mpr ⟨_, x, hcourse, rfl⟩, ?_⟩
  have hw : .wildcard ∉ (restrict caller (.ofIds store [s])).not :=
    wildcard_notMem_not_restrict hg rfl
  have hspared : s ∈ (r.expansion state).spared (restrict caller (.ofIds store [s])) :=
    List.mem_map.mpr ⟨s, List.mem_singleton_self s, Marker.strip_of_not_isMarked hm⟩
  rw [holds_compile_reduce_single,
    hcourse.expands.selects_any_iff rfl rfl (forced_restrict_eq_nil rfl hforced)]
  simp only [List.mem_singleton, exists_eq_left, forall_eq, Expansion.anySeeds]
  calc _ ↔ s ∉ (r.expansion state).pruned (restrict caller (.ofIds store [s])) ∧ s ∉ x.not :=
        and_congr_left' (reaches_self_iff hf hs hm hstate)
    _ ↔ s ∉ (r.expansion state).pruned (restrict caller (.ofIds store [s])) :=
        and_iff_left_of_imp (hcourse.notMem_not_of_mem_spared hf hs hw hspared)
    _ ↔ _ := not_congr (hcourse.mem_pruned_iff s)

/-- Named in `all`, it is shown if moreover no stream on its way up is forbidden. -/
theorem all_shown_iff (hf : r.registry.Holds store f) (hg : (caller.held store).Sound)
    (hk : ∀ id ∈ f.ids, r.config.conventions.isNoExpand id = false)
    (hforced : caller.forced store = []) (hstate : state.includesTrashed = true) (hs : s ∈ f.ids)
    (hread : caller.canRead r.registry store s = .ok true) :
    ∃ q, r.scope caller state [{ store, all := [s] }] = .ok q ∧ (q.compile.holds [s] = true ↔
      s ∉ (caller.forbidden store).map r.config.conventions.stripMarker ∧
        ∀ y ∈ f.wayUp s, y ∉ caller.forbidden store) := by
  have hm := hk s hs
  obtain ⟨x, hcourse⟩ : ∃ x, r.Course caller state { store, all := [s] } _ x :=
    exists_course_of_named hf hs hm hread rfl rfl
  refine ⟨_, (scope_singleton_iff r caller state _ _).mpr ⟨_, x, hcourse, rfl⟩, ?_⟩
  have hw : .wildcard ∉ (restrict caller { store, all := [s] }).not :=
    wildcard_notMem_not_restrict hg rfl
  rw [holds_compile_reduce_single,
    hcourse.expands.selects_all_iff rfl rfl (forced_restrict_eq_nil rfl hforced)]
  simp only [List.mem_singleton, exists_eq_left, forall_eq]
  calc _ ↔ s ∉ (r.expansion state).pruned (restrict caller { store, all := [s] }) ∧ s ∉ x.not :=
        and_congr_left' (reaches_self_iff hf hs hm hstate)
    _ ↔ s ∉ (r.expansion state).pruned (restrict caller { store, all := [s] }) ∧
          ∀ y ∈ f.wayUp s, y ∉ (restrict caller { store, all := [s] }).not :=
        and_congr_right (hcourse.notMem_not_iff_wayUp hf hk hs hw hstate rfl)
    _ ↔ _ := and_congr (not_congr (hcourse.mem_pruned_iff s)) (forall₂_congr fun y _ =>
        not_congr (mem_not_restrict_of_nil caller rfl y))

/-- A readable stream may be asked for by name. It is shown, in `any` unless an entry forbids the
very stream, in `all` unless one forbids it or a stream on its way up. -/
theorem named_shown_iff (hf : r.registry.Holds store f)
    (hk : ∀ id ∈ f.ids, r.config.conventions.isNoExpand id = false)
    (hcaller : Caller.ofAccess r.config.conventions a = .ok caller)
    (hforced : caller.forced store = []) (hstate : state = .trashed ∨ state = .all)
    (hs : s ∈ f.ids) (hread : caller.canRead r.registry store s = .ok true) :
    ∃ q q', r.scope caller state [.ofIds store [s]] = .ok q ∧
      r.scope caller state [{ store, all := [s] }] = .ok q' ∧
      (q.compile.holds [s] = true ↔
        s ∉ (caller.forbidden store).map r.config.conventions.stripMarker) ∧
      (q'.compile.holds [s] = true ↔
        s ∉ (caller.forbidden store).map r.config.conventions.stripMarker ∧
          ∀ y ∈ f.wayUp s, y ∉ caller.forbidden store) := by
  have hincludes := StreamState.includesTrashed_of_trashed_or_all hstate
  have hg := Caller.held_sound hcaller store
  obtain ⟨q, hq, hany⟩ := any_shown_iff hf hg (hk s hs) hforced hincludes hs hread
  obtain ⟨q', hq', hall⟩ := all_shown_iff hf hg hk hforced hincludes hs hread
  exact ⟨q, q', hq, hq', hany, hall⟩

theorem nested_ids_unmarked :
    ∀ id ∈ nestedForest.ids, nestedResolver.config.conventions.isNoExpand id = false := by
  decide

theorem nested_canRead :
    nestedCaller.canRead nestedResolver.registry ⟨"local"⟩ ⟨"public"⟩ = .ok true := by
  cbv

theorem named_shown_nested :
    nestedResolver.registry.Holds ⟨"local"⟩ nestedForest ∧
    (∀ id ∈ nestedForest.ids, nestedResolver.config.conventions.isNoExpand id = false) ∧
    Caller.ofAccess nestedResolver.config.conventions nestedAccess = .ok nestedCaller ∧
    nestedCaller.forced ⟨"local"⟩ = [] ∧ ⟨"public"⟩ ∈ nestedForest.ids ∧
    nestedCaller.canRead nestedResolver.registry ⟨"local"⟩ ⟨"public"⟩ = .ok true ∧
    ∃ q q', nestedResolver.scope nestedCaller .all [.ofIds ⟨"local"⟩ [⟨"public"⟩]] = .ok q ∧
      nestedResolver.scope nestedCaller .all [{ store := ⟨"local"⟩, all := [⟨"public"⟩] }] =
        .ok q' ∧
      (q.compile.holds [⟨"public"⟩] = true ↔ ⟨"public"⟩ ∉ (nestedCaller.forbidden ⟨"local"⟩).map
        nestedResolver.config.conventions.stripMarker) ∧
      (q'.compile.holds [⟨"public"⟩] = true ↔
        ⟨"public"⟩ ∉ (nestedCaller.forbidden ⟨"local"⟩).map
          nestedResolver.config.conventions.stripMarker ∧
        ∀ y ∈ nestedForest.wayUp ⟨"public"⟩, y ∉ nestedCaller.forbidden ⟨"local"⟩) := by
  have hs : ⟨"public"⟩ ∈ nestedForest.ids := by decide +kernel
  exact ⟨nestedResolver_holds, nested_ids_unmarked, nested_ofAccess, nested_forced, hs,
    nested_canRead, named_shown_iff nestedResolver_holds nested_ids_unmarked nested_ofAccess
      nested_forced (.inr rfl) hs nested_canRead⟩

/-- Demands the stream below the forbidden one. -/
def publicQuery : ResolvedQuery :=
  ⟨[{ store := ⟨"local"⟩,
      branches := [.any [⟨"public"⟩], .not [⟨"bank"⟩, ⟨"public"⟩]] }]⟩

/-- A readable stream that `all` names matches nothing. -/
theorem named_denied :
    Caller.ofAccess nestedResolver.config.conventions nestedAccess = .ok nestedCaller ∧
    nestedCaller.access.isPersonal = false ∧ nestedCaller.forced ⟨"local"⟩ = [] ∧
    ⟨"public"⟩ ∈ nestedForest.ids ∧
    nestedCaller.canRead nestedResolver.registry ⟨"local"⟩ ⟨"public"⟩ = .ok true ∧
    nestedResolver.scope nestedCaller .all [{ store := ⟨"local"⟩, all := [⟨"public"⟩] }] =
      .ok publicQuery ∧
    publicQuery.compile.holds [⟨"public"⟩] = false :=
  ⟨nested_ofAccess, rfl, nested_forced, by decide +kernel, nested_canRead, by cbv, by cbv⟩

end StreamScope.Resolver
