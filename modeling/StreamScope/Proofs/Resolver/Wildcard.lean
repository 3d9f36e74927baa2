import StreamScope.Proofs.Access.Widening
import StreamScope.Proofs.Resolver.Course
import StreamScope.Proofs.Scope.Mention

/-!
What the wildcard shows. Without a grant on the whole store it becomes the list
of the granted streams that exist, and the forbidden ids prune it, so it shows
exactly the streams whose nearest entry lets them be read. With such a grant it
stays and is expanded from the roots of the store. Then no stream is shown below
a forbidden or hidden one, not even where a nearer entry grants it anew.
-/

namespace StreamScope

open Lineage Outcome

namespace StoreGrants

variable {g : StoreGrants} {f : Forest} {d : StreamId} {roots excluded : List StreamId}

/-- An entry either lets its stream be read or forbids it. -/
theorem mem_entries_iff (g : StoreGrants) (id : StreamId) : id ∈ g.entries.map Prod.fst ↔
    id ∈ g.entriesWhere PermissionLevel.canRead ∨
      id ∈ g.entriesWhere PermissionLevel.forbidsRead := by
  simp only [mem_entriesWhere_iff, List.mem_map, Prod.exists, exists_and_right, exists_eq_right,
    PermissionLevel.forbidsRead_eq_not_canRead, ← exists_or, ← and_or_left]
  refine exists_congr fun level => ?_
  cases level.canRead <;> simp

/-- Where the whole store is not granted, a stream is readable exactly if the nearest of the
streams with entries is a granted one. -/
theorem decides_readable_iff (hg : g.Sound)
    (hwide : ∀ level, g.storeWide = some level → level.canRead = false)
    (hroots : ∀ y, y ∈ roots ↔ y ∈ g.entriesWhere PermissionLevel.canRead ∧ y ∈ f.ids)
    (hexcluded : ∀ y, y ∈ excluded ↔ y ∈ g.entriesWhere PermissionLevel.forbidsRead) :
    (∃ level, g.decides (f.wayUp d) = some level ∧ level.canRead = true) ↔
      ∃ m ∈ roots, f.nearest? (roots ++ excluded) d = some m := by
  have hmention (y : StreamId) (hy : y ∈ f.ids) :
      y ∉ roots ++ excluded ↔ g.levelOf? y = none := by
    rw [levelOf?_eq_none_iff, mem_entries_iff, List.mem_append, hroots, hexcluded]
    simp [hy]
  constructor
  · intro hreadable
    obtain ⟨level, hdecides, hread⟩ := hreadable
    unfold decides at hdecides
    cases hfind : (f.wayUp d).findSome? g.levelOf? with
    | none =>
      rw [hfind, Option.none_or] at hdecides
      rw [hwide level hdecides] at hread
      cases hread
    | some found =>
      rw [hfind, Option.some_or] at hdecides
      obtain rfl := Option.some.inj hdecides
      obtain ⟨below, m, above, hway, hm, hbelow⟩ := List.findSome?_eq_some_iff.mp hfind
      have hlisted (y : StreamId) (hy : y ∈ below ++ m :: above) : y ∈ f.ids :=
        Forest.mem_ids_of_mem_wayUp (hway ▸ hy)
      have hroot : m ∈ roots := (hroots m).mpr
        ⟨(mem_entriesWhere_iff g _ m).mpr ⟨found, mem_of_levelOf? hm, hread⟩, hlisted m (by simp)⟩
      refine ⟨m, hroot, (Forest.nearest?_eq_some_iff f _ d m).mpr
        ⟨List.mem_append_left _ hroot, below, above, hway, fun y hy => ?_⟩⟩
      exact (hmention y (hlisted y (List.mem_append_left _ hy))).mpr (hbelow y hy)
  · intro hnearest
    obtain ⟨m, hm, hnear⟩ := hnearest
    obtain ⟨-, below, above, hway, hfree⟩ := (Forest.nearest?_eq_some_iff f _ d m).mp hnear
    obtain ⟨level, hentry, hread⟩ := (mem_entriesWhere_iff g _ m).mp ((hroots m).mp hm).1
    have hbelow : ∀ y ∈ below, g.levelOf? y = none := by
      intro y hy
      have hmem : y ∈ f.wayUp d := hway ▸ List.mem_append_left _ hy
      exact (hmention y (Forest.mem_ids_of_mem_wayUp hmem)).mp (hfree y hy)
    rw [hway]
    exact ⟨level, decides_of_nearest hbelow ((hg.levelOf?_eq_some_iff m level).mpr hentry), hread⟩

end StoreGrants

namespace Permitted

variable {k : Conventions} {caller : Caller} {r : Registry} {store : StoreId} {f : Forest}

/-- What a wildcard becomes for a caller who may not read the whole store. -/
def rootsClause (caller : Caller) (f : Forest) (store : StoreId) : QueryClause :=
  .ofIds store ((caller.readableRoots store).filter fun id => id ∈ f.ids)

theorem entitled_wildcard (hf : r.Holds store f) (h : caller.hasBlanketRead store = false) :
    entitled caller r (.wildcard store) = .ok (rootsClause caller f store) := by
  simp [entitled, QueryClause.wildcard, QueryClause.isWildcard, h, existingRoots_eq hf, Except.map,
    rootsClause, QueryClause.ofIds]

theorem entitled_wildcard_of_blanket (h : caller.hasBlanketRead store = true) :
    entitled caller r (.wildcard store) = .ok (.wildcard store) := by
  simp [entitled, QueryClause.wildcard, h]

theorem mem_rootsClause_iff (caller : Caller) (f : Forest) (store : StoreId) (id : StreamId) :
    id ∈ (rootsClause caller f store).anyIds ↔ id ∈ caller.readableRoots store ∧ id ∈ f.ids := by
  simp [rootsClause, QueryClause.ofIds, QueryClause.anyIds, Inclusion.listed]

/-- The granted streams beside the forbidden ones make a plain clause. -/
theorem restrict_rootsClause_plain (hg : (caller.held store).Sound)
    (hforced : caller.forced store = [])
    (hentries : ∀ entry ∈ (caller.held store).entries, k.isNoExpand entry.1 = false) :
    (restrict caller (rootsClause caller f store)).Plain k f where
  any := rfl
  all := rfl
  forced := forced_restrict_eq_nil rfl hforced
  known := by
    intro id hid
    obtain ⟨hroot, hlisted⟩ := (mem_rootsClause_iff caller f store id).mp hid
    obtain ⟨level, hentry, -⟩ := (Caller.mem_readableRoots_iff caller store id).mp hroot
    exact ⟨hlisted, hentries _ hentry⟩
  excluded := by
    intro id hid
    have hout := (mem_not_restrict_of_nil caller rfl id).mp hid
    obtain ⟨level, hentry, -⟩ := (Caller.mem_forbidden_iff caller store id).mp hout
    refine ⟨?_, hentries _ hentry⟩
    rintro rfl
    exact Caller.wildcard_notMem_forbidden hg hout
  disjoint := by
    intro id hid hin
    have hout := (mem_not_restrict_of_nil caller rfl id).mp hin
    have hroot := ((mem_rootsClause_iff caller f store id).mp hid).1
    exact Caller.notMem_forbidden_of_mem_readableRoots hg hroot hout

/-- A stream may be read exactly if its nearest mention beside the forbidden ones is a grant. -/
theorem canRead_iff_includes {d : StreamId} (hf : r.Holds store f)
    (hp : caller.access.isPersonal = false) (hg : (caller.held store).Sound)
    (hwide : ∀ level, (caller.held store).storeWide = some level → level.canRead = false)
    (hd : d ∈ f.ids) : caller.canRead r store d = .ok true ↔
      f.includes (restrict caller (rootsClause caller f store)) d = true := by
  rw [Caller.canRead_of_chain hp hf (Forest.chain_wayUp hd), Forest.includes_ids_iff rfl]
  refine StoreGrants.decides_readable_iff hg hwide (fun y => ?_) fun y => ?_
  · simp [Caller.readableRoots]
  · exact mem_not_restrict_of_nil caller rfl y

/-- The granted streams that exist pass the check, if none of them is marked. -/
theorem permit_rootsClause (hf : r.Holds store f) (hp : caller.access.isPersonal = false)
    (hg : (caller.held store).Sound) (hblanket : caller.hasBlanketRead store = false)
    (hunmarked : ∀ id ∈ caller.readableRoots store, id ∈ f.ids → k.isNoExpand id = false) :
    permit k caller r (.wildcard store) =
      .ok (restrict caller (rootsClause caller f store), []) := by
  refine permit_unmarked_eq_ok hf (entitled_wildcard hf hblanket) fun id hid => ?_
  rw [show (rootsClause caller f store).all = [] from rfl, List.append_nil] at hid
  obtain ⟨hroot, hlisted⟩ := (mem_rootsClause_iff caller f store id).mp hid
  exact ⟨hlisted, hunmarked id hroot hlisted,
    Caller.canRead_of_mem_readableRoots hp hf hg hlisted hroot⟩

theorem permit_wildcard (hf : r.Holds store f) (hp : caller.access.isPersonal = false)
    (hg : (caller.held store).Sound) (hblanket : caller.hasBlanketRead store = false)
    (hentries : ∀ entry ∈ (caller.held store).entries, k.isNoExpand entry.1 = false) :
    permit k caller r (.wildcard store) =
      .ok (restrict caller (rootsClause caller f store), []) := by
  refine permit_rootsClause hf hp hg hblanket fun id hroot _ => ?_
  obtain ⟨level, hentry, -⟩ := (Caller.mem_readableRoots_iff caller store id).mp hroot
  exact hentries _ hentry

theorem permit_wildcard_of_blanket (h : caller.hasBlanketRead store = true) :
    permit k caller r (.wildcard store) = .ok (restrict caller (.wildcard store), []) :=
  permit_eq_ok (entitled_wildcard_of_blanket h) fun id hid => by
    simp [QueryClause.wildcard, QueryClause.anyIds, Inclusion.listed] at hid

end Permitted

namespace Resolver

open Permitted

variable {r : Resolver} {caller : Caller} {state : StreamState} {store : StoreId} {f : Forest}
  {a : Access}

/-- Where no stream is trashed out of sight, the wildcard of a caller without a grant on the whole
store shows exactly the streams that the caller may read. -/
theorem wildcard_shows_readable (hf : r.registry.Holds store f)
    (hcaller : Caller.ofAccess r.config.conventions a = .ok caller)
    (hp : caller.access.isPersonal = false)
    (hwide : ∀ level, (caller.held store).storeWide = some level → level.canRead = false)
    (hforced : caller.forced store = [])
    (hentries : ∀ entry ∈ (caller.held store).entries,
      r.config.conventions.isNoExpand entry.1 = false)
    (hstate : state = .trashed ∨ state = .all) :
    ∃ q, r.scope caller state [.wildcard store] = .ok q ∧
      ∀ d ∈ f.ids, caller.canRead r.registry store d = .ok (q.compile.holds [d]) := by
  have hg := Caller.held_sound hcaller store
  have hblanket := Caller.hasBlanketRead_eq_false hp hwide
  have hplain : (restrict caller (rootsClause caller f store)).Plain
      (r.expansion state).conventions f := restrict_rootsClause_plain hg hforced hentries
  obtain ⟨x, hcourse⟩ : ∃ x, r.Course caller state (.wildcard store)
      (restrict caller (rootsClause caller f store)) x :=
    exists_course hf (permit_wildcard hf hp hg hblanket hentries) hplain.stands
  refine ⟨_, (scope_singleton_iff r caller state _ _).mpr ⟨_, x, hcourse, rfl⟩, fun d hd => ?_⟩
  have hholds : (reduceClauses [x]).compile.holds [d] = true ↔
      f.includes (restrict caller (rootsClause caller f store)) d = true := by
    rw [holds_compile_reduce_single, hplain.selects_iff hf
      (StreamState.includesTrashed_of_trashed_or_all hstate) hcourse.expands]
    simpa using hplain.excludes_of_includes
  have hread := canRead_iff_includes hf hp hg hwide hd
  obtain ⟨readable, hcan⟩ := Caller.exists_canRead hf hd caller
  rw [hcan, Except.ok.injEq] at hread
  rw [hcan, Bool.eq_iff_iff.mpr (hread.trans hholds.symm)]

def nestedResolver : Resolver := ⟨{}, [], .single ⟨"local"⟩ nestedForest⟩

/-- Reads the top and the bottom stream, but not the one between. -/
def nestedAccess : Access where
  id := "reader"
  permissions := [⟨⟨"home"⟩, .read⟩, ⟨⟨"bank"⟩, .denied⟩, ⟨⟨"public"⟩, .read⟩]

def nestedCaller : Caller where
  access := nestedAccess
  grants := [(⟨"local"⟩,
    { entries := [(⟨"home"⟩, .read), (⟨"bank"⟩, .denied), (⟨"public"⟩, .read)] })]

theorem nestedResolver_holds : nestedResolver.registry.Holds ⟨"local"⟩ nestedForest :=
  Registry.holds_single ⟨"local"⟩ nestedForest

theorem nested_ofAccess :
    Caller.ofAccess nestedResolver.config.conventions nestedAccess = .ok nestedCaller := rfl

theorem nested_storeWide : (nestedCaller.held ⟨"local"⟩).storeWide = none := rfl

theorem nested_forced : nestedCaller.forced ⟨"local"⟩ = [] := rfl

theorem nested_unmarked : ∀ entry ∈ (nestedCaller.held ⟨"local"⟩).entries,
    nestedResolver.config.conventions.isNoExpand entry.1 = false := by
  decide

theorem wildcard_shows_readable_nested :
    nestedResolver.registry.Holds ⟨"local"⟩ nestedForest ∧
    Caller.ofAccess nestedResolver.config.conventions nestedAccess = .ok nestedCaller ∧
    nestedCaller.access.isPersonal = false ∧
    (∀ level, (nestedCaller.held ⟨"local"⟩).storeWide = some level → level.canRead = false) ∧
    nestedCaller.forced ⟨"local"⟩ = [] ∧
    (∀ entry ∈ (nestedCaller.held ⟨"local"⟩).entries,
      nestedResolver.config.conventions.isNoExpand entry.1 = false) ∧
    ∃ q, nestedResolver.scope nestedCaller .all [.wildcard ⟨"local"⟩] = .ok q ∧
      ∀ d ∈ nestedForest.ids,
        nestedCaller.canRead nestedResolver.registry ⟨"local"⟩ d = .ok (q.compile.holds [d]) := by
  have hwide : ∀ level, (nestedCaller.held ⟨"local"⟩).storeWide = some level →
      level.canRead = false := by simp [nested_storeWide]
  exact ⟨nestedResolver_holds, nested_ofAccess, rfl, hwide, nested_forced, nested_unmarked,
    wildcard_shows_readable nestedResolver_holds nested_ofAccess rfl hwide nested_forced
      nested_unmarked (.inr rfl)⟩

/-- The wildcard of a caller with a grant on the whole store stays and resolves. -/
theorem exists_course_of_blanket (state : StreamState) (hf : r.registry.Holds store f)
    (hblanket : caller.hasBlanketRead store = true) :
    ∃ x, r.Course caller state (.wildcard store) (restrict caller (.wildcard store)) x :=
  exists_course hf (permit_wildcard_of_blanket hblanket) fun id hid => by
    simp [restrict, QueryClause.wildcard, QueryClause.anyIds, Inclusion.listed] at hid

/-- The wildcard of a caller with a grant on the whole store shows the streams whose whole way up
is open: nothing on it is forbidden, whatever was granted below, and nothing is out of sight. -/
theorem blanket_wildcard_shows (state : StreamState) (hf : r.registry.Holds store f)
    (hg : (caller.held store).Sound) (hblanket : caller.hasBlanketRead store = true)
    (hforced : caller.forced store = []) :
    ∃ q, r.scope caller state [.wildcard store] = .ok q ∧ ∀ d ∈ f.ids,
      (q.compile.holds [d] = true ↔ ∀ y ∈ f.wayUp d, f.Shows
        ((caller.forbidden store).map r.config.conventions.stripMarker) state y) := by
  obtain ⟨x, hcourse⟩ := exists_course_of_blanket state hf hblanket
  refine ⟨_, (scope_singleton_iff r caller state _ _).mpr ⟨_, x, hcourse, rfl⟩, fun d hd => ?_⟩
  have hshows (y : StreamId) :
      f.Shows ((r.expansion state).pruned (restrict caller (.wildcard store))) state y ↔
        f.Shows ((caller.forbidden store).map r.config.conventions.stripMarker) state y :=
    and_congr_left fun _ => not_congr (hcourse.mem_pruned_iff y)
  have hincluded : (r.expansion state).Reaches store
      ((r.expansion state).pruned (restrict caller (.wildcard store))) .wildcard d ↔
        ∀ y ∈ f.wayUp d, f.Shows
          ((caller.forbidden store).map r.config.conventions.stripMarker) state y := by
    rw [Expansion.reaches_wildcard_iff hf, Forest.descends_from_root_iff]
    simp only [hd, true_and]
    exact forall₂_congr fun y _ => hshows y
  rw [holds_compile_reduce_single, hcourse.expands.selects_any_iff rfl rfl
    (forced_restrict_eq_nil rfl hforced)]
  simp only [List.mem_singleton, exists_eq_left, forall_eq, Expansion.anySeeds]
  rw [← hincluded]
  refine and_iff_left_of_imp fun hreaches => ?_
  rw [hcourse.mem_not_iff_descends hf hd (wildcard_notMem_not_restrict hg rfl)]
  -- an excluded id that takes the stream out stands on its way up
  rintro ⟨seed, hseed, ⟨-, rfl⟩ | ⟨hm, hway⟩⟩
  · have hshown := (hshows _).mpr (hincluded.mp hreaches _ (Forest.self_mem_wayUp hd))
    exact hshown.1 (List.mem_map_of_mem hseed)
  · have hshown := (hshows seed).mpr (hincluded.mp hreaches seed hway.mem_wayUp)
    exact hshown.1 (List.mem_map.mpr ⟨seed, hseed, Marker.strip_of_not_isMarked hm⟩)

/-- Where a caller without a grant on the whole store is given one, its wildcard keeps those of
its streams that stand nowhere below a forbidden or hidden one. -/
theorem wildcard_kept_iff {q : ResolvedQuery} {before after : List PermissionEntry}
    {entry : PermissionEntry} (hf : r.registry.Holds store f)
    (hcaller : Caller.ofAccess r.config.conventions a = .ok caller)
    (hwide : (caller.held store).storeWide = none) (hforced : caller.forced store = [])
    (ha : a.permissions = before ++ after)
    (hentry : Grants.splitEntry r.config.conventions entry.stream = .ok (store, .wildcard))
    (hread : entry.level.canRead = true)
    (h : r.scope caller state [.wildcard store] = .ok q) :
    ∃ caller' q', Caller.ofAccess r.config.conventions
        { a with permissions := before ++ entry :: after } = .ok caller' ∧
      r.scope caller' state [.wildcard store] = .ok q' ∧
      ∀ d, q.compile.holds [d] = true → (q'.compile.holds [d] = true ↔
        ∀ y ∈ f.wayUp d, f.Shows
          ((caller.forbidden store).map r.config.conventions.stripMarker) state y) := by
  obtain ⟨caller', hcaller', -, hheld⟩ := Caller.exists_widened hcaller hwide ha hentry
  have hstore : caller'.held store =
      { caller.held store with storeWide := some entry.level } := by
    rw [hheld, if_pos rfl]
  have hblanket : caller'.hasBlanketRead store = true := by
    simp [Caller.hasBlanketRead, hstore, hread]
  have hforced' : caller'.forced store = [] := by
    rw [Caller.forced, hstore]
    exact hforced
  have hforbidden : caller'.forbidden store = caller.forbidden store := by
    rw [Caller.forbidden, hstore]
    rfl
  obtain ⟨q', hq', hshows⟩ := blanket_wildcard_shows state hf
    (Caller.held_sound hcaller' store) hblanket hforced'
  refine ⟨caller', q', hcaller', hq', fun d hmatch => ?_⟩
  obtain ⟨p, x, hcourse, rfl⟩ := (scope_singleton_iff r caller state _ q).mp h
  rw [holds_compile_reduce_single] at hmatch
  obtain ⟨ids, hids, hne⟩ := hmatch.includes
  obtain ⟨d', hd', hrecord⟩ := hmatch.included ids hids hne
  obtain rfl := List.mem_singleton.mp hrecord
  rw [← hforbidden]
  exact hshows d' (hcourse.mem_ids_of_included hf hids hd')

/-- A grant on everything in the store. -/
def everything : PermissionEntry := ⟨⟨"*"⟩, .read⟩

def nestedQuery : ResolvedQuery :=
  ⟨[{ store := ⟨"local"⟩, any := some [⟨"home"⟩, ⟨"public"⟩], branches := [.not [⟨"bank"⟩]] }]⟩

theorem nested_scope :
    nestedResolver.scope nestedCaller .all [.wildcard ⟨"local"⟩] = .ok nestedQuery := by
  cbv

/-- The caller that is given it. -/
def everythingCaller : Caller where
  access := { nestedAccess with permissions := nestedAccess.permissions ++ [everything] }
  grants := [(⟨"local"⟩, {
    storeWide := some .read
    entries := [(⟨"home"⟩, .read), (⟨"bank"⟩, .denied), (⟨"public"⟩, .read)] })]

def everythingQuery : ResolvedQuery :=
  ⟨[{ store := ⟨"local"⟩, any := some [⟨"home"⟩], branches := [.not [⟨"bank"⟩, ⟨"public"⟩]] }]⟩

theorem everything_ofAccess :
    Caller.ofAccess nestedResolver.config.conventions everythingCaller.access =
      .ok everythingCaller := rfl

theorem split_everything :
    Grants.splitEntry nestedResolver.config.conventions everything.stream =
      .ok (⟨"local"⟩, .wildcard) := rfl

theorem wildcard_kept_nested :
    nestedResolver.registry.Holds ⟨"local"⟩ nestedForest ∧
    Caller.ofAccess nestedResolver.config.conventions nestedAccess = .ok nestedCaller ∧
    (nestedCaller.held ⟨"local"⟩).storeWide = none ∧ nestedCaller.forced ⟨"local"⟩ = [] ∧
    nestedAccess.permissions = nestedAccess.permissions ++ [] ∧
    Grants.splitEntry nestedResolver.config.conventions everything.stream =
      .ok (⟨"local"⟩, .wildcard) ∧
    everything.level.canRead = true ∧
    nestedResolver.scope nestedCaller .all [.wildcard ⟨"local"⟩] = .ok nestedQuery ∧
    ∃ caller' q', Caller.ofAccess nestedResolver.config.conventions
        { nestedAccess with permissions := nestedAccess.permissions ++ everything :: [] } =
          .ok caller' ∧
      nestedResolver.scope caller' .all [.wildcard ⟨"local"⟩] = .ok q' ∧
      ∀ d, nestedQuery.compile.holds [d] = true → (q'.compile.holds [d] = true ↔
        ∀ y ∈ nestedForest.wayUp d, nestedForest.Shows ((nestedCaller.forbidden ⟨"local"⟩).map
          nestedResolver.config.conventions.stripMarker) .all y) :=
  ⟨nestedResolver_holds, nested_ofAccess, nested_storeWide, nested_forced,
    (List.append_nil _).symm, split_everything, rfl, nested_scope,
    wildcard_kept_iff nestedResolver_holds nested_ofAccess nested_storeWide nested_forced
      (List.append_nil _).symm split_everything rfl nested_scope⟩

/-- With a grant on everything the caller loses the stream below the forbidden one. -/
theorem everything_shows_less :
    Caller.ofAccess nestedResolver.config.conventions nestedAccess = .ok nestedCaller ∧
    nestedAccess.isPersonal = false ∧
    (nestedCaller.held ⟨"local"⟩).storeWide = none ∧ nestedCaller.forced ⟨"local"⟩ = [] ∧
    everything.level.canRead = true ∧
    nestedResolver.scope nestedCaller .all [.wildcard ⟨"local"⟩] = .ok nestedQuery ∧
    nestedQuery.compile.holds [⟨"public"⟩] = true ∧
    Caller.ofAccess nestedResolver.config.conventions everythingCaller.access =
      .ok everythingCaller ∧
    (everythingCaller.held ⟨"local"⟩).storeWide = some everything.level ∧
    nestedResolver.scope everythingCaller .all [.wildcard ⟨"local"⟩] = .ok everythingQuery ∧
    everythingQuery.compile.holds [⟨"public"⟩] = false :=
  ⟨nested_ofAccess, rfl, nested_storeWide, nested_forced, rfl, nested_scope, by cbv,
    everything_ofAccess, by cbv, by cbv, by cbv⟩

end Resolver

end StreamScope
