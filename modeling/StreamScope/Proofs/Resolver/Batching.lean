import StreamScope.Proofs.Query.Grammar
import StreamScope.Proofs.Repetition
import StreamScope.Proofs.Resolver.Independence
import StreamScope.Proofs.Resolver.Priority

/-!
Which unknown streams are reported together. Each stage gathers what all clauses
lack before it fails, but expansion comes after the permission stage: if a clause
names a stream that does not exist, what other clauses lack in their expansion
is not reported. This can only be the wildcard of a store that is not registered.
-/

namespace StreamScope

open Outcome

theorem flatMap_filter_of_nil {α β : Type} {p : α → Bool} {f : α → List β} {xs : List α}
    (h : ∀ x ∈ xs, p x = false → f x = []) : (xs.filter p).flatMap f = xs.flatMap f := by
  induction xs with
  | nil => rfl
  | cons x xs ih =>
    have hrest := ih fun x' hx' => h x' (List.mem_cons_of_mem x hx')
    cases hp : p x with
    | true => rw [List.filter_cons_of_pos hp, List.flatMap_cons, List.flatMap_cons, hrest]
    | false =>
      rw [List.filter_cons_of_neg (by simp [hp]), List.flatMap_cons, h x List.mem_cons_self hp,
        hrest]
      rfl

namespace Permitted

/-- A stream that does not exist is named by the clause itself, not by what replaces a wildcard. -/
theorem mem_references_of_unknown {k : Conventions} {caller : Caller} {r : Registry}
    (hk : r.Unmarked k) {c : QueryClause} {ref : Reference}
    (h : ref ∈ (entitlement caller r c).references k) (hunknown : ref.isKnown r = false) :
    ref ∈ c.references k := by
  obtain ⟨id, hid, rfl⟩ := List.mem_map.mp h
  rw [entitlement_store] at hunknown ⊢
  refine List.mem_map.mpr ⟨id, ?_, rfl⟩
  rcases entitlement_any caller r c with hsame | ⟨-, -, hroots⟩
  · simpa [QueryClause.anyIds, hsame, entitlement_all] using hid
  · rcases List.mem_append.mp hid with hany | hall
    · -- a root that takes the place of a wildcard exists
      simp only [QueryClause.anyIds, hroots, Option.map_some, Option.getD_some, Inclusion.listed,
        List.mem_filter] at hany
      obtain ⟨s, hs⟩ := Reference.isKnown_iff.mp hany.2
      have hstrip : k.stripMarker id = id := Marker.strip_of_not_isMarked (hk _ _ s hs)
      rw [hstrip, hany.2] at hunknown
      cases hunknown
    · exact List.mem_append_right _ (by rwa [entitlement_all] at hall)

end Permitted

namespace Resolver

open Registry
open Permitted (Offence verdict restrict entitlement)

variable {r : Resolver} {caller : Caller} {state : StreamState} {c : QueryClause}
  {clauses : List QueryClause} {ids : List StreamId}

/-- The unknown ids of clauses, as far as they come to light: what they lack in their expansion is
not looked for while the permission stage has something against one of them. -/
def lacking (r : Resolver) (caller : Caller) (state : StreamState) (clauses : List QueryClause) :
    List StreamId :=
  match clauses.flatMap (r.offences caller) with
  | [] => clauses.flatMap (r.missing caller state)
  | offences => offences.filterMap Offence.unknown?

theorem lacking_of_permitted (h : clauses.flatMap (r.offences caller) = []) :
    r.lacking caller state clauses = clauses.flatMap (r.missing caller state) := by
  simp only [lacking, h]

theorem lacking_of_stopped (h : clauses.flatMap (r.offences caller) ≠ []) :
    r.lacking caller state clauses =
      (clauses.flatMap (r.offences caller)).filterMap Offence.unknown? := by
  unfold lacking
  split
  case h_1 hnil => exact absurd hnil h
  case h_2 offences => rfl

theorem scope_eq_unknown_iff (hr : r.registry.InMemory) (clauses : List QueryClause)
    (ids : List StreamId) : r.scope caller state clauses = .error (.unknownStreams ids) ↔
      (clauses.flatMap (r.offences caller)).findSome? Offence.forbidden? = none ∧
        r.lacking caller state clauses ≠ [] ∧
        ids = (r.lacking caller state clauses).eraseDups := by
  rw [scope_eq_error_iff hr, Permitted.verdict_eq_error_iff, lacking]
  cases clauses.flatMap (r.offences caller) with
  | nil => simp [report_eq_error_iff]
  | cons offence offences => simp [report_eq_error_iff]

/-- The ids that are reported for a clause alone. -/
def unknownIds (r : Resolver) (caller : Caller) (state : StreamState) (c : QueryClause) :
    List StreamId :=
  match r.scope caller state [c] with
  | .error (.unknownStreams ids) => ids
  | _ => []

/-- Whether the permission stage lets a clause pass. -/
def isPermitted (r : Resolver) (caller : Caller) (c : QueryClause) : Bool :=
  (resolvePermissions r.config.conventions caller r.registry [c]).isOk

/-- The clauses whose unknown ids come to light: those that the permission stage does not let
pass, and all clauses if there are none. -/
def heeded (r : Resolver) (caller : Caller) (clauses : List QueryClause) : List QueryClause :=
  if clauses.all (r.isPermitted caller) then clauses
  else clauses.filter fun c => !r.isPermitted caller c

theorem isPermitted_iff (hr : r.registry.InMemory) :
    r.isPermitted caller c = true ↔ r.offences caller c = [] := by
  rw [isPermitted, permissions_eq hr, List.flatMap_singleton, ← Permitted.verdict_eq_ok_iff]
  cases verdict (r.offences caller c) <;> simp [Except.isOk, Except.toBool, Except.map]

/-- In a clause that alone has a scope or unknown ids nothing is forbidden. -/
theorem unforbidden_of_alone (hr : r.registry.InMemory)
    (h : (∃ q, r.scope caller state [c] = .ok q) ∨
      ∃ ids, r.scope caller state [c] = .error (.unknownStreams ids)) :
    (r.offences caller c).findSome? Offence.forbidden? = none := by
  cases hfirst : (r.offences caller c).findSome? Offence.forbidden? with
  | none => rfl
  | some id =>
    have hforbidden : r.scope caller state [c] = .error (.forbidden id) := by
      rw [scope_eq_forbidden_iff hr, List.flatMap_singleton]
      exact hfirst
    rw [hforbidden] at h
    simp at h

theorem unknownIds_eq (hr : r.registry.InMemory)
    (h : (r.offences caller c).findSome? Offence.forbidden? = none) :
    r.unknownIds caller state c = (r.lacking caller state [c]).eraseDups := by
  have hiff (ids : List StreamId) : r.scope caller state [c] = .error (.unknownStreams ids) ↔
      r.lacking caller state [c] ≠ [] ∧ ids = (r.lacking caller state [c]).eraseDups := by
    rw [scope_eq_unknown_iff hr, List.flatMap_singleton, h]
    exact and_iff_right rfl
  unfold unknownIds
  split
  case h_1 ids hscope => exact ((hiff ids).mp hscope).2
  case h_2 hother =>
    have hnil : r.lacking caller state [c] = [] := by
      by_contra hne
      exact hother _ ((hiff _).mpr ⟨hne, rfl⟩)
    rw [hnil]
    rfl

/-- What clauses lack together is what the heeded ones lack alone. -/
theorem lacking_eq_flatMap (hr : r.registry.InMemory) (clauses : List QueryClause) :
    r.lacking caller state clauses =
      (r.heeded caller clauses).flatMap fun c => r.lacking caller state [c] := by
  have hsingle (c : QueryClause) : [c].flatMap (r.offences caller) = r.offences caller c :=
    List.flatMap_singleton ..
  unfold heeded
  split
  case isTrue hall =>
    have hnil : ∀ c ∈ clauses, r.offences caller c = [] :=
      fun c hc => (isPermitted_iff hr).mp (List.all_eq_true.mp hall c hc)
    rw [lacking_of_permitted (List.flatMap_eq_nil_iff.mpr hnil)]
    refine List.flatMap_congr fun c hc => ?_
    rw [lacking_of_permitted ((hsingle c).trans (hnil c hc)), List.flatMap_singleton]
  case isFalse hsome =>
    have hne : clauses.flatMap (r.offences caller) ≠ [] := by
      intro hnil
      refine hsome (List.all_eq_true.mpr fun c hc => (isPermitted_iff hr).mpr ?_)
      exact List.flatMap_eq_nil_iff.mp hnil c hc
    rw [lacking_of_stopped hne, List.filterMap_flatMap]
    have hstopped : ∀ c ∈ clauses.filter fun c => !r.isPermitted caller c,
        r.lacking caller state [c] = (r.offences caller c).filterMap Offence.unknown? := by
      intro c hc
      have hoffences : r.offences caller c ≠ [] := by
        rw [ne_eq, ← isPermitted_iff hr]
        simpa using (List.mem_filter.mp hc).2
      rw [lacking_of_stopped ((hsingle c).symm ▸ hoffences), hsingle]
    rw [List.flatMap_congr hstopped]
    refine (flatMap_filter_of_nil fun c _ hc => ?_).symm
    rw [(isPermitted_iff hr).mp (by simpa using hc)]
    rfl

/-- A clause that passes the permission stage can lack only the wildcard of its store. -/
theorem lacking_of_isPermitted (hr : r.registry.InMemory) (h : r.isPermitted caller c = true) :
    ∀ id ∈ r.lacking caller state [c],
      ∃ store, id = r.config.conventions.fullId store .wildcard := by
  have hnil : [c].flatMap (r.offences caller) = [] := by
    rw [List.flatMap_singleton]
    exact (isPermitted_iff hr).mp h
  have hpermitted : resolvePermissions r.config.conventions caller r.registry [c] =
      .ok [restrict caller (entitlement caller r.registry c)] := by
    rw [permissions_eq hr, hnil]
    rfl
  have hmissing : r.missing caller state c = _ :=
    Expansion.missing_eq_strayWildcard (e := r.expansion state) hr
      (find_of_permitted hpermitted List.mem_cons_self)
  intro id hid
  rw [lacking_of_permitted hnil, List.flatMap_singleton, hmissing, Option.mem_toList,
    Expansion.strayWildcard?] at hid
  split at hid
  case isTrue hstray => exact ⟨_, (Option.some.inj hid).symm⟩
  case isFalse hhome => cases hid

/-- What a valid clause lacks in the permission stage are streams that it names, and no wildcard. -/
theorem lacking_ne_wildcard {raw : RawClause} (hr : r.registry.InMemory)
    (hk : r.registry.Unmarked r.config.conventions) (hraw : raw.Grammatical r.config.conventions)
    (h : r.isPermitted caller (raw.bound r.config.conventions) = false) {id : StreamId}
    (hid : id ∈ r.lacking caller state [raw.bound r.config.conventions]) (store : StoreId) :
    id ≠ r.config.conventions.fullId store .wildcard := by
  have hne : [raw.bound r.config.conventions].flatMap (r.offences caller) ≠ [] := by
    rw [List.flatMap_singleton, ne_eq, ← isPermitted_iff hr]
    simp [h]
  rw [lacking_of_stopped hne, List.flatMap_singleton, offences, Permitted.offences,
    Reference.filterMap_offence?_eq_map_filter] at hid
  obtain ⟨ref, href, rfl⟩ := List.mem_map.mp hid
  obtain ⟨hmem, hunknown⟩ := List.mem_filter.mp href
  obtain ⟨named, hnamed, rfl⟩ := List.mem_map.mp
    (Permitted.mem_references_of_unknown hk hmem (by simpa using hunknown))
  exact (hraw.plain_of_included hnamed).full_ne_wildcard _ store

/-- A clause that passes the permission stage and is in want reports a wildcard. -/
theorem exists_wildcard_of_isPermitted (hr : r.registry.InMemory)
    (h : r.isPermitted caller c = true)
    (hscope : r.scope caller state [c] = .error (.unknownStreams ids)) :
    ∃ store, r.config.conventions.fullId store .wildcard ∈ r.unknownIds caller state c := by
  obtain ⟨-, hne, rfl⟩ := (scope_eq_unknown_iff hr [c] ids).mp hscope
  obtain ⟨id, hid⟩ := List.exists_mem_of_ne_nil _ hne
  obtain ⟨store, rfl⟩ := lacking_of_isPermitted hr h id hid
  refine ⟨store, ?_⟩
  rw [unknownIds, hscope]
  exact List.mem_eraseDups.mpr hid

theorem mem_of_mem_heeded (h : c ∈ r.heeded caller clauses) : c ∈ clauses := by
  unfold heeded at h
  split at h
  · exact h
  · exact (List.mem_filter.mp h).1

/-- A clause among clauses that have a scope together has one alone. -/
theorem exists_scope_of_mem {q : ResolvedQuery} (h : r.scope caller state clauses = .ok q)
    (hc : c ∈ clauses) : ∃ q', r.scope caller state [c] = .ok q' := by
  obtain ⟨xs, hcourses, -⟩ := (scope_eq_ok_iff r caller state clauses q).mp h
  obtain ⟨x, -, p, hcourse⟩ := exists_right_of_mem hcourses hc
  exact ⟨_, (scope_singleton_iff r caller state c _).mpr ⟨p, x, hcourse, rfl⟩⟩

/-- The ids that come to light are those that the heeded clauses report alone. -/
theorem scope_eq_unknown_of_alone (hr : r.registry.InMemory)
    (halone : ∀ c ∈ clauses, (∃ q, r.scope caller state [c] = .ok q) ∨
      ∃ ids, r.scope caller state [c] = .error (.unknownStreams ids))
    (hsome : ∃ c ∈ clauses, ∃ ids, r.scope caller state [c] = .error (.unknownStreams ids)) :
    r.scope caller state clauses = .error (.unknownStreams
      ((r.heeded caller clauses).flatMap (r.unknownIds caller state)).eraseDups) := by
  have hunforbidden : ∀ c ∈ clauses,
      (r.offences caller c).findSome? Offence.forbidden? = none :=
    fun c hc => unforbidden_of_alone hr (halone c hc)
  have hunknown : ∃ ids, r.scope caller state clauses = .error (.unknownStreams ids) := by
    cases hscope : r.scope caller state clauses with
    | ok q =>
      obtain ⟨c, hc, ids, hids⟩ := hsome
      obtain ⟨q', hq'⟩ := exists_scope_of_mem hscope hc
      rw [hq'] at hids
      cases hids
    | error error =>
      rcases scope_eq_error hr hscope with ⟨ids, rfl⟩ | ⟨id, rfl⟩
      · exact ⟨ids, rfl⟩
      · obtain ⟨offence, hmem, hforbidden⟩ :=
          List.exists_of_findSome?_eq_some ((scope_eq_forbidden_iff hr clauses id).mp hscope)
        obtain ⟨c, hc, hoffence⟩ := List.mem_flatMap.mp hmem
        rw [List.findSome?_eq_none_iff.mp (hunforbidden c hc) offence hoffence] at hforbidden
        cases hforbidden
  obtain ⟨ids, hids⟩ := hunknown
  obtain ⟨-, -, rfl⟩ := (scope_eq_unknown_iff hr clauses ids).mp hids
  have hheeded : (r.heeded caller clauses).flatMap (r.unknownIds caller state) =
      (r.heeded caller clauses).flatMap fun c => (r.lacking caller state [c]).eraseDups :=
    List.flatMap_congr fun c hc => unknownIds_eq hr (hunforbidden c (mem_of_mem_heeded hc))
  rw [hids, lacking_eq_flatMap hr, hheeded, eraseDups_flatMap_eraseDups]

/-- Once a valid clause is stopped, no wildcard comes to light. -/
theorem ne_wildcard_of_heeded {raw : List RawClause} (hr : r.registry.InMemory)
    (hk : r.registry.Unmarked r.config.conventions)
    (hvalid : validate r.config.conventions raw = .ok clauses)
    (hunforbidden : ∀ c ∈ clauses, (r.offences caller c).findSome? Offence.forbidden? = none)
    (hstopped : ¬ clauses.all (r.isPermitted caller) = true) {id : StreamId}
    (hid : id ∈ (r.heeded caller clauses).flatMap (r.unknownIds caller state)) (store : StoreId) :
    id ≠ r.config.conventions.fullId store .wildcard := by
  obtain ⟨c, hc, hunknown⟩ := List.mem_flatMap.mp hid
  rw [heeded, if_neg hstopped, List.mem_filter] at hc
  rw [unknownIds_eq hr (hunforbidden c hc.1), List.mem_eraseDups] at hunknown
  obtain ⟨raw, hraw, rfl⟩ := exists_grammatical_of_validate hvalid hc.1
  exact lacking_ne_wildcard hr hk hraw (by simpa using hc.2) hunknown store

/-- Where clauses that pass the permission stage have a scope, all unknown ids come to light. -/
theorem flatMap_heeded (h : ∀ c ∈ clauses, r.isPermitted caller c = true →
    ∃ q, r.scope caller state [c] = .ok q) :
    (r.heeded caller clauses).flatMap (r.unknownIds caller state) =
      clauses.flatMap (r.unknownIds caller state) := by
  unfold heeded
  split
  case isTrue hall => rfl
  case isFalse hstopped =>
    refine flatMap_filter_of_nil fun c hc hpermitted => ?_
    obtain ⟨q, hq⟩ := h c hc (by simpa using hpermitted)
    simp [unknownIds, hq]

/-- Unknown ids are reported together as far as they come to light. These are all, unless the
permission stage stops one clause and another, which passes it, has a wildcard on a store that is
not registered. -/
theorem unknown_batched_iff {raw : List RawClause} (hr : r.registry.InMemory)
    (hvalid : validate r.config.conventions raw = .ok clauses)
    (halone : ∀ c ∈ clauses, (∃ q, r.scope caller state [c] = .ok q) ∨
      ∃ ids, r.scope caller state [c] = .error (.unknownStreams ids))
    (hsome : ∃ c ∈ clauses, ∃ ids, r.scope caller state [c] = .error (.unknownStreams ids)) :
    ∃ ids, r.scope caller state clauses = .error (.unknownStreams ids) ∧
      ids = ((r.heeded caller clauses).flatMap (r.unknownIds caller state)).eraseDups ∧
      (r.registry.Unmarked r.config.conventions →
        (ids = (clauses.flatMap (r.unknownIds caller state)).eraseDups ↔
          (∀ c ∈ clauses, r.isPermitted caller c = true) ∨
            ∀ c ∈ clauses, r.isPermitted caller c = true →
              ∃ q, r.scope caller state [c] = .ok q)) := by
  have hunforbidden : ∀ c ∈ clauses,
      (r.offences caller c).findSome? Offence.forbidden? = none :=
    fun c hc => unforbidden_of_alone hr (halone c hc)
  refine ⟨_, scope_eq_unknown_of_alone hr halone hsome, rfl, fun hk => ?_⟩
  constructor
  · intro hall
    rw [or_iff_not_imp_left]
    intro hstopped c hc hpermitted
    refine (halone c hc).resolve_right fun hunknown => ?_
    -- the clause reports a wildcard, which does not come to light beside one that is stopped
    obtain ⟨ids, hids⟩ := hunknown
    obtain ⟨store, hwildcard⟩ := exists_wildcard_of_isPermitted hr hpermitted hids
    have hheeded : r.config.conventions.fullId store .wildcard ∈
        (r.heeded caller clauses).flatMap (r.unknownIds caller state) := by
      rw [← List.mem_eraseDups, hall, List.mem_eraseDups]
      exact List.mem_flatMap_of_mem hc hwildcard
    rw [← List.all_eq_true] at hstopped
    exact ne_wildcard_of_heeded hr hk hvalid hunforbidden hstopped hheeded store rfl
  · rintro (hall | hscopes)
    · rw [heeded, if_pos (List.all_eq_true.mpr hall)]
    · rw [flatMap_heeded hscopes]

/-- A stream that does not exist, and all of a store that does not. -/
def absentRaw : List RawClause := [.ofIds ["ghost"], .ofIds [":nowhere:*"]]

def absentClauses : List QueryClause := [.ofIds ⟨"local"⟩ [⟨"ghost"⟩], .wildcard ⟨"nowhere"⟩]

theorem absent_validate :
    validate homeResolver.config.conventions absentRaw = .ok absentClauses := rfl

theorem ghost_scope : homeResolver.scope ownerCaller .live [.ofIds ⟨"local"⟩ [⟨"ghost"⟩]] =
    .error (.unknownStreams [⟨"ghost"⟩]) := rfl

theorem nowhere_scope : homeResolver.scope ownerCaller .live [.wildcard ⟨"nowhere"⟩] =
    .error (.unknownStreams [⟨":nowhere:*"⟩]) := rfl

theorem unknown_batched_home : homeResolver.registry.InMemory ∧
    validate homeResolver.config.conventions absentRaw = .ok absentClauses ∧
    (∀ c ∈ absentClauses, (∃ q, homeResolver.scope ownerCaller .live [c] = .ok q) ∨
      ∃ ids, homeResolver.scope ownerCaller .live [c] = .error (.unknownStreams ids)) ∧
    homeResolver.registry.Unmarked homeResolver.config.conventions ∧
    ∃ ids, homeResolver.scope ownerCaller .live absentClauses = .error (.unknownStreams ids) ∧
      ids = ((homeResolver.heeded ownerCaller absentClauses).flatMap
        (homeResolver.unknownIds ownerCaller .live)).eraseDups ∧
      (ids = (absentClauses.flatMap (homeResolver.unknownIds ownerCaller .live)).eraseDups ↔
        (∀ c ∈ absentClauses, homeResolver.isPermitted ownerCaller c = true) ∨
          ∀ c ∈ absentClauses, homeResolver.isPermitted ownerCaller c = true →
            ∃ q, homeResolver.scope ownerCaller .live [c] = .ok q) := by
  have halone : ∀ c ∈ absentClauses,
      ∃ ids, homeResolver.scope ownerCaller .live [c] = .error (.unknownStreams ids) :=
    List.forall_mem_cons.mpr ⟨⟨_, ghost_scope⟩, List.forall_mem_singleton.mpr ⟨_, nowhere_scope⟩⟩
  obtain ⟨ids, hscope, hheeded, hiff⟩ := unknown_batched_iff home_inMemory absent_validate
    (fun c hc => .inr (halone c hc)) ⟨_, List.mem_cons_self, _, ghost_scope⟩
  exact ⟨home_inMemory, absent_validate, fun c hc => .inr (halone c hc), home_unmarked, ids,
    hscope, hheeded, hiff home_unmarked⟩

/-- Beside a stream that does not exist the wildcard of a store that is not registered goes
unreported. -/
theorem wildcard_unreported : homeResolver.registry.InMemory ∧
    Caller.ofAccess homeResolver.config.conventions ownerCaller.access = .ok ownerCaller ∧
    validate homeResolver.config.conventions absentRaw = .ok absentClauses ∧
    homeResolver.scope ownerCaller .live [.ofIds ⟨"local"⟩ [⟨"ghost"⟩]] =
      .error (.unknownStreams [⟨"ghost"⟩]) ∧
    homeResolver.scope ownerCaller .live [.wildcard ⟨"nowhere"⟩] =
      .error (.unknownStreams [⟨":nowhere:*"⟩]) ∧
    homeResolver.scope ownerCaller .live absentClauses = .error (.unknownStreams [⟨"ghost"⟩]) :=
  ⟨home_inMemory, rfl, absent_validate, ghost_scope, nowhere_scope, rfl⟩

end Resolver

end StreamScope
