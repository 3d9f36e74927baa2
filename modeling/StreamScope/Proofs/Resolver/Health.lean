import StreamScope.Proofs.Resolver.Readable
import StreamScope.Proofs.Scope.Report

/-!
Failures over stores that are forests. No look-up fails there and no climb runs
into a cycle, so a request fails by its own form, by the ids that it names, or by
one that is forbidden. The two stages also agree on what exists: every id that
the permission stage has found is found again when it is expanded.
-/

namespace StreamScope.Resolver

open Outcome Registry
open Permitted (Offence verdict restrict entitlement)

variable {r : Resolver} {caller : Caller} {state : StreamState}

/-- What the permission stage has against a clause. -/
def offences (r : Resolver) (caller : Caller) (c : QueryClause) : List Offence :=
  Permitted.offences r.config.conventions caller r.registry c

/-- What a clause, once permitted, still lacks when it is expanded. -/
def missing (r : Resolver) (caller : Caller) (state : StreamState) (c : QueryClause) :
    List StreamId :=
  (r.expansion state).missing (restrict caller (entitlement caller r.registry c))

theorem permissions_eq (hr : r.registry.InMemory) (caller : Caller) (clauses : List QueryClause) :
    resolvePermissions r.config.conventions caller r.registry clauses =
      (verdict (clauses.flatMap (r.offences caller))).map fun _ =>
        clauses.map fun c => restrict caller (entitlement caller r.registry c) :=
  resolvePermissions_eq hr r.config.conventions caller clauses

/-- The permission stage fails for all clauses together, and where it has nothing against them
expansion reports what they lack together. -/
theorem scope_eq_error_iff (hr : r.registry.InMemory) (clauses : List QueryClause)
    (error : ResolveError) : r.scope caller state clauses = .error error ↔
      verdict (clauses.flatMap (r.offences caller)) = .error error ∨
        clauses.flatMap (r.offences caller) = [] ∧
          report (clauses.flatMap (r.missing caller state)) = .error error := by
  obtain ⟨xs, hxs⟩ := exists_expandClauses_eq (e := r.expansion state) hr
    (clauses.map fun c => restrict caller (entitlement caller r.registry c))
  have hmissing : (clauses.map fun c => restrict caller (entitlement caller r.registry c)).flatMap
      (r.expansion state).missing = clauses.flatMap (r.missing caller state) := by
    rw [List.flatMap_map]
    rfl
  rw [scope_eq, bind_eq_error_iff, permissions_eq hr, map_eq_error_iff,
    ← Permitted.verdict_eq_ok_iff]
  refine or_congr Iff.rfl ?_
  simp only [map_eq_ok_iff, bind_eq_error_iff, reduceCtorEq, and_false, exists_false, or_false]
  constructor
  · rintro ⟨_, ⟨⟨⟩, hverdict, rfl⟩, hexpansion⟩
    rw [hxs, map_eq_error_iff, hmissing] at hexpansion
    exact ⟨hverdict, hexpansion⟩
  · rintro ⟨hverdict, hreport⟩
    refine ⟨_, ⟨(), hverdict, rfl⟩, ?_⟩
    rw [hxs, map_eq_error_iff, hmissing]
    exact hreport

theorem scope_eq_error {clauses : List QueryClause} {error : ResolveError}
    (hr : r.registry.InMemory) (h : r.scope caller state clauses = .error error) :
    (∃ ids, error = .unknownStreams ids) ∨ ∃ id, error = .forbidden id := by
  simp only [scope_eq_error_iff hr, Permitted.verdict_eq_error_iff, report_eq_error_iff] at h
  obtain (⟨id, -, rfl⟩ | ⟨-, -, rfl⟩) | ⟨-, -, rfl⟩ := h
  · exact .inr ⟨id, rfl⟩
  · exact .inl ⟨_, rfl⟩
  · exact .inl ⟨_, rfl⟩

theorem clauses_eq_error {request : Request} {error : ResolveError}
    (h : r.clauses request = .error error) :
    ∃ fault, error = .query (.request r.config.param fault) := by
  rcases bind_eq_error_iff.mp h with hraw | ⟨raw, -, hvalid⟩
  · obtain ⟨fault, -, rfl⟩ := mapError_eq_error_iff.mp hraw
    exact ⟨fault, rfl⟩
  · obtain ⟨fault, -, rfl⟩ := mapError_eq_error_iff.mp hvalid
    exact ⟨fault, rfl⟩

theorem resolve_eq_error {request : Request} {error : ResolveError} (hr : r.registry.InMemory)
    (h : r.resolve caller request = .error error) :
    (∃ fault, error = .query (.request r.config.param fault)) ∨
      (∃ ids, error = .unknownStreams ids) ∨ ∃ id, error = .forbidden id := by
  obtain ⟨cause, hcause, rfl⟩ := mapError_eq_error_iff.mp h
  rcases bind_eq_error_iff.mp hcause with hclauses | ⟨clauses, -, hscope⟩
  · obtain ⟨fault, rfl⟩ := clauses_eq_error hclauses
    exact .inl ⟨fault, rfl⟩
  · -- the time of a request is limited, but no failed look-up turns into its end
    rcases scope_eq_error hr hscope with ⟨ids, rfl⟩ | ⟨id, rfl⟩
    · exact .inr (.inl ⟨ids, rfl⟩)
    · exact .inr (.inr ⟨id, rfl⟩)

/-- Every id that a permitted clause includes names a stream of its store. -/
theorem find_of_permitted {k : Conventions} {registry : Registry} {clauses ps : List QueryClause}
    (h : resolvePermissions k caller registry clauses = .ok ps) {p : QueryClause} (hp : p ∈ ps) :
    ∀ id ∈ p.anyIds ++ p.all, ∃ s, registry.find p.store (k.stripMarker id) = .ok (some s) := by
  obtain ⟨c, -, hpermit⟩ := exists_permit_of_mem h hp
  have hadmitted := Permitted.admitted_of_permit hpermit
  rw [hadmitted.store]
  exact hadmitted.exists_find

/-- Over forests a request fails by its own form or by the ids that it names, and once it is
permitted only wildcards of stores that are not registered are still missing. -/
theorem stores_never_fail (hr : r.registry.InMemory) (caller : Caller) :
    (∀ store id error, r.registry.ancestors store id ≠ .error error) ∧
      (∀ request error, r.resolve caller request = .error error →
        (∃ fault, error = .query (.request r.config.param fault)) ∨
          (∃ ids, error = .unknownStreams ids) ∨ ∃ id, error = .forbidden id) ∧
      ∀ state clauses ps,
        resolvePermissions r.config.conventions caller r.registry clauses = .ok ps →
        (∀ p ∈ ps, ∀ id ∈ p.anyIds ++ p.all, ∀ excluded, ∃ streams,
          (r.expansion state).reach p.store excluded id = .ok (some streams)) ∧
        ∀ error, expandClauses (r.expansion state) ps = .error error ↔
          ps.filterMap (r.expansion state).strayWildcard? ≠ [] ∧ error =
            .unknownStreams (ps.filterMap (r.expansion state).strayWildcard?).eraseDups := by
  refine ⟨?_, fun request error => resolve_eq_error hr, ?_⟩
  · intro store id error herror
    obtain ⟨found, hfound⟩ := hr.exists_ancestors_eq_ok store id
    rw [hfound] at herror
    cases herror
  · intro state clauses ps hps
    have hfound : ∀ p ∈ ps, ∀ id ∈ p.anyIds ++ p.all, ∃ s, (r.expansion state).registry.find
        p.store ((r.expansion state).conventions.stripMarker id) = .ok (some s) :=
      fun p hp => find_of_permitted hps hp
    refine ⟨fun p hp id hid => Expansion.exists_reach_of_found hr (hfound p hp id hid), ?_⟩
    intro error
    have hmissing : ps.flatMap (r.expansion state).missing =
        ps.filterMap (r.expansion state).strayWildcard? := by
      rw [List.filterMap_eq_flatMap_toList]
      exact List.flatMap_congr fun p hp =>
        Expansion.missing_eq_strayWildcard (e := r.expansion state) hr (hfound p hp)
    obtain ⟨xs, hxs⟩ := exists_expandClauses_eq (e := r.expansion state) hr ps
    rw [hxs, map_eq_error_iff, report_eq_error_iff, hmissing]

/-- The owner of the account, who reads everything without an entry. -/
def ownerCaller : Caller where
  access := { id := "owner", kind := .personal }
  grants := []

/-- A stream that exists, and all of a store that does not. -/
def strayClauses : List QueryClause := [.ofIds ⟨"local"⟩ [⟨"home"⟩], .wildcard ⟨"nowhere"⟩]

theorem stray_permitted : resolvePermissions homeResolver.config.conventions ownerCaller
    homeResolver.registry strayClauses = .ok strayClauses := rfl

theorem stores_never_fail_home : homeResolver.registry.InMemory ∧
    resolvePermissions homeResolver.config.conventions ownerCaller homeResolver.registry
      strayClauses = .ok strayClauses ∧
    (∀ store id error, homeResolver.registry.ancestors store id ≠ .error error) ∧
    (∀ request error, homeResolver.resolve ownerCaller request = .error error →
      (∃ fault, error = .query (.request homeResolver.config.param fault)) ∨
        (∃ ids, error = .unknownStreams ids) ∨ ∃ id, error = .forbidden id) ∧
    (∀ p ∈ strayClauses, ∀ id ∈ p.anyIds ++ p.all, ∀ excluded, ∃ streams,
      (homeResolver.expansion .live).reach p.store excluded id = .ok (some streams)) ∧
    expandClauses (homeResolver.expansion .live) strayClauses =
      .error (.unknownStreams [⟨":nowhere:*"⟩]) := by
  obtain ⟨hancestors, hresolve, hstages⟩ := stores_never_fail home_inMemory ownerCaller
  obtain ⟨hfound, herror⟩ := hstages .live strayClauses strayClauses stray_permitted
  have hstray : strayClauses.filterMap (homeResolver.expansion .live).strayWildcard? =
      [⟨":nowhere:*"⟩] := rfl
  refine ⟨home_inMemory, stray_permitted, hancestors, hresolve, hfound, ?_⟩
  rw [herror, hstray]
  exact ⟨by simp, rfl⟩

end StreamScope.Resolver
