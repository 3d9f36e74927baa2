import StreamScope.Proofs.Resolver.Readable
import StreamScope.Proofs.Scope.Report

/-!
What the permission stage reports first. The streams that a request names are
looked at in its order, those of `any` before those of `all` in each clause. The
first that exists and must not be read is reported alone; without one, all that
do not exist are reported together. The readable roots that take the place of a
wildcard are looked at too, but exist and may be read.
-/

namespace StreamScope

open Outcome

variable {k k' : Conventions} {caller : Caller} {r : Registry}

/-- The streams that a request names, in its order. -/
def named (k : Conventions) (clauses : List QueryClause) : List Reference :=
  clauses.flatMap (QueryClause.references k)

namespace Permitted

variable {c : QueryClause} {a : Access}

/-- There is nothing against the readable roots that take the place of a wildcard. -/
theorem offence?_root_eq_none (hr : r.InMemory) (hk : r.Unmarked k)
    (ha : Caller.ofAccess k' a = .ok caller) {store : StoreId}
    (hblanket : caller.hasBlanketRead store = false) {id : StreamId}
    (hid : id ∈ caller.readableRoots store) (hknown : Reference.isKnown r ⟨store, id⟩ = true) :
    Reference.offence? k caller r ⟨store, k.stripMarker id⟩ = none := by
  obtain ⟨s, hs⟩ := Reference.isKnown_iff.mp hknown
  obtain ⟨f, hf, hlisted⟩ := hr.exists_forest ⟨s, hs⟩
  have hp : caller.access.isPersonal = false := by
    simp only [Caller.hasBlanketRead, Bool.or_eq_false_iff] at hblanket
    exact hblanket.1
  have hstrip : k.stripMarker id = id := Marker.strip_of_not_isMarked (hk store id s hs)
  rw [Reference.offence?_eq_none_iff, hstrip, Reference.isReadable_iff]
  exact ⟨hknown,
    Caller.canRead_of_mem_readableRoots hp hf (Caller.held_sound ha store) hlisted hid⟩

/-- The offences of a clause are those of the streams that it names. -/
theorem offences_eq_filterMap (hr : r.InMemory) (hk : r.Unmarked k)
    (ha : Caller.ofAccess k' a = .ok caller) (c : QueryClause) :
    offences k caller r c = (c.references k).filterMap (Reference.offence? k caller r) := by
  unfold offences entitlement
  split
  case isFalse hkept => rfl
  case isTrue hreplaced =>
    simp only [Bool.and_eq_true, Bool.not_eq_true'] at hreplaced
    have hany : c.any = some .wildcard := by
      simpa [QueryClause.isWildcard] using hreplaced.1
    have hroots : ∀ id ∈ (caller.readableRoots c.store).filter fun id =>
        Reference.isKnown r ⟨c.store, id⟩,
        Reference.offence? k caller r ⟨c.store, k.stripMarker id⟩ = none := by
      intro id hid
      obtain ⟨hmem, hknown⟩ := List.mem_filter.mp hid
      exact offence?_root_eq_none hr hk ha hreplaced.2 hmem hknown
    have hnone := List.filterMap_eq_nil_iff.mpr hroots
    simp only [QueryClause.references, QueryClause.anyIds, hany, Option.map_some,
      Option.getD_some, Inclusion.listed, List.nil_append, List.map_append, List.filterMap_append,
      List.filterMap_map]
    exact (congrArg (· ++ _) hnone).trans (List.nil_append _)

end Permitted

open Permitted

/-- The permission stage decides on the streams that the request names. -/
theorem resolvePermissions_eq_of_named {a : Access} (hr : r.InMemory) (hk : r.Unmarked k)
    (ha : Caller.ofAccess k' a = .ok caller) (clauses : List QueryClause) :
    resolvePermissions k caller r clauses =
      (verdict ((named k clauses).filterMap (Reference.offence? k caller r))).map fun _ =>
        clauses.map fun c => restrict caller (entitlement caller r c) := by
  have hoffences : clauses.flatMap (offences k caller r) =
      (named k clauses).filterMap (Reference.offence? k caller r) := by
    rw [named, List.filterMap_flatMap]
    exact List.flatMap_congr fun c _ => offences_eq_filterMap hr hk ha c
  rw [resolvePermissions_eq hr, hoffences]

/-- Streams that exist and may all be read let the clauses pass. -/
theorem resolvePermissions_eq_ok_of_named {a : Access} (hr : r.InMemory) (hk : r.Unmarked k)
    (ha : Caller.ofAccess k' a = .ok caller) {clauses : List QueryClause}
    (h : ∀ ref ∈ named k clauses, ref.isKnown r = true ∧ ref.isReadable caller r = true) :
    resolvePermissions k caller r clauses =
      .ok (clauses.map fun c => restrict caller (entitlement caller r c)) := by
  have hnone : (named k clauses).filterMap (Reference.offence? k caller r) = [] :=
    List.filterMap_eq_nil_iff.mpr fun ref href => Reference.offence?_eq_none_iff.mpr (h ref href)
  rw [resolvePermissions_eq_of_named hr hk ha, hnone]
  rfl

/-- The first stream named that exists and must not be read is reported; failing one, all that do
not exist, each once; and else the clauses pass in their order. What takes the place of a wildcard
is never at fault. -/
theorem forbidden_before_unknown {a : Access} (hr : r.InMemory) (hk : r.Unmarked k)
    (ha : Caller.ofAccess k' a = .ok caller) (clauses : List QueryClause) :
    (∀ ref, (named k clauses).find? (Reference.isRefused caller r) = some ref →
      resolvePermissions k caller r clauses = .error (.forbidden (ref.full k))) ∧
    ((named k clauses).find? (Reference.isRefused caller r) = none →
      (∃ ref ∈ named k clauses, ref.isKnown r = false) →
      resolvePermissions k caller r clauses = .error (.unknownStreams
        (((named k clauses).filter fun ref => !ref.isKnown r).map (Reference.full k)).eraseDups)) ∧
    ((∀ ref ∈ named k clauses, ref.isKnown r = true ∧ ref.isReadable caller r = true) →
      ∃ ps, resolvePermissions k caller r clauses = .ok ps ∧
        List.Forall₂ (fun c p => Admitted k caller r c p ∧ (p.any = c.any ∨
          c.any = some .wildcard ∧ caller.hasBlanketRead c.store = false ∧
            p.any = some (.ids ((caller.readableRoots c.store).filter fun id =>
              Reference.isKnown r ⟨c.store, id⟩)))) clauses ps) ∧
    ∀ store, ∃ p, resolvePermissions k caller r [.wildcard store] = .ok [p] := by
  refine ⟨fun ref href => ?_, fun hnone hsome => ?_, fun hall => ?_, fun store => ?_⟩
  · have hfirst := Reference.findSome?_offence?_eq_map_find? k caller r (named k clauses)
    rw [href, Option.map_some] at hfirst
    rw [resolvePermissions_eq_of_named hr hk ha, map_eq_error_iff, verdict_eq_error_iff]
    exact .inl ⟨_, hfirst, rfl⟩
  · have hfirst := Reference.findSome?_offence?_eq_map_find? k caller r (named k clauses)
    rw [hnone, Option.map_none] at hfirst
    obtain ⟨ref, href, hunknown⟩ := hsome
    have hne : ((named k clauses).filter fun ref => !ref.isKnown r).map (Reference.full k) ≠ [] :=
      List.ne_nil_of_mem (List.mem_map_of_mem (List.mem_filter.mpr ⟨href, by simp [hunknown]⟩))
    rw [resolvePermissions_eq_of_named hr hk ha, map_eq_error_iff, verdict_eq_report hfirst,
      Reference.filterMap_offence?_eq_map_filter, report_of_ne_nil hne]
  · have hok := resolvePermissions_eq_ok_of_named hr hk ha hall
    have hpermits := (resolvePermissions_eq_ok_iff k caller r clauses _).mp hok
    refine ⟨_, hok, ?_⟩
    rw [List.forall₂_map_right_iff, List.forall₂_same] at hpermits ⊢
    exact fun c hc => ⟨admitted_of_permit (hpermits c hc), entitlement_any caller r c⟩
  · have hnamed : named k [.wildcard store] = [] := rfl
    exact ⟨_, resolvePermissions_eq_ok_of_named hr hk ha (by simp [hnamed])⟩

open Resolver

theorem home_ofAccess : Caller.ofAccess homeResolver.config.conventions homeCaller.access =
    .ok homeCaller := rfl

/-- Streams that do not exist come before one that must not be read. -/
def deniedClauses : List QueryClause :=
  [.ofIds ⟨"local"⟩ [⟨"ghost"⟩, ⟨"home"⟩], .ofIds ⟨"nowhere"⟩ [⟨"x"⟩], .ofIds ⟨"local"⟩ [⟨"bank"⟩]]

/-- One stream that does not exist is named twice. -/
def ghostClauses : List QueryClause :=
  [.ofIds ⟨"local"⟩ [⟨"#ghost"⟩, ⟨"home"⟩], .ofIds ⟨"nowhere"⟩ [⟨"x"⟩],
    .ofIds ⟨"local"⟩ [⟨"ghost"⟩]]

/-- A stream that may be read, beside all that may be read. -/
def readableClauses : List QueryClause := [.ofIds ⟨"local"⟩ [⟨"home"⟩], .wildcard ⟨"local"⟩]

theorem forbidden_before_unknown_home : homeResolver.registry.InMemory ∧
    homeResolver.registry.Unmarked homeResolver.config.conventions ∧
    Caller.ofAccess homeResolver.config.conventions homeCaller.access = .ok homeCaller ∧
    resolvePermissions homeResolver.config.conventions homeCaller homeResolver.registry
      deniedClauses = .error (.forbidden ⟨"bank"⟩) ∧
    resolvePermissions homeResolver.config.conventions homeCaller homeResolver.registry
      ghostClauses = .error (.unknownStreams [⟨"ghost"⟩, ⟨":nowhere:x"⟩]) ∧
    (∃ ps, resolvePermissions homeResolver.config.conventions homeCaller homeResolver.registry
      readableClauses = .ok ps ∧ List.Forall₂ (fun c p =>
        Admitted homeResolver.config.conventions homeCaller homeResolver.registry c p ∧
          (p.any = c.any ∨ c.any = some .wildcard ∧ homeCaller.hasBlanketRead c.store = false ∧
            p.any = some (.ids ((homeCaller.readableRoots c.store).filter fun id =>
              Reference.isKnown homeResolver.registry ⟨c.store, id⟩)))) readableClauses ps) ∧
    ∃ p, resolvePermissions homeResolver.config.conventions homeCaller homeResolver.registry
      [.wildcard ⟨"local"⟩] = .ok [p] := by
  have hdenied := (forbidden_before_unknown home_inMemory home_unmarked home_ofAccess
    deniedClauses).1 ⟨⟨"local"⟩, ⟨"bank"⟩⟩ (by cbv)
  have hghost := (forbidden_before_unknown home_inMemory home_unmarked home_ofAccess
    ghostClauses).2.1 (by cbv) ⟨⟨⟨"local"⟩, ⟨"ghost"⟩⟩, List.mem_cons_self, rfl⟩
  obtain ⟨-, -, hreadable, hwhole⟩ := forbidden_before_unknown home_inMemory home_unmarked
    home_ofAccess readableClauses
  have hhome : ∀ ref ∈ named homeResolver.config.conventions readableClauses,
      ref.isKnown homeResolver.registry = true ∧
        ref.isReadable homeCaller homeResolver.registry = true := by
    have hnamed : named homeResolver.config.conventions readableClauses =
        [⟨⟨"local"⟩, ⟨"home"⟩⟩] := rfl
    rw [hnamed, List.forall_mem_singleton]
    exact ⟨by cbv, by cbv⟩
  exact ⟨home_inMemory, home_unmarked, home_ofAccess, hdenied, hghost, hreadable hhome,
    hwhole ⟨"local"⟩⟩

end StreamScope
