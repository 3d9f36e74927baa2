import StreamScope.Proofs.Scope.Success

/-!
What the stages report. Over forests no look-up fails, so either stage goes
through all clauses and reports what they lack together, at its end: the
permission stage the included ids without a stream, unless one is forbidden, and
expansion the inclusions that stand for no stream.
-/

namespace StreamScope

open Outcome

/-- Ids are reported together, each once; without ids there is nothing to report. -/
def report (ids : List StreamId) : Except ResolveError Unit :=
  match ids.eraseDups with
  | [] => .ok ()
  | ids => .error (.unknownStreams ids)

theorem report_of_ne_nil {ids : List StreamId} (h : ids ≠ []) :
    report ids = .error (.unknownStreams ids.eraseDups) := by
  cases ids with
  | nil => exact absurd rfl h
  | cons id ids => simp [report, List.eraseDups_cons]

theorem report_eq_error_iff (ids : List StreamId) (error : ResolveError) :
    report ids = .error error ↔ ids ≠ [] ∧ error = .unknownStreams ids.eraseDups := by
  by_cases h : ids = []
  · simp [h, report]
  · simp [h, report_of_ne_nil, eq_comm]

/-- A stream that a clause names: its store, and its id without a marker. -/
structure Reference where
  store : StoreId
  id : StreamId
deriving DecidableEq, Repr

namespace Reference

open Permitted (Offence)

variable {k : Conventions} {caller : Caller} {r : Registry} {ref : Reference}

def full (k : Conventions) (ref : Reference) : StreamId := k.fullId ref.store ref.id

/-- Whether the stream exists. -/
def isKnown (r : Registry) (ref : Reference) : Bool :=
  match r.find ref.store ref.id with
  | .ok (some _) => true
  | _ => false

def isReadable (caller : Caller) (r : Registry) (ref : Reference) : Bool :=
  match caller.canRead r ref.store ref.id with
  | .ok true => true
  | _ => false

/-- Whether the stream exists and must not be read. -/
def isRefused (caller : Caller) (r : Registry) (ref : Reference) : Bool :=
  ref.isKnown r && !ref.isReadable caller r

theorem isKnown_iff : ref.isKnown r = true ↔ ∃ s, r.find ref.store ref.id = .ok (some s) := by
  unfold isKnown
  split
  case h_1 s hs => simp [hs]
  case h_2 hnone =>
    simp only [Bool.false_eq_true, false_iff, not_exists]
    exact hnone

theorem isReadable_iff :
    ref.isReadable caller r = true ↔ caller.canRead r ref.store ref.id = .ok true := by
  unfold isReadable
  split
  case h_1 h => simp [h]
  case h_2 hnot =>
    simp only [Bool.false_eq_true, false_iff]
    exact hnot

theorem isKnown_of_find {store : StoreId} {id : StreamId} {found : Option Stream}
    (h : r.find store id = .ok found) : isKnown r ⟨store, id⟩ = found.isSome := by
  cases found <;> simp [isKnown, h]

/-- In a forest it can be told of every stream whether it may be read. -/
theorem canRead_eq (hr : r.InMemory) (caller : Caller) (h : ref.isKnown r = true) :
    caller.canRead r ref.store ref.id = .ok (ref.isReadable caller r) := by
  obtain ⟨f, hf, hlisted⟩ := hr.exists_forest (isKnown_iff.mp h)
  obtain ⟨readable, hreadable⟩ := Caller.exists_canRead hf hlisted caller
  cases readable <;> simp [isReadable, hreadable]

/-- What the permission stage has against a reference. -/
def offence? (k : Conventions) (caller : Caller) (r : Registry) (ref : Reference) :
    Option Offence :=
  if ref.isKnown r then
    if ref.isReadable caller r then none else some (.forbidden (ref.full k))
  else some (.unknown (ref.full k))

theorem offence?_eq_none_iff : ref.offence? k caller r = none ↔
    ref.isKnown r = true ∧ ref.isReadable caller r = true := by
  unfold offence?
  cases ref.isKnown r <;> cases ref.isReadable caller r <;> simp

theorem findSome?_offence?_eq_map_find? (k : Conventions) (caller : Caller) (r : Registry)
    (refs : List Reference) :
    (refs.filterMap (offence? k caller r)).findSome? Offence.forbidden? =
      (refs.find? (isRefused caller r)).map (full k) := by
  induction refs with
  | nil => rfl
  | cons ref refs ih =>
    rw [List.filterMap_cons, List.find?_cons, offence?, isRefused]
    cases ref.isKnown r <;> cases ref.isReadable caller r <;>
      simp [ih, List.findSome?_cons, Offence.forbidden?]

theorem filterMap_offence?_eq_map_filter (k : Conventions) (caller : Caller) (r : Registry)
    (refs : List Reference) :
    (refs.filterMap (offence? k caller r)).filterMap Offence.unknown? =
      (refs.filter fun ref => !ref.isKnown r).map (full k) := by
  induction refs with
  | nil => rfl
  | cons ref refs ih =>
    rw [List.filterMap_cons, List.filter_cons, offence?]
    cases ref.isKnown r <;> cases ref.isReadable caller r <;>
      simp [ih, List.filterMap_cons, Offence.unknown?]

end Reference

/-- The streams that a clause names under `any` and then under `all`. -/
def QueryClause.references (k : Conventions) (c : QueryClause) : List Reference :=
  (c.anyIds ++ c.all).map fun id => ⟨c.store, k.stripMarker id⟩

namespace Permitted

variable {k : Conventions} {caller : Caller} {r : Registry} {c : QueryClause}

theorem check_eq (hr : r.InMemory) (store : StoreId) (id : StreamId) :
    check k caller r store id =
      .ok (Reference.offence? k caller r ⟨store, k.stripMarker id⟩) := by
  obtain ⟨found, hfound⟩ := hr.exists_find_eq_ok store (k.stripMarker id)
  have hknown := Reference.isKnown_of_find hfound
  unfold check Reference.offence?
  rw [hknown]
  cases found with
  | none => simp [hfound, Except.mapError, bind, Except.bind, pure, Except.pure, Reference.full]
  | some s =>
    have hread := Reference.canRead_eq hr caller hknown
    simp [hfound, hread, Except.mapError, bind, Except.bind, pure, Except.pure, Reference.full]

/-- The clause without a wildcard that the caller has no right to. -/
def entitlement (caller : Caller) (r : Registry) (c : QueryClause) : QueryClause :=
  if c.isWildcard && !caller.hasBlanketRead c.store then
    { c with any := some (.ids ((caller.readableRoots c.store).filter fun id =>
        Reference.isKnown r ⟨c.store, id⟩)) }
  else c

theorem entitlement_store (caller : Caller) (r : Registry) (c : QueryClause) :
    (entitlement caller r c).store = c.store := by
  unfold entitlement
  split <;> rfl

theorem entitlement_all (caller : Caller) (r : Registry) (c : QueryClause) :
    (entitlement caller r c).all = c.all := by
  unfold entitlement
  split <;> rfl

theorem entitlement_any (caller : Caller) (r : Registry) (c : QueryClause) :
    (entitlement caller r c).any = c.any ∨
      c.any = some .wildcard ∧ caller.hasBlanketRead c.store = false ∧
        (entitlement caller r c).any = some (.ids ((caller.readableRoots c.store).filter fun id =>
          Reference.isKnown r ⟨c.store, id⟩)) := by
  unfold entitlement
  split
  case isFalse hkept => exact .inl rfl
  case isTrue hreplaced =>
    simp only [Bool.and_eq_true, Bool.not_eq_true'] at hreplaced
    exact .inr ⟨by simpa [QueryClause.isWildcard] using hreplaced.1, hreplaced.2, rfl⟩

theorem entitled_eq (hr : r.InMemory) (caller : Caller) (c : QueryClause) :
    entitled caller r c = .ok (entitlement caller r c) := by
  have hroots : existingRoots caller r c.store = .ok ((caller.readableRoots c.store).filter
      fun id => Reference.isKnown r ⟨c.store, id⟩) := by
    refine existingRoots_eq_filter caller fun id => ?_
    obtain ⟨found, hfound⟩ := hr.exists_find_eq_ok c.store id
    exact ⟨found, hfound, (Reference.isKnown_of_find hfound).symm⟩
  unfold entitled entitlement
  split
  · rw [hroots]
    rfl
  · rfl

/-- The offences of a clause, in the order of its ids. -/
def offences (k : Conventions) (caller : Caller) (r : Registry) (c : QueryClause) : List Offence :=
  ((entitlement caller r c).references k).filterMap (Reference.offence? k caller r)

theorem permit_eq (hr : r.InMemory) (k : Conventions) (caller : Caller) (c : QueryClause) :
    permit k caller r c =
      .ok (restrict caller (entitlement caller r c), offences k caller r c) := by
  have hchecks : ((entitlement caller r c).anyIds ++ (entitlement caller r c).all).mapM
      (check k caller r (entitlement caller r c).store) =
        .ok (((entitlement caller r c).references k).map (Reference.offence? k caller r)) := by
    rw [mapM_of_ok fun id _ => check_eq hr _ id, QueryClause.references, List.map_map]
    rfl
  unfold permit offences
  simp only [entitled_eq hr, hchecks, bind, Except.bind, pure, Except.pure, List.filterMap_map]
  rfl

/-- Where nothing is forbidden the unknown ids are reported. -/
theorem verdict_eq_report {offences : List Offence}
    (h : offences.findSome? Offence.forbidden? = none) :
    verdict offences = report (offences.filterMap Offence.unknown?) := by
  simp only [verdict, h]
  rfl

/-- The first forbidden id comes before all unknown ones. -/
theorem verdict_eq_error_iff (offences : List Offence) (error : ResolveError) :
    verdict offences = .error error ↔
      (∃ id, offences.findSome? Offence.forbidden? = some id ∧ error = .forbidden id) ∨
        offences.findSome? Offence.forbidden? = none ∧
          report (offences.filterMap Offence.unknown?) = .error error := by
  cases hfirst : offences.findSome? Offence.forbidden? with
  | some id => simp [verdict, hfirst, eq_comm]
  | none => simp [verdict_eq_report hfirst]

end Permitted

open Permitted in
/-- The permission stage looks at all clauses before it decides. -/
theorem resolvePermissions_eq (hr : r.InMemory) (k : Conventions) (caller : Caller)
    (clauses : List QueryClause) : resolvePermissions k caller r clauses =
      (verdict (clauses.flatMap (offences k caller r))).map fun _ =>
        clauses.map fun c => restrict caller (entitlement caller r c) := by
  unfold resolvePermissions
  rw [mapM_of_ok fun c _ => permit_eq hr k caller c]
  have hoffences : (clauses.map fun c =>
      (restrict caller (entitlement caller r c), offences k caller r c)).flatMap Prod.snd =
        clauses.flatMap (offences k caller r) := by
    rw [List.flatMap_map]
  have hclauses : (clauses.map fun c =>
      (restrict caller (entitlement caller r c), offences k caller r c)).map Prod.fst =
        clauses.map fun c => restrict caller (entitlement caller r c) := by
    rw [List.map_map]
    rfl
  change (verdict _ >>= fun _ => _) = _
  rw [hoffences, hclauses]
  cases verdict (clauses.flatMap (offences k caller r)) <;> rfl

namespace Expansion

open Conventions

variable {e : Expansion}

/-- The full ids of what a clause includes without a stream. -/
def missing (e : Expansion) (p : QueryClause) : List StreamId :=
  (seeds p ++ p.all).flatMap (e.reported p.store (e.pruned p))

theorem exists_clause_missing (hr : e.registry.InMemory) (p : QueryClause) :
    ∃ x, e.clause p = .ok (x, e.missing p) := by
  obtain ⟨x, missing, hx⟩ := exists_clause_of_answers (e := e) (answers (hr.holds p.store))
  rw [missing_of_clause hx] at hx
  exact ⟨x, hx⟩

/-- An id whose stream is found stands for streams. -/
theorem exists_reach_of_found (hr : e.registry.InMemory) {store : StoreId} {id : StreamId}
    (h : ∃ s, e.registry.find store (e.conventions.stripMarker id) = .ok (some s))
    (excluded : List StreamId) : ∃ streams, e.reach store excluded id = .ok (some streams) := by
  obtain ⟨f, hf, hlisted⟩ := hr.exists_forest h
  refine exists_reach_some hf excluded ?_
  cases hm : e.conventions.isNoExpand id with
  | true => exact .inl hm
  | false =>
    have hstrip : e.conventions.stripMarker id = id := Marker.strip_of_not_isMarked hm
    exact .inr (.inr (hstrip ▸ hlisted))

/-- The wildcard of a clause whose store is not registered, as a full id. -/
def strayWildcard? (e : Expansion) (p : QueryClause) : Option StreamId :=
  if p.isWildcard && !e.registry.contains p.store then
    some (e.conventions.fullId p.store .wildcard)
  else none

theorem reported_wildcard (hr : e.registry.InMemory) (store : StoreId)
    (excluded : List StreamId) : e.reported store excluded .wildcard =
      if e.registry.contains store then [] else [e.conventions.fullId store .wildcard] := by
  rcases hr.holds store with ⟨f, hf⟩ | hnone
  · have hstore : e.registry.contains store = true := by
      rw [Registry.contains_iff, hf]
      rfl
    rw [hstore, reported_of_stands hf excluded (.inr (.inl rfl))]
    rfl
  · have hstore : e.registry.contains store = false := by
      rw [← Bool.not_eq_true, Registry.contains_iff, hnone]
      simp
    simp [reported, reach, isNoExpand_wildcard, hstore, Registry.expand_of_unregistered hnone]

/-- Of a clause whose named streams are found only a stray wildcard is missing. -/
theorem missing_eq_strayWildcard (hr : e.registry.InMemory) {p : QueryClause}
    (h : ∀ id ∈ p.anyIds ++ p.all,
      ∃ s, e.registry.find p.store (e.conventions.stripMarker id) = .ok (some s)) :
    e.missing p = (e.strayWildcard? p).toList := by
  have hnamed : ∀ id ∈ p.anyIds ++ p.all, e.reported p.store (e.pruned p) id = [] := by
    intro id hid
    obtain ⟨streams, hstreams⟩ := exists_reach_of_found hr (h id hid) (e.pruned p)
    simp [reported, hstreams]
  have hall : p.all.flatMap (e.reported p.store (e.pruned p)) = [] :=
    List.flatMap_eq_nil_iff.mpr fun id hid => hnamed id (List.mem_append_right _ hid)
  rw [missing, List.flatMap_append, hall, List.append_nil]
  unfold strayWildcard?
  cases hw : p.isWildcard with
  | true =>
    have hany : p.any = some .wildcard := by simpa [QueryClause.isWildcard] using hw
    have hseeds : seeds p = [.wildcard] := seeds_eq hany
    rw [hseeds, List.flatMap_singleton, reported_wildcard hr]
    cases e.registry.contains p.store <;> rfl
  | false =>
    have hseeds : ∀ seed ∈ seeds p, seed ∈ p.anyIds := by
      intro seed hseed
      refine ((mem_seeds_iff p seed).mp hseed).resolve_left fun hany => ?_
      simp [QueryClause.isWildcard, hany.1] at hw
    have hnone : (seeds p).flatMap (e.reported p.store (e.pruned p)) = [] :=
      List.flatMap_eq_nil_iff.mpr fun seed hseed =>
        hnamed seed (List.mem_append_left _ (hseeds seed hseed))
    rw [hnone]
    rfl

end Expansion

/-- Expansion expands all clauses before it reports what they lack. -/
theorem exists_expandClauses_eq {e : Expansion} (hr : e.registry.InMemory)
    (ps : List QueryClause) :
    ∃ xs, expandClauses e ps = (report (ps.flatMap e.missing)).map fun _ => xs := by
  choose expanded hexpanded using Expansion.exists_clause_missing hr
  refine ⟨ps.map expanded, ?_⟩
  have hmissing : (ps.map fun p => (expanded p, e.missing p)).flatMap Prod.snd =
      ps.flatMap e.missing := by
    rw [List.flatMap_map]
  unfold expandClauses report
  rw [mapM_of_ok fun p _ => hexpanded p]
  simp only [Except.mapError, bind, Except.bind, hmissing, List.map_map]
  cases (ps.flatMap e.missing).eraseDups <;> rfl

end StreamScope
