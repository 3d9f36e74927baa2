import StreamScope.Proofs.Query.FullIds
import StreamScope.Proofs.Resolver.Clean
import StreamScope.Proofs.Resolver.Health
import StreamScope.Proofs.Resolver.Isolation

/-!
The ids that an error shows. Of a stream that is unknown or forbidden the full id
is shown; the stream is one that a clause of the request includes, or a readable
root where the clause asks for all that can be read. No other failure shows an
id. What is shown denotes the stream again, unless the store is the default one,
which full ids leave out: then an id that names a store is taken at its word.
-/

namespace StreamScope

open Outcome

/-- The full ids that the error shows. -/
def ResolveError.streams : ResolveError → List StreamId
  | .unknownStreams ids => ids
  | .forbidden id => [id]
  | _ => []

variable {k : Conventions} {caller : Caller} {r : Registry} {c p : QueryClause} {ref : Reference}
  {error : ResolveError} {id : StreamId}

/-- The stream is one that the clause includes, or a readable root in place of the wildcard. -/
def QueryClause.RefersTo (k : Conventions) (caller : Caller) (c : QueryClause) (ref : Reference) :
    Prop :=
  ref.store = c.store ∧ ∃ seed, ref.id = k.stripMarker seed ∧
    (seed ∈ Expansion.seeds c ++ c.all ∨
      c.any = some .wildcard ∧ seed ∈ caller.readableRoots c.store)

/-- A look-up that fails shows no id. -/
theorem ResolveError.streams_of_lookup {α : Type} {x : Except LookupError α}
    (h : x.mapError .lookup = .error error) : error.streams = [] := by
  obtain ⟨_, -, rfl⟩ := mapError_eq_error_iff.mp h
  rfl

namespace Permitted

/-- The stream that the offence is about, as a full id. -/
def Offence.full : Offence → StreamId
  | .unknown id => id
  | .forbidden id => id

theorem mem_readableRoots_of_existing {store : StoreId} {roots : List StreamId}
    (h : existingRoots caller r store = .ok roots) (hid : id ∈ roots) :
    id ∈ caller.readableRoots store := by
  obtain ⟨found, hfound, heq⟩ := bind_eq_ok_iff.mp h
  obtain rfl := Except.ok.inj heq
  obtain ⟨_, hmem, rfl⟩ := List.mem_filterMap.mp hid
  obtain ⟨root, hroot, hstep⟩ := exists_of_mem_mapM hfound hmem
  obtain ⟨stream, -, hsome⟩ := map_eq_ok_iff.mp hstep
  obtain ⟨_, -, rfl⟩ := Option.map_eq_some_iff.mp hsome
  exact hroot

/-- A clause without its wildcard refers to no other streams than with it. -/
theorem refersTo_of_entitled {c' : QueryClause} (h : entitled caller r c = .ok c')
    (href : c'.RefersTo k caller ref) : c.RefersTo k caller ref := by
  unfold entitled at h
  split at h
  case isFalse =>
    obtain rfl := Except.ok.inj h
    exact href
  case isTrue hwildcard =>
    obtain ⟨roots, hroots, rfl⟩ := map_eq_ok_iff.mp h
    have hany : c.any = some .wildcard := by
      simpa [QueryClause.isWildcard] using (Bool.and_eq_true_iff.mp hwildcard).1
    obtain ⟨hstore, seed, hseed, hmem | ⟨hnone, -⟩⟩ := href
    · refine ⟨hstore, seed, hseed, ?_⟩
      rcases List.mem_append.mp hmem with hroot | hall
      · exact .inr ⟨hany, mem_readableRoots_of_existing hroots hroot⟩
      · exact .inl (List.mem_append_right _ hall)
    · cases hnone

theorem refersTo_of_permit {offences : List Offence} (h : permit k caller r c = .ok (p, offences))
    (href : p.RefersTo k caller ref) : c.RefersTo k caller ref := by
  obtain ⟨c', hentitled, h⟩ := bind_eq_ok_iff.mp h
  obtain ⟨_, -, h⟩ := bind_eq_ok_iff.mp h
  obtain ⟨rfl, -⟩ := Prod.mk.inj (Except.ok.inj h)
  exact refersTo_of_entitled hentitled href

theorem full_of_check {store : StoreId} {seed : StreamId} {offence : Offence}
    (h : check k caller r store seed = .ok (some offence)) :
    offence.full = k.fullId store (k.stripMarker seed) := by
  obtain ⟨found, -, h⟩ := bind_eq_ok_iff.mp h
  cases found with
  | none =>
    obtain rfl := Option.some.inj (Except.ok.inj h)
    rfl
  | some stream =>
    obtain ⟨readable, -, h⟩ := bind_eq_ok_iff.mp h
    cases readable with
    | false =>
      obtain rfl := Option.some.inj (Except.ok.inj h)
      rfl
    | true => cases h

/-- A clause has offences only by streams that it refers to. -/
theorem refersTo_of_offence {offences : List Offence} {offence : Offence}
    (h : permit k caller r c = .ok (p, offences)) (hoffence : offence ∈ offences) :
    ∃ ref, c.RefersTo k caller ref ∧ offence.full = ref.full k := by
  obtain ⟨c', hentitled, h⟩ := bind_eq_ok_iff.mp h
  obtain ⟨checked, hchecked, h⟩ := bind_eq_ok_iff.mp h
  obtain ⟨-, rfl⟩ := Prod.mk.inj (Except.ok.inj h)
  obtain ⟨_, hmem, rfl⟩ := List.mem_filterMap.mp hoffence
  obtain ⟨seed, hseed, hcheck⟩ := exists_of_mem_mapM hchecked hmem
  refine ⟨⟨c'.store, k.stripMarker seed⟩, ?_, full_of_check hcheck⟩
  refine refersTo_of_entitled hentitled ⟨rfl, seed, rfl, .inl ?_⟩
  rw [List.mem_append] at hseed ⊢
  exact hseed.imp_left fun hany => (Expansion.mem_seeds_iff c' seed).mpr (.inr hany)

theorem streams_of_entitled_error (h : entitled caller r c = .error error) :
    error.streams = [] := by
  unfold entitled at h
  split at h
  case isFalse => cases h
  case isTrue =>
    rcases bind_eq_error_iff.mp (map_eq_error_iff.mp h) with hroots | ⟨_, -, hpure⟩
    · obtain ⟨root, -, hroot⟩ := exists_of_mapM_eq_error hroots
      exact ResolveError.streams_of_lookup (map_eq_error_iff.mp hroot)
    · cases hpure

theorem streams_of_check_error {store : StoreId} {seed : StreamId}
    (h : check k caller r store seed = .error error) : error.streams = [] := by
  rcases bind_eq_error_iff.mp h with hfind | ⟨found, -, h⟩
  · exact ResolveError.streams_of_lookup hfind
  · cases found with
    | none => cases h
    | some stream =>
      rcases bind_eq_error_iff.mp h with hread | ⟨_, -, hpure⟩
      · obtain ⟨_, -, rfl⟩ := mapError_eq_error_iff.mp hread
        rfl
      · cases hpure

theorem streams_of_permit_error (h : permit k caller r c = .error error) : error.streams = [] := by
  rcases bind_eq_error_iff.mp h with hentitled | ⟨c', -, h⟩
  · exact streams_of_entitled_error hentitled
  · rcases bind_eq_error_iff.mp h with hchecked | ⟨_, -, hpure⟩
    · obtain ⟨seed, -, hcheck⟩ := exists_of_mapM_eq_error hchecked
      exact streams_of_check_error hcheck
    · cases hpure

/-- What the verdict shows are ids of offences. -/
theorem exists_offence_of_verdict {offences : List Offence} (h : verdict offences = .error error)
    (hid : id ∈ error.streams) : ∃ offence ∈ offences, offence.full = id := by
  rw [verdict_eq_error_iff, report_eq_error_iff] at h
  obtain ⟨first, hfirst, rfl⟩ | ⟨-, -, rfl⟩ := h
  · obtain rfl := List.mem_singleton.mp hid
    obtain ⟨offence, hoffence, hforbidden⟩ := List.exists_of_findSome?_eq_some hfirst
    refine ⟨offence, hoffence, ?_⟩
    cases offence with
    | unknown => cases hforbidden
    | forbidden => exact Option.some.inj hforbidden
  · obtain ⟨offence, hoffence, hunknown⟩ := List.mem_filterMap.mp (List.mem_eraseDups.mp hid)
    refine ⟨offence, hoffence, ?_⟩
    cases offence with
    | unknown => exact Option.some.inj hunknown
    | forbidden => cases hunknown

end Permitted

open Permitted in
/-- The permission stage shows only streams that a clause refers to. -/
theorem refersTo_of_resolvePermissions {clauses : List QueryClause}
    (h : resolvePermissions k caller r clauses = .error error) (hid : id ∈ error.streams) :
    ∃ c ∈ clauses, ∃ ref, c.RefersTo k caller ref ∧ id = ref.full k := by
  rcases bind_eq_error_iff.mp h with hpermit | ⟨permitted, hpermitted, h⟩
  · obtain ⟨c, -, hc⟩ := exists_of_mapM_eq_error hpermit
    rw [streams_of_permit_error hc] at hid
    cases hid
  · rcases bind_eq_error_iff.mp h with hverdict | ⟨_, -, hpure⟩
    · obtain ⟨offence, hoffence, rfl⟩ := exists_offence_of_verdict hverdict hid
      obtain ⟨⟨p, offences⟩, hmem, hp⟩ := List.mem_flatMap.mp hoffence
      obtain ⟨c, hc, hpermit⟩ := exists_of_mem_mapM hpermitted hmem
      exact ⟨c, hc, refersTo_of_offence hpermit hp⟩
    · cases hpure

/-- So does expansion. -/
theorem refersTo_of_expandClauses {e : Expansion} {ps : List QueryClause} (caller : Caller)
    (h : expandClauses e ps = .error error) (hid : id ∈ error.streams) :
    ∃ p ∈ ps, ∃ ref, p.RefersTo e.conventions caller ref ∧ id = ref.full e.conventions := by
  rcases bind_eq_error_iff.mp h with hlookup | ⟨expanded, hexpanded, h⟩
  · rw [ResolveError.streams_of_lookup hlookup] at hid
    cases hid
  · have hmissing : id ∈ expanded.flatMap Prod.snd := by
      split at h
      case h_1 => cases h
      case h_2 ids =>
        obtain rfl := Except.error.inj h
        exact List.mem_eraseDups.mp hid
    obtain ⟨⟨x, missing⟩, hmem, hid⟩ := List.mem_flatMap.mp hmissing
    obtain ⟨p, hp, hclause⟩ := exists_of_mem_mapM (mapError_eq_ok_iff.mp hexpanded) hmem
    rw [Expansion.missing_of_clause hclause] at hid
    obtain ⟨seed, hseed, hreported⟩ := List.mem_flatMap.mp hid
    -- a marked id stands for its stream unasked, so the id is shown as it is
    have hunmarked : e.conventions.isNoExpand seed = false := by
      by_contra hmarked
      rw [Expansion.reported_of_isNoExpand (Bool.not_eq_false _ ▸ hmarked)] at hreported
      cases hreported
    have hstrip : e.conventions.stripMarker seed = seed := Marker.strip_of_not_isMarked hunmarked
    refine ⟨p, hp, ⟨p.store, seed⟩, ⟨rfl, seed, hstrip.symm, .inl hseed⟩, ?_⟩
    unfold Expansion.reported at hreported
    split at hreported
    · exact List.mem_singleton.mp hreported
    · cases hreported

namespace Resolver

variable {r : Resolver} {request : Request}

theorem limit_streams (timeout : Duration) (error : ResolveError) :
    (limit timeout error).streams = error.streams := by
  unfold limit
  split <;> rfl

/-- An error shows only streams that a clause of the request refers to. -/
theorem exists_refersTo (h : r.resolve caller request = .error error) (hid : id ∈ error.streams) :
    ∃ clauses, r.clauses request = .ok clauses ∧ ∃ c ∈ clauses, ∃ ref,
      c.RefersTo r.config.conventions caller ref ∧ id = ref.full r.config.conventions := by
  obtain ⟨cause, hcause, rfl⟩ := mapError_eq_error_iff.mp h
  rw [limit_streams] at hid
  rcases bind_eq_error_iff.mp hcause with hmalformed | ⟨clauses, hclauses, hscope⟩
  · obtain ⟨fault, rfl⟩ := clauses_eq_error hmalformed
    cases hid
  · refine ⟨clauses, hclauses, ?_⟩
    rw [scope_eq] at hscope
    rcases bind_eq_error_iff.mp hscope with hpermissions | ⟨ps, hps, hscope⟩
    · exact refersTo_of_resolvePermissions hpermissions hid
    · rcases bind_eq_error_iff.mp hscope with hexpand | ⟨_, -, hpure⟩
      · obtain ⟨p, hp, ref, href, hfull⟩ := refersTo_of_expandClauses caller hexpand hid
        obtain ⟨c, hc, hpermit⟩ := exists_permit_of_mem hps hp
        exact ⟨c, hc, ref, Permitted.refersTo_of_permit hpermit href, hfull⟩
      · cases hpure

/-- The clauses of a request lie in the default store or in one that ids can name. -/
theorem store_of_clause {clauses : List QueryClause} (h : r.clauses request = .ok clauses)
    (hc : c ∈ clauses) : c.store = r.config.conventions.defaultStore ∨
      r.config.conventions.Nameable c.store := by
  obtain ⟨raw, -, rfl⟩ := exists_grammatical h hc
  unfold RawClause.bound
  cases raw.ids.head? with
  | none => exact .inl rfl
  | some full => exact r.config.conventions.storeOf_nameable full

end Resolver

/-- The full id of the stream that an id denotes, split again, gives the stream, unless the id
names the default store before another store. What an error shows is the full id of a stream that
the request refers to, and gives it when split, unless the stream lies in the default store and
its id names a store. -/
theorem shown_id_denotes_iff (k : Conventions) :
    (∀ full, k.split (k.fullId (k.split full).1 (k.split full).2).text = k.split full ↔
      ¬ k.NamesTwice full) ∧
    ∀ (r : Resolver) (caller : Caller) (request : Request) (error : ResolveError),
      r.config.conventions = k → r.resolve caller request = .error error →
      ∀ id ∈ error.streams, ∃ clauses, r.clauses request = .ok clauses ∧
        ∃ c ∈ clauses, ∃ ref, c.RefersTo k caller ref ∧ id = ref.full k ∧
          (k.split id.text = (ref.store, ref.id) ↔
            if ref.store = k.defaultStore then ¬ k.NamesStore ref.id.text
            else ref.id.text.toList ≠ []) := by
  refine ⟨k.split_fullId_split_iff, ?_⟩
  rintro r caller request error rfl h id hid
  obtain ⟨clauses, hclauses, c, hc, ref, href, rfl⟩ := Resolver.exists_refersTo h hid
  have hstore := Resolver.store_of_clause hclauses hc
  rw [← href.1] at hstore
  exact ⟨clauses, hclauses, c, hc, ref, href, rfl, Conventions.split_fullId_iff hstore ref.id⟩

namespace Resolver

/-- Two stores with the same streams. -/
def twinResolver : Resolver := ⟨{}, [], besideHome (.ofForest homeForest)⟩

/-- A stream of the default store that looks as if it lay in the other one, and does not exist. -/
def twiceRequest : Request where
  streams := some (.array [.string ":local::dummy:home"])

theorem twice_resolve : twinResolver.resolve ownerCaller twiceRequest =
    .error (.unknownStreams [⟨":dummy:home"⟩]) := rfl

end Resolver

open Resolver in
theorem shown_id_denotes_iff_twice : Conventions.standard.NamesTwice ":local::dummy:home" ∧
    Conventions.standard.split ":dummy:home" ≠ Conventions.standard.split ":local::dummy:home" ∧
    twinResolver.resolve ownerCaller twiceRequest =
      .error (.unknownStreams [⟨":dummy:home"⟩]) ∧
    ∃ clauses, twinResolver.clauses twiceRequest = .ok clauses ∧ ∃ c ∈ clauses, ∃ ref,
      c.RefersTo .standard ownerCaller ref ∧ ⟨":dummy:home"⟩ = ref.full .standard := by
  obtain ⟨hinverse, hshown⟩ := shown_id_denotes_iff .standard
  have htwice : Conventions.standard.NamesTwice ":local::dummy:home" :=
    ⟨[], ":dummy:home".toList, ⟨by decide, .inl rfl, by decide, by decide, by decide⟩,
      [], "dummy".toList, "home".toList, ⟨by decide, .inl rfl, by decide, by decide, by decide⟩⟩
  obtain ⟨clauses, hclauses, c, hc, ref, href, hfull, -⟩ :=
    hshown twinResolver ownerCaller twiceRequest _ rfl twice_resolve _ List.mem_cons_self
  have hother := fun hsplit => (hinverse ":local::dummy:home").mp hsplit htwice
  exact ⟨htwice, hother, twice_resolve, clauses, hclauses, c, hc, ref, href, hfull⟩

open Resolver in
/-- The error shows an unmarked id as one of the other store, where it stands for streams. -/
theorem shown_id_denotes_another :
    Conventions.standard.isNoExpand ⟨":local::dummy:home"⟩ = false ∧
    Conventions.standard.split ":local::dummy:home" = (⟨"local"⟩, ⟨":dummy:home"⟩) ∧
    Conventions.standard.fullId ⟨"local"⟩ ⟨":dummy:home"⟩ = ⟨":dummy:home"⟩ ∧
    Conventions.standard.split ":dummy:home" = (⟨"dummy"⟩, ⟨"home"⟩) ∧
    twinResolver.resolve ownerCaller twiceRequest =
      .error (.unknownStreams [⟨":dummy:home"⟩]) ∧
    twinResolver.resolve ownerCaller { streams := some (.array [.string ":dummy:home"]) } =
      .ok ⟨[{ store := ⟨"dummy"⟩, any := some [⟨"home"⟩, ⟨"bank"⟩] }]⟩ := by
  have hclauses : twinResolver.clauses { streams := some (.array [.string ":dummy:home"]) } =
      .ok [.ofIds ⟨"dummy"⟩ [⟨"home"⟩]] := rfl
  refine ⟨rfl, rfl, rfl, rfl, twice_resolve, (resolve_eq_ok_iff ..).mpr ⟨_, hclauses, ?_⟩⟩
  cbv

end StreamScope
