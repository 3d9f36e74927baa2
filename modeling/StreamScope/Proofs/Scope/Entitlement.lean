import StreamScope.Proofs.Access.Levels
import StreamScope.Scope.Permitted

/-!
What the permission stage lets through. It succeeds when no clause has an
offence; then every included id of a permitted clause names a stream that exists
and that the caller may read, and the streams that the access forces and forbids
stand beside those of the request.
-/

namespace StreamScope

open Outcome

namespace Permitted

variable {k : Conventions} {caller : Caller} {r : Registry} {c p : QueryClause}

theorem mem_appendNew_iff (ids more : List StreamId) (id : StreamId) :
    id ∈ appendNew ids more ↔ id ∈ ids ∨ id ∈ more := by
  unfold appendNew
  induction more generalizing ids with
  | nil => simp
  | cons new more ih =>
    rw [List.foldl_cons, ih]
    by_cases hnew : new ∈ ids
    · simp only [hnew, if_true, List.mem_cons]
      constructor
      · rintro (hid | hid)
        · exact .inl hid
        · exact .inr (.inr hid)
      · rintro (hid | rfl | hid)
        · exact .inl hid
        · exact .inl hnew
        · exact .inr hid
    · simp [hnew, or_assoc]

theorem mem_not_restrict_iff (caller : Caller) (c : QueryClause) (id : StreamId) :
    id ∈ (restrict caller c).not ↔ id ∈ c.not ∨ id ∈ caller.forbidden c.store :=
  mem_appendNew_iff c.not (caller.forbidden c.store) id

/-- Without exclusions of its own a clause excludes what is forbidden. -/
theorem mem_not_restrict_of_nil (caller : Caller) (hc : c.not = []) (id : StreamId) :
    id ∈ (restrict caller c).not ↔ id ∈ caller.forbidden c.store := by
  rw [mem_not_restrict_iff, hc]
  simp

theorem wildcard_notMem_not_restrict (hg : (caller.held c.store).Sound) (hc : c.not = []) :
    .wildcard ∉ (restrict caller c).not := by
  rw [mem_not_restrict_of_nil caller hc]
  exact Caller.wildcard_notMem_forbidden hg

theorem forced_restrict_eq_nil (hc : c.forced = []) (h : caller.forced c.store = []) :
    (restrict caller c).forced = [] := by
  simp [restrict, hc, h, appendNew]

theorem verdict_eq_ok_iff (offences : List Offence) :
    verdict offences = .ok () ↔ offences = [] := by
  constructor
  · intro h
    cases offences with
    | nil => rfl
    | cons first rest =>
      unfold verdict at h
      cases hf : (first :: rest).findSome? Offence.forbidden? with
      | some id => simp [hf] at h
      | none =>
        -- without a forbidden id the first offence is an unknown one
        have hfirst := List.findSome?_eq_none_iff.mp hf first List.mem_cons_self
        cases first with
        | forbidden id => simp [Offence.forbidden?] at hfirst
        | unknown id => simp [hf, Offence.unknown?, List.eraseDups_cons] at h
  · rintro rfl
    rfl

/-- A permitted clause beside the clause of the request that it comes from. -/
structure Admitted (k : Conventions) (caller : Caller) (r : Registry) (c p : QueryClause) :
    Prop where
  store : p.store = c.store
  all : p.all = c.all
  blanket : p.any = some .wildcard → caller.hasBlanketRead c.store = true
  exists_find : ∀ id ∈ p.anyIds ++ p.all, ∃ s, r.find c.store (k.stripMarker id) = .ok (some s)
  readable : ∀ id ∈ p.anyIds ++ p.all, caller.canRead r c.store (k.stripMarker id) = .ok true
  forced : ∀ id, id ∈ p.forced ↔ id ∈ c.forced ∨ id ∈ caller.forced c.store ∧ id ∉ c.all
  not : ∀ id, id ∈ p.not ↔ id ∈ c.not ∨ id ∈ caller.forbidden c.store

theorem check_eq_ok_none_iff (store : StoreId) (id : StreamId) :
    check k caller r store id = .ok none ↔
      (∃ s, r.find store (k.stripMarker id) = .ok (some s)) ∧
        caller.canRead r store (k.stripMarker id) = .ok true := by
  unfold check
  cases hf : r.find store (k.stripMarker id) with
  | error e => simp [hf, Except.mapError, bind, Except.bind]
  | ok found =>
    cases found with
    | none => simp [hf, Except.mapError, bind, Except.bind, pure, Except.pure]
    | some s =>
      cases hr : caller.canRead r store (k.stripMarker id) with
      | error e => simp [hf, hr, Except.mapError, bind, Except.bind]
      | ok readable =>
        cases readable <;> simp [hf, hr, Except.mapError, bind, Except.bind, pure, Except.pure]

theorem entitled_keeps {c c' : QueryClause} (h : entitled caller r c = .ok c') :
    c'.store = c.store ∧ c'.all = c.all ∧ c'.not = c.not ∧ c'.forced = c.forced ∧
      (c'.any = some .wildcard → caller.hasBlanketRead c.store = true) := by
  unfold entitled at h
  split at h
  case isTrue hreplaced =>
    obtain ⟨roots, -, rfl⟩ := map_eq_ok_iff.mp h
    exact ⟨rfl, rfl, rfl, rfl, by simp⟩
  case isFalse hkept =>
    obtain rfl := Except.ok.inj h
    refine ⟨rfl, rfl, rfl, rfl, fun hany => ?_⟩
    simpa [QueryClause.isWildcard, hany] using hkept

theorem admitted_of_permit (h : permit k caller r c = .ok (p, [])) : Admitted k caller r c p := by
  unfold permit at h
  obtain ⟨c', hentitled, h⟩ := bind_eq_ok_iff.mp h
  obtain ⟨checked, hchecked, h⟩ := bind_eq_ok_iff.mp h
  obtain ⟨rfl, hsilent⟩ := Prod.mk.inj (Except.ok.inj h)
  obtain ⟨hstore, hall, hnot, hforced, hblanket⟩ := entitled_keeps hentitled
  have hchecks : ∀ id ∈ c'.anyIds ++ c'.all,
      (∃ s, r.find c.store (k.stripMarker id) = .ok (some s)) ∧
        caller.canRead r c.store (k.stripMarker id) = .ok true := by
    intro id hid
    obtain ⟨offence, hoffence, hcheck⟩ :=
      exists_right_of_mem ((mapM_eq_ok_iff _ _ _).mp hchecked) hid
    have hnone : offence = none := by
      simp only [List.filterMap_eq_nil_iff] at hsilent
      exact hsilent offence hoffence
    rw [hnone, check_eq_ok_none_iff, hstore] at hcheck
    exact hcheck
  exact {
    store := hstore
    all := hall
    blanket := hblanket
    exists_find := fun id hid => (hchecks id hid).1
    readable := fun id hid => (hchecks id hid).2
    forced := by
      intro id
      simp [restrict, mem_appendNew_iff, hstore, hall, hforced]
    not := by
      intro id
      simp [restrict, mem_appendNew_iff, hstore, hnot]
  }

end Permitted

open Permitted in
/-- The stage succeeds when every clause is permitted without an offence. -/
theorem resolvePermissions_eq_ok_iff (k : Conventions) (caller : Caller) (r : Registry)
    (clauses ps : List QueryClause) : resolvePermissions k caller r clauses = .ok ps ↔
      List.Forall₂ (fun c p => permit k caller r c = .ok (p, [])) clauses ps := by
  rw [← mapM_silent_iff]
  unfold resolvePermissions
  rw [bind_eq_ok_iff]
  refine exists_congr fun reported => and_congr_right fun _ => ?_
  rw [bind_eq_ok_iff, ← verdict_eq_ok_iff]
  constructor
  · intro hchecked
    obtain ⟨⟨⟩, hverdict, hps⟩ := hchecked
    exact ⟨hverdict, Except.ok.inj hps⟩
  · intro hsilent
    obtain ⟨hverdict, rfl⟩ := hsilent
    exact ⟨(), hverdict, rfl⟩

open Permitted in
/-- A permitted clause comes from a clause of the request. -/
theorem exists_permit_of_mem {k : Conventions} {caller : Caller} {r : Registry}
    {clauses ps : List QueryClause} (h : resolvePermissions k caller r clauses = .ok ps)
    {p : QueryClause} (hp : p ∈ ps) : ∃ c ∈ clauses, permit k caller r c = .ok (p, []) :=
  exists_left_of_mem ((resolvePermissions_eq_ok_iff k caller r clauses ps).mp h) hp

end StreamScope
