import StreamScope.Proofs.Resolver.Readable
import StreamScope.Proofs.Scope.Lookups

/-!
Stores are isolated from one another, and failures are not hidden. Every look-up
of a clause goes to the clause's own store, so a store that no clause names has no
part in the outcome. A request that succeeds beside a store without answers has
asked it nothing, for a failed look-up ends the request; so whatever stands in
for that store leaves the scope as it is.
-/

namespace StreamScope

open Outcome

/-- A store that answers no look-up of a stream: every one fails, or never ends. -/
structure Backend.Mute (b : Backend) : Prop where
  find : ∀ id, ∃ error, b.find id = .error error
  expand : ∀ id excluded state, ∃ error, b.expand id excluded state = .error error

namespace Registry

variable {r other : Registry} {store : StoreId}

/-- The same stores but for the one named, which may be another, new or gone. -/
def AgreesOutside (store : StoreId) (r other : Registry) : Prop :=
  ∀ s, s ≠ store → other.backend? s = r.backend? s

/-- What the store answers in the first registry, it answers in the other too. The parents of a
stream are asked for only once the stream is found. -/
structure AnsweredBy (store : StoreId) (r other : Registry) : Prop where
  find : ∀ id, Below (r.find store id) (other.find store id)
  expand : ∀ id excluded state, Below (r.expand store id excluded state)
    (other.expand store id excluded state)
  ancestors : ∀ id found, r.find store id = .ok found →
    Below (r.ancestors store id) (other.ancestors store id)

theorem find_congr (h : other.backend? store = r.backend? store) (id : StreamId) :
    other.find store id = r.find store id := by
  simp [find, h]

theorem expand_congr (h : other.backend? store = r.backend? store) (id : StreamId)
    (excluded : List StreamId) (state : StreamState) :
    other.expand store id excluded state = r.expand store id excluded state := by
  simp [expand, h]

theorem ancestors_congr (h : other.backend? store = r.backend? store) (id : StreamId) :
    other.ancestors store id = r.ancestors store id := by
  simp [ancestors, h]

theorem AgreesOutside.answeredBy {backend : Backend} (h : AgreesOutside store r other)
    (hbackend : r.backend? store = some backend) (hmute : backend.Mute) (s : StoreId) :
    AnsweredBy s r other := by
  by_cases hs : s = store
  · subst hs
    have hfind (id : StreamId) : ∃ error, r.find s id = .error error := by
      simpa [Registry.find, hbackend] using hmute.find id
    refine ⟨fun id => ?_, fun id excluded state => ?_, fun id found hfound => ?_⟩
    · obtain ⟨error, herror⟩ := hfind id
      exact .of_error herror
    · obtain ⟨error, herror⟩ := hmute.expand id excluded state
      exact .of_error (e := error) (by simpa [Registry.expand, hbackend] using herror)
    · obtain ⟨error, herror⟩ := hfind id
      rw [herror] at hfound
      cases hfound
  · have hsame := h s hs
    refine ⟨fun id => ?_, fun id excluded state => ?_, fun id _ _ => ?_⟩
    · rw [find_congr hsame]
      exact .refl _
    · rw [expand_congr hsame]
      exact .refl _
    · rw [ancestors_congr hsame]
      exact .refl _

end Registry

namespace Caller

variable {r other : Registry} {store : StoreId}

theorem canRead_congr (h : other.backend? store = r.backend? store) (caller : Caller)
    (id : StreamId) : caller.canRead other store id = caller.canRead r store id := by
  simp only [canRead, level, Registry.ancestors_congr h]

theorem canRead_below (caller : Caller) {id : StreamId}
    (h : Below (r.ancestors store id) (other.ancestors store id)) :
    Below (caller.canRead r store id) (caller.canRead other store id) := by
  unfold canRead level
  split
  · exact .refl _
  · refine .map ?_ _
    split
    · exact .refl _
    · exact h.map _

end Caller

namespace Permitted

variable {k : Conventions} {caller : Caller} {r other : Registry} {c : QueryClause}

theorem check_below {store : StoreId} (h : Registry.AnsweredBy store r other) (id : StreamId) :
    Below (check k caller r store id) (check k caller other store id) := by
  refine .bind ((h.find _).mapError _) fun found hfound => ?_
  cases found with
  | none => exact .refl _
  | some s =>
    have hanswered := h.ancestors _ _ (mapError_eq_ok_iff.mp hfound)
    exact .bind ((caller.canRead_below hanswered).mapError _) fun _ _ => .refl _

theorem entitled_below (h : Registry.AnsweredBy c.store r other) :
    Below (entitled caller r c) (entitled caller other c) := by
  unfold entitled
  split
  · refine .map ?_ _
    exact .bind (.mapM fun id _ => ((h.find id).mapError _).map _) fun _ _ => .refl _
  · exact .refl _

/-- A clause that is permitted stays so where its store answers what it answered. -/
theorem permit_below (h : Registry.AnsweredBy c.store r other) :
    Below (permit k caller r c) (permit k caller other c) := by
  refine .bind (entitled_below h) fun c' hc' => ?_
  have hstore : c'.store = c.store := (entitled_keeps hc').1
  exact .bind (.mapM fun id _ => check_below (hstore ▸ h) id) fun _ _ => .refl _

/-- Whether a clause is permitted depends on its own store. -/
theorem permit_congr (h : other.backend? c.store = r.backend? c.store) :
    permit k caller other c = permit k caller r c := by
  have hentitled : entitled caller other c = entitled caller r c := by
    simp only [entitled, existingRoots, Registry.find_congr h]
  unfold permit
  rw [hentitled]
  refine bind_congr_of_ok fun c' hc' => ?_
  have hstore : c'.store = c.store := (entitled_keeps hc').1
  have hcheck : check k caller other c'.store = check k caller r c'.store := by
    funext id
    simp only [check, hstore, Registry.find_congr h, Caller.canRead_congr h]
  rw [hcheck]

end Permitted

namespace Expansion

variable {e : Expansion} {other : Registry} {p : QueryClause}

theorem reach_below {store : StoreId} (h : Registry.AnsweredBy store e.registry other)
    (excluded : List StreamId) (seed : StreamId) :
    Below (e.reach store excluded seed) ((e.withRegistry other).reach store excluded seed) := by
  unfold reach
  change Below (if e.conventions.isNoExpand seed then _ else _)
    (if e.conventions.isNoExpand seed then _ else _)
  split
  · exact .refl _
  · exact h.expand _ _ _

/-- What a clause expands to depends on its own store. -/
theorem clause_congr (h : other.backend? p.store = e.registry.backend? p.store) :
    (e.withRegistry other).clause p = e.clause p := by
  have hreach : (e.withRegistry other).reach p.store = e.reach p.store := by
    funext excluded seed
    simp only [reach, withRegistry, Registry.expand_congr h]
  have hincluded (excluded seeds : List StreamId) :
      (e.withRegistry other).included p.store excluded seeds = e.included p.store excluded seeds := by
    simp only [included, hreach]
    rfl
  simp only [clause_eq, includedAny, hincluded, forcedIds, excludedIds, hreach]
  rfl

end Expansion

namespace Resolver

variable {r : Resolver} {other : Registry} {caller : Caller} {request : Request}
  {state : StreamState} {clauses : List QueryClause} {store : StoreId}

/-- The same resolver over other stores. -/
def withRegistry (r : Resolver) (registry : Registry) : Resolver := { r with registry }

@[simp]
theorem withRegistry_config (r : Resolver) (other : Registry) :
    (r.withRegistry other).config = r.config := rfl

@[simp]
theorem withRegistry_registry (r : Resolver) (other : Registry) :
    (r.withRegistry other).registry = other := rfl

theorem expansion_withRegistry (r : Resolver) (other : Registry) (state : StreamState) :
    (r.withRegistry other).expansion state = (r.expansion state).withRegistry other := rfl

theorem clauses_withRegistry (r : Resolver) (other : Registry) (request : Request) :
    (r.withRegistry other).clauses request = r.clauses request := rfl

/-- A scope is kept where every store answers what it answered. -/
theorem scope_below (h : ∀ s, Registry.AnsweredBy s r.registry other) :
    Below (r.scope caller state clauses) ((r.withRegistry other).scope caller state clauses) := by
  have hpermissions : Below (resolvePermissions r.config.conventions caller r.registry clauses)
      (resolvePermissions r.config.conventions caller other clauses) :=
    .bind (.mapM fun c _ => Permitted.permit_below (h c.store)) fun _ _ => .refl _
  have hexpand (ps : List QueryClause) : Below (expandClauses (r.expansion state) ps)
      (expandClauses ((r.expansion state).withRegistry other) ps) :=
    .bind (.mapError (.mapM fun p _ => Expansion.clause_below
      (fun seed _ => Expansion.reach_below (h p.store) _ seed)
      fun seed _ => Expansion.reach_below (h p.store) _ seed) _) fun _ _ => .refl _
  rw [scope_eq, scope_eq, expansion_withRegistry]
  exact .bind hpermissions fun ps _ => .bind (hexpand ps) fun _ _ => .refl _

/-- A scope, or the failure in its place, depends on the stores of the clauses alone. -/
theorem scope_congr (h : ∀ c ∈ clauses, other.backend? c.store = r.registry.backend? c.store) :
    (r.withRegistry other).scope caller state clauses = r.scope caller state clauses := by
  have hpermissions : resolvePermissions r.config.conventions caller other clauses =
      resolvePermissions r.config.conventions caller r.registry clauses := by
    unfold resolvePermissions
    rw [mapM_congr fun c hc => Permitted.permit_congr (h c hc)]
  rw [scope_eq, scope_eq, expansion_withRegistry, withRegistry_config, withRegistry_registry,
    hpermissions]
  refine bind_congr_of_ok fun ps hps => ?_
  have hstore : ∀ p ∈ ps, other.backend? p.store = r.registry.backend? p.store := by
    intro p hp
    obtain ⟨c, hc, hpermit⟩ := exists_permit_of_mem hps hp
    rw [(Permitted.admitted_of_permit hpermit).store]
    exact h c hc
  have hexpand : expandClauses ((r.expansion state).withRegistry other) ps =
      expandClauses (r.expansion state) ps := by
    unfold expandClauses
    rw [mapM_congr fun p hp => Expansion.clause_congr (e := r.expansion state) (hstore p hp)]
  rw [hexpand]

/-- A store that no clause of a request names has no part in the outcome, and one that answers
nothing had none in a success: whatever stands in for it, the outcome stays as it is. -/
theorem stores_isolated (h : Registry.AgreesOutside store r.registry other) :
    ((∀ clauses, r.clauses request = .ok clauses → ∀ c ∈ clauses, c.store ≠ store) →
      (r.withRegistry other).resolve caller request = r.resolve caller request) ∧
    (∀ backend q, r.registry.backend? store = some backend → backend.Mute →
      r.resolve caller request = .ok q →
        (r.withRegistry other).resolve caller request = .ok q) := by
  constructor
  · intro hclauses
    have hscope : r.clauses request >>= (r.withRegistry other).scope caller request.state =
        r.clauses request >>= r.scope caller request.state :=
      bind_congr_of_ok fun clauses hc =>
        scope_congr fun c hmem => h c.store (hclauses clauses hc c hmem)
    rw [resolve, resolve, clauses_withRegistry, withRegistry_config, hscope]
  · intro backend q hbackend hmute hq
    obtain ⟨clauses, hclauses, hscope⟩ := (resolve_eq_ok_iff r caller request q).mp hq
    exact (resolve_eq_ok_iff _ caller request q).mpr
      ⟨clauses, hclauses, scope_below (h.answeredBy hbackend hmute) q hscope⟩

/-- The streams of home, and another store beside them. -/
def besideHome (remote : Backend) : Registry :=
  ⟨[(⟨"local"⟩, .ofForest homeForest), (⟨"dummy"⟩, remote)], by simp⟩

/-- The other store is stalled. -/
def waitingResolver : Resolver := ⟨{}, [], besideHome (.failing .stalled)⟩

/-- A stream of the one store, and all that can be read in the other. -/
def bothRequest : Request where
  streams := some (.array [.string "home", .string ":dummy:"])

theorem besideHome_agreesOutside (remote remote' : Backend) :
    Registry.AgreesOutside ⟨"dummy"⟩ (besideHome remote) (besideHome remote') := by
  intro s hs
  by_cases hlocal : (⟨"local"⟩ : StoreId) = s <;>
    simp [Registry.backend?, besideHome, hlocal, Ne.symm hs]

theorem waiting_mute : Backend.Mute (.failing .stalled) :=
  ⟨fun _ => ⟨_, rfl⟩, fun _ _ _ => ⟨_, rfl⟩⟩

theorem waiting_clauses :
    waitingResolver.clauses wholeRequest = .ok [.wildcard ⟨"local"⟩] := rfl

theorem both_clauses : waitingResolver.clauses bothRequest =
    .ok [.ofIds ⟨"local"⟩ [⟨"home"⟩], .wildcard ⟨"dummy"⟩] := rfl

theorem waiting_resolve : waitingResolver.resolve homeCaller bothRequest = .ok homeQuery :=
  (resolve_eq_ok_iff ..).mpr ⟨_, both_clauses, by cbv⟩

theorem stores_isolated_waiting :
    Registry.AgreesOutside ⟨"dummy"⟩ waitingResolver.registry
      (besideHome (.ofForest homeForest)) ∧
    (∀ clauses, waitingResolver.clauses wholeRequest = .ok clauses →
      ∀ c ∈ clauses, c.store ≠ ⟨"dummy"⟩) ∧
    (waitingResolver.withRegistry (besideHome (.ofForest homeForest))).resolve homeCaller
      wholeRequest = waitingResolver.resolve homeCaller wholeRequest ∧
    waitingResolver.registry.backend? ⟨"dummy"⟩ = some (.failing .stalled) ∧
    Backend.Mute (.failing .stalled) ∧
    waitingResolver.resolve homeCaller bothRequest = .ok homeQuery ∧
    (waitingResolver.withRegistry (besideHome (.ofForest homeForest))).resolve homeCaller
      bothRequest = .ok homeQuery := by
  have hagrees := besideHome_agreesOutside (.failing .stalled) (.ofForest homeForest)
  have hclauses : ∀ clauses, waitingResolver.clauses wholeRequest = .ok clauses →
      ∀ c ∈ clauses, c.store ≠ ⟨"dummy"⟩ := by
    intro clauses h c hc
    obtain rfl := Except.ok.inj (waiting_clauses.symm.trans h)
    obtain rfl := List.mem_singleton.mp hc
    decide
  exact ⟨hagrees, hclauses, (stores_isolated hagrees).1 hclauses, rfl, waiting_mute,
    waiting_resolve, (stores_isolated hagrees).2 _ _ rfl waiting_mute waiting_resolve⟩

end Resolver

end StreamScope
