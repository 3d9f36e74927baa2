import StreamScope.Proofs.Forest.Nearest
import StreamScope.Proofs.Scope.Meaning
import StreamScope.Proofs.Scope.Success
import StreamScope.Resolver.Basic

/-!
The course of a request, clause by clause. A request resolves when each of its
clauses is permitted without an offence and expands without a missing id, and
its records are then those that one of the expanded clauses selects.
-/

namespace StreamScope.Resolver

open Outcome Permitted

variable {r : Resolver} {caller : Caller} {request : Request} {q : ResolvedQuery}

/-- How the resolver expands clauses in a state. -/
def expansion (r : Resolver) (state : StreamState) : Expansion where
  conventions := r.config.conventions
  registry := r.registry
  state

@[simp]
theorem expansion_conventions (r : Resolver) (state : StreamState) :
    (r.expansion state).conventions = r.config.conventions := rfl

@[simp]
theorem expansion_state (r : Resolver) (state : StreamState) :
    (r.expansion state).state = state := rfl

/-- What becomes of a clause of a request: the permitted clause and the expanded one. -/
structure Course (r : Resolver) (caller : Caller) (state : StreamState) (c p : QueryClause)
    (x : ExpandedClause) : Prop where
  permitted : permit r.config.conventions caller r.registry c = .ok (p, [])
  expanded : (r.expansion state).clause p = .ok (x, [])

namespace Course

variable {state : StreamState} {c p : QueryClause} {x : ExpandedClause} {f : Forest}
  {d : StreamId}

theorem admitted (h : r.Course caller state c p x) :
    Admitted r.config.conventions caller r.registry c p :=
  admitted_of_permit h.permitted

theorem expands (h : r.Course caller state c p x) : (r.expansion state).Expands p x :=
  Expansion.expands_of_clause h.expanded

theorem store_eq (h : r.Course caller state c p x) : x.store = c.store :=
  h.expands.store.trans h.admitted.store

theorem unique {p' : QueryClause} {x' : ExpandedClause} (h : r.Course caller state c p x)
    (h' : r.Course caller state c p' x') : p' = p ∧ x' = x := by
  obtain ⟨rfl, -⟩ := Prod.mk.inj (Except.ok.inj (h'.permitted.symm.trans h.permitted))
  obtain ⟨rfl, -⟩ := Prod.mk.inj (Except.ok.inj (h'.expanded.symm.trans h.expanded))
  exact ⟨rfl, rfl⟩

theorem mem_pruned_iff (h : r.Course caller state c p x) (id : StreamId) :
    id ∈ (r.expansion state).pruned p ↔
      id ∈ (c.not ++ caller.forbidden c.store).map r.config.conventions.stripMarker := by
  simp only [Expansion.pruned, List.mem_map, List.mem_append, h.admitted.not]
  rfl

/-- Of the streams of a store, a clause excludes those that its excluded ids reach. -/
theorem mem_not_iff (hf : r.registry.Holds c.store f) (h : r.Course caller state c p x)
    (hd : d ∈ f.ids) : d ∈ x.not ↔
      ∃ seed ∈ p.not, (r.expansion state).Reaches c.store ((r.expansion state).spared p) seed d := by
  have hnot := h.expands.mem_not_iff (h.admitted.store ▸ hf) hd
  rwa [h.admitted.store] at hnot

/-- An excluded stream is named by a marked id or lies below an unmarked one. -/
theorem mem_not_iff_descends (hf : r.registry.Holds c.store f)
    (h : r.Course caller state c p x) (hd : d ∈ f.ids) (hw : .wildcard ∉ p.not) : d ∈ x.not ↔
      ∃ seed ∈ p.not, r.config.conventions.isNoExpand seed = true ∧
          d = r.config.conventions.stripMarker seed ∨
        r.config.conventions.isNoExpand seed = false ∧
          f.Descends (f.Shows ((r.expansion state).spared p) state) seed d := by
  rw [h.mem_not_iff hf hd]
  refine exists_congr fun seed => and_congr_right fun hseed => ?_
  cases hm : r.config.conventions.isNoExpand seed with
  | true => simpa using Expansion.reaches_of_isNoExpand (e := r.expansion state) hm d
  | false =>
    have hne : seed ≠ .wildcard := fun heq => hw (heq ▸ hseed)
    simpa using Expansion.reaches_iff_descends (e := r.expansion state) hm hne hf d

/-- A clause includes only streams of the store. -/
theorem mem_ids_of_included (hf : r.registry.Holds c.store f) (h : r.Course caller state c p x)
    {ids : List StreamId} (hids : ids ∈ x.inclusions) (hd : d ∈ ids) : d ∈ f.ids := by
  obtain ⟨seed, hseed, hreaches⟩ := h.expands.exists_seed hids hd
  rw [h.admitted.store] at hreaches
  cases hm : r.config.conventions.isNoExpand seed with
  | false => exact Expansion.mem_ids_of_reaches hm hf hreaches
  | true =>
    have hnamed : seed ∈ p.anyIds ++ p.all :=
      Expansion.mem_named_of_isNoExpand (e := r.expansion state) hm hseed
    rw [(Expansion.reaches_of_isNoExpand hm d).mp hreaches]
    exact (hf.exists_find_iff _).mp (h.admitted.exists_find seed hnamed)

end Course

/-- A permitted clause runs its course when each included id stands for streams. -/
theorem exists_course {state : StreamState} {c p : QueryClause} {f : Forest}
    (hf : r.registry.Holds c.store f)
    (hpermit : permit r.config.conventions caller r.registry c = .ok (p, []))
    (hstands : ∀ id ∈ p.anyIds ++ p.all, (r.expansion state).Stands f id) :
    ∃ x, r.Course caller state c p x := by
  have hstore := (admitted_of_permit hpermit).store
  obtain ⟨x, hx⟩ := Expansion.exists_clause (hstore ▸ hf) hstands
  exact ⟨x, hpermit, hx⟩

theorem scope_eq (r : Resolver) (caller : Caller) (state : StreamState)
    (clauses : List QueryClause) : r.scope caller state clauses =
      resolvePermissions r.config.conventions caller r.registry clauses >>= fun ps =>
      expandClauses (r.expansion state) ps >>= fun xs => .ok (reduceClauses xs) := rfl

theorem scope_eq_ok_iff (r : Resolver) (caller : Caller) (state : StreamState)
    (clauses : List QueryClause) (q : ResolvedQuery) :
    r.scope caller state clauses = .ok q ↔ ∃ xs,
      List.Forall₂ (fun c x => ∃ p, r.Course caller state c p x) clauses xs ∧
        reduceClauses xs = q := by
  have hstages : r.scope caller state clauses = .ok q ↔ ∃ ps,
      resolvePermissions r.config.conventions caller r.registry clauses = .ok ps ∧
        ∃ xs, expandClauses (r.expansion state) ps = .ok xs ∧ reduceClauses xs = q := by
    simp only [scope_eq, bind_eq_ok_iff, Except.ok.injEq]
  have hcourse (c : QueryClause) (x : ExpandedClause) :
      (∃ p, r.Course caller state c p x) ↔
        ∃ p, permit r.config.conventions caller r.registry c = .ok (p, []) ∧
          (r.expansion state).clause p = .ok (x, []) :=
    exists_congr fun p => ⟨fun h => ⟨h.permitted, h.expanded⟩, fun h => ⟨h.1, h.2⟩⟩
  simp only [hstages, hcourse, ← forall₂_comp_iff, resolvePermissions_eq_ok_iff,
    expandClauses_eq_ok_iff]
  constructor
  · intro hstaged
    obtain ⟨ps, hps, xs, hxs, hq⟩ := hstaged
    exact ⟨xs, ⟨ps, hps, hxs⟩, hq⟩
  · intro hjoined
    obtain ⟨xs, ⟨ps, hps, hxs⟩, hq⟩ := hjoined
    exact ⟨ps, hps, xs, hxs, hq⟩

theorem scope_singleton_iff (r : Resolver) (caller : Caller) (state : StreamState)
    (c : QueryClause) (q : ResolvedQuery) : r.scope caller state [c] = .ok q ↔
      ∃ p x, r.Course caller state c p x ∧ reduceClauses [x] = q := by
  rw [scope_eq_ok_iff]
  constructor
  · intro hscope
    obtain ⟨xs, hcourses, rfl⟩ := hscope
    cases hcourses with
    | @cons _ x _ _ hcourse hrest =>
      cases hrest
      obtain ⟨p, hcourse⟩ := hcourse
      exact ⟨p, x, hcourse, rfl⟩
  · intro hscope
    obtain ⟨p, x, hcourse, rfl⟩ := hscope
    exact ⟨[x], .cons ⟨p, hcourse⟩ .nil, rfl⟩

theorem resolve_eq_ok_iff (r : Resolver) (caller : Caller) (request : Request)
    (q : ResolvedQuery) : r.resolve caller request = .ok q ↔
      ∃ clauses, r.clauses request = .ok clauses ∧
        r.scope caller request.state clauses = .ok q := by
  rw [resolve, mapError_eq_ok_iff, bind_eq_ok_iff]

/-- The clauses of a resolved request, each with its course. -/
theorem exists_courses {clauses : List QueryClause} (hclauses : r.clauses request = .ok clauses)
    (h : r.resolve caller request = .ok q) : ∃ xs,
      List.Forall₂ (fun c x => ∃ p, r.Course caller request.state c p x) clauses xs ∧
        reduceClauses xs = q := by
  obtain ⟨clauses', hclauses', hscope⟩ := (resolve_eq_ok_iff r caller request q).mp h
  obtain rfl := Except.ok.inj (hclauses.symm.trans hclauses')
  exact (scope_eq_ok_iff r caller request.state clauses q).mp hscope

/-- A record of a store matches when a clause of the request for the store selects it. -/
theorem holds_compileForStore_iff {clauses : List QueryClause}
    (hclauses : r.clauses request = .ok clauses) (h : r.resolve caller request = .ok q)
    (store : StoreId) (record : List StreamId) :
    (q.compileForStore store).holds record = true ↔
      ∃ c ∈ clauses, c.store = store ∧ ∃ p x, r.Course caller request.state c p x ∧
        x.Selects record := by
  obtain ⟨xs, hcourses, rfl⟩ := exists_courses hclauses h
  rw [holds_compileForStore_reduceClauses]
  constructor
  · intro hselected
    obtain ⟨x, hx, rfl, hselects⟩ := hselected
    obtain ⟨c, hc, p, hcourse⟩ := exists_left_of_mem hcourses hx
    exact ⟨c, hc, hcourse.store_eq.symm, p, x, hcourse, hselects⟩
  · intro hselected
    obtain ⟨c, hc, rfl, p, x, hcourse, hselects⟩ := hselected
    obtain ⟨x', hx', p', hcourse'⟩ := exists_right_of_mem hcourses hc
    obtain ⟨-, rfl⟩ := hcourse.unique hcourse'
    exact ⟨x', hx', hcourse.store_eq, hselects⟩

/-- The resolved clauses are the reduced ones of the clauses that survive. -/
theorem mem_clauses_iff {clauses : List QueryClause} (hclauses : r.clauses request = .ok clauses)
    (h : r.resolve caller request = .ok q) (rc : ResolvedClause) :
    rc ∈ q.clauses ↔ ∃ c ∈ clauses, ∃ p x, r.Course caller request.state c p x ∧
      x.reduce? = some rc := by
  obtain ⟨xs, hcourses, rfl⟩ := exists_courses hclauses h
  rw [mem_reduceClauses_iff]
  constructor
  · intro hreduced
    obtain ⟨x, hx, hreduce⟩ := hreduced
    obtain ⟨c, hc, p, hcourse⟩ := exists_left_of_mem hcourses hx
    exact ⟨c, hc, p, x, hcourse, hreduce⟩
  · intro hreduced
    obtain ⟨c, hc, p, x, hcourse, hreduce⟩ := hreduced
    obtain ⟨x', hx', p', hcourse'⟩ := exists_right_of_mem hcourses hc
    obtain ⟨-, rfl⟩ := hcourse.unique hcourse'
    exact ⟨x', hx', hreduce⟩

end StreamScope.Resolver
