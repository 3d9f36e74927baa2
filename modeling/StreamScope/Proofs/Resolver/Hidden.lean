import StreamScope.Proofs.Resolver.Forced
import StreamScope.Proofs.Scope.Reduction
import StreamScope.Proofs.Scope.Report

/-!
Trashed streams in the default state. A walk passes over a trashed stream with
all below it, but it begins at an id and looks at nothing above. So what an
unmarked id brings in is hidden only if the id is, and then because a stream
above it is trashed. A marked id is no walk at all: it stands for its own stream
in every state. Either kind of id is one that the request names, or a root that
was granted where the request asks for all that can be read.
-/

namespace StreamScope

open Lineage

namespace Forest

variable {f : Forest} {excluded : List StreamId} {top d : StreamId}

/-- The stream or one above it is trashed. -/
def Hidden (f : Forest) (d : StreamId) : Prop :=
  ∃ s ∈ f.streams, s.id ∈ f.wayUp d ∧ s.trashed = true

theorem live_of_shows {s : Stream} (hs : s ∈ f.streams) (h : f.Shows excluded .live s.id) :
    s.trashed = false := by
  obtain ⟨-, t, ht, hid, hshown⟩ := h
  obtain rfl := List.inj_on_of_nodup_map f.grown.nodup ht hs hid
  simpa [StreamState.includesTrashed] using hshown

/-- In the default state the way down adds nothing hidden to what is above its top. -/
theorem hidden_iff_of_descends (h : f.Descends (f.Shows excluded .live) top d) :
    f.Hidden d ↔ f.Hidden top := by
  obtain ⟨between, above, hway, hopen⟩ := (descends_iff_wayUp f _ top d).mp h
  have hchain := hway ▸ chain_wayUp h.mem_ids
  have htop : f.wayUp top = top :: above := wayUp_of_chain hchain.drop
  unfold Hidden
  rw [hway, htop]
  refine exists_congr fun s => and_congr_right fun hs => and_congr_left fun htrashed => ?_
  constructor
  · intro hmem
    rcases List.mem_append.mp hmem with hbetween | hmem
    · have hlive := live_of_shows hs (hopen s.id (List.mem_append_left _ hbetween))
      simp [hlive] at htrashed
    · exact hmem
  · exact fun hmem => List.mem_append_right _ hmem

theorem not_hidden_of_mem_roots (htop : top ∈ f.roots)
    (h : f.Descends (f.Shows excluded .live) top d) : ¬ f.Hidden d := by
  rw [hidden_iff_of_descends h]
  rintro ⟨s, hs, hmem, htrashed⟩
  -- nothing stands above a root
  rw [wayUp_of_chain (chain_of_mem_roots htop)] at hmem
  obtain rfl := List.mem_singleton.mp hmem
  simp [live_of_shows hs h.opened_top] at htrashed

end Forest

namespace Registry

variable {r : Registry} {store : StoreId} {f : Forest}

/-- The stream or one above it is trashed. -/
def Hidden (r : Registry) (store : StoreId) (d : StreamId) : Prop :=
  ∃ chain, r.ancestors store d = .ok (some chain) ∧
    ∃ y ∈ chain, ∃ s, r.find store y = .ok (some s) ∧ s.trashed = true

/-- The stream is live, but one above it is trashed. -/
structure UnderTrash (r : Registry) (store : StoreId) (d : StreamId) : Prop where
  hidden : r.Hidden store d
  live : ∀ s, r.find store d = .ok (some s) → s.trashed = false

theorem Holds.hidden_iff (h : r.Holds store f) (d : StreamId) :
    r.Hidden store d ↔ f.Hidden d := by
  unfold Hidden Forest.Hidden
  simp only [h.ancestors_eq_ok_some_iff, h.find_eq, Except.ok.injEq, Forest.find?_eq_some_iff]
  constructor
  · intro hhidden
    obtain ⟨chain, hchain, y, hy, s, ⟨hs, rfl⟩, htrashed⟩ := hhidden
    exact ⟨s, hs, by rwa [Forest.wayUp_of_chain hchain], htrashed⟩
  · intro hhidden
    obtain ⟨s, hs, hmem, htrashed⟩ := hhidden
    have hd : d ∈ f.ids := Forest.mem_ids_of_wayUp_ne_nil (List.ne_nil_of_mem hmem)
    exact ⟨f.wayUp d, Forest.chain_wayUp hd, s.id, hmem, s, ⟨hs, rfl⟩, htrashed⟩

end Registry

/-- The clause names the id in `any` or `all`, or the id is a granted root in place of the clause's
wildcard, which is kept only for one who reads the whole store. -/
def QueryClause.StartsFrom (caller : Caller) (c : QueryClause) (id : StreamId) : Prop :=
  id ∈ c.anyIds ++ c.all ∨
    c.any = some .wildcard ∧ caller.hasBlanketRead c.store = false ∧
      id ∈ caller.readableRoots c.store

/-- In the default state an unmarked id that brings in a hidden stream is live and hidden itself. -/
theorem Expansion.Reaches.underTrash {e : Expansion} (hr : e.registry.InMemory)
    (hstate : e.state = .live) {store : StoreId} {excluded : List StreamId} {seed d : StreamId}
    (hm : e.conventions.isNoExpand seed = false) (h : e.Reaches store excluded seed d)
    (hhidden : e.registry.Hidden store d) :
    seed ≠ .wildcard ∧ e.registry.UnderTrash store seed := by
  rcases hr.holds store with ⟨f, hf⟩ | hnone
  · rw [hf.hidden_iff] at hhidden
    by_cases hw : seed = .wildcard
    · subst hw
      obtain ⟨top, htop, hway⟩ := (reaches_wildcard_iff hf d).mp h
      rw [hstate] at hway
      exact absurd hhidden (Forest.not_hidden_of_mem_roots htop hway)
    · have hway := (reaches_iff_descends hm hw hf d).mp h
      rw [hstate] at hway
      refine ⟨hw, (hf.hidden_iff seed).mpr ((Forest.hidden_iff_of_descends hway).mp hhidden), ?_⟩
      intro s hs
      rw [hf.find_eq, Except.ok.injEq, Forest.find?_eq_some_iff] at hs
      obtain ⟨hmem, rfl⟩ := hs
      exact Forest.live_of_shows hmem hway.opened_top
  · exact absurd h (not_reaches_of_unregistered hm hnone d)

namespace Resolver

open Registry

variable {r : Resolver} {caller : Caller} {request : Request} {q : ResolvedQuery}
  {c p : QueryClause} {x : ExpandedClause} {d : StreamId}

namespace Course

variable {state : StreamState} {seed : StreamId}

theorem any_eq (hr : r.registry.InMemory) (h : r.Course caller state c p x) :
    p.any = (Permitted.entitlement caller r.registry c).any := by
  have hpermit := h.permitted
  rw [Permitted.permit_eq hr] at hpermit
  obtain ⟨rfl, -⟩ := Prod.mk.inj (Except.ok.inj hpermit)
  rfl

/-- An id from which a clause is expanded is named by the clause or a granted root, unless it is the
wildcard. -/
theorem startsFrom_of_seed (hr : r.registry.InMemory) (h : r.Course caller state c p x)
    (hseed : seed ∈ Expansion.seeds p ++ p.all) (hw : seed ≠ .wildcard) :
    c.StartsFrom caller seed := by
  rw [List.mem_append, Expansion.mem_seeds_iff] at hseed
  rcases hseed with (⟨-, hwild⟩ | hany) | hall
  · exact absurd hwild hw
  · unfold QueryClause.anyIds at hany
    rw [h.any_eq hr] at hany
    rcases Permitted.entitlement_any caller r.registry c with hkept | ⟨hwild, hblanket, hroots⟩
    · rw [hkept] at hany
      exact .inl (List.mem_append_left _ hany)
    · rw [hroots] at hany
      exact .inr ⟨hwild, hblanket, (List.mem_filter.mp hany).1⟩
  · exact .inl (List.mem_append_right _ (h.admitted.all ▸ hall))

/-- What the clause names stays when it is permitted. -/
theorem mem_seeds_of_named (hr : r.registry.InMemory) (h : r.Course caller state c p x)
    (hnamed : seed ∈ c.anyIds ++ c.all) : seed ∈ Expansion.seeds p ++ p.all := by
  rw [List.mem_append] at hnamed ⊢
  refine hnamed.imp (fun hany => ?_) fun hall => h.admitted.all ▸ hall
  have hkept : p.any = c.any := by
    rcases Permitted.entitlement_any caller r.registry c with hkept | ⟨hwild, -, -⟩
    · exact (h.any_eq hr).trans hkept
    · simp [QueryClause.anyIds, hwild, Inclusion.listed] at hany
  rw [Expansion.mem_seeds_iff, QueryClause.anyIds, hkept]
  exact .inr hany

/-- A hidden stream is included through a marked id, or through one below a trashed stream. -/
theorem exists_start_of_hidden (hr : r.registry.InMemory) (h : r.Course caller .live c p x)
    {ids : List StreamId} (hids : ids ∈ x.inclusions) (hd : d ∈ ids)
    (hhidden : r.registry.Hidden c.store d) :
    ∃ start, c.StartsFrom caller start ∧ r.Covers c.store start d ∧
      (r.config.conventions.isNoExpand start = true ∨ r.registry.UnderTrash c.store start) := by
  obtain ⟨seed, hseed, hreaches⟩ := h.expands.exists_seed hids hd
  rw [h.admitted.store] at hreaches
  cases hm : r.config.conventions.isNoExpand seed with
  | true =>
    have hw : seed ≠ .wildcard := by
      rintro rfl
      rw [r.config.conventions.isNoExpand_wildcard] at hm
      cases hm
    exact ⟨seed, h.startsFrom_of_seed hr hseed hw, covers_of_reaches hr hw hreaches, .inl hm⟩
  | false =>
    obtain ⟨hw, hunder⟩ := hreaches.underTrash hr rfl hm hhidden
    exact ⟨seed, h.startsFrom_of_seed hr hseed hw, covers_of_reaches hr hw hreaches, .inr hunder⟩

end Course

/-- In the default state no inclusion of a resolved clause that no forced stream brought in holds a
stream that is trashed or below a trashed one, unless a marked id stands for the stream or an
unmarked id, itself live below a trashed stream, brings it in; the id is one that the clause of the
request names, or a granted root in place of its wildcard. A marked id that the clause names is
included in any case. -/
theorem live_state_hides (hr : r.registry.InMemory) (hstate : request.state = .live)
    (h : r.resolve caller request = .ok q) :
    ∃ clauses, r.clauses request = .ok clauses ∧
      ∀ rc ∈ q.clauses, ∃ c ∈ clauses, ∃ p x, r.Course caller request.state c p x ∧
        x.reduce? = some rc ∧
        (∀ ids, .any ids ∈ rc.branches → ids ∈ x.all ∨ ids ∈ x.forced) ∧
        (∀ ids, rc.any = some ids ∨ ids ∈ x.all → ∀ d ∈ ids, r.registry.Hidden rc.store d →
          ∃ start, c.StartsFrom caller start ∧ r.Covers rc.store start d ∧
            (r.config.conventions.isNoExpand start = true ∨
              r.registry.UnderTrash rc.store start)) ∧
        ∀ id ∈ c.anyIds ++ c.all, r.config.conventions.isNoExpand id = true →
          ∃ ids, (rc.any = some ids ∨ ids ∈ x.all ∧ .any ids ∈ rc.branches) ∧
            r.config.conventions.stripMarker id ∈ ids := by
  obtain ⟨clauses, hclauses, -⟩ := (resolve_eq_ok_iff r caller request q).mp h
  refine ⟨clauses, hclauses, fun rc hrc => ?_⟩
  obtain ⟨c, hc, p, x, hcourse, hreduce⟩ := (mem_clauses_iff hclauses h rc).mp hrc
  have hstore : rc.store = c.store :=
    (ExpandedClause.store_of_reduce? hreduce).trans hcourse.store_eq
  obtain ⟨-, -, rfl⟩ := (x.reduce?_eq_some_iff rc).mp hreduce
  refine ⟨c, hc, p, x, hcourse, hreduce, fun ids hids => x.mem_all_or_forced hids, ?_, ?_⟩
  · intro ids hids d hd hhidden
    have hin : ids ∈ x.inclusions := by
      rw [x.mem_inclusions_iff]
      exact hids.imp_left fun hany => ((x.reduced_any_eq_some_iff ids).mp hany).1
    rw [hstate] at hcourse
    rw [hstore] at hhidden ⊢
    exact hcourse.exists_start_of_hidden hr hin hd hhidden
  · intro id hid hm
    obtain ⟨ids, hids, hd⟩ := hcourse.expands.exists_inclusion_of_reaches
      (hcourse.mem_seeds_of_named hr hid) ((Expansion.reaches_of_isNoExpand hm _).mpr rfl)
    exact ⟨ids, ExpandedClause.reduced_includes hids (List.ne_nil_of_mem hd), hd⟩

/-- A trashed stream with a live one below it. -/
def atticForest : Forest where
  streams := [⟨⟨"attic"⟩, none, true⟩, ⟨⟨"box"⟩, some ⟨"attic"⟩, false⟩]
  grown := .pair (by decide) rfl (by decide) (by decide) (by decide)

def atticResolver : Resolver := ⟨{}, [], .single ⟨"local"⟩ atticForest⟩

/-- Reads both streams. -/
def atticCaller : Caller where
  access := { id := "reader", permissions := [⟨⟨"attic"⟩, .read⟩] }
  grants := [(⟨"local"⟩, { entries := [(⟨"attic"⟩, .read)] })]

/-- Names the trashed stream by a marked id. -/
def atticRequest : Request where
  streams := some (.object [("any", .array [.string "#attic"])])

/-- Names the live stream below it. -/
def boxRequest : Request where
  streams := some (.object [("any", .array [.string "box"])])

def atticQuery : ResolvedQuery := ⟨[{ store := ⟨"local"⟩, any := some [⟨"attic"⟩] }]⟩

def boxQuery : ResolvedQuery := ⟨[{ store := ⟨"local"⟩, any := some [⟨"box"⟩] }]⟩

theorem attic_inMemory : atticResolver.registry.InMemory :=
  inMemory_single ⟨"local"⟩ atticForest

theorem attic_ofAccess : Caller.ofAccess atticResolver.config.conventions atticCaller.access =
    .ok atticCaller := rfl

theorem attic_clauses :
    atticResolver.clauses atticRequest = .ok [.ofIds ⟨"local"⟩ [⟨"#attic"⟩]] := rfl

theorem box_clauses : atticResolver.clauses boxRequest = .ok [.ofIds ⟨"local"⟩ [⟨"box"⟩]] := rfl

theorem attic_scope : atticResolver.scope atticCaller .live [.ofIds ⟨"local"⟩ [⟨"#attic"⟩]] =
    .ok atticQuery := by
  cbv

theorem box_scope : atticResolver.scope atticCaller .live [.ofIds ⟨"local"⟩ [⟨"box"⟩]] =
    .ok boxQuery := by
  cbv

theorem attic_resolve : atticResolver.resolve atticCaller atticRequest = .ok atticQuery :=
  (resolve_eq_ok_iff ..).mpr ⟨_, attic_clauses, attic_scope⟩

theorem box_resolve : atticResolver.resolve atticCaller boxRequest = .ok boxQuery :=
  (resolve_eq_ok_iff ..).mpr ⟨_, box_clauses, box_scope⟩

theorem attic_hidden : atticResolver.registry.Hidden ⟨"local"⟩ ⟨"attic"⟩ :=
  ⟨[⟨"attic"⟩], by cbv, ⟨"attic"⟩, by simp, ⟨⟨"attic"⟩, none, true⟩, by cbv, rfl⟩

theorem box_hidden : atticResolver.registry.Hidden ⟨"local"⟩ ⟨"box"⟩ :=
  ⟨[⟨"box"⟩, ⟨"attic"⟩], by cbv, ⟨"attic"⟩, by simp, ⟨⟨"attic"⟩, none, true⟩, by cbv, rfl⟩

theorem live_state_hides_attic : atticResolver.registry.InMemory ∧ boxRequest.state = .live ∧
    atticResolver.resolve atticCaller boxRequest = .ok boxQuery ∧
    ∃ clauses, atticResolver.clauses boxRequest = .ok clauses ∧
      ∀ rc ∈ boxQuery.clauses, ∃ c ∈ clauses, ∃ p x,
        atticResolver.Course atticCaller boxRequest.state c p x ∧ x.reduce? = some rc ∧
        (∀ ids, .any ids ∈ rc.branches → ids ∈ x.all ∨ ids ∈ x.forced) ∧
        (∀ ids, rc.any = some ids ∨ ids ∈ x.all → ∀ d ∈ ids,
          atticResolver.registry.Hidden rc.store d →
          ∃ start, c.StartsFrom atticCaller start ∧ atticResolver.Covers rc.store start d ∧
            (atticResolver.config.conventions.isNoExpand start = true ∨
              atticResolver.registry.UnderTrash rc.store start)) ∧
        ∀ id ∈ c.anyIds ++ c.all, atticResolver.config.conventions.isNoExpand id = true →
          ∃ ids, (rc.any = some ids ∨ ids ∈ x.all ∧ .any ids ∈ rc.branches) ∧
            atticResolver.config.conventions.stripMarker id ∈ ids :=
  ⟨attic_inMemory, rfl, box_resolve, live_state_hides attic_inMemory rfl box_resolve⟩

/-- Both the trashed stream and the one below it are included in the default state. -/
theorem hidden_included : atticResolver.registry.InMemory ∧
    Caller.ofAccess atticResolver.config.conventions atticCaller.access = .ok atticCaller ∧
    atticRequest.state = .live ∧
    atticResolver.resolve atticCaller atticRequest = .ok atticQuery ∧
    (∃ rc ∈ atticQuery.clauses, rc.any = some [⟨"attic"⟩]) ∧
    atticResolver.registry.Hidden ⟨"local"⟩ ⟨"attic"⟩ ∧
    boxRequest.state = .live ∧
    atticResolver.resolve atticCaller boxRequest = .ok boxQuery ∧
    (∃ rc ∈ boxQuery.clauses, rc.any = some [⟨"box"⟩]) ∧
    atticResolver.registry.Hidden ⟨"local"⟩ ⟨"box"⟩ :=
  ⟨attic_inMemory, attic_ofAccess, rfl, attic_resolve, ⟨_, List.mem_cons_self, rfl⟩, attic_hidden,
    rfl, box_resolve, ⟨_, List.mem_cons_self, rfl⟩, box_hidden⟩

end Resolver
end StreamScope
