import StreamScope.Proofs.Forest.Nearest
import StreamScope.Proofs.Scope.Meaning
import StreamScope.Proofs.Scope.Success

/-!
The nearest mention decides. A plain clause includes streams that exist, or by
the wildcard all of them, and excludes others by unmarked ids. Its `any` is
expanded past its `not` and its `not` past its `any`; together the two walks
give each stream to the side that mentions it nearest on its way up. The wildcard
mentions every stream, but from farther away than any id.
-/

namespace StreamScope

open Outcome

/-- An unmarked id is its own stripped form. -/
theorem Conventions.map_stripMarker {k : Conventions} {ids : List StreamId}
    (h : ∀ id ∈ ids, k.isNoExpand id = false) : ids.map k.stripMarker = ids := by
  conv_rhs => rw [← List.map_id ids]
  exact List.map_congr_left fun id hid => Marker.strip_of_not_isMarked (h id hid)

theorem StreamState.includesTrashed_of_trashed_or_all {state : StreamState}
    (h : state = .trashed ∨ state = .all) : state.includesTrashed = true := by
  rcases h with rfl | rfl <;> rfl

namespace Forest

variable {f : Forest} {p : QueryClause} {d : StreamId}

/-- The nearest mention of the stream in the clause includes it. -/
def includes (f : Forest) (p : QueryClause) (d : StreamId) : Bool :=
  match f.nearest? (p.anyIds ++ p.not) d with
  | some m => m ∈ p.anyIds
  | none => p.isWildcard && f.contains d

/-- The nearest mention of the stream in the clause excludes it. An excluded id without a stream
stands for itself. -/
def excludes (f : Forest) (p : QueryClause) (d : StreamId) : Bool :=
  match f.nearest? (p.anyIds ++ p.not) d with
  | some m => m ∈ p.not
  | none => d ∈ p.not && !f.contains d

theorem includes_wildcard_iff (hany : p.any = some .wildcard) :
    f.includes p d = true ↔ d ∈ f.ids ∧ ∀ y ∈ f.wayUp d, y ∉ p.not := by
  have hids : p.anyIds = [] := QueryClause.anyIds_eq hany
  rw [← nearest?_eq_none_iff]
  unfold includes
  rw [hids, List.nil_append]
  cases f.nearest? p.not d <;> simp [QueryClause.isWildcard, hany, contains]

theorem includes_ids_iff {ids : List StreamId} (hany : p.any = some (.ids ids)) :
    f.includes p d = true ↔ ∃ m ∈ ids, f.nearest? (ids ++ p.not) d = some m := by
  have hids : p.anyIds = ids := QueryClause.anyIds_eq hany
  unfold includes
  rw [hids]
  cases f.nearest? (ids ++ p.not) d <;> simp [QueryClause.isWildcard, hany]

theorem excludes_iff : f.excludes p d = true ↔
    (∃ m ∈ p.not, f.nearest? (p.anyIds ++ p.not) d = some m) ∨ d ∈ p.not ∧ d ∉ f.ids := by
  have hunknown (h : d ∉ f.ids) : f.nearest? (p.anyIds ++ p.not) d = none := by
    simp [nearest?, wayUp_of_notMem_ids h]
  unfold excludes
  cases hnear : f.nearest? (p.anyIds ++ p.not) d with
  | some m =>
    have hlisted : d ∈ f.ids := by
      by_contra hout
      rw [hunknown hout] at hnear
      cases hnear
    simp [hlisted]
  | none => simp [contains]

end Forest

namespace QueryClause

/-- A clause of inclusions that exist, or of the wildcard, and of exclusions; no id is marked,
and none is both included and excluded. -/
structure Plain (p : QueryClause) (k : Conventions) (f : Forest) : Prop where
  any : p.any.isSome = true
  all : p.all = []
  forced : p.forced = []
  known : ∀ id ∈ p.anyIds, id ∈ f.ids ∧ k.isNoExpand id = false
  excluded : ∀ id ∈ p.not, id ≠ .wildcard ∧ k.isNoExpand id = false
  disjoint : ∀ id ∈ p.anyIds, id ∉ p.not

namespace Plain

variable {e : Expansion} {f : Forest} {p : QueryClause} {x : ExpandedClause}

theorem pruned_eq (h : p.Plain e.conventions f) : e.pruned p = p.not :=
  Conventions.map_stripMarker fun id hid => (h.excluded id hid).2

theorem spared_eq (h : p.Plain e.conventions f) : e.spared p = p.anyIds :=
  Conventions.map_stripMarker fun id hid => (h.known id hid).2

theorem stands (h : p.Plain e.conventions f) : ∀ id ∈ p.anyIds ++ p.all, e.Stands f id := by
  intro id hid
  rw [h.all, List.append_nil] at hid
  exact .inr (.inr (h.known id hid).1)

theorem reaches_included_iff (h : p.Plain e.conventions f) (hf : e.registry.Holds p.store f)
    {seed : StreamId} (hseed : seed ∈ p.anyIds) (excluded : List StreamId) (d : StreamId) :
    e.Reaches p.store excluded seed d ↔ f.Descends (f.Shows excluded e.state) seed d := by
  obtain ⟨hlisted, hm⟩ := h.known seed hseed
  have hw : seed ≠ .wildcard := fun heq => f.wildcard_notMem_ids (heq ▸ hlisted)
  exact Expansion.reaches_iff_descends hm hw hf d

theorem reaches_excluded_iff (h : p.Plain e.conventions f) (hf : e.registry.Holds p.store f)
    {seed : StreamId} (hseed : seed ∈ p.not) (spared : List StreamId) (d : StreamId) :
    e.Reaches p.store spared seed d ↔ f.Descends (f.Shows spared e.state) seed d := by
  obtain ⟨hw, hm⟩ := h.excluded seed hseed
  exact Expansion.reaches_iff_descends hm hw hf d

/-- A stream has one nearest mention. -/
theorem excludes_of_includes (h : p.Plain e.conventions f) {d : StreamId}
    (hin : f.includes p d = true) : f.excludes p d = false := by
  unfold Forest.includes at hin
  unfold Forest.excludes
  cases hnear : f.nearest? (p.anyIds ++ p.not) d with
  | some m =>
    have hm : m ∈ p.anyIds := by simpa [hnear] using hin
    simpa using h.disjoint m hm
  | none =>
    have hd : f.contains d = true := by simp_all
    simp [hd]

/-- The included seeds reach what the clause mentions nearest in `any`. -/
theorem reaches_any_iff (hf : e.registry.Holds p.store f)
    (hstate : e.state.includesTrashed = true) (h : p.Plain e.conventions f)
    {inclusion : Inclusion} (hany : p.any = some inclusion) (d : StreamId) :
    (∃ seed ∈ Expansion.anySeeds inclusion, e.Reaches p.store p.not seed d) ↔
      f.includes p d = true := by
  cases inclusion with
  | wildcard =>
    rw [Forest.includes_wildcard_iff hany, Expansion.anySeeds]
    simp only [List.mem_singleton, exists_eq_left, Expansion.reaches_wildcard_iff hf,
      Forest.descends_from_root_iff]
    refine and_congr_right fun _ => forall₂_congr fun y hy => ?_
    exact Forest.shows_iff_notMem hstate (Forest.mem_ids_of_mem_wayUp hy)
  | ids streams =>
    have hids : p.anyIds = streams := QueryClause.anyIds_eq hany
    rw [Forest.includes_ids_iff hany,
      ← Forest.exists_descends_iff_nearest fun y hy => h.disjoint y (hids ▸ hy)]
    refine exists_congr fun seed => and_congr_right fun hseed => ?_
    rw [h.reaches_included_iff hf (hids ▸ hseed), Forest.descends_shows_iff hstate]

/-- The excluded seeds reach what the clause mentions nearest in `not`. -/
theorem reaches_not_iff (hf : e.registry.Holds p.store f)
    (hstate : e.state.includesTrashed = true) (h : p.Plain e.conventions f) (d : StreamId) :
    (∃ seed ∈ p.not, e.Reaches p.store p.anyIds seed d ∨
      e.reach p.store p.anyIds seed = .ok none ∧ d = seed) ↔ f.excludes p d = true := by
  have hdisjoint : ∀ y ∈ p.not, y ∉ p.anyIds := fun y hy hin => h.disjoint y hin hy
  rw [Forest.excludes_iff, Forest.nearest?_append_comm,
    ← Forest.exists_descends_iff_nearest hdisjoint]
  simp only [and_or_left, exists_or]
  refine or_congr (exists_congr fun seed => and_congr_right fun hseed => ?_) ?_
  · rw [h.reaches_excluded_iff hf hseed, Forest.descends_shows_iff hstate]
  · constructor
    · rintro ⟨seed, hseed, hnone, rfl⟩
      rw [Expansion.reach_eq_none_iff hf] at hnone
      exact ⟨hseed, fun hlisted => hnone (.inr (.inr hlisted))⟩
    · intro hunknown
      obtain ⟨hd, hout⟩ := hunknown
      obtain ⟨hw, hm⟩ := h.excluded d hd
      refine ⟨d, hd, (Expansion.reach_eq_none_iff hf _ d).mpr ?_, rfl⟩
      simp [Expansion.Stands, hw, hm, hout]

/-- What a plain clause selects is told by the nearest mentions of the streams of a record. -/
theorem selects_iff (hf : e.registry.Holds p.store f) (hstate : e.state.includesTrashed = true)
    (h : p.Plain e.conventions f) (hx : e.Expands p x) (record : List StreamId) :
    x.Selects record ↔ (∃ d ∈ record, f.includes p d = true) ∧
      ∀ d ∈ record, f.excludes p d = false := by
  obtain ⟨inclusion, hany⟩ := Option.isSome_iff_exists.mp h.any
  rw [hx.selects_any_iff hany h.all h.forced, h.pruned_eq]
  have hnot := hx.not
  rw [h.spared_eq] at hnot
  simp only [hnot, h.reaches_any_iff hf hstate hany, h.reaches_not_iff hf hstate,
    Bool.eq_false_iff, ne_eq]

end Plain

end QueryClause

/-- A record matches a plain clause exactly if the nearest mention of one of its streams includes
it, and that of none of them excludes it. -/
theorem nearest_mention_decides {e : Expansion} {f : Forest} {p : QueryClause}
    (hf : e.registry.Holds p.store f) (hstate : e.state = .trashed ∨ e.state = .all)
    (h : p.Plain e.conventions f) :
    ∃ xs, expandClauses e [p] = .ok xs ∧ ∀ record,
      (reduceClauses xs).compile.holds record = true ↔
        (∃ d ∈ record, f.includes p d = true) ∧ ∀ d ∈ record, f.excludes p d = false := by
  have hincludes := StreamState.includesTrashed_of_trashed_or_all hstate
  obtain ⟨x, hx⟩ := Expansion.exists_clause hf h.stands
  refine ⟨[x], (expandClauses_eq_ok_iff e [p] [x]).mpr (.cons hx .nil), fun record => ?_⟩
  rw [holds_compile_reduce_single]
  exact h.selects_iff hf hincludes (Expansion.expands_of_clause hx) record

/-- A stream, one below it, and one below that. -/
def nestedForest : Forest where
  streams := [⟨⟨"home"⟩, none, false⟩, ⟨⟨"bank"⟩, some ⟨"home"⟩, false⟩,
    ⟨⟨"public"⟩, some ⟨"bank"⟩, false⟩]
  grown := by
    have hpair : Forest.Grown [⟨⟨"home"⟩, none, false⟩, ⟨⟨"bank"⟩, some ⟨"home"⟩, false⟩] :=
      .pair (by decide) rfl (by decide) (by decide) (by decide)
    exact .insert hpair (by decide) (by decide) (by decide)

def nestedExpansion : Expansion where
  conventions := .standard
  registry := .single ⟨"local"⟩ nestedForest
  state := .all

/-- Includes the top and the bottom stream, and excludes the one between. -/
def nestedClause : QueryClause where
  store := ⟨"local"⟩
  any := some (.ids [⟨"home"⟩, ⟨"public"⟩])
  not := [⟨"bank"⟩, ⟨"ghost"⟩]

theorem nested_holds : nestedExpansion.registry.Holds nestedClause.store nestedForest :=
  Registry.holds_single ⟨"local"⟩ nestedForest

theorem nested_plain : nestedClause.Plain nestedExpansion.conventions nestedForest where
  any := rfl
  all := rfl
  forced := rfl
  known := by decide +kernel
  excluded := by decide +kernel
  disjoint := by decide +kernel

theorem nearest_mention_decides_nested :
    nestedExpansion.registry.Holds nestedClause.store nestedForest ∧
    (nestedExpansion.state = .trashed ∨ nestedExpansion.state = .all) ∧
    nestedClause.Plain nestedExpansion.conventions nestedForest ∧
    ∃ xs, expandClauses nestedExpansion [nestedClause] = .ok xs ∧ ∀ record,
      (reduceClauses xs).compile.holds record = true ↔
        (∃ d ∈ record, nestedForest.includes nestedClause d = true) ∧
          ∀ d ∈ record, nestedForest.excludes nestedClause d = false :=
  ⟨nested_holds, .inr rfl, nested_plain,
    nearest_mention_decides nested_holds (.inr rfl) nested_plain⟩

end StreamScope
