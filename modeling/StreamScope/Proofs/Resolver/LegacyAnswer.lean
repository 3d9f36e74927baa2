import StreamScope.Proofs.Query.Spelling
import StreamScope.Proofs.Resolver.Clean
import StreamScope.Proofs.Resolver.Health

/-!
Answers in the legacy spelling. An answer keeps the clauses of the scope and the
form of each, and shows the streams of the default store by their legacy spelling.
The current spelling of what it shows is that of the streams themselves, so the
scope can be read back as long as none of its own ids has the legacy spelling. A
stream that has it is shown like the stream whose legacy spelling it is.
-/

namespace StreamScope

theorem StreamId.eq_iff_text (id id' : StreamId) : id = id' ↔ id.text = id'.text := by
  cases id
  cases id'
  simp

theorem map_eq_self_iff {α : Type} (f : α → α) (xs : List α) :
    xs.map f = xs ↔ ∀ x ∈ xs, f x = x := by
  simpa using List.map_inj_left (f := f) (g := id) (l := xs)

namespace Branch

/-- The branch but for the ids in it. -/
def shape (b : Branch) : Bool × Nat := (b.isInclusion, b.ids.length)

theorem shape_map (f : StreamId → StreamId) (b : Branch) : (b.map f).shape = b.shape := by
  cases b <;> simp [shape, map, isInclusion, ids]

theorem map_map (f g : StreamId → StreamId) (b : Branch) :
    (b.map f).map g = b.map fun id => g (f id) := by
  cases b <;> simp [map]

theorem map_fixes_iff (f : StreamId → StreamId) (b : Branch) :
    b.map f = b ↔ ∀ id ∈ b.ids, f id = id := by
  cases b <;> simp only [map, ids, any.injEq, not.injEq, map_eq_self_iff]

end Branch

namespace ResolvedClause

/-- The clauses are alike but for the ids in their lists. -/
structure SameShape (c c' : ResolvedClause) : Prop where
  store : c'.store = c.store
  any : c'.any.map List.length = c.any.map List.length
  branches : c'.branches.map Branch.shape = c.branches.map Branch.shape

theorem sameShape_mapIds (f : StreamId → StreamId) (c : ResolvedClause) :
    c.SameShape (c.mapIds f) where
  store := rfl
  any := by simp [mapIds, Function.comp_def]
  branches := by simp [mapIds, Function.comp_def, Branch.shape_map]

theorem mapIds_mapIds (f g : StreamId → StreamId) (c : ResolvedClause) :
    (c.mapIds f).mapIds g = c.mapIds fun id => g (f id) := by
  simp [mapIds, Function.comp_def, Branch.map_map]

theorem mapIds_eq_self_iff (f : StreamId → StreamId) (c : ResolvedClause) :
    c.mapIds f = c ↔ ∀ id ∈ c.ids, f id = id := by
  obtain ⟨store, any, branches⟩ := c
  have hany : any.map (·.map f) = any ↔ ∀ id ∈ any.getD [], f id = id := by
    cases any <;> simp [map_eq_self_iff]
  have hbranches : branches.map (Branch.map f) = branches ↔
      ∀ id ∈ branches.flatMap Branch.ids, f id = id := by
    simp only [map_eq_self_iff, Branch.map_fixes_iff, List.mem_flatMap, forall_exists_index,
      and_imp]
    exact ⟨fun h id b hb hid => h b hb id hid, fun h b hb id hid => h id b hb hid⟩
  simp only [mapIds, ids, mk.injEq, true_and, hany, hbranches, List.forall_mem_append]

end ResolvedClause

namespace ResolvedQuery

/-- The query with the ids of each store changed in the way of the store. -/
def mapIds (f : StoreId → StreamId → StreamId) (q : ResolvedQuery) : ResolvedQuery :=
  ⟨q.clauses.map fun c => c.mapIds (f c.store)⟩

theorem mapIds_mapIds (f g : StoreId → StreamId → StreamId) (q : ResolvedQuery) :
    (q.mapIds f).mapIds g = q.mapIds fun store id => g store (f store id) := by
  simp only [mapIds, List.map_map, Function.comp_def, ResolvedClause.mapIds_mapIds]
  rfl

theorem mapIds_eq_self_iff (f : StoreId → StreamId → StreamId) (q : ResolvedQuery) :
    q.mapIds f = q ↔ ∀ c ∈ q.clauses, ∀ id ∈ c.ids, f c.store id = id := by
  obtain ⟨clauses⟩ := q
  simp only [mapIds, mk.injEq, map_eq_self_iff, ResolvedClause.mapIds_eq_self_iff]

end ResolvedQuery

namespace Resolver

open LegacyPrefixes

variable (r : Resolver) (store : StoreId) (id : StreamId)

/-- The id by which an answer shows a stream. -/
def shown : StreamId :=
  match r.config.conventions.legacy with
  | some p =>
      if store = r.config.conventions.defaultStore then
        ⟨p.toLegacy r.config.conventions.marker id.text⟩
      else id
  | none => id

/-- The id in its current spelling, where the store has two. -/
def restored : StreamId :=
  match r.config.conventions.legacy with
  | some p =>
      if store = r.config.conventions.defaultStore then
        ⟨p.toCurrent r.config.conventions.marker id.text⟩
      else id
  | none => id

/-- The id has the legacy spelling, in the store that has two. -/
def IsLegacy : Prop :=
  store = r.config.conventions.defaultStore ∧ ∃ p, r.config.conventions.legacy = some p ∧
    Spells r.config.conventions.marker p.legacy id.text

theorem restored_shown : r.restored store (r.shown store id) = r.restored store id := by
  unfold restored shown
  cases hlegacy : r.config.conventions.legacy with
  | none => rfl
  | some p =>
    by_cases hstore : store = r.config.conventions.defaultStore
    · simp [hstore, (Conventions.legacy_sound hlegacy).toCurrent_toLegacy]
    · simp [hstore]

theorem restored_eq_self_iff : r.restored store id = id ↔ ¬ r.IsLegacy store id := by
  unfold restored IsLegacy
  cases hlegacy : r.config.conventions.legacy with
  | none => simp
  | some p =>
    have hself := (Conventions.legacy_sound hlegacy).toCurrent_eq_self_iff id.text
    by_cases hstore : store = r.config.conventions.defaultStore
    · simp [hstore, ← hself, StreamId.eq_iff_text]
    · simp [hstore]

/-- Streams are shown by one id if they are one, or if one is shown by the id of the other. -/
theorem shown_eq_shown_iff (id' : StreamId) : r.shown store id = r.shown store id' ↔
    id = id' ∨ id = r.shown store id' ∨ id' = r.shown store id := by
  unfold shown
  cases hlegacy : r.config.conventions.legacy with
  | none => simp [eq_comm]
  | some p =>
    have hsame := (Conventions.legacy_sound hlegacy).toLegacy_eq_toLegacy_iff id.text id'.text
    by_cases hstore : store = r.config.conventions.defaultStore
    · simpa [hstore, StreamId.eq_iff_text] using hsame
    · simp [hstore, eq_comm]

theorem shown_of_ne {store : StoreId} (h : store ≠ r.config.conventions.defaultStore) :
    r.shown store id = id := by
  unfold shown
  cases r.config.conventions.legacy <;> simp [h]

/-- The legacy view of a query is the query with the ids that it shows. -/
theorem toLegacy_eq (q : ResolvedQuery) : r.toLegacy q = q.mapIds r.shown := by
  cases hlegacy : r.config.conventions.legacy with
  | none =>
    have hself : q.mapIds r.shown = q :=
      (q.mapIds_eq_self_iff r.shown).mpr fun c _ id _ => by simp [shown, hlegacy]
    simp [toLegacy, hlegacy, hself]
  | some p =>
    simp only [toLegacy, hlegacy]
    refine congrArg ResolvedQuery.mk (List.map_congr_left fun c _ => ?_)
    by_cases hstore : c.store = r.config.conventions.defaultStore
    · have hshown : r.shown c.store =
          fun id => ⟨p.toLegacy r.config.conventions.marker id.text⟩ := by
        funext id
        simp [shown, hlegacy, hstore]
      rw [if_pos hstore, hshown]
    · have hself := (c.mapIds_eq_self_iff (r.shown c.store)).mpr fun id _ => r.shown_of_ne id hstore
      rw [if_neg hstore, hself]

/-- The legacy view keeps clauses, stores and shapes, and the clauses of other stores as they are.
Read back it is the query in its current spelling, so the query itself exactly if none of its ids has
the legacy one; and two streams are shown by one id exactly if the legacy spelling of one is the
other. -/
theorem toLegacy_lossless_iff (q : ResolvedQuery) :
    q.clauses.Forall₂ (fun c c' => c.SameShape c' ∧
      (c.store ≠ r.config.conventions.defaultStore → c' = c)) (r.toLegacy q).clauses ∧
    r.toLegacy q = q.mapIds r.shown ∧
    (r.toLegacy q).mapIds r.restored = q.mapIds r.restored ∧
    ((r.toLegacy q).mapIds r.restored = q ↔
      ∀ c ∈ q.clauses, ∀ id ∈ c.ids, ¬ r.IsLegacy c.store id) ∧
    ∀ store id id', r.shown store id = r.shown store id' ↔
      id = id' ∨ id = r.shown store id' ∨ id' = r.shown store id := by
  have hclauses : q.clauses.Forall₂ (fun c c' => c.SameShape c' ∧
      (c.store ≠ r.config.conventions.defaultStore → c' = c)) (q.mapIds r.shown).clauses := by
    simp only [ResolvedQuery.mapIds, List.forall₂_map_right_iff, List.forall₂_same]
    intro c _
    refine ⟨c.sameShape_mapIds _, fun hstore => ?_⟩
    exact (c.mapIds_eq_self_iff _).mpr fun id _ => r.shown_of_ne id hstore
  have hback : (q.mapIds r.shown).mapIds r.restored = q.mapIds r.restored := by
    simp only [ResolvedQuery.mapIds_mapIds, restored_shown]
  have hself : q.mapIds r.restored = q ↔
      ∀ c ∈ q.clauses, ∀ id ∈ c.ids, ¬ r.IsLegacy c.store id := by
    simp only [ResolvedQuery.mapIds_eq_self_iff, restored_eq_self_iff]
  rw [r.toLegacy_eq q]
  exact ⟨hclauses, rfl, hback, hback ▸ hself, r.shown_eq_shown_iff⟩

/-- A stream and the one whose legacy spelling it is. -/
def aliasedForest : Forest where
  streams := [⟨⟨".account"⟩, none, false⟩, ⟨⟨":_system:account"⟩, none, false⟩]
  grown := .pair (by decide) rfl (by decide) (by decide) (by decide)

def aliasedResolver : Resolver := ⟨{}, [.ofIds ["*"]], .single ⟨"local"⟩ aliasedForest⟩

def aliasedQuery : ResolvedQuery :=
  ⟨[{ store := ⟨"local"⟩, any := some [⟨".account"⟩, ⟨":_system:account"⟩] }]⟩

theorem aliased_resolve : aliasedResolver.resolve ownerCaller { wholeRequest with legacy := true } =
    .ok aliasedQuery := by
  have hclauses : aliasedResolver.clauses { wholeRequest with legacy := true } =
      .ok [.wildcard ⟨"local"⟩] := rfl
  rw [resolve, hclauses]
  cbv

/-- Two streams of a scope are shown by one id, and the scope cannot be read back. -/
theorem toLegacy_merges_streams :
    Resolver.ofConfig {} (.single ⟨"local"⟩ aliasedForest) = .ok aliasedResolver ∧
    aliasedResolver.config.conventions.legacy ≠ none ∧
    aliasedResolver.resolve ownerCaller { wholeRequest with legacy := true } = .ok aliasedQuery ∧
    aliasedResolver.toLegacy aliasedQuery =
      ⟨[{ store := ⟨"local"⟩, any := some [⟨".account"⟩, ⟨".account"⟩] }]⟩ ∧
    (aliasedResolver.toLegacy aliasedQuery).mapIds aliasedResolver.restored ≠ aliasedQuery :=
  ⟨rfl, by decide, aliased_resolve, rfl, by decide +kernel⟩

end Resolver

end StreamScope
