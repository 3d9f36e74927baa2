import StreamScope.Proofs.Ascending
import StreamScope.Proofs.Scope.Meaning

/-!
A query handed out store by store. Each store of the query gets one predicate,
made of its own clauses. A record satisfies one of these predicates exactly if
it satisfies the predicate of the whole query.
-/

namespace StreamScope.ResolvedQuery

theorem compileAll_stores (q : ResolvedQuery) : q.compileAll.map Prod.fst = q.storeIds := by
  simp [compileAll, Function.comp_def]

theorem mem_storeIds_iff (q : ResolvedQuery) (store : StoreId) :
    store ∈ q.storeIds ↔ ∃ c ∈ q.clauses, c.store = store := by
  rw [storeIds, Ascending.mem_ofList_iff, List.mem_map]

theorem mem_compileAll_iff (q : ResolvedQuery) (store : StoreId) (p : StreamPredicate) :
    (store, p) ∈ q.compileAll ↔ store ∈ q.storeIds ∧ p = q.compileForStore store := by
  rw [compileAll, List.mem_map]
  constructor
  · rintro ⟨_, hstore, heq⟩
    obtain ⟨rfl, rfl⟩ := Prod.mk.inj heq
    exact ⟨hstore, rfl⟩
  · rintro ⟨hstore, rfl⟩
    exact ⟨store, hstore, rfl⟩

/-- A clause is one of the clauses of its own store, so no match is lost and none is added. -/
theorem exists_compileAll_holds_iff (q : ResolvedQuery) (record : List StreamId) :
    (∃ entry ∈ q.compileAll, entry.2.holds record = true) ↔ ∃ c ∈ q.clauses, c.Admits record := by
  constructor
  · rintro ⟨⟨store, p⟩, hentry, hholds⟩
    obtain ⟨-, rfl⟩ := (q.mem_compileAll_iff store p).mp hentry
    obtain ⟨c, hc, -, hadmits⟩ := (q.holds_compileForStore store record).mp hholds
    exact ⟨c, hc, hadmits⟩
  · rintro ⟨c, hc, hadmits⟩
    have hstore : c.store ∈ q.storeIds := (q.mem_storeIds_iff c.store).mpr ⟨c, hc, rfl⟩
    exact ⟨(c.store, q.compileForStore c.store), (q.mem_compileAll_iff _ _).mpr ⟨hstore, rfl⟩,
      (q.holds_compileForStore c.store record).mpr ⟨c, hc, rfl, hadmits⟩⟩

/-- Compilation keeps what the clauses of a query admit, of all stores together and of each store
alone, and the predicates of its stores together are the predicate of the query. -/
theorem compiled_store_by_store (q : ResolvedQuery) :
    (∀ record, q.compile.holds record = true ↔ ∃ c ∈ q.clauses, c.Admits record) ∧
      (∀ store record, (q.compileForStore store).holds record = true ↔
        ∃ c ∈ q.clauses, c.store = store ∧ c.Admits record) ∧
      (q.compileAll.map Prod.fst).Pairwise (fun store store' => compare store store' = .lt) ∧
      (∀ store, store ∈ q.compileAll.map Prod.fst ↔ ∃ c ∈ q.clauses, c.store = store) ∧
      (∀ entry ∈ q.compileAll, entry.2 = q.compileForStore entry.1) ∧
      ∀ record, q.compile.holds record = true ↔
        ∃ entry ∈ q.compileAll, entry.2.holds record = true := by
  refine ⟨q.holds_compile, q.holds_compileForStore, ?_, ?_, ?_, ?_⟩
  · rw [compileAll_stores]
    exact Ascending.pairwise_ofList _
  · intro store
    rw [compileAll_stores, mem_storeIds_iff]
  · rintro ⟨store, p⟩ hentry
    exact ((q.mem_compileAll_iff store p).mp hentry).2
  · intro record
    rw [holds_compile, exists_compileAll_holds_iff]

end StreamScope.ResolvedQuery
