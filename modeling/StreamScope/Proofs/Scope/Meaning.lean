import StreamScope.Scope.Predicate
import Mathlib.Data.List.Basic

/-!
What clauses mean for a record, said without predicates. A resolved clause
admits a record that carries a stream of each list of its and none of an
excluded one; an expanded clause selects a record if it names a stream at all
and the record carries one of each set that is not empty and of each forced
set. Compilation and reduction keep these meanings.
-/

namespace StreamScope

open StreamPredicate

/-- The record carries one of the streams. -/
def Hits (record ids : List StreamId) : Prop := ∃ id ∈ ids, id ∈ record

theorem hits_iff (record ids : List StreamId) : hits record ids = true ↔ Hits record ids := by
  simp [hits, Hits]

theorem not_hits_nil (record : List StreamId) : ¬ Hits record [] := by
  simp [Hits]

theorem Hits.ne_nil {record ids : List StreamId} (h : Hits record ids) : ids ≠ [] := by
  rintro rfl
  exact not_hits_nil record h

theorem Hits.mono {record ids ids' : List StreamId} (h : Hits record ids)
    (hsub : ∀ id ∈ ids, id ∈ ids') : Hits record ids' := by
  obtain ⟨id, hid, hrecord⟩ := h
  exact ⟨id, hsub id hid, hrecord⟩

theorem Hits.grow {record ids : List StreamId} (h : Hits record ids) (d : StreamId) :
    Hits (d :: record) ids := by
  obtain ⟨id, hid, hrecord⟩ := h
  exact ⟨id, hid, List.mem_cons_of_mem d hrecord⟩

namespace StreamPredicate

theorem holdsAll_iff (record : List StreamId) (parts : List StreamPredicate) :
    holdsAll record parts = true ↔ ∀ p ∈ parts, p.holds record = true := by
  induction parts with
  | nil => simp [holdsAll]
  | cons p parts ih => simp [holdsAll, ih]

theorem holdsSome_iff (record : List StreamId) (parts : List StreamPredicate) :
    holdsSome record parts = true ↔ ∃ p ∈ parts, p.holds record = true := by
  induction parts with
  | nil => simp [holdsSome]
  | cons p parts ih => simp [holdsSome, ih]

theorem holds_inclusion (record ids : List StreamId) :
    (inclusion ids).holds record = true ↔ Hits record ids := by
  unfold inclusion
  split
  case h_1 single => simp [holds, Hits]
  case h_2 => rw [holds, hits_iff]

theorem holds_exclusion (record ids : List StreamId) :
    (exclusion ids).holds record = true ↔ ¬ Hits record ids := by
  unfold exclusion
  split
  case h_1 single => simp [holds, Hits]
  case h_2 => rw [holds, Bool.not_eq_true', Bool.eq_false_iff, ne_eq, hits_iff]

end StreamPredicate

namespace Branch

def Admits (record : List StreamId) : Branch → Prop
  | .any ids => Hits record ids
  | .not ids => ¬ Hits record ids

theorem holds_compile (record : List StreamId) (b : Branch) :
    b.compile.holds record = true ↔ b.Admits record := by
  cases b with
  | any ids => exact holds_inclusion record ids
  | not ids => exact holds_exclusion record ids

end Branch

namespace ResolvedClause

/-- The record carries a stream of each list that it has to, and none that it must not. -/
def Admits (c : ResolvedClause) (record : List StreamId) : Prop :=
  (∀ ids, c.any = some ids → Hits record ids) ∧ ∀ b ∈ c.branches, b.Admits record

theorem holds_compile (c : ResolvedClause) (record : List StreamId) :
    c.compile.holds record = true ↔ c.Admits record := by
  have hparts : (∀ p ∈ c.any.toList.map inclusion ++ c.branches.map Branch.compile,
      p.holds record = true) ↔ c.Admits record := by
    simp only [List.mem_append, List.mem_map, Option.mem_toList, or_imp, forall_and,
      forall_exists_index, and_imp, forall_apply_eq_imp_iff₂, holds_inclusion,
      Branch.holds_compile, Admits]
  unfold compile
  split
  case h_1 part heq =>
    rw [← hparts, heq]
    simp
  case h_2 parts _ => rw [holds, holdsAll_iff, hparts]

/-- A record is admitted through the inclusions of the clause and in spite of its exclusions. -/
theorem admits_iff (c : ResolvedClause) (record : List StreamId) :
    c.Admits record ↔ (∀ ids ∈ c.inclusions, Hits record ids) ∧ ¬ Hits record c.excludedIds := by
  constructor
  · intro hadmits
    obtain ⟨hany, hbranches⟩ := hadmits
    constructor
    · intro ids hids
      simp only [inclusions, List.mem_append, Option.mem_toList, List.mem_map,
        List.mem_filter] at hids
      rcases hids with hids | ⟨b, ⟨hb, hkind⟩, rfl⟩
      · exact hany ids hids
      · cases b with
        | any ids => exact hbranches _ hb
        | not ids => simp [Branch.isInclusion] at hkind
    · intro hhit
      obtain ⟨id, hid, hrecord⟩ := hhit
      simp only [excludedIds, List.mem_flatMap, List.mem_filter] at hid
      obtain ⟨b, ⟨hb, hkind⟩, hid⟩ := hid
      cases b with
      | any ids => simp [Branch.isInclusion] at hkind
      | not ids => exact hbranches _ hb ⟨id, hid, hrecord⟩
  · intro hparts
    obtain ⟨hincluded, hexcluded⟩ := hparts
    constructor
    · intro ids hids
      exact hincluded ids (by simp [inclusions, hids])
    · intro b hb
      cases b with
      | any ids =>
        refine hincluded ids (List.mem_append_right _ ?_)
        exact List.mem_map.mpr ⟨_, List.mem_filter.mpr ⟨hb, rfl⟩, rfl⟩
      | not ids =>
        intro hhit
        obtain ⟨id, hid, hrecord⟩ := hhit
        refine hexcluded ⟨id, ?_, hrecord⟩
        exact List.mem_flatMap.mpr ⟨_, List.mem_filter.mpr ⟨hb, rfl⟩, hid⟩

/-- Every stream of one of the inclusions has the property or is excluded. -/
def Confined (c : ResolvedClause) (P : StreamId → Prop) : Prop :=
  ∃ ids ∈ c.inclusions, ∀ id ∈ ids, P id ∨ id ∈ c.excludedIds

/-- A clause guarantees a stream with a property only through one of its inclusions. -/
theorem confined_iff (c : ResolvedClause) (P : StreamId → Prop) :
    c.Confined P ↔ ∀ record, c.Admits record → ∃ d ∈ record, P d := by
  constructor
  · rintro ⟨ids, hids, hconfined⟩ record hadmits
    obtain ⟨hincluded, hexcluded⟩ := (admits_iff c record).mp hadmits
    obtain ⟨id, hid, hrecord⟩ := hincluded ids hids
    rcases hconfined id hid with hP | hout
    · exact ⟨id, hrecord, hP⟩
    · exact absurd ⟨id, hout, hrecord⟩ hexcluded
  · intro hall
    by_contra hopen
    -- the record of everything included that neither has the property nor is excluded
    classical
    let record := c.inclusions.flatten.filter fun id => ¬ P id ∧ id ∉ c.excludedIds
    have hmem (id : StreamId) : id ∈ record ↔
        (∃ ids ∈ c.inclusions, id ∈ ids) ∧ ¬ P id ∧ id ∉ c.excludedIds := by
      rw [List.mem_filter, List.mem_flatten, decide_eq_true_iff]
    have hadmits : c.Admits record := by
      rw [admits_iff]
      constructor
      · intro ids hids
        by_contra hmiss
        refine hopen ⟨ids, hids, fun id hid => ?_⟩
        by_contra hout
        exact hmiss ⟨id, hid, (hmem id).mpr ⟨⟨ids, hids, hid⟩, not_or.mp hout⟩⟩
      · intro hhit
        obtain ⟨id, hid, hrecord⟩ := hhit
        exact ((hmem id).mp hrecord).2.2 hid
    obtain ⟨d, hd, hP⟩ := hall record hadmits
    exact ((hmem d).mp hd).2.1 hP

end ResolvedClause

theorem holds_compileClauses (clauses : List ResolvedClause) (record : List StreamId) :
    (compileClauses clauses).holds record = true ↔ ∃ c ∈ clauses, c.Admits record := by
  have hparts : (∃ p ∈ clauses.map ResolvedClause.compile, p.holds record = true) ↔
      ∃ c ∈ clauses, c.Admits record := by
    simp only [List.mem_map, exists_exists_and_eq_and, ResolvedClause.holds_compile]
  unfold compileClauses
  rw [← hparts]
  split
  case h_1 heq =>
    rw [heq, nothing, holds, hits_iff]
    simp [not_hits_nil]
  case h_2 part heq =>
    rw [heq]
    simp
  case h_3 parts _ _ => rw [holds, holdsSome_iff]

namespace ResolvedQuery

theorem holds_compile (q : ResolvedQuery) (record : List StreamId) :
    q.compile.holds record = true ↔ ∃ c ∈ q.clauses, c.Admits record :=
  holds_compileClauses q.clauses record

theorem holds_compileForStore (q : ResolvedQuery) (store : StoreId) (record : List StreamId) :
    (q.compileForStore store).holds record = true ↔
      ∃ c ∈ q.clauses, c.store = store ∧ c.Admits record := by
  rw [compileForStore, holds_compileClauses]
  simp [forStore, and_assoc]

end ResolvedQuery

namespace ExpandedClause

/-- The sets of `any` and of the `all` ids. -/
def inclusions (x : ExpandedClause) : List (List StreamId) := x.any.toList ++ x.all

/-- The records that an expanded clause stands for. Inclusions that are empty do not count. -/
structure Selects (x : ExpandedClause) (record : List StreamId) : Prop where
  includes : ∃ ids ∈ x.inclusions, ids ≠ []
  included : ∀ ids ∈ x.inclusions, ids ≠ [] → Hits record ids
  forced : ∀ ids ∈ x.forced, Hits record ids
  excluded : ¬ Hits record x.not

/-- What is selected stays so with one more stream, unless the stream is excluded. -/
theorem Selects.cons {x : ExpandedClause} {record : List StreamId} {d : StreamId}
    (h : x.Selects record) (hd : d ∉ x.not) : x.Selects (d :: record) where
  includes := h.includes
  included ids hids hne := (h.included ids hids hne).grow d
  forced ids hids := (h.forced ids hids).grow d
  excluded := by
    intro hhit
    obtain ⟨id, hid, hrecord⟩ := hhit
    rcases List.mem_cons.mp hrecord with rfl | hrecord
    · exact hd hid
    · exact h.excluded ⟨id, hid, hrecord⟩

/-- With one inclusion and nothing forced, a record is selected that carries a stream of it and
none that is excluded. -/
theorem selects_single_iff {x : ExpandedClause} {ids : List StreamId} (hin : x.inclusions = [ids])
    (hforced : x.forced = []) (record : List StreamId) :
    x.Selects record ↔ (∃ d ∈ record, d ∈ ids) ∧ ∀ d ∈ record, d ∉ x.not := by
  constructor
  · intro h
    obtain ⟨ids', hids', hne⟩ := h.includes
    rw [hin, List.mem_singleton] at hids'
    obtain ⟨d, hd, hrecord⟩ := h.included ids (by simp [hin]) (hids' ▸ hne)
    exact ⟨⟨d, hrecord, hd⟩, fun d hd hout => h.excluded ⟨d, hout, hd⟩⟩
  · intro hparts
    obtain ⟨⟨d, hrecord, hd⟩, hfree⟩ := hparts
    have hhit : Hits record ids := ⟨d, hd, hrecord⟩
    refine ⟨⟨ids, by simp [hin], hhit.ne_nil⟩, ?_, by simp [hforced], ?_⟩
    · intro ids' hids' _
      rw [hin, List.mem_singleton] at hids'
      exact hids' ▸ hhit
    · intro hexcluded
      obtain ⟨d, hout, hrecord⟩ := hexcluded
      exact hfree d hrecord hout

theorem nonempty?_eq_some_iff (ids ids' : List StreamId) :
    nonempty? ids = some ids' ↔ ids = ids' ∧ ids ≠ [] := by
  cases ids <;> simp [nonempty?]

theorem mem_inclusions_iff (x : ExpandedClause) (ids : List StreamId) :
    ids ∈ x.inclusions ↔ x.any = some ids ∨ ids ∈ x.all := by
  simp [inclusions]

/-- The clause that an expanded one reduces to, apart from whether it survives. -/
def reduced (x : ExpandedClause) : ResolvedClause where
  store := x.store
  any := x.any.bind nonempty?
  branches := (x.all.filterMap nonempty? ++ x.forced).map .any ++
    ((nonempty? x.not).map .not).toList

theorem reduced_any_eq_some_iff (x : ExpandedClause) (ids : List StreamId) :
    x.reduced.any = some ids ↔ x.any = some ids ∧ ids ≠ [] := by
  simp only [reduced, Option.bind_eq_some_iff, nonempty?_eq_some_iff]
  constructor
  · intro hsome
    obtain ⟨_, hany, rfl, hne⟩ := hsome
    exact ⟨hany, hne⟩
  · intro hsome
    obtain ⟨hany, hne⟩ := hsome
    exact ⟨ids, hany, rfl, hne⟩

theorem mem_reduced_branches_iff (x : ExpandedClause) (b : Branch) :
    b ∈ x.reduced.branches ↔ (∃ ids ∈ x.all, ids ≠ [] ∧ b = .any ids) ∨
      (∃ ids ∈ x.forced, b = .any ids) ∨ (x.not ≠ [] ∧ b = .not x.not) := by
  have hall (ids : List StreamId) :
      ids ∈ x.all.filterMap nonempty? ↔ ids ∈ x.all ∧ ids ≠ [] := by
    simp only [List.mem_filterMap, nonempty?_eq_some_iff]
    constructor
    · intro hsome
      obtain ⟨_, hids, rfl, hne⟩ := hsome
      exact ⟨hids, hne⟩
    · intro hkept
      obtain ⟨hids, hne⟩ := hkept
      exact ⟨ids, hids, rfl, hne⟩
  have hnot : b ∈ ((nonempty? x.not).map Branch.not).toList ↔ x.not ≠ [] ∧ b = .not x.not := by
    cases hn : x.not <;> simp [nonempty?]
  simp only [reduced, List.mem_append, List.map_append, List.mem_map, hall, hnot]
  grind

theorem mem_all_or_forced (x : ExpandedClause) {ids : List StreamId}
    (h : .any ids ∈ x.reduced.branches) : ids ∈ x.all ∨ ids ∈ x.forced := by
  rcases (x.mem_reduced_branches_iff _).mp h with hall | hforced | ⟨-, hnot⟩
  · obtain ⟨ids', hids', -, heq⟩ := hall
    obtain rfl := Branch.any.inj heq
    exact .inl hids'
  · obtain ⟨ids', hids', heq⟩ := hforced
    obtain rfl := Branch.any.inj heq
    exact .inr hids'
  · cases hnot

theorem not_nothing_left_iff (x : ExpandedClause) :
    ¬ (x.any.bind nonempty? = none ∧ x.all.filterMap nonempty? = []) ↔
      ∃ ids ∈ x.inclusions, ids ≠ [] := by
  have hany : ¬ x.any.bind nonempty? = none ↔ ∃ ids, x.any = some ids ∧ ids ≠ [] := by
    cases x.any with
    | none => simp
    | some ids => cases ids <;> simp [nonempty?]
  have hall : ¬ x.all.filterMap nonempty? = [] ↔ ∃ ids ∈ x.all, ids ≠ [] := by
    simp [nonempty?]
  rw [not_and_or, hany, hall]
  simp only [mem_inclusions_iff, or_and_right, exists_or]

theorem reduce?_eq_some_iff (x : ExpandedClause) (c : ResolvedClause) :
    x.reduce? = some c ↔ (∃ ids ∈ x.inclusions, ids ≠ []) ∧ (∀ ids ∈ x.forced, ids ≠ []) ∧
      x.reduced = c := by
  have hforced : (x.forced.any List.isEmpty) = false ↔ ∀ ids ∈ x.forced, ids ≠ [] := by
    simp
  rw [← not_nothing_left_iff, ← hforced]
  change (if x.any.bind nonempty? = none ∧ x.all.filterMap nonempty? = []
    then none else if x.forced.any List.isEmpty = true then none else some x.reduced) = some c ↔ _
  by_cases hnothing : x.any.bind nonempty? = none ∧ x.all.filterMap nonempty? = []
  · simp [hnothing]
  · simp only [hnothing, if_false, not_false_eq_true, true_and]
    cases x.forced.any List.isEmpty <;> simp

theorem reduced_admits_iff (x : ExpandedClause) (record : List StreamId) :
    x.reduced.Admits record ↔ (∀ ids ∈ x.inclusions, ids ≠ [] → Hits record ids) ∧
      (∀ ids ∈ x.forced, Hits record ids) ∧ ¬ Hits record x.not := by
  unfold ResolvedClause.Admits
  simp only [reduced_any_eq_some_iff, mem_reduced_branches_iff, mem_inclusions_iff]
  constructor
  · intro hadmits
    obtain ⟨hany, hbranches⟩ := hadmits
    refine ⟨?_, ?_, ?_⟩
    · rintro ids (hids | hids) hne
      · exact hany ids ⟨hids, hne⟩
      · exact hbranches _ (.inl ⟨ids, hids, hne, rfl⟩)
    · intro ids hids
      exact hbranches _ (.inr (.inl ⟨ids, hids, rfl⟩))
    · intro hnot
      exact hbranches _ (.inr (.inr ⟨hnot.ne_nil, rfl⟩)) hnot
  · intro hparts
    obtain ⟨hincluded, hforced, hnot⟩ := hparts
    constructor
    · rintro ids ⟨hids, hne⟩
      exact hincluded ids (.inl hids) hne
    · rintro b (⟨ids, hids, hne, rfl⟩ | ⟨ids, hids, rfl⟩ | ⟨-, rfl⟩)
      · exact hincluded ids (.inr hids) hne
      · exact hforced ids hids
      · exact hnot

/-- Reduction keeps what a clause selects; a clause that selects no record may be dropped. -/
theorem selects_iff (x : ExpandedClause) (record : List StreamId) :
    x.Selects record ↔ ∃ c, x.reduce? = some c ∧ c.Admits record := by
  constructor
  · intro h
    have hforced : ∀ ids ∈ x.forced, ids ≠ [] := fun ids hids => (h.forced ids hids).ne_nil
    refine ⟨x.reduced, (reduce?_eq_some_iff x _).mpr ⟨h.includes, hforced, rfl⟩, ?_⟩
    exact (reduced_admits_iff x record).mpr ⟨h.included, h.forced, h.excluded⟩
  · intro hreduced
    obtain ⟨c, hreduce, hadmits⟩ := hreduced
    obtain ⟨hincludes, -, rfl⟩ := (reduce?_eq_some_iff x c).mp hreduce
    obtain ⟨hincluded, hforced, hexcluded⟩ := (reduced_admits_iff x record).mp hadmits
    exact ⟨hincludes, hincluded, hforced, hexcluded⟩

theorem store_of_reduce? {x : ExpandedClause} {c : ResolvedClause} (h : x.reduce? = some c) :
    c.store = x.store := by
  obtain ⟨-, -, rfl⟩ := (reduce?_eq_some_iff x c).mp h
  rfl

end ExpandedClause

theorem mem_reduceClauses_iff (xs : List ExpandedClause) (c : ResolvedClause) :
    c ∈ (reduceClauses xs).clauses ↔ ∃ x ∈ xs, x.reduce? = some c := by
  simp [reduceClauses]

theorem holds_compile_reduceClauses (xs : List ExpandedClause) (record : List StreamId) :
    (reduceClauses xs).compile.holds record = true ↔ ∃ x ∈ xs, x.Selects record := by
  simp only [ResolvedQuery.holds_compile, mem_reduceClauses_iff, ExpandedClause.selects_iff]
  constructor
  · intro hclause
    obtain ⟨c, ⟨x, hx, hreduce⟩, hadmits⟩ := hclause
    exact ⟨x, hx, c, hreduce, hadmits⟩
  · intro hselected
    obtain ⟨x, hx, c, hreduce, hadmits⟩ := hselected
    exact ⟨c, ⟨x, hx, hreduce⟩, hadmits⟩

theorem holds_compile_reduce_single (x : ExpandedClause) (record : List StreamId) :
    (reduceClauses [x]).compile.holds record = true ↔ x.Selects record := by
  rw [holds_compile_reduceClauses]
  simp only [List.mem_singleton, exists_eq_left]

theorem holds_compileForStore_reduceClauses (xs : List ExpandedClause) (store : StoreId)
    (record : List StreamId) :
    ((reduceClauses xs).compileForStore store).holds record = true ↔
      ∃ x ∈ xs, x.store = store ∧ x.Selects record := by
  simp only [ResolvedQuery.holds_compileForStore, mem_reduceClauses_iff,
    ExpandedClause.selects_iff]
  constructor
  · intro hclause
    obtain ⟨c, ⟨x, hx, hreduce⟩, hstore, hadmits⟩ := hclause
    exact ⟨x, hx, ExpandedClause.store_of_reduce? hreduce ▸ hstore, c, hreduce, hadmits⟩
  · intro hselected
    obtain ⟨x, hx, hstore, c, hreduce, hadmits⟩ := hselected
    exact ⟨c, ⟨x, hx, hreduce⟩, (ExpandedClause.store_of_reduce? hreduce).trans hstore, hadmits⟩

end StreamScope
