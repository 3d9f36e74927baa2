import StreamScope.Proofs.Scope.Meaning

/-!
The form of a reduced query. A clause that survives includes streams of its own
accord, none of its lists is empty, and what it excludes stands in one branch at
the end. The records that such a query matches are those that one of the
expanded clauses selects, so nothing that reduction leaves out or shortens turns
into a demand that every record meets.
-/

namespace StreamScope

namespace ResolvedClause

/-- No list of the clause is empty, and at most its last branch excludes. -/
structure Normal (c : ResolvedClause) : Prop where
  any_ne_nil : ∀ ids, c.any = some ids → ids ≠ []
  branch_ne_nil : ∀ b ∈ c.branches, b.ids ≠ []
  exclusion_last : ∃ (included : List (List StreamId)) (excluded : Option (List StreamId)),
    c.branches = included.map .any ++ (excluded.map .not).toList

end ResolvedClause

namespace ExpandedClause

variable {x : ExpandedClause} {c : ResolvedClause}

theorem reduced_normal (h : ∀ ids ∈ x.forced, ids ≠ []) : x.reduced.Normal where
  any_ne_nil ids hids := ((x.reduced_any_eq_some_iff ids).mp hids).2
  branch_ne_nil b hb := by
    rcases (x.mem_reduced_branches_iff b).mp hb with ⟨ids, -, hne, rfl⟩ | ⟨ids, hids, rfl⟩ |
      ⟨hne, rfl⟩
    · exact hne
    · exact h ids hids
    · exact hne
  exclusion_last := ⟨_, _, rfl⟩

/-- An inclusion that holds streams stands in the reduced clause, as its `any` or as a branch. -/
theorem reduced_includes {ids : List StreamId} (hids : ids ∈ x.inclusions) (hne : ids ≠ []) :
    x.reduced.any = some ids ∨ ids ∈ x.all ∧ .any ids ∈ x.reduced.branches := by
  rcases (x.mem_inclusions_iff ids).mp hids with hany | hall
  · exact .inl ((x.reduced_any_eq_some_iff ids).mpr ⟨hany, hne⟩)
  · exact .inr ⟨hall, (x.mem_reduced_branches_iff _).mpr (.inl ⟨ids, hall, hne, rfl⟩)⟩

theorem normal_of_reduce? (h : x.reduce? = some c) : c.Normal := by
  obtain ⟨-, hforced, rfl⟩ := (x.reduce?_eq_some_iff c).mp h
  exact reduced_normal hforced

/-- What keeps a clause alive is an inclusion of its own: its `any`, or one that an `all` id
brought in. -/
theorem includes_of_reduce? (h : x.reduce? = some c) :
    (∃ ids, c.any = some ids ∧ ids ≠ []) ∨ ∃ ids ∈ x.all, ids ≠ [] ∧ .any ids ∈ c.branches := by
  obtain ⟨⟨ids, hids, hne⟩, -, rfl⟩ := (x.reduce?_eq_some_iff c).mp h
  rcases reduced_includes hids hne with hany | ⟨hall, hbranch⟩
  · exact .inl ⟨ids, hany, hne⟩
  · exact .inr ⟨ids, hall, hne, hbranch⟩

/-- A clause always demands a stream. -/
theorem not_selects_nil (x : ExpandedClause) : ¬ x.Selects [] := by
  intro h
  obtain ⟨ids, hids, hne⟩ := h.includes
  obtain ⟨id, -, hrecord⟩ := h.included ids hids hne
  exact List.not_mem_nil hrecord

/-- What a clause selects, set by set. -/
theorem selects_iff_sets (x : ExpandedClause) (record : List StreamId) :
    x.Selects record ↔ ((∃ ids, x.any = some ids ∧ ids ≠ []) ∨ ∃ ids ∈ x.all, ids ≠ []) ∧
      (∀ ids, x.any = some ids → ids ≠ [] → Hits record ids) ∧
      (∀ ids ∈ x.all, ids ≠ [] → Hits record ids) ∧
      (∀ ids ∈ x.forced, Hits record ids) ∧ ∀ id ∈ x.not, id ∉ record := by
  have hsome : (∃ ids ∈ x.inclusions, ids ≠ []) ↔
      (∃ ids, x.any = some ids ∧ ids ≠ []) ∨ ∃ ids ∈ x.all, ids ≠ [] := by
    simp only [mem_inclusions_iff, or_and_right, exists_or]
  have hout : ¬ Hits record x.not ↔ ∀ id ∈ x.not, id ∉ record := by
    simp [Hits]
  rw [← hsome, ← hout]
  constructor
  · intro h
    refine ⟨h.includes, ?_, ?_, h.forced, h.excluded⟩
    · exact fun ids hids hne => h.included ids ((x.mem_inclusions_iff ids).mpr (.inl hids)) hne
    · exact fun ids hids hne => h.included ids ((x.mem_inclusions_iff ids).mpr (.inr hids)) hne
  · intro hsets
    obtain ⟨hincludes, hany, hall, hforced, hexcluded⟩ := hsets
    refine ⟨hincludes, fun ids hids hne => ?_, hforced, hexcluded⟩
    rcases (x.mem_inclusions_iff ids).mp hids with hids | hids
    · exact hany ids hids hne
    · exact hall ids hids hne

end ExpandedClause

/-- Reduction brings every clause into its normal form and keeps what the clauses select; without
a stream no record matches. -/
theorem reduction_keeps_meaning (xs : List ExpandedClause) :
    (∀ c ∈ (reduceClauses xs).clauses, c.Normal ∧ ∃ x ∈ xs, x.reduce? = some c ∧
      ((∃ ids, c.any = some ids ∧ ids ≠ []) ∨
        ∃ ids ∈ x.all, ids ≠ [] ∧ .any ids ∈ c.branches)) ∧
    (∀ record, (reduceClauses xs).compile.holds record = true ↔
      ∃ x ∈ xs, ((∃ ids, x.any = some ids ∧ ids ≠ []) ∨ ∃ ids ∈ x.all, ids ≠ []) ∧
        (∀ ids, x.any = some ids → ids ≠ [] → Hits record ids) ∧
        (∀ ids ∈ x.all, ids ≠ [] → Hits record ids) ∧
        (∀ ids ∈ x.forced, Hits record ids) ∧ ∀ id ∈ x.not, id ∉ record) ∧
    (reduceClauses xs).compile.holds [] = false := by
  refine ⟨?_, ?_, ?_⟩
  · intro c hc
    obtain ⟨x, hx, hreduce⟩ := (mem_reduceClauses_iff xs c).mp hc
    exact ⟨ExpandedClause.normal_of_reduce? hreduce, x, hx, hreduce,
      ExpandedClause.includes_of_reduce? hreduce⟩
  · intro record
    rw [holds_compile_reduceClauses]
    refine exists_congr fun x => and_congr_right fun _ => ?_
    exact x.selects_iff_sets record
  · rw [Bool.eq_false_iff, ne_eq, holds_compile_reduceClauses]
    rintro ⟨x, -, hselects⟩
    exact x.not_selects_nil hselects

end StreamScope
