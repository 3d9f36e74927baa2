import StreamScope.Proofs.Scope.Reduction

/-!
Scope and demand. A clause demands a stream when it has a list of inclusions at
all, be it an empty one. A record that a demanding clause admits carries a stream
that the clause lists; a clause without demands admits all that it does not
exclude, and so a record without streams. The predicate of a query therefore
keeps to the listed streams exactly if every clause has a demand, as all clauses
have that reduction leaves.
-/

namespace StreamScope

namespace ResolvedClause

variable {c : ResolvedClause} {record : List StreamId}

/-- The clause has an `any`, or a branch that includes. -/
def Demands (c : ResolvedClause) : Prop := c.inclusions ≠ []

/-- The record carries a stream that the clause lists in its `any` or in a branch that includes. -/
def Meets (c : ResolvedClause) (record : List StreamId) : Prop :=
  ∃ ids ∈ c.inclusions, Hits record ids

theorem Admits.meets (h : c.Admits record) (hc : c.Demands) : c.Meets record := by
  obtain ⟨ids, hids⟩ := List.exists_mem_of_ne_nil _ hc
  exact ⟨ids, hids, ((c.admits_iff record).mp h).1 ids hids⟩

theorem admits_iff_of_not_demands (hc : ¬ c.Demands) (record : List StreamId) :
    c.Admits record ↔ ¬ Hits record c.excludedIds := by
  have hnone : c.inclusions = [] := not_not.mp hc
  simp [admits_iff, hnone]

theorem not_meets_nil (c : ResolvedClause) : ¬ c.Meets [] := by
  rintro ⟨ids, -, id, -, hrecord⟩
  exact List.not_mem_nil hrecord

end ResolvedClause

/-- What keeps a clause alive is a demand. -/
theorem ExpandedClause.demands_of_reduce? {x : ExpandedClause} {c : ResolvedClause}
    (h : x.reduce? = some c) : c.Demands := by
  have hincludes : ∃ ids, ids ∈ c.inclusions := by
    simp only [ResolvedClause.inclusions, List.mem_append, Option.mem_toList, List.mem_map,
      List.mem_filter]
    rcases includes_of_reduce? h with ⟨ids, hany, -⟩ | ⟨ids, -, -, hbranch⟩
    · exact ⟨ids, .inl hany⟩
    · exact ⟨ids, .inr ⟨.any ids, ⟨hbranch, rfl⟩, rfl⟩⟩
  obtain ⟨ids, hids⟩ := hincludes
  exact List.ne_nil_of_mem hids

namespace ResolvedQuery

/-- Without a demand a clause admits the record that carries nothing. -/
theorem holds_nil_of_not_demands {q : ResolvedQuery} {c : ResolvedClause} (hc : c ∈ q.clauses)
    (hfree : ¬ c.Demands) : q.compile.holds [] = true := by
  rw [holds_compile]
  refine ⟨c, hc, (ResolvedClause.admits_iff_of_not_demands hfree []).mpr ?_⟩
  rintro ⟨id, -, hrecord⟩
  exact List.not_mem_nil hrecord

/-- A match carries a listed stream, or is owed to a clause without a demand. So all matches carry
one exactly if every clause has a demand, and reduction leaves no other clauses. -/
theorem scoped_iff_demanding (q : ResolvedQuery) :
    (∀ record, q.compile.holds record = true →
      (∃ c ∈ q.clauses, c.Meets record) ∨
        ∃ c ∈ q.clauses, ¬ c.Demands ∧ ¬ Hits record c.excludedIds) ∧
    ((∀ record, q.compile.holds record = true → ∃ c ∈ q.clauses, c.Meets record) ↔
      ∀ c ∈ q.clauses, c.Demands) ∧
    ∀ xs, q = reduceClauses xs → ∀ c ∈ q.clauses, c.Demands := by
  have howed : ∀ record, q.compile.holds record = true →
      (∃ c ∈ q.clauses, c.Meets record) ∨
        ∃ c ∈ q.clauses, ¬ c.Demands ∧ ¬ Hits record c.excludedIds := by
    intro record hholds
    obtain ⟨c, hc, hadmits⟩ := (q.holds_compile record).mp hholds
    by_cases hdemands : c.Demands
    · exact .inl ⟨c, hc, hadmits.meets hdemands⟩
    · exact .inr ⟨c, hc, hdemands,
        (ResolvedClause.admits_iff_of_not_demands hdemands record).mp hadmits⟩
  refine ⟨howed, ⟨?_, ?_⟩, ?_⟩
  · intro hscoped c hc
    by_contra hfree
    obtain ⟨c', -, hmeets⟩ := hscoped [] (holds_nil_of_not_demands hc hfree)
    exact c'.not_meets_nil hmeets
  · intro hall record hholds
    refine (howed record hholds).resolve_right ?_
    rintro ⟨c, hc, hfree, -⟩
    exact hfree (hall c hc)
  · rintro xs rfl c hc
    obtain ⟨x, -, hreduce⟩ := (mem_reduceClauses_iff xs c).mp hc
    exact ExpandedClause.demands_of_reduce? hreduce

/-- A query may be read that lets every record through. -/
theorem undemanding_unscoped :
    ∃ q, ofJson? (.array [.object [("storeId", .string "local")]]) = some q ∧
      ∃ record, q.compile.holds record = true ∧ ¬ ∃ c ∈ q.clauses, c.Meets record := by
  refine ⟨⟨[{ store := ⟨"local"⟩ }]⟩, by decide +kernel, [⟨"diary"⟩], rfl, ?_⟩
  rintro ⟨c, hc, ids, hids, -⟩
  obtain rfl := List.mem_singleton.mp hc
  exact List.not_mem_nil hids

end ResolvedQuery

end StreamScope
