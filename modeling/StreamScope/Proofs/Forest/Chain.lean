import StreamScope.Proofs.Forest.Descent

/-!
The chain of an id in a list of streams: the id, its parent, the parent of that,
up to a stream without a listed parent. An id has at most one chain, a chain
passes no id twice, and the climb finds the chain wherever there is one. In a
forest every stream has a chain, and a stream descends from exactly those in it.
-/

namespace StreamScope.Lineage

variable {streams : List Stream} {id : StreamId} {chain chain' : List StreamId}

/-- The ids from an id up to the last one whose stream has no listed parent. -/
inductive Chain (streams : List Stream) : StreamId → List StreamId → Prop
  | last {id : StreamId} {s : Stream} (found : find? streams id = some s)
      (unlinked : ∀ p, s.parent = some p → find? streams p = none) : Chain streams id [id]
  | link {id parent : StreamId} {s : Stream} {above : List StreamId}
      (found : find? streams id = some s) (linked : s.parent = some parent)
      (rest : Chain streams parent above) : Chain streams id (id :: above)

namespace Chain

theorem found (h : Chain streams id chain) : ∃ s, find? streams id = some s := by
  cases h with
  | last found _ => exact ⟨_, found⟩
  | link found _ _ => exact ⟨_, found⟩

theorem eq_cons (h : Chain streams id chain) : ∃ above, chain = id :: above := by
  cases h with
  | last _ _ => exact ⟨[], rfl⟩
  | @link _ _ _ above _ _ _ => exact ⟨above, rfl⟩

theorem unique (h : Chain streams id chain) (h' : Chain streams id chain') : chain = chain' := by
  induction h generalizing chain' with
  | last found unlinked =>
    cases h' with
    | last _ _ => rfl
    | link found' linked rest =>
      obtain rfl := Option.some.inj (found.symm.trans found')
      obtain ⟨t, ht⟩ := rest.found
      simp [unlinked _ linked] at ht
  | link found linked rest ih =>
    cases h' with
    | last found' unlinked =>
      obtain rfl := Option.some.inj (found.symm.trans found')
      obtain ⟨t, ht⟩ := rest.found
      simp [unlinked _ linked] at ht
    | link found' linked' rest' =>
      obtain rfl := Option.some.inj (found.symm.trans found')
      obtain rfl := Option.some.inj (linked.symm.trans linked')
      rw [ih rest']

/-- What follows an id in a chain is the rest of its own chain. -/
theorem suffix {x : StreamId} (h : Chain streams id chain) (hx : x ∈ chain) :
    ∃ between above, chain = between ++ x :: above ∧ Chain streams x (x :: above) := by
  induction h with
  | @last id s found unlinked =>
    obtain rfl := List.mem_singleton.mp hx
    exact ⟨[], [], rfl, .last found unlinked⟩
  | @link id parent s above found linked rest ih =>
    rcases List.mem_cons.mp hx with rfl | hx
    · exact ⟨[], above, rfl, .link found linked rest⟩
    · obtain ⟨between, above', rfl, hrest⟩ := ih hx
      exact ⟨id :: between, above', rfl, hrest⟩

theorem notMem_tail {above : List StreamId} (h : Chain streams id (id :: above)) : id ∉ above := by
  intro hmem
  cases h with
  | last _ _ => simp at hmem
  | link found linked rest =>
    obtain ⟨between, above', heq, hown⟩ := rest.suffix hmem
    have hsame := hown.unique (.link found linked rest)
    have hlen := congrArg List.length heq
    rw [← (List.cons.inj hsame).2] at hlen
    simp only [List.length_append, List.length_cons] at hlen
    omega

theorem nodup (h : Chain streams id chain) : chain.Nodup := by
  induction h with
  | last _ _ => exact List.nodup_singleton _
  | link found linked rest ih =>
    exact List.nodup_cons.mpr ⟨(Chain.link found linked rest).notMem_tail, ih⟩

/-- Whatever stands before an id in a chain, the rest is the chain of that id. -/
theorem drop {x : StreamId} {between above : List StreamId}
    (h : Chain streams id (between ++ x :: above)) : Chain streams x (x :: above) := by
  induction between generalizing id with
  | nil =>
    obtain ⟨rest, heq⟩ := h.eq_cons
    obtain rfl := (List.cons.inj heq).1
    exact h
  | cons y between ih =>
    generalize heq : (y :: between) ++ x :: above = chain at h
    cases h with
    | last _ _ => simp at heq
    | link _ _ rest =>
      obtain ⟨-, rfl⟩ := List.cons.inj heq
      exact ih rest

end Chain

/-- The climb from the end of a part of a chain completes the chain. -/
theorem climb_of_chain {s : Stream} {passed above : List StreamId}
    (h : Chain streams id (id :: above)) (found : find? streams id = some s)
    (hlisted : ∀ x ∈ passed, ∃ t, find? streams x = some t)
    (hfresh : ∀ x ∈ above, x ∉ passed) :
    climb streams passed s = .ok (passed ++ above) := by
  induction above generalizing id passed s with
  | nil =>
    cases h with
    | last found' unlinked =>
      obtain rfl := Option.some.inj (found.symm.trans found')
      unfold climb
      split
      case h_1 => simp
      case h_2 parent hp =>
        have hnone := unlinked parent hp
        have hnot : parent ∉ passed := by
          intro hin
          obtain ⟨t, ht⟩ := hlisted parent hin
          simp [hnone] at ht
        rw [dif_neg hnot]
        split
        case h_1 => simp
        case h_2 next hnext => simp [hnone] at hnext
    | link _ _ rest =>
      obtain ⟨_, heq⟩ := rest.eq_cons
      simp at heq
  | cons parent above ih =>
    cases h with
    | link found' linked rest =>
      obtain rfl := Option.some.inj (found.symm.trans found')
      obtain ⟨_, heq⟩ := rest.eq_cons
      obtain ⟨rfl, -⟩ := List.cons.inj heq
      obtain ⟨t, ht⟩ := rest.found
      have hnodup := List.nodup_cons.mp rest.nodup
      unfold climb
      split
      case h_1 hroot => simp [hroot] at linked
      case h_2 p hp =>
        obtain rfl := Option.some.inj (linked.symm.trans hp)
        rw [dif_neg (hfresh parent List.mem_cons_self)]
        split
        case h_1 hnone => simp [ht] at hnone
        case h_2 next hnext =>
          rw [ih rest hnext, List.append_assoc, List.singleton_append]
          · intro x hx
            rcases List.mem_append.mp hx with hx | hx
            · exact hlisted x hx
            · exact ⟨t, List.mem_singleton.mp hx ▸ ht⟩
          · intro x hx hpassed
            rcases List.mem_append.mp hpassed with hold | hnew
            · exact hfresh x (List.mem_cons_of_mem _ hx) hold
            · exact hnodup.1 (List.mem_singleton.mp hnew ▸ hx)

theorem chain_of_climb {s : Stream} {passed : List StreamId}
    (found : find? streams id = some s) (h : climb streams passed s = .ok chain) :
    ∃ above, chain = passed ++ above ∧ Chain streams id (id :: above) := by
  fun_induction climb streams passed s generalizing id chain with
  | case1 passed s hroot =>
    obtain rfl := Except.ok.inj h
    exact ⟨[], by simp, .last found (by simp [hroot])⟩
  | case2 passed s parent hp hin => cases h
  | case3 passed s parent hp hnot hnone =>
    obtain rfl := Except.ok.inj h
    refine ⟨[], by simp, .last found ?_⟩
    intro p hlink
    obtain rfl := Option.some.inj (hp.symm.trans hlink)
    exact hnone
  | case4 passed s parent hp hnot next hf ih =>
    obtain ⟨above, rfl, hrest⟩ := ih hf h
    exact ⟨parent :: above, by simp, .link found hp hrest⟩

/-- The climb answers a chain exactly where there is one, even in a list that is no forest. -/
theorem ancestors_eq_ok_some_iff (streams : List Stream) (id : StreamId)
    (chain : List StreamId) :
    ancestors streams id = .ok (some chain) ↔ Chain streams id chain := by
  unfold ancestors
  constructor
  · intro h
    split at h
    case h_1 => simp at h
    case h_2 s found =>
      cases hc : climb streams [id] s with
      | error p => simp [hc, Except.map] at h
      | ok ids =>
        obtain ⟨above, rfl, hchain⟩ := chain_of_climb found hc
        simp only [hc, Except.map, Except.ok.injEq, Option.some.injEq] at h
        rw [← h]
        exact hchain
  · intro h
    obtain ⟨above, rfl⟩ := h.eq_cons
    obtain ⟨s, found⟩ := h.found
    have hclimb : climb streams [id] s = .ok ([id] ++ above) := by
      apply climb_of_chain h found
      · intro x hx
        obtain rfl := List.mem_singleton.mp hx
        exact ⟨s, found⟩
      · intro x hx hself
        obtain rfl := List.mem_singleton.mp hself
        exact h.notMem_tail hx
    simp [found, hclimb, Except.map]

end StreamScope.Lineage
