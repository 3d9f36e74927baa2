import StreamScope.Proofs.InMemory
import StreamScope.Proofs.Query.Spelling
import StreamScope.Proofs.Scope.Meaning
import StreamScope.Scope.Expanded

/-!
What the ids of a clause reach. A marked id reaches its own stream and asks no
store; an unmarked one reaches what descends from it through streams that are
neither excluded nor hidden. The sets of an expanded clause hold exactly the
streams that its ids reach.
-/

namespace StreamScope

open Outcome

/-- The marker is no star, so the wildcard is not marked. -/
theorem Conventions.isNoExpand_wildcard (k : Conventions) : k.isNoExpand .wildcard = false := by
  rw [← Bool.not_eq_true]
  intro hm
  have hstar : '*' = k.marker := by simpa [isNoExpand, Marker.isMarked, StreamId.wildcard] using hm
  exact k.marker_ne_star hstar.symm

theorem QueryClause.anyIds_eq {p : QueryClause} {inclusion : Inclusion}
    (h : p.any = some inclusion) : p.anyIds = inclusion.listed := by
  simp [anyIds, h]

namespace Expansion

variable {e : Expansion} {store : StoreId} {f : Forest} {excluded : List StreamId}
  {seed d : StreamId}

/-- A stream that an id stands for when the excluded ids are passed over. -/
def Reaches (e : Expansion) (store : StoreId) (excluded : List StreamId)
    (seed d : StreamId) : Prop :=
  ∃ ids, e.reach store excluded seed = .ok (some ids) ∧ d ∈ ids

theorem reaches_of_isNoExpand (h : e.conventions.isNoExpand seed = true) (d : StreamId) :
    e.Reaches store excluded seed d ↔ d = e.conventions.stripMarker seed := by
  simp [Reaches, reach, h]

theorem not_reaches_of_unregistered (h : e.conventions.isNoExpand seed = false)
    (hnone : e.registry.backend? store = none) (d : StreamId) :
    ¬ e.Reaches store excluded seed d := by
  simp [Reaches, reach, h, Registry.expand_of_unregistered hnone]

theorem reaches_iff_mem_expand (h : e.conventions.isNoExpand seed = false)
    (hf : e.registry.Holds store f) (d : StreamId) :
    e.Reaches store excluded seed d ↔
      ∃ ids, f.expand seed excluded e.state = some ids ∧ d ∈ ids := by
  simp [Reaches, reach, h, hf.expand_eq]

theorem mem_ids_of_reaches (h : e.conventions.isNoExpand seed = false)
    (hf : e.registry.Holds store f) (hreaches : e.Reaches store excluded seed d) : d ∈ f.ids := by
  rw [reaches_iff_mem_expand h hf, Forest.mem_expand_iff] at hreaches
  obtain ⟨_, -, hway⟩ := hreaches
  exact hway.mem_ids

/-- An unmarked id of a stream reaches what descends from the stream. -/
theorem reaches_iff_descends (h : e.conventions.isNoExpand seed = false)
    (hw : seed ≠ .wildcard) (hf : e.registry.Holds store f) (d : StreamId) :
    e.Reaches store excluded seed d ↔ f.Descends (f.Shows excluded e.state) seed d := by
  rw [reaches_iff_mem_expand h hf, Forest.mem_expand_iff]
  simp [hw]

theorem reaches_wildcard_iff (hf : e.registry.Holds store f) (d : StreamId) :
    e.Reaches store excluded .wildcard d ↔
      ∃ top ∈ f.roots, f.Descends (f.Shows excluded e.state) top d := by
  rw [reaches_iff_mem_expand e.conventions.isNoExpand_wildcard hf, Forest.mem_expand_iff]
  have hnone : ¬ f.Descends (f.Shows excluded e.state) .wildcard d :=
    fun h => Forest.wildcard_notMem_ids f h.top_mem_ids
  simp [or_and_right, exists_or, hnone]

/-- An unmarked id reaches nothing that is excluded. -/
theorem Reaches.notMem_excluded (h : e.conventions.isNoExpand seed = false)
    (hf : e.registry.Holds store f) (hreaches : e.Reaches store excluded seed d) :
    d ∉ excluded := by
  rw [reaches_iff_mem_expand h hf, Forest.mem_expand_iff] at hreaches
  obtain ⟨_, -, hway⟩ := hreaches
  exact hway.opened.1

/-- What is reached past more exclusions is reached past fewer. No stream is the wildcard, so this
may be among the fewer. -/
theorem Reaches.past {excluded' : List StreamId} (hr : e.registry.InMemory)
    (h : e.Reaches store excluded seed d)
    (hsub : ∀ id ∈ excluded', id ∈ excluded ∨ id = .wildcard) :
    e.Reaches store excluded' seed d := by
  cases hm : e.conventions.isNoExpand seed with
  | true =>
    rw [reaches_of_isNoExpand hm] at h ⊢
    exact h
  | false =>
    rcases hr.holds store with ⟨f, hf⟩ | hnone
    · rw [reaches_iff_mem_expand hm hf, Forest.mem_expand_iff] at h ⊢
      obtain ⟨top, htop, hway⟩ := h
      refine ⟨top, htop, hway.mono fun id hid => ⟨fun hin => ?_, hid.2⟩⟩
      rcases hsub id hin with hout | rfl
      · exact hid.1 hout
      · exact f.wildcard_notMem_ids (Forest.mem_ids_of_shows hid)
    · exact absurd h (not_reaches_of_unregistered hm hnone d)

theorem Reaches.mono {excluded' : List StreamId} (hr : e.registry.InMemory)
    (h : e.Reaches store excluded seed d) (hsub : ∀ id ∈ excluded', id ∈ excluded) :
    e.Reaches store excluded' seed d :=
  h.past hr fun id hid => .inl (hsub id hid)

/-- What the excluded ids of a clause stand for when its inclusions are expanded. -/
def pruned (e : Expansion) (p : QueryClause) : List StreamId :=
  p.not.map e.conventions.stripMarker

/-- What the included ids of a clause stand for when its exclusions are expanded. -/
def spared (e : Expansion) (p : QueryClause) : List StreamId :=
  p.anyIds.map e.conventions.stripMarker

/-- The streams in the sets of an expanded clause, told by the ids of the clause. -/
structure Expands (e : Expansion) (p : QueryClause) (x : ExpandedClause) : Prop where
  store : x.store = p.store
  any : Option.Rel (fun inclusion ids =>
    ∀ d, d ∈ ids ↔ ∃ seed ∈ anySeeds inclusion, e.Reaches p.store (e.pruned p) seed d) p.any x.any
  all : List.Forall₂ (fun seed ids =>
    ∀ d, d ∈ ids ↔ e.Reaches p.store (e.pruned p) seed d) p.all x.all
  forced : List.Forall₂ (fun seed ids =>
    ∀ d, d ∈ ids ↔ e.Reaches p.store (e.pruned p) seed d) p.forced x.forced
  not : ∀ d, d ∈ x.not ↔ ∃ seed ∈ p.not, e.Reaches p.store (e.spared p) seed d ∨
    e.reach p.store (e.spared p) seed = .ok none ∧ d = seed

/-- The ids from which the `any` of a clause is expanded. -/
def seeds (p : QueryClause) : List StreamId := (p.any.map anySeeds).getD []

theorem seeds_eq {p : QueryClause} {inclusion : Inclusion} (h : p.any = some inclusion) :
    seeds p = anySeeds inclusion := by
  simp [seeds, h]

theorem mem_seeds_iff (p : QueryClause) (seed : StreamId) :
    seed ∈ seeds p ↔ p.any = some .wildcard ∧ seed = .wildcard ∨ seed ∈ p.anyIds := by
  unfold seeds QueryClause.anyIds
  cases p.any with
  | none => simp
  | some inclusion => cases inclusion <;> simp [anySeeds, Inclusion.listed]

/-- A marked id is none that the wildcard stands for: the clause names it. -/
theorem mem_named_of_isNoExpand {p : QueryClause} (h : e.conventions.isNoExpand seed = true)
    (hseed : seed ∈ seeds p ++ p.all) : seed ∈ p.anyIds ++ p.all := by
  rw [List.mem_append, mem_seeds_iff] at hseed
  rcases hseed with (⟨-, rfl⟩ | hany) | hall
  · rw [e.conventions.isNoExpand_wildcard] at h
    cases h
  · exact List.mem_append_left _ hany
  · exact List.mem_append_right _ hall

/-- The expanded `any`, empty where there is none, holds what its ids reach. -/
theorem Expands.mem_any_iff {p : QueryClause} {x : ExpandedClause} (h : e.Expands p x)
    (d : StreamId) :
    d ∈ x.any.getD [] ↔ ∃ seed ∈ seeds p, e.Reaches p.store (e.pruned p) seed d := by
  have hany := h.any
  unfold seeds
  generalize p.any = inclusion at hany ⊢
  generalize x.any = any at hany ⊢
  cases hany with
  | none => simp
  | some hids => exact hids d

/-- A clause excludes what its excluded ids reach, and of the ids without a stream themselves. -/
theorem Expands.mem_not_iff_reached_or_literal {p : QueryClause} {x : ExpandedClause}
    (h : e.Expands p x) (d : StreamId) :
    d ∈ x.not ↔ (∃ seed ∈ p.not, e.Reaches p.store (e.spared p) seed d) ∨
      d ∈ p.not ∧ e.reach p.store (e.spared p) d = .ok none := by
  rw [h.not]
  simp only [and_or_left, exists_or]
  refine or_congr_right ⟨?_, fun hliteral => ⟨d, hliteral.1, hliteral.2, rfl⟩⟩
  rintro ⟨_, hseed, hnone, rfl⟩
  exact ⟨hseed, hnone⟩

/-- What a clause includes is reached from one of its included ids. -/
theorem Expands.exists_seed {p : QueryClause} {x : ExpandedClause} (h : e.Expands p x)
    {ids : List StreamId} (hids : ids ∈ x.inclusions) (hd : d ∈ ids) :
    ∃ seed ∈ seeds p ++ p.all, e.Reaches p.store (e.pruned p) seed d := by
  rcases (x.mem_inclusions_iff ids).mp hids with hany | hall
  · obtain ⟨seed, hseed, hreaches⟩ := (h.mem_any_iff d).mp (by simpa [hany] using hd)
    exact ⟨seed, List.mem_append_left _ hseed, hreaches⟩
  · obtain ⟨seed, hseed, hmem⟩ := exists_left_of_mem h.all hall
    exact ⟨seed, List.mem_append_right _ hseed, (hmem d).mp hd⟩

/-- What an included id reaches is in a set of the clause. -/
theorem Expands.exists_inclusion_of_reaches {p : QueryClause} {x : ExpandedClause}
    (h : e.Expands p x) (hseed : seed ∈ seeds p ++ p.all)
    (hreaches : e.Reaches p.store (e.pruned p) seed d) : ∃ ids ∈ x.inclusions, d ∈ ids := by
  rcases List.mem_append.mp hseed with hany | hall
  · have hd := (h.mem_any_iff d).mpr ⟨seed, hany, hreaches⟩
    cases hx : x.any with
    | none => simp [hx] at hd
    | some ids => exact ⟨ids, (x.mem_inclusions_iff ids).mpr (.inl hx), by simpa [hx] using hd⟩
  · obtain ⟨ids, hids, hmem⟩ := exists_right_of_mem h.all hall
    exact ⟨ids, (x.mem_inclusions_iff ids).mpr (.inr hids), (hmem d).mpr hreaches⟩

/-- A clause with `any` alone selects the records that carry a stream reached from it, and none
that is excluded. -/
theorem Expands.selects_any_iff {p : QueryClause} {x : ExpandedClause} (h : e.Expands p x)
    {inclusion : Inclusion} (hany : p.any = some inclusion) (hall : p.all = [])
    (hforced : p.forced = []) (record : List StreamId) :
    x.Selects record ↔
      (∃ d ∈ record, ∃ seed ∈ anySeeds inclusion, e.Reaches p.store (e.pruned p) seed d) ∧
        ∀ d ∈ record, d ∉ x.not := by
  have hsets := h.any
  rw [hany] at hsets
  generalize hxany : x.any = any at hsets
  cases hsets with
  | @some _ ids hids =>
    have hxall : x.all = [] := by simpa [hall] using h.all
    have hxforced : x.forced = [] := by simpa [hforced] using h.forced
    have hin : x.inclusions = [ids] := by simp [ExpandedClause.inclusions, hxany, hxall]
    rw [x.selects_single_iff hin hxforced]
    simp only [hids]

/-- So does a clause with a single `all` id alone. -/
theorem Expands.selects_all_iff {p : QueryClause} {x : ExpandedClause} (h : e.Expands p x)
    (hany : p.any = none) (hall : p.all = [seed]) (hforced : p.forced = [])
    (record : List StreamId) :
    x.Selects record ↔ (∃ d ∈ record, e.Reaches p.store (e.pruned p) seed d) ∧
      ∀ d ∈ record, d ∉ x.not := by
  have hxany : x.any = none := by
    have hsets := h.any
    rw [hany] at hsets
    generalize x.any = any at hsets ⊢
    cases hsets
    rfl
  have hxforced : x.forced = [] := by simpa [hforced] using h.forced
  have hsets := h.all
  rw [hall] at hsets
  generalize hxall : x.all = all at hsets
  cases hsets with
  | @cons _ ids _ _ hids hrest =>
    cases hrest
    have hin : x.inclusions = [ids] := by simp [ExpandedClause.inclusions, hxany, hxall]
    rw [x.selects_single_iff hin hxforced]
    simp only [hids]

theorem mem_union_iff (lists : List (List StreamId)) (d : StreamId) :
    d ∈ union lists ↔ ∃ ids ∈ lists, d ∈ ids := by
  simp [union, List.mem_eraseDups]

theorem mem_of_included {seeds ids missing : List StreamId}
    (h : e.included store excluded seeds = .ok (ids, missing)) (d : StreamId) :
    d ∈ ids ↔ ∃ seed ∈ seeds, e.Reaches store excluded seed d := by
  unfold included at h
  obtain ⟨reached, hreached, heq⟩ := bind_eq_ok_iff.mp h
  obtain ⟨rfl, -⟩ := Prod.mk.inj (Except.ok.inj heq)
  have hsteps := (mapM_eq_ok_iff _ _ _).mp hreached
  rw [mem_union_iff]
  clear heq hreached h
  induction hsteps with
  | nil => simp
  | @cons seed r seeds reached hr _ ih =>
    obtain ⟨streams, hreach, heq⟩ := bind_eq_ok_iff.mp hr
    obtain rfl := Except.ok.inj heq
    have hseed : e.Reaches store excluded seed d ↔ ∃ ids, streams = some ids ∧ d ∈ ids := by
      simp [Reaches, hreach]
    rw [List.exists_mem_cons_iff]
    refine Iff.trans ?_ (or_congr hseed.symm ih)
    cases streams with
    | none => simp
    | some ids =>
      have hcons : ((seed, some ids) :: reached).filterMap Prod.snd =
          ids :: reached.filterMap Prod.snd := rfl
      rw [hcons, List.exists_mem_cons_iff]
      simp

/-- What is reported of an included id: its full form, if it stands for no stream. -/
def reported (e : Expansion) (store : StoreId) (excluded : List StreamId) (seed : StreamId) :
    List StreamId :=
  match e.reach store excluded seed with
  | .ok none => [e.conventions.fullId store seed]
  | _ => []

theorem reported_of_isNoExpand (h : e.conventions.isNoExpand seed = true) :
    e.reported store excluded seed = [] := by
  simp [reported, reach, h]

theorem missing_of_included {seeds ids missing : List StreamId}
    (h : e.included store excluded seeds = .ok (ids, missing)) :
    missing = seeds.flatMap (e.reported store excluded) := by
  unfold included at h
  obtain ⟨reached, hreached, heq⟩ := bind_eq_ok_iff.mp h
  obtain ⟨-, rfl⟩ := Prod.mk.inj (Except.ok.inj heq)
  have hsteps := (mapM_eq_ok_iff _ _ _).mp hreached
  clear heq hreached h
  induction hsteps with
  | nil => rfl
  | @cons seed r seeds reached hr _ ih =>
    obtain ⟨streams, hreach, heq⟩ := bind_eq_ok_iff.mp hr
    obtain rfl := Except.ok.inj heq
    rw [List.flatMap_cons, ← ih]
    cases streams <;> simp [reported, hreach]

theorem missing_of_each {ids : List StreamId} {all : List (List StreamId × List StreamId)}
    (h : List.Forall₂ (fun seed found => e.included store excluded [seed] = .ok found) ids all) :
    all.flatMap Prod.snd = ids.flatMap (e.reported store excluded) := by
  induction h with
  | nil => rfl
  | cons hids _ ih =>
    rw [List.flatMap_cons, List.flatMap_cons, ih, missing_of_included hids]
    simp

theorem mem_of_excludedIds {spared seeds ids : List StreamId}
    (h : e.excludedIds store spared seeds = .ok ids) (d : StreamId) :
    d ∈ ids ↔ ∃ seed ∈ seeds, e.Reaches store spared seed d ∨
      e.reach store spared seed = .ok none ∧ d = seed := by
  unfold excludedIds at h
  obtain ⟨reached, hreached, heq⟩ := bind_eq_ok_iff.mp h
  obtain rfl := Except.ok.inj heq
  have hsteps := (mapM_eq_ok_iff _ _ _).mp hreached
  rw [mem_union_iff]
  clear heq hreached h
  induction hsteps with
  | nil => simp
  | @cons seed r seeds reached hr _ ih =>
    obtain ⟨streams, hreach, rfl⟩ := map_eq_ok_iff.mp hr
    rw [List.exists_mem_cons_iff, List.exists_mem_cons_iff]
    refine or_congr ?_ ih
    cases streams with
    | none => simp [Reaches, hreach]
    | some ids => simp [Reaches, hreach]

/-- The inclusion of a clause, expanded, if it has one. -/
def includedAny (e : Expansion) (p : QueryClause) :
    Except LookupError (Option (List StreamId × List StreamId)) :=
  match p.any with
  | none => .ok none
  | some inclusion => (e.included p.store (e.pruned p) (anySeeds inclusion)).map some

theorem clause_eq (e : Expansion) (p : QueryClause) :
    e.clause p = e.includedAny p >>= fun any =>
      (p.all.mapM fun seed => e.included p.store (e.pruned p) [seed]) >>= fun all =>
      e.forcedIds p.store (e.pruned p) p.forced >>= fun forced =>
      e.excludedIds p.store (e.spared p) p.not >>= fun not =>
      .ok ({
          store := p.store
          any := any.map Prod.fst
          all := all.map Prod.fst
          not
          forced },
        (any.toList ++ all).flatMap Prod.snd) := by
  unfold clause includedAny
  cases p.any <;> rfl

theorem includedAny_eq_ok {p : QueryClause} {any : Option (List StreamId × List StreamId)}
    (h : e.includedAny p = .ok any) : Option.Rel (fun inclusion found =>
      e.included p.store (e.pruned p) (anySeeds inclusion) = .ok found) p.any any := by
  unfold includedAny at h
  cases hp : p.any with
  | none =>
    rw [hp] at h
    obtain rfl := Except.ok.inj h
    exact .none
  | some inclusion =>
    rw [hp] at h
    obtain ⟨found, hfound, rfl⟩ := map_eq_ok_iff.mp h
    exact .some hfound

theorem expands_of_clause {p : QueryClause} {x : ExpandedClause} {missing : List StreamId}
    (h : e.clause p = .ok (x, missing)) : e.Expands p x := by
  rw [clause_eq] at h
  obtain ⟨any, hany, h⟩ := bind_eq_ok_iff.mp h
  obtain ⟨all, hall, h⟩ := bind_eq_ok_iff.mp h
  obtain ⟨forced, hforced, h⟩ := bind_eq_ok_iff.mp h
  obtain ⟨not, hnot, h⟩ := bind_eq_ok_iff.mp h
  obtain ⟨rfl, -⟩ := Prod.mk.inj (Except.ok.inj h)
  replace hany := includedAny_eq_ok hany
  refine ⟨rfl, ?_, ?_, ?_, ?_⟩
  · change Option.Rel _ p.any (any.map Prod.fst)
    generalize p.any = inclusion at hany ⊢
    cases hany with
    | none => exact .none
    | some hids => exact .some fun d => mem_of_included hids d
  · rw [List.forall₂_map_right_iff]
    refine ((mapM_eq_ok_iff _ _ _).mp hall).imp fun seed ids hids d => ?_
    simpa using mem_of_included hids d
  · refine ((mapM_eq_ok_iff _ _ _).mp hforced).imp fun seed ids hids d => ?_
    obtain ⟨streams, hreach, rfl⟩ := map_eq_ok_iff.mp hids
    cases streams with
    | none => simp [Reaches, hreach]
    | some ids => simp [Reaches, hreach]
  · exact fun d => mem_of_excludedIds hnot d

/-- What is missing in a clause is reported by its included ids, one by one. -/
theorem missing_of_clause {p : QueryClause} {x : ExpandedClause} {missing : List StreamId}
    (h : e.clause p = .ok (x, missing)) :
    missing = (seeds p ++ p.all).flatMap (e.reported p.store (e.pruned p)) := by
  rw [clause_eq] at h
  obtain ⟨any, hany, h⟩ := bind_eq_ok_iff.mp h
  obtain ⟨all, hall, h⟩ := bind_eq_ok_iff.mp h
  obtain ⟨_, -, h⟩ := bind_eq_ok_iff.mp h
  obtain ⟨_, -, h⟩ := bind_eq_ok_iff.mp h
  obtain ⟨-, rfl⟩ := Prod.mk.inj (Except.ok.inj h)
  rw [List.flatMap_append, List.flatMap_append]
  congr 1
  · replace hany := includedAny_eq_ok hany
    unfold seeds
    generalize p.any = inclusion at hany ⊢
    cases hany with
    | none => rfl
    | some hids => simpa using missing_of_included hids
  · exact missing_of_each ((mapM_eq_ok_iff _ _ _).mp hall)

end Expansion

/-- Expansion succeeds when every clause does and no included id is missing. -/
theorem expandClauses_eq_ok_iff (e : Expansion) (clauses : List QueryClause)
    (xs : List ExpandedClause) : expandClauses e clauses = .ok xs ↔
      List.Forall₂ (fun p x => e.clause p = .ok (x, [])) clauses xs := by
  rw [← mapM_silent_iff]
  unfold expandClauses
  rw [bind_eq_ok_iff]
  simp only [mapError_eq_ok_iff]
  refine exists_congr fun reported => and_congr_right fun _ => ?_
  have hnil : (reported.flatMap Prod.snd).eraseDups = [] ↔ reported.flatMap Prod.snd = [] := by
    cases reported.flatMap Prod.snd <;> simp [List.eraseDups_cons]
  rw [← hnil]
  cases (reported.flatMap Prod.snd).eraseDups with
  | nil => simp [pure, Except.pure]
  | cons id ids => simp [throw, throwThe, MonadExceptOf.throw]

theorem exists_clause_of_expandClauses {e : Expansion} {p : QueryClause}
    {xs : List ExpandedClause} (h : expandClauses e [p] = .ok xs) :
    ∃ x, xs = [x] ∧ e.clause p = .ok (x, []) := by
  have hsteps := (expandClauses_eq_ok_iff e [p] xs).mp h
  cases hsteps with
  | @cons _ x _ _ hx hrest =>
    cases hrest
    exact ⟨x, rfl, hx⟩

end StreamScope
