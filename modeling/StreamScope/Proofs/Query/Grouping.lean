import Mathlib.Data.List.Induction
import StreamScope.Proofs.Query.Grammar
import StreamScope.Proofs.Repetition
import StreamScope.Query.Parameter

/-!
Ids sent as a list. They become one clause for each store, in the order in which
the stores first appear, and the clause of a store lists its ids in their order.
No clause can then have ids of two stores, and what is left for validation to
find is the fault of an id, or a wildcard that has other ids of its store beside
it.
-/

namespace StreamScope

open Outcome

namespace Conventions

variable {k : Conventions} {flat : List String} {full : String} {store : StoreId}

/-- The stores of ids, in the order in which they first appear. -/
def storesOf (k : Conventions) (flat : List String) : List StoreId := (flat.map k.storeOf).eraseDups

/-- The ids of a store, in their order. -/
def idsIn (k : Conventions) (flat : List String) (store : StoreId) : List String :=
  flat.filter fun full => k.storeOf full = store

theorem nodup_storesOf (k : Conventions) (flat : List String) : (k.storesOf flat).Nodup :=
  nodup_eraseDups _

theorem mem_storesOf_iff : store ∈ k.storesOf flat ↔ ∃ full ∈ flat, k.storeOf full = store := by
  rw [storesOf, List.mem_eraseDups, List.mem_map]

theorem mem_idsIn_iff : full ∈ k.idsIn flat store ↔ full ∈ flat ∧ k.storeOf full = store := by
  simp [idsIn]

theorem storesOf_append_singleton (k : Conventions) (flat : List String) (full : String) :
    k.storesOf (flat ++ [full]) = if k.storeOf full ∈ k.storesOf flat then k.storesOf flat
      else k.storesOf flat ++ [k.storeOf full] := by
  unfold storesOf
  rw [List.map_append, List.map_singleton, List.eraseDups_append, List.removeAll]
  by_cases hseen : k.storeOf full ∈ flat.map k.storeOf
  · rw [if_pos (List.mem_eraseDups.mpr hseen), List.filter_cons_of_neg (by simpa using hseen)]
    exact List.append_nil _
  · rw [if_neg (mt List.mem_eraseDups.mp hseen), List.filter_cons_of_pos (by simpa using hseen)]
    rfl

theorem idsIn_append_singleton (k : Conventions) (flat : List String) (full : String)
    (store : StoreId) : k.idsIn (flat ++ [full]) store =
      if store = k.storeOf full then k.idsIn flat store ++ [full] else k.idsIn flat store := by
  unfold idsIn
  rw [List.filter_append]
  by_cases hstore : store = k.storeOf full
  · simp [hstore]
  · simp [hstore, Ne.symm hstore]

theorem idsIn_of_notMem_storesOf (h : store ∉ k.storesOf flat) : k.idsIn flat store = [] := by
  refine List.filter_eq_nil_iff.mpr fun full hfull hstore => h ?_
  exact mem_storesOf_iff.mpr ⟨full, hfull, of_decide_eq_true hstore⟩

end Conventions

namespace StreamsParameter

open Conventions

/-- An id goes behind the others of its store, and opens a group if there are none. -/
theorem addToGroup_eq (store : StoreId) (full : String) {stores : List StoreId}
    {members : StoreId → List String} (hdistinct : stores.Nodup)
    (hnew : store ∉ stores → members store = []) :
    addToGroup store full (stores.map fun s => (s, members s)) =
      (if store ∈ stores then stores else stores ++ [store]).map fun s =>
        (s, if s = store then members s ++ [full] else members s) := by
  induction stores with
  | nil => simp [addToGroup, hnew]
  | cons first stores ih =>
    obtain ⟨hfirst, hdistinct⟩ := List.nodup_cons.mp hdistinct
    rw [List.map_cons, addToGroup]
    by_cases hstore : first = store
    · subst hstore
      have hothers : stores.map (fun s => (s, members s)) = stores.map fun s =>
          (s, if s = first then members s ++ [full] else members s) := by
        refine List.map_congr_left fun s hs => ?_
        have hother : s ≠ first := fun hsame => hfirst (hsame ▸ hs)
        rw [if_neg hother]
      simp [hothers]
    · rw [if_neg hstore, ih hdistinct fun hout => hnew (by simp [Ne.symm hstore, hout])]
      by_cases hin : store ∈ stores
      · simp [hin, hstore]
      · simp [hin, hstore, Ne.symm hstore]

theorem groupByStore_eq (k : Conventions) (flat : List String) :
    groupByStore k flat = (k.storesOf flat).map fun store => .ofIds (k.idsIn flat store) := by
  have hgroups : flat.foldl (fun groups id => addToGroup (k.storeOf id) id groups) [] =
      (k.storesOf flat).map fun store => (store, k.idsIn flat store) := by
    induction flat using List.reverseRecOn with
    | nil => rfl
    | append_singleton flat full ih =>
      rw [List.foldl_append, ih, List.foldl_cons, List.foldl_nil,
        addToGroup_eq _ _ (nodup_storesOf k flat) idsIn_of_notMem_storesOf,
        storesOf_append_singleton]
      simp only [idsIn_append_singleton]
  rw [groupByStore, hgroups, List.map_map]
  rfl

theorem sortItems_strings (flat : List String) : sortItems (flat.map .string) = .ok (flat, []) := by
  induction flat with
  | nil => rfl
  | cons full flat ih =>
    rw [List.map_cons, sortItems, ih]
    rfl

theorem parse_ofStrings {flat : List String} (h : flat ≠ []) :
    parse (some (.ofStrings flat)) = .ok (.ids flat) := by
  rw [Json.ofStrings, parse, ofValue, ofItems, sortItems_strings]
  · cases flat with
    | nil => exact absurd rfl h
    | cons full flat => rfl
  · simp

/-- Ids are taken as they are, unless the request may spell them in the legacy way. -/
theorem map_currentSpelling_false (k : Conventions) (flat : List String) :
    flat.map (currentSpelling k false) = flat := by
  refine List.map_id'' (fun full => ?_) flat
  unfold currentSpelling
  split <;> simp

theorem normalize_ofStrings (k : Conventions) (defaults : List RawClause) {flat : List String}
    (h : flat ≠ []) : normalize k defaults false (some (.ofStrings flat)) =
      .ok ((k.storesOf flat).map fun store => .ofIds (k.idsIn flat store)) := by
  have hsame := map_currentSpelling_false k flat
  rw [normalize, parse_ofStrings h, ← groupByStore_eq]
  exact congrArg (fun ids => Except.ok (groupByStore k ids)) hsame

end StreamsParameter

namespace Validation

variable {k : Conventions} {α β : Type} {clause c : RawClause} {part : Combinator}
  {bound bound' : Binding} {store : StoreId} {x : Except RequestFault α}

/-- The computation does not fail on ids of two stores. -/
def Unmixed (x : Except RequestFault α) : Prop :=
  ∀ sent first second, x ≠ .error (.mixedStores sent first second)

theorem Unmixed.ok (a : α) : Unmixed (.ok a) := by simp [Unmixed]

theorem Unmixed.bind {f : α → Except RequestFault β} (h : Unmixed x)
    (hf : ∀ a, x = .ok a → Unmixed (f a)) : Unmixed (x >>= f) := by
  intro sent first second herror
  rcases bind_eq_error_iff.mp herror with hx | ⟨a, ha, hnext⟩
  · exact h sent first second hx
  · exact hf a ha sent first second hnext

theorem Unmixed.mapM {f : β → Except RequestFault α} {ys : List β} (h : ∀ y ∈ ys, Unmixed (f y)) :
    Unmixed (ys.mapM f) := by
  intro sent first second herror
  obtain ⟨y, hy, hstep⟩ := exists_of_mapM_eq_error herror
  exact h y hy sent first second hstep

/-- A clause that is bound is bound to the store. -/
def Within (store : StoreId) (bound : Binding) : Prop := ∀ b ∈ bound, b.1 = store

theorem BindsTo.within {fulls : List String} (h : BindsTo k bound fulls bound')
    (hbound : Within store bound) (hfulls : ∀ full ∈ fulls, k.storeOf full = store) :
    Within store bound' := by
  obtain ⟨rfl, -⟩ := h
  intro b hb
  rcases Option.or_eq_some_iff.mp hb with hold | ⟨-, hnew⟩
  · exact hbound b hold
  · obtain ⟨full, hfull, rfl⟩ := Option.map_eq_some_iff.mp hnew
    exact hfulls full (List.mem_of_head? hfull)

theorem bindStore_unmixed (full : String) (hbound : Within store bound) :
    Unmixed (bindStore clause full store bound) := by
  cases bound with
  | none => exact .ok _
  | some b => simp [bindStore, Unmixed, hbound b rfl]

theorem checkId_unmixed (alone : Bool) (full : String) (id : StreamId) :
    Unmixed (checkId k clause part alone full id) := by
  unfold checkId
  split
  · split
    · simp [Unmixed]
    · split <;> simp [Unmixed]
  · split <;> simp [Unmixed]

theorem checkItems_unmixed (alone : Bool) {items : List Json} (hbound : Within store bound)
    (hitems : ∀ full ∈ items.filterMap Json.asString?, k.storeOf full = store) :
    Unmixed (checkItems k clause part alone bound items) := by
  induction items generalizing bound with
  | nil => exact .ok _
  | cons item items ih =>
    cases item with
    | string full =>
      obtain ⟨hfull, hrest⟩ := List.forall_mem_cons.mp hitems
      rw [checkItems_cons, hfull]
      refine (bindStore_unmixed full hbound).bind fun mid hmid => ?_
      have hmid' : Within store mid :=
        ((bindStore_eq_ok_iff full).mp (hfull ▸ hmid)).within hbound (by simpa using hfull)
      refine (checkId_unmixed alone full _).bind fun _ _ => ?_
      exact (ih hmid' hrest).bind fun _ _ => .ok _
    | _ => simp [checkItems, Unmixed]

theorem checkPart_unmixed {value : Json} (hvalue : c.get? part = some value)
    (hbound : Within store bound) (hlisted : ∀ full ∈ c.listed part, k.storeOf full = store) :
    Unmixed (checkPart k c part bound value) := by
  rw [RawClause.listed, hvalue] at hlisted
  cases value with
  | array items => exact checkItems_unmixed _ hbound hlisted
  | _ => simp [checkPart, Unmixed]

theorem checkOptionalPart_unmixed (hbound : Within store bound)
    (hlisted : ∀ full ∈ c.listed part, k.storeOf full = store) :
    Unmixed (checkOptionalPart k c part bound) := by
  unfold checkOptionalPart
  cases hvalue : c.get? part with
  | none => exact .ok _
  | some value => exact checkPart_unmixed hvalue hbound hlisted

theorem checkAny_unmixed (hlisted : ∀ full ∈ c.listed .any, k.storeOf full = store) :
    Unmixed (checkAny k c) := by
  unfold checkAny
  split
  case h_1 => exact .ok _
  case h_2 => exact .ok _
  case h_3 value _ hvalue =>
    have hnone : Within store none := by simp [Within]
    exact (checkPart_unmixed hvalue hnone hlisted).bind fun _ _ => .ok _

theorem checkProperties_unmixed (c : RawClause) : Unmixed (checkProperties c) := by
  unfold checkProperties
  split
  · simp [Unmixed]
  · split <;> simp [Unmixed]

/-- Where all ids lie in one store, no two stores are found. -/
theorem validateClause_unmixed (h : ∀ full ∈ c.ids, k.storeOf full = store) :
    Unmixed (validateClause k c) := by
  simp only [RawClause.ids, List.mem_append] at h
  have hany : ∀ full ∈ c.listed .any, k.storeOf full = store := fun full hfull =>
    h full (.inl (.inl hfull))
  have hall : ∀ full ∈ c.listed .all, k.storeOf full = store := fun full hfull =>
    h full (.inl (.inr hfull))
  have hnone : Within store none := by simp [Within]
  rw [validateClause_eq]
  refine (checkProperties_unmixed c).bind fun _ _ => ?_
  refine (checkAny_unmixed hany).bind fun any hchecked => ?_
  have hfirst : Within store any.2 := (checkAny_eq_ok_iff.mp hchecked).2.2.within hnone hany
  refine (checkOptionalPart_unmixed hfirst hall).bind fun all hchecked => ?_
  have hsecond : Within store all.2 :=
    (checkOptionalPart_eq_ok_iff.mp hchecked).2.2.within hfirst hall
  refine (checkOptionalPart_unmixed hsecond fun full hfull => h full (.inr hfull)).bind
    fun not _ => ?_
  split
  · simp [Unmixed]
  · split <;> simp [Unmixed]

end Validation

namespace RawClause

variable {k : Conventions} {fulls : List String}

/-- Ids of one store make a clause if each is plain, or is the wildcard and the only one. -/
theorem grammatical_ofIds_iff (hne : fulls ≠ [])
    (hstore : ∀ full ∈ fulls, ∀ full' ∈ fulls, k.storeOf full = k.storeOf full') :
    (ofIds fulls).Grammatical k ↔ ∀ full ∈ fulls,
      (k.split full).2.Plain k.marker ∨ (k.split full).2 = .wildcard ∧ fulls = [full] := by
  constructor
  · intro h full hfull
    simpa [Admits, listed_ofIds] using h.admitted .any full (by simpa [listed_ofIds] using hfull)
  · intro h
    exact {
      keys := by simp [ofIds, Combinator.keys]
      included := .inl rfl
      lists := fun part value hvalue => by
        cases part with
        | any => exact .inl ⟨fulls, (Option.some.inj hvalue).symm⟩
        | all => cases hvalue
        | not => cases hvalue
      oneStore := by simpa [ids_ofIds] using hstore
      admitted := fun part full hfull => by
        cases part with
        | any =>
          rw [listed_ofIds, if_pos rfl] at hfull
          simpa [Admits, listed_ofIds] using h full hfull
        | all => cases hfull
        | not => cases hfull
      wildcardAlone := fun _ => rfl
      named := .inr (.inl (by simpa [listed_ofIds] using hne)) }

end RawClause

namespace Conventions

variable {k : Conventions} {flat : List String} {store : StoreId}

theorem idsIn_ne_nil (h : store ∈ k.storesOf flat) : k.idsIn flat store ≠ [] := by
  obtain ⟨full, hfull, hstore⟩ := mem_storesOf_iff.mp h
  exact List.ne_nil_of_mem (mem_idsIn_iff.mpr ⟨hfull, hstore⟩)

theorem grammatical_idsIn_iff (h : store ∈ k.storesOf flat) :
    (RawClause.ofIds (k.idsIn flat store)).Grammatical k ↔
      ∀ full ∈ flat, k.storeOf full = store → (k.split full).2.Plain k.marker ∨
        (k.split full).2 = .wildcard ∧ k.idsIn flat store = [full] := by
  have hstore : ∀ full ∈ k.idsIn flat store, ∀ full' ∈ k.idsIn flat store,
      k.storeOf full = k.storeOf full' := fun full hfull full' hfull' =>
    (mem_idsIn_iff.mp hfull).2.trans (mem_idsIn_iff.mp hfull').2.symm
  rw [RawClause.grammatical_ofIds_iff (idsIn_ne_nil h) hstore]
  simp only [mem_idsIn_iff, and_imp]

/-- The valid clause of a group lies in the store of the group. -/
theorem store_bound_idsIn (h : store ∈ k.storesOf flat)
    (hgrammatical : (RawClause.ofIds (k.idsIn flat store)).Grammatical k) :
    ((RawClause.ofIds (k.idsIn flat store)).bound k).store = store := by
  obtain ⟨full, hfull⟩ := List.exists_mem_of_ne_nil _ (idsIn_ne_nil h)
  have hbinds := (hgrammatical.binds_iff _).mpr rfl
  rw [hbinds.common full (by rwa [RawClause.ids_ofIds]), (mem_idsIn_iff.mp hfull).2]

end Conventions

theorem exists_validate_alone_iff (k : Conventions) (full : String) :
    (∃ p, validate k [.ofIds [full]] = .ok [p]) ↔
      (k.split full).2.Plain k.marker ∨ (k.split full).2 = .wildcard := by
  have halone : (RawClause.ofIds [full]).Grammatical k ↔
      (k.split full).2.Plain k.marker ∨ (k.split full).2 = .wildcard := by
    rw [RawClause.grammatical_ofIds_iff (by simp) (by simp)]
    simp
  simp [validate_eq_ok_iff, halone]

section

open Conventions

/-- Ids that are sent as a list are taken as one clause for each of their stores. Validation never
finds two stores in one; it accepts them if it accepts each id by itself and a wildcard is the only
id of its store, and the valid clauses lie in the stores in the same order. -/
theorem ids_grouped_by_store (k : Conventions) (defaults : List RawClause) {flat : List String}
    (h : flat ≠ []) : ∃ clauses,
      normalize k defaults false (some (.ofStrings flat)) = .ok clauses ∧
      clauses = (k.storesOf flat).map (fun store => .ofIds (k.idsIn flat store)) ∧
      (∀ sent first second, validate k clauses ≠ .error (.mixedStores sent first second)) ∧
      ((∃ ps, validate k clauses = .ok ps) ↔
        (∀ full ∈ flat, ∃ p, validate k [.ofIds [full]] = .ok [p]) ∧
        ∀ full ∈ flat, (k.split full).2 = .wildcard → k.idsIn flat (k.storeOf full) = [full]) ∧
      ∀ ps, validate k clauses = .ok ps →
        ps.map QueryClause.store = k.storesOf flat ∧ (ps.map QueryClause.store).Nodup := by
  refine ⟨_, StreamsParameter.normalize_ofStrings k defaults h, rfl, ?_, ?_, fun ps hps => ?_⟩
  · refine Validation.Unmixed.mapM fun c hc => ?_
    obtain ⟨store, -, rfl⟩ := List.mem_map.mp hc
    have hids : ∀ full ∈ (RawClause.ofIds (k.idsIn flat store)).ids, k.storeOf full = store := by
      intro full hfull
      rw [RawClause.ids_ofIds] at hfull
      exact (mem_idsIn_iff.mp hfull).2
    exact Validation.validateClause_unmixed hids
  · simp only [exists_validate_alone_iff]
    simp only [validate_eq_ok_iff, exists_and_left, exists_eq, and_true, List.forall_mem_map]
    constructor
    · intro hall
      have hown : ∀ full ∈ flat, (k.split full).2.Plain k.marker ∨
          (k.split full).2 = .wildcard ∧ k.idsIn flat (k.storeOf full) = [full] := by
        intro full hfull
        have hstore : k.storeOf full ∈ k.storesOf flat := mem_storesOf_iff.mpr ⟨full, hfull, rfl⟩
        exact (grammatical_idsIn_iff hstore).mp (hall _ hstore) full hfull rfl
      refine ⟨fun full hfull => (hown full hfull).imp id And.left, fun full hfull hwild => ?_⟩
      exact ((hown full hfull).resolve_left fun hplain => hplain.ne_wildcard hwild).2
    · rintro ⟨hvalid, halone⟩ store hstore
      rw [grammatical_idsIn_iff hstore]
      rintro full hfull rfl
      exact (hvalid full hfull).imp id fun hwild => ⟨hwild, halone full hfull hwild⟩
  · obtain ⟨hgrammatical, rfl⟩ := (validate_eq_ok_iff _ _ _).mp hps
    have hstores : (((k.storesOf flat).map fun store => RawClause.ofIds (k.idsIn flat store)).map
        (RawClause.bound k)).map QueryClause.store = k.storesOf flat := by
      rw [List.map_map, List.map_map]
      refine (List.map_congr_left fun store hstore => ?_).trans (List.map_id _)
      exact store_bound_idsIn hstore (hgrammatical _ (List.mem_map_of_mem hstore))
    rw [hstores]
    exact ⟨rfl, nodup_storesOf k flat⟩

/-- Two ids of one store with an id of another between them. -/
def scatteredIds : List String := ["diary", ":dummy:notes", "work"]

theorem ids_grouped_by_store_scattered : scatteredIds ≠ [] ∧ ∃ clauses,
    normalize .standard [] false (some (.ofStrings scatteredIds)) = .ok clauses ∧
    clauses = [.ofIds ["diary", "work"], .ofIds [":dummy:notes"]] ∧
    ∃ ps, validate .standard clauses = .ok ps ∧
      ps.map QueryClause.store = [⟨"local"⟩, ⟨"dummy"⟩] := by
  have hne : scatteredIds ≠ [] := by decide
  have hstores : standard.storesOf scatteredIds = [⟨"local"⟩, ⟨"dummy"⟩] := by decide +kernel
  have hlocal : standard.idsIn scatteredIds ⟨"local"⟩ = ["diary", "work"] := by decide +kernel
  have hdummy : standard.idsIn scatteredIds ⟨"dummy"⟩ = [":dummy:notes"] := by decide +kernel
  have hvalid : ∀ full ∈ scatteredIds, ∃ p, validate .standard [.ofIds [full]] = .ok [p] :=
    List.forall_mem_cons.mpr ⟨⟨.ofIds ⟨"local"⟩ [⟨"diary"⟩], rfl⟩, List.forall_mem_cons.mpr
      ⟨⟨.ofIds ⟨"dummy"⟩ [⟨"notes"⟩], rfl⟩, List.forall_mem_singleton.mpr
        ⟨.ofIds ⟨"local"⟩ [⟨"work"⟩], rfl⟩⟩⟩
  have halone : ∀ full ∈ scatteredIds, (standard.split full).2 = .wildcard →
      standard.idsIn scatteredIds (standard.storeOf full) = [full] := by decide +kernel
  obtain ⟨clauses, hclauses, hgroups, -, haccepts, hlie⟩ :=
    ids_grouped_by_store .standard [] hne
  obtain ⟨ps, hps⟩ := haccepts.mpr ⟨hvalid, halone⟩
  refine ⟨hne, clauses, hclauses, ?_, ps, hps, (hlie ps hps).1.trans hstores⟩
  rw [hgroups, hstores, List.map_cons, List.map_singleton, hlocal, hdummy]

end

end StreamScope
