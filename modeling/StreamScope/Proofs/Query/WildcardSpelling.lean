import StreamScope.Proofs.Query.Naming

/-!
Two spellings of the wildcard. As the only id of a list `*` lies in the default
store and binds its clause there; as a text of its own it binds the clause to no
store, and the exclusions choose one. So a clause that excludes streams of
another store is refused with the list and accepted with the text, and it is then
that store which the text includes. Apart from these the spellings agree.
-/

namespace StreamScope

open Outcome

namespace RawClause

variable {k : Conventions} {any : Json} {items : List Json} {fulls : List String} {store : StoreId}

/-- A clause that includes something and excludes what the items name. -/
def excluding (any : Json) (items : List Json) : RawClause :=
  ⟨[(Combinator.any.key, any), (Combinator.not.key, .array items)]⟩

/-- The wildcard as a text, with exclusions. -/
def textWildcard (items : List Json) : RawClause := excluding (.string "*") items

/-- The wildcard as a list, with exclusions. -/
def listWildcard (items : List Json) : RawClause := excluding (.ofStrings ["*"]) items

/-- The items are ids, and these are plain and lie in the store. -/
def PlainIn (k : Conventions) (store : StoreId) (items : List Json) (fulls : List String) : Prop :=
  items = fulls.map .string ∧
    ∀ full ∈ fulls, k.storeOf full = store ∧ (k.split full).2.Plain k.marker

/-- All that can be read in the store but the excluded streams. -/
def allBut (k : Conventions) (store : StoreId) (fulls : List String) : QueryClause :=
  { store, any := some .wildcard, not := fulls.map fun full => (k.split full).2 }

theorem listed_excluded (any : Json) (fulls : List String) :
    (excluding any (fulls.map .string)).listed .not = fulls :=
  listed_of_get?_eq_ofStrings rfl

theorem ids_excluding (any : Json) (fulls : List String) :
    (excluding any (fulls.map .string)).ids =
      (excluding any (fulls.map .string)).listed .any ++ fulls := by
  have hall : (excluding any (fulls.map .string)).listed .all = [] := listed_of_get?_eq_none rfl
  rw [ids, listed_excluded, hall, List.append_nil]

section

variable (hany : (∃ fulls, any = .ofStrings fulls) ∨ any = .string "*")
  (hwild : (excluding any items).isWildcard k = true)
  (hadmitted : ∀ full ∈ (excluding any items).listed .any, (excluding any items).Admits k .any full)
include hany hwild hadmitted

/-- Beside a wildcard a clause excludes plain ids, which lie in the store of the included ones. -/
theorem grammatical_excluding_iff :
    (excluding any items).Grammatical k ↔ ∃ store fulls, PlainIn k store items fulls ∧
      ∀ full ∈ (excluding any items).listed .any, k.storeOf full = store := by
  constructor
  · intro h
    obtain ⟨fulls, hfulls⟩ := (h.lists .not (.array items) rfl).resolve_right fun hpart => by
      cases hpart.1
    obtain rfl : items = fulls.map .string := Json.array.inj hfulls
    have hbinds := (h.binds_iff _).mpr rfl
    have hstore : ∀ full ∈ (excluding any (fulls.map .string)).listed .any ++ fulls,
        k.storeOf full = ((excluding any (fulls.map .string)).bound k).store :=
      fun full hfull => (hbinds.common full (by rwa [ids_excluding])).symm
    have hplain : ∀ full ∈ fulls, (k.split full).2.Plain k.marker := fun full hfull =>
      (h.admitted .not full (by rwa [listed_excluded])).resolve_right fun hout => by
        cases hout.2.1
    exact ⟨_, fulls, ⟨rfl, fun full hfull =>
      ⟨hstore full (List.mem_append_right _ hfull), hplain full hfull⟩⟩,
        fun full hfull => hstore full (List.mem_append_left _ hfull)⟩
  · rintro ⟨store, fulls, ⟨rfl, hplain⟩, hnamed⟩
    have hstore : ∀ full ∈ (excluding any (fulls.map .string)).ids, k.storeOf full = store := by
      intro full hfull
      rw [ids_excluding] at hfull
      exact (List.mem_append.mp hfull).elim (hnamed full) fun hout => (hplain full hout).1
    exact {
      keys := by simp [excluding, Combinator.keys]
      included := .inl rfl
      lists := fun part value hvalue => by
        cases part with
        | any =>
          obtain rfl := Option.some.inj hvalue
          exact hany.imp id fun hstar => ⟨rfl, hstar⟩
        | all => cases hvalue
        | not => exact .inl ⟨fulls, (Option.some.inj hvalue).symm⟩
      oneStore := fun full hfull full' hfull' =>
        (hstore full hfull).trans (hstore full' hfull').symm
      admitted := fun part full hfull => by
        cases part with
        | any => exact hadmitted full hfull
        | all => cases hfull
        | not =>
          rw [listed_excluded] at hfull
          exact .inl (hplain full hfull).2
      wildcardAlone := fun _ => rfl
      named := .inl hwild }

theorem bound_excluding (hplain : PlainIn k store items fulls)
    (hnamed : ∀ full ∈ (excluding any items).listed .any, k.storeOf full = store)
    (hhome : (excluding any items).listed .any ++ fulls = [] → store = k.defaultStore) :
    (excluding any items).bound k = allBut k store fulls := by
  have hgrammatical : (excluding any items).Grammatical k :=
    (grammatical_excluding_iff hany hwild hadmitted).mpr ⟨store, fulls, hplain, hnamed⟩
  obtain ⟨rfl, hin⟩ := hplain
  symm
  refine (hgrammatical.binds_iff _).mp
    ⟨fun full hfull => ?_, fun hnone => ?_, ?_, rfl, ?_, rfl⟩
  · rw [ids_excluding] at hfull
    exact ((List.mem_append.mp hfull).elim (hnamed full) fun hout => (hin full hout).1).symm
  · exact hhome (by rwa [← ids_excluding])
  · exact (inclusion_eq_wildcard_iff.mpr hwild).symm
  · rw [localIds, listed_excluded]
    rfl

/-- If it is accepted it is the wildcard of this store, or of the default one if no id is named. -/
theorem validate_excluding_iff (ps : List QueryClause) :
    validate k [excluding any items] = .ok ps ↔ ∃ store fulls, PlainIn k store items fulls ∧
      (∀ full ∈ (excluding any items).listed .any, k.storeOf full = store) ∧
      ((excluding any items).listed .any ++ fulls = [] → store = k.defaultStore) ∧
      ps = [allBut k store fulls] := by
  rw [validate_eq_ok_iff, List.forall_mem_singleton, List.map_singleton,
    grammatical_excluding_iff hany hwild hadmitted]
  constructor
  · rintro ⟨⟨store, fulls, hplain, hnamed⟩, rfl⟩
    by_cases hnone : (excluding any items).listed .any ++ fulls = []
    · -- no id binds the clause, so any store will do
      obtain ⟨hlisted, rfl⟩ := List.append_eq_nil_iff.mp hnone
      have hplain : PlainIn k k.defaultStore items [] := ⟨hplain.1, by simp⟩
      have hnamed : ∀ full ∈ (excluding any items).listed .any,
          k.storeOf full = k.defaultStore := by simp [hlisted]
      exact ⟨_, [], hplain, hnamed, fun _ => rfl,
        by rw [bound_excluding hany hwild hadmitted hplain hnamed fun _ => rfl]⟩
    · have hhome : (excluding any items).listed .any ++ fulls = [] → store = k.defaultStore :=
        fun h => absurd h hnone
      exact ⟨store, fulls, hplain, hnamed, hhome,
        by rw [bound_excluding hany hwild hadmitted hplain hnamed hhome]⟩
  · rintro ⟨store, fulls, hplain, hnamed, hhome, rfl⟩
    exact ⟨⟨store, fulls, hplain, hnamed⟩,
      by rw [bound_excluding hany hwild hadmitted hplain hnamed hhome]⟩

end

/-- The text is the wildcard of the store of the excluded ids. -/
theorem validate_textWildcard_iff (k : Conventions) (items : List Json) (ps : List QueryClause) :
    validate k [textWildcard items] = .ok ps ↔ ∃ store fulls, PlainIn k store items fulls ∧
      (fulls = [] → store = k.defaultStore) ∧ ps = [allBut k store fulls] := by
  have hlisted : (excluding (.string "*") items).listed .any = [] := rfl
  rw [textWildcard, validate_excluding_iff (.inr rfl) rfl (by simp [hlisted])]
  simp [hlisted]

theorem isWildcard_listWildcard (k : Conventions) (items : List Json) :
    (listWildcard items).isWildcard k = true := by
  have hlisted : (listWildcard items).listed .any = ["*"] := rfl
  exact isWildcard_of_localIds (by simp [localIds, hlisted, k.split_star])

theorem admits_listWildcard (k : Conventions) (items : List Json) :
    ∀ full ∈ (listWildcard items).listed .any, (listWildcard items).Admits k .any full := by
  have hlisted : (listWildcard items).listed .any = ["*"] := rfl
  simp [Admits, hlisted, k.split_star]

/-- The list is the wildcard of the default store. -/
theorem validate_listWildcard_iff (k : Conventions) (items : List Json) (ps : List QueryClause) :
    validate k [listWildcard items] = .ok ps ↔
      ∃ fulls, PlainIn k k.defaultStore items fulls ∧ ps = [allBut k k.defaultStore fulls] := by
  have hstore : k.storeOf "*" = k.defaultStore := by rw [Conventions.storeOf, k.split_star]
  rw [listWildcard, validate_excluding_iff (.inl ⟨["*"], rfl⟩) (isWildcard_listWildcard k items)
    (admits_listWildcard k items)]
  have hlisted : (excluding (.ofStrings ["*"]) items).listed .any = ["*"] := rfl
  simp only [hlisted, List.mem_singleton, forall_eq, hstore]
  constructor
  · rintro ⟨_, fulls, hplain, rfl, -, rfl⟩
    exact ⟨fulls, hplain, rfl⟩
  · rintro ⟨fulls, hplain, rfl⟩
    exact ⟨_, fulls, hplain, rfl, by simp, rfl⟩

/-- The list has bound its clause before an excluded id is read. -/
theorem validate_listWildcard_of_foreign {first : String}
    (hfirst : k.storeOf first ≠ k.defaultStore) (items : List Json) :
    validate k [listWildcard (.string first :: items)] =
      .error (.mixedStores (listWildcard (.string first :: items)) "*" first) := by
  have hany : Validation.checkAny k (listWildcard (.string first :: items)) =
      .ok (some .wildcard, some (k.defaultStore, "*")) := by
    have hbinds : Validation.BindsTo k none ["*"] (some (k.defaultStore, "*")) :=
      (Validation.bindsTo_none_iff _).mpr
        ⟨by simp [Conventions.storeOf, k.split_star], by simp⟩
    exact Validation.checkAny_eq_ok_iff.mpr
      ⟨⟨fun value hvalue => .inl ⟨["*"], (Option.some.inj hvalue).symm⟩, admits_listWildcard k _⟩,
        (inclusion_eq_wildcard_iff.mpr (isWildcard_listWildcard k _)).symm, hbinds⟩
  have hnot : Validation.checkOptionalPart k (listWildcard (.string first :: items)) .not
      (some (k.defaultStore, "*")) =
        .error (.mixedStores (listWildcard (.string first :: items)) "*" first) := by
    have hbind : Validation.bindStore (listWildcard (.string first :: items)) first
        (k.storeOf first) (some (k.defaultStore, "*")) =
          .error (.mixedStores (listWildcard (.string first :: items)) "*" first) :=
      if_neg hfirst.symm
    change Validation.checkItems k _ .not _ _ (.string first :: items) = _
    rw [Validation.checkItems_cons, hbind]
    rfl
  have hclause : validateClause k (listWildcard (.string first :: items)) =
      .error (.mixedStores (listWildcard (.string first :: items)) "*" first) := by
    rw [validateClause_eq]
    refine bind_eq_error_iff.mpr (.inr ⟨(), rfl, bind_eq_error_iff.mpr (.inr ⟨_, hany, ?_⟩)⟩)
    exact bind_eq_error_iff.mpr (.inr ⟨_, rfl, bind_eq_error_iff.mpr (.inl hnot)⟩)
  rw [validate, List.mapM_cons, hclause]
  rfl

/-- What is accepted with the list is accepted with the text, as the same clause. The spellings
agree unless plain ids of one other store are excluded: then the text is the wildcard of that store,
and the list is refused. -/
theorem wildcard_spellings_agree_iff (k : Conventions) (items : List Json) :
    (∀ ps, validate k [listWildcard items] = .ok ps → validate k [textWildcard items] = .ok ps) ∧
    ((∀ ps, validate k [textWildcard items] = .ok ps ↔ validate k [listWildcard items] = .ok ps) ↔
      ¬ ∃ store first rest, PlainIn k store items (first :: rest) ∧ store ≠ k.defaultStore) ∧
    ∀ store first rest, PlainIn k store items (first :: rest) → store ≠ k.defaultStore →
      validate k [textWildcard items] = .ok [allBut k store (first :: rest)] ∧
        validate k [listWildcard items] =
          .error (.mixedStores (listWildcard items) "*" first) := by
  have hbelow : ∀ ps, validate k [listWildcard items] = .ok ps →
      validate k [textWildcard items] = .ok ps := by
    intro ps hps
    obtain ⟨fulls, hplain, rfl⟩ := (validate_listWildcard_iff k items ps).mp hps
    exact (validate_textWildcard_iff k items _).mpr ⟨_, fulls, hplain, fun _ => rfl, rfl⟩
  have hforeign : ∀ store first rest, PlainIn k store items (first :: rest) →
      store ≠ k.defaultStore →
      validate k [textWildcard items] = .ok [allBut k store (first :: rest)] ∧
        validate k [listWildcard items] =
          .error (.mixedStores (listWildcard items) "*" first) := by
    intro store first rest hplain hstore
    refine ⟨(validate_textWildcard_iff k items _).mpr ⟨store, _, hplain, by simp, rfl⟩, ?_⟩
    obtain ⟨rfl, hin⟩ := hplain
    rw [← (hin first List.mem_cons_self).1] at hstore
    exact validate_listWildcard_of_foreign hstore _
  refine ⟨hbelow, ⟨?_, fun hnone ps => ⟨fun hps => ?_, hbelow ps⟩⟩, hforeign⟩
  · rintro hagree ⟨store, first, rest, hplain, hstore⟩
    obtain ⟨htext, hlist⟩ := hforeign store first rest hplain hstore
    cases hlist.symm.trans ((hagree _).mp htext)
  · obtain ⟨store, fulls, hplain, hhome, rfl⟩ := (validate_textWildcard_iff k items ps).mp hps
    have hdefault : store = k.defaultStore := by
      cases fulls with
      | nil => exact hhome rfl
      | cons first rest =>
        by_contra hstore
        exact hnone ⟨store, first, rest, hplain, hstore⟩
    subst hdefault
    exact (validate_listWildcard_iff k items _).mpr ⟨fulls, hplain, rfl⟩

/-- With the text a stream of another store can be excluded, and with the list not. -/
theorem wildcard_spellings_differ :
    validate .standard [textWildcard [.string ":dummy:a"]] =
        .ok [{ store := ⟨"dummy"⟩, any := some .wildcard, not := [⟨"a"⟩] }] ∧
      validate .standard [listWildcard [.string ":dummy:a"]] =
        .error (.mixedStores (listWildcard [.string ":dummy:a"]) "*" ":dummy:a") :=
  ⟨rfl, rfl⟩

end RawClause

end StreamScope
