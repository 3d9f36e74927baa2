import StreamScope.Proofs.Query.Naming

/-!
The full id of a stream, and what it is split into again. In a store other than
the default one the full id names the store, and splitting it gives back the
store and the local id, save that an empty one becomes the wildcard; a marker
before the name goes to the local id. The default store is not named, so a local
id that looks as if it named a store is taken at its word.
-/

namespace StreamScope

/-- The wildcard in place of an empty id. -/
def StreamId.orWildcard (id : StreamId) : StreamId :=
  if id.text.toList = [] then .wildcard else id

theorem StreamId.orWildcard_eq_iff (id : StreamId) : id.orWildcard = id ↔ id.text.toList ≠ [] := by
  unfold orWildcard
  split
  case isTrue hnil =>
    refine iff_of_false ?_ (not_not_intro hnil)
    rintro rfl
    cases hnil
  case isFalse hne => exact iff_of_true rfl hne

namespace Conventions

variable {k : Conventions} {store : StoreId} {id : StreamId} {full : String}
  {head name rest : List Char}

/-- A store that ids can name. -/
structure Nameable (k : Conventions) (store : StoreId) : Prop where
  ne_nil : store.text.toList ≠ []
  delimiter_notMem : k.delimiter ∉ store.text.toList
  not_alias : store.text ∉ k.aliases

theorem Names.nameable (h : k.Names full head name rest) : k.Nameable ⟨String.ofList name⟩ where
  ne_nil := by simpa using h.ne_nil
  delimiter_notMem := by simpa using h.delimiter_notMem
  not_alias := h.not_alias

/-- Apart from the default store an id lies only in stores that ids can name. -/
theorem storeOf_nameable (k : Conventions) (full : String) :
    k.storeOf full = k.defaultStore ∨ k.Nameable (k.storeOf full) := by
  unfold storeOf
  by_cases hnames : k.NamesStore full
  · obtain ⟨head, name, rest, h⟩ := hnames
    rw [h.split_eq]
    exact .inr h.nameable
  · rw [split_of_not_namesStore hnames]
    exact .inl rfl

theorem fullId_default (k : Conventions) (id : StreamId) : k.fullId k.defaultStore id = id :=
  if_pos rfl

/-- Another store is named by the full ids of its streams, with a marker and without. -/
theorem Nameable.names (h : k.Nameable store) (hforeign : store ≠ k.defaultStore)
    (hhead : head = [] ∨ head = [k.marker])
    (hfull : full.toList = head ++ (k.fullId store id).text.toList) :
    k.Names full head store.text.toList id.text.toList where
  text := by simp [hfull, fullId, hforeign]
  head := hhead
  ne_nil := h.ne_nil
  delimiter_notMem := h.delimiter_notMem
  not_alias := by simpa using h.not_alias

theorem Nameable.split_eq (h : k.Nameable store) (hforeign : store ≠ k.defaultStore)
    (hhead : head = [] ∨ head = [k.marker])
    (hfull : full.toList = head ++ (k.fullId store id).text.toList) :
    k.split full = (store, ⟨String.ofList (head ++ id.orWildcard.text.toList)⟩) := by
  have hlocal : (if id.text.toList = [] then ['*'] else id.text.toList) =
      id.orWildcard.text.toList := by
    unfold StreamId.orWildcard
    split <;> rfl
  rw [(h.names hforeign hhead hfull).split_eq, hlocal, String.ofList_toList]

/-- In a store that ids can name, other than the default one, the full id of a local id is split
into the store and this id, and a marker before it is left to the local id. -/
theorem split_inverts_fullId (h : k.Nameable store) (hforeign : store ≠ k.defaultStore)
    (id : StreamId) :
    k.split (k.fullId store id).text = (store, id.orWildcard) ∧
      k.split (String.singleton k.marker ++ (k.fullId store id).text) =
        (store, ⟨String.singleton k.marker ++ id.orWildcard.text⟩) := by
  constructor
  · rw [h.split_eq hforeign (.inl rfl) (List.nil_append _).symm, List.nil_append,
      String.ofList_toList]
  · have hmarked : (String.singleton k.marker ++ (k.fullId store id).text).toList =
        [k.marker] ++ (k.fullId store id).text.toList := by
      rw [String.toList_append, String.toList_singleton]
    rw [h.split_eq hforeign (.inr rfl) hmarked, String.ofList_append, String.ofList_toList,
      String.singleton_eq_ofList]

/-- A local id that looks as if it named the default store, behind a marker. -/
theorem split_inverts_fullId_prefixed : standard.Nameable ⟨"dummy"⟩ ∧
    (⟨"dummy"⟩ : StoreId) ≠ standard.defaultStore ∧
    standard.split ":dummy:#:local:a" = (⟨"dummy"⟩, ⟨"#:local:a"⟩) ∧
    standard.split "#:dummy:#:local:a" = (⟨"dummy"⟩, ⟨"##:local:a"⟩) := by
  have hname : standard.Nameable ⟨"dummy"⟩ := ⟨by decide, by decide, by decide⟩
  have hforeign : (⟨"dummy"⟩ : StoreId) ≠ standard.defaultStore := by decide
  exact ⟨hname, hforeign, split_inverts_fullId hname hforeign ⟨"#:local:a"⟩⟩

/-- A full id is split into the stream that it was made of, unless the store is the default one
and the local id names a store, or another one and the local id is empty. -/
theorem split_fullId_iff (h : store = k.defaultStore ∨ k.Nameable store) (id : StreamId) :
    k.split (k.fullId store id).text = (store, id) ↔
      if store = k.defaultStore then ¬ k.NamesStore id.text else id.text.toList ≠ [] := by
  split
  case isTrue hdefault =>
    subst hdefault
    rw [fullId_default]
    constructor
    · rintro hsplit ⟨head, name, rest, hnames⟩
      exact hnames.local_ne (by rw [hsplit])
    · exact split_of_not_namesStore
  case isFalse hforeign =>
    have hname := h.resolve_left hforeign
    rw [(split_inverts_fullId hname hforeign id).1, Prod.mk.injEq, and_iff_right rfl,
      StreamId.orWildcard_eq_iff]

/-- The id names the default store, and what stands behind the name, with its marker, names a store
in turn. -/
def NamesTwice (k : Conventions) (full : String) : Prop :=
  ∃ head rest, k.Names full head k.defaultStore.text.toList rest ∧
    k.NamesStore (String.ofList (head ++ rest))

theorem namesTwice_iff (k : Conventions) (full : String) : k.NamesTwice full ↔
    k.storeOf full = k.defaultStore ∧ k.NamesStore (k.split full).2.text := by
  -- a local id that names a store is too long to be a wildcard, so it is what the id left
  have hlocal {head rest : List Char} (hhead : head = [] ∨ head = [k.marker])
      (hshort : rest.length < 2) : ¬ k.NamesStore (String.ofList (head ++ rest)) := by
    intro h
    have hlength := h.two_lt_length
    rw [String.toList_ofList, List.length_append] at hlength
    rcases hhead with rfl | rfl <;> simp at hlength <;> omega
  constructor
  · rintro ⟨head, rest, hnames, htwice⟩
    have hrest : rest ≠ [] := by
      rintro rfl
      exact hlocal hnames.head (by simp) htwice
    rw [storeOf, hnames.split_eq, if_neg hrest, String.ofList_toList]
    exact ⟨rfl, htwice⟩
  · rintro ⟨hstore, htwice⟩
    by_cases hnames : k.NamesStore full
    · obtain ⟨head, name, rest, h⟩ := hnames
      rw [storeOf, h.split_eq] at hstore
      rw [h.split_eq] at htwice
      have hrest : rest ≠ [] := by
        rintro rfl
        exact hlocal h.head (by simp) htwice
      have hname : name = k.defaultStore.text.toList := by rw [← hstore, String.toList_ofList]
      rw [if_neg hrest] at htwice
      exact ⟨head, rest, hname ▸ h, htwice⟩
    · rw [split_of_not_namesStore hnames] at htwice
      exact absurd htwice hnames

/-- The full id of the stream that an id denotes is split into this stream again, unless the id
names the default store before another store. -/
theorem split_fullId_split_iff (k : Conventions) (full : String) :
    k.split (k.fullId (k.split full).1 (k.split full).2).text = k.split full ↔
      ¬ k.NamesTwice full := by
  have hempty : (k.split full).2.text.toList = [] → (k.split full).1 = k.defaultStore := by
    rw [local_eq_nil_iff]
    intro hnil
    have hnames : ¬ k.NamesStore full := fun h => by simpa [hnil] using h.two_lt_length
    rw [split_of_not_namesStore hnames]
  refine (split_fullId_iff (k.storeOf_nameable full) (k.split full).2).trans ?_
  rw [namesTwice_iff]
  by_cases hdefault : k.storeOf full = k.defaultStore
  · simp [hdefault]
  · simp [hdefault, mt hempty hdefault]

end Conventions

end StreamScope
