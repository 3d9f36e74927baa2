import StreamScope.Proofs.Access.Widening
import StreamScope.Proofs.Query.Naming

/-!
Which accesses are accepted, and what they hold. An entry denotes a stream of a
store, or the whole store, by what is left of its id without the store's name.
An access is accepted if every id denotes something, no forced stream is a
wildcard and no two entries denote the same. A marker is looked for before the
name of a store only: an id that carries one behind the name is accepted, and
handed out with its marker. In each store an accepted access holds what its
entries and forced streams denote there, in their order.
-/

namespace StreamScope

open Outcome

namespace Conventions

variable {k : Conventions} {full : String} {id : StreamId}

/-- The marker stands behind the name of a store, and not before it. -/
def MarkedBehindName (k : Conventions) (full : String) : Prop :=
  ∃ store rest, k.Names full [] store (k.marker :: rest)

/-- The ids that entries and forced streams may have. -/
def Accepts (k : Conventions) (full : StreamId) : Prop :=
  full.text.toList ≠ [] ∧ k.isNoExpand full = false

theorem isNoExpand_iff (k : Conventions) (id : StreamId) :
    k.isNoExpand id = true ↔ id.text.toList.head? = some k.marker := by
  simp [isNoExpand, Marker.isMarked]

/-- A local id has its marker from before the name of the store or from behind it. -/
theorem isNoExpand_local_iff (k : Conventions) (full : String) :
    k.isNoExpand (k.split full).2 = true ↔
      k.isNoExpand ⟨full⟩ = true ∨ k.MarkedBehindName full := by
  by_cases hnames : k.NamesStore full
  · obtain ⟨head, store, rest, h⟩ := hnames
    rw [isNoExpand_iff, isNoExpand_iff, h.split_eq, h.text, String.toList_ofList]
    rcases h.head with rfl | rfl
    · have hbehind : k.MarkedBehindName full ↔ rest.head? = some k.marker := by
        constructor
        · rintro ⟨store', rest', h'⟩
          have hbody := (List.cons.inj (h.text.symm.trans h'.text)).2
          rw [(append_delimiter_inj h.delimiter_notMem h'.delimiter_notMem hbody).2]
          rfl
        · intro hfirst
          obtain ⟨rest', rfl⟩ := List.head?_eq_some_iff.mp hfirst
          exact ⟨store, rest', h⟩
      rw [hbehind]
      by_cases hrest : rest = []
      · simp [hrest, k.settings_sound.delimiter_ne_marker, k.marker_ne_star.symm]
      · simp [hrest, k.settings_sound.delimiter_ne_marker]
    · simp
  · have hbehind : ¬ k.MarkedBehindName full := by
      rintro ⟨store, rest, h⟩
      exact hnames ⟨[], store, _, h⟩
    simp [split_of_not_namesStore hnames, hbehind]

/-- No marker stands before an id exactly if its local id has none but one from behind the name. -/
theorem unmarked_iff (k : Conventions) (full : String) :
    k.isNoExpand ⟨full⟩ = false ↔
      (k.isNoExpand (k.split full).2 = true → k.MarkedBehindName full) := by
  rw [isNoExpand_local_iff]
  constructor
  · intro hfree hmarked
    exact hmarked.resolve_left (by simp [hfree])
  · intro hbehind
    rw [Bool.eq_false_iff]
    intro hmarked
    obtain ⟨store, rest, h⟩ := hbehind (.inl hmarked)
    rw [isNoExpand_iff, h.text] at hmarked
    exact k.settings_sound.delimiter_ne_marker (Option.some.inj hmarked)

end Conventions

/-! ## What entries denote -/

namespace PermissionEntry

/-- The store and the local id that an entry denotes. -/
def denoted (k : Conventions) (e : PermissionEntry) : StoreId × StreamId := k.split e.stream.text

/-- The level of the first entry that denotes a stream, or a whole store by its wildcard. -/
def levelAmong (k : Conventions) (entries : List PermissionEntry) (store : StoreId)
    (id : StreamId) : Option PermissionLevel :=
  (entries.find? fun e => e.denoted k = (store, id)).map level

/-- The stream of the store that an entry denotes, with its level. -/
def onStream? (k : Conventions) (store : StoreId) (e : PermissionEntry) :
    Option (StreamId × PermissionLevel) :=
  if (e.denoted k).1 = store ∧ (e.denoted k).2 ≠ .wildcard then some ((e.denoted k).2, e.level)
  else none

theorem levelAmong_append (k : Conventions) (entries more : List PermissionEntry)
    (store : StoreId) (id : StreamId) : levelAmong k (entries ++ more) store id =
      (levelAmong k entries store id).or (levelAmong k more store id) := by
  unfold levelAmong
  rw [List.find?_append, Option.map_or]

theorem levelAmong_cons (k : Conventions) (e : PermissionEntry) (entries : List PermissionEntry)
    (store : StoreId) (id : StreamId) : levelAmong k (e :: entries) store id =
      if e.denoted k = (store, id) then some e.level else levelAmong k entries store id := by
  unfold levelAmong
  rw [List.find?_cons]
  by_cases h : e.denoted k = (store, id) <;> simp [h]

end PermissionEntry

namespace Access

/-- The full ids of an access: those of its entries, then its forced streams. -/
def fullIds (a : Access) : List StreamId := a.permissions.map PermissionEntry.stream ++ a.forced

/-- The level that the access has on a stream of the store, or by the wildcard on all of it. -/
def grantOf? (k : Conventions) (a : Access) (store : StoreId) (id : StreamId) :
    Option PermissionLevel :=
  PermissionEntry.levelAmong k a.permissions store id

/-- The entries on streams of the store, in grant order. -/
def entriesIn (k : Conventions) (a : Access) (store : StoreId) :
    List (StreamId × PermissionLevel) :=
  a.permissions.filterMap (PermissionEntry.onStream? k store)

/-- The forced streams of the store, in their order. -/
def forcedIn (k : Conventions) (a : Access) (store : StoreId) : List StreamId :=
  (a.forced.filter fun full => (k.split full.text).1 = store).map fun full =>
    (k.split full.text).2

/-- Every id denotes something, no forced stream is a wildcard, and no two entries denote the
same. -/
structure Proper (k : Conventions) (a : Access) : Prop where
  named : ∀ full ∈ a.fullIds, (k.split full.text).2.text.toList ≠ []
  forced_proper : ∀ full ∈ a.forced, (k.split full.text).2 ≠ .wildcard
  distinct : (a.permissions.map (PermissionEntry.denoted k)).Nodup

/-- A proper access whose local ids carry no marker. -/
structure Sound (k : Conventions) (a : Access) : Prop extends Proper k a where
  unmarked : ∀ full ∈ a.fullIds, k.isNoExpand (k.split full.text).2 = false

theorem sound_iff (k : Conventions) (a : Access) : a.Sound k ↔
    a.Proper k ∧ ∀ full ∈ a.fullIds, k.isNoExpand (k.split full.text).2 = false :=
  ⟨fun h => ⟨h.toProper, h.unmarked⟩, fun h => ⟨h.1, h.2⟩⟩

end Access

namespace StoreGrants

variable {g held : StoreGrants} {id : StreamId} {level : PermissionLevel}

/-- The level of the entry on a stream, or by the wildcard of the store-wide one. -/
def grantOf? (g : StoreGrants) (id : StreamId) : Option PermissionLevel :=
  if id = .wildcard then g.storeWide else g.levelOf? id

/-- The grants with one entry more. -/
def granted (g : StoreGrants) (id : StreamId) (level : PermissionLevel) : StoreGrants :=
  if id = .wildcard then { g with storeWide := some level }
  else { g with entries := g.entries ++ [(id, level)] }

theorem grant?_eq_some_iff :
    g.grant? id level = some held ↔ g.grantOf? id = none ∧ g.granted id level = held := by
  unfold grant? grantOf? granted
  by_cases hw : id = .wildcard
  · cases g.storeWide <;> simp [hw]
  · cases g.levelOf? id <;> simp [hw]

theorem grantOf?_granted (h : g.grantOf? id = none) (x : StreamId) :
    (g.granted id level).grantOf? x = (g.grantOf? x).or (if id = x then some level else none) := by
  by_cases hid : id = .wildcard
  · subst hid
    have hwide : g.storeWide = none := by simpa [grantOf?] using h
    by_cases hx : x = .wildcard
    · simp [grantOf?, granted, hx, hwide]
    · simp [grantOf?, granted, hx, Ne.symm hx, levelOf?]
  · by_cases hx : x = .wildcard
    · simp [grantOf?, granted, hid, hx]
    · simp only [grantOf?, granted, hid, hx, if_false, levelOf?, List.find?_append, Option.map_or]
      by_cases hsame : id = x <;> simp [hsame]

theorem entries_granted (g : StoreGrants) (id : StreamId) (level : PermissionLevel) :
    (g.granted id level).entries =
      g.entries ++ if id = .wildcard then [] else [(id, level)] := by
  unfold granted
  split <;> simp

theorem forced_granted (g : StoreGrants) (id : StreamId) (level : PermissionLevel) :
    (g.granted id level).forced = g.forced := by
  unfold granted
  split <;> rfl

end StoreGrants

namespace Grants

variable {k : Conventions} {grants mid next : Grants} {e : PermissionEntry}
  {entries : List PermissionEntry} {full : StreamId} {fulls : List StreamId}

theorem splitEntry_eq_ok_iff (k : Conventions) (full : StreamId) (target : StoreId × StreamId) :
    splitEntry k full = .ok target ↔ k.Accepts full ∧ k.split full.text = target := by
  have hlocal := k.local_eq_nil_iff full.text
  unfold splitEntry Conventions.Accepts
  by_cases hempty : full.text.toList = []
  · simp [hempty]
  · cases hmarked : k.isNoExpand full <;> simp [hempty, hlocal]

theorem addPermission_iff (k : Conventions) (grants : Grants) (e : PermissionEntry)
    (next : Grants) : addPermission k grants e = .ok next ↔ k.Accepts e.stream ∧
      (grants.heldIn (e.denoted k).1).grantOf? (e.denoted k).2 = none ∧
      grants.set (e.denoted k).1
        ((grants.heldIn (e.denoted k).1).granted (e.denoted k).2 e.level) = next := by
  rw [addPermission_eq_ok_iff]
  simp only [splitEntry_eq_ok_iff, StoreGrants.grant?_eq_some_iff]
  constructor
  · rintro ⟨store, id, held, ⟨haccepts, hsplit⟩, ⟨hfresh, rfl⟩, rfl⟩
    have hdenoted : e.denoted k = (store, id) := hsplit
    rw [hdenoted]
    exact ⟨haccepts, hfresh, rfl⟩
  · rintro ⟨haccepts, hfresh, rfl⟩
    exact ⟨_, _, _, ⟨haccepts, rfl⟩, ⟨hfresh, rfl⟩, rfl⟩

/-- What entries bring to grants: their levels where there was none, and in each store their streams
behind the old ones. -/
structure Adds (k : Conventions) (entries : List PermissionEntry) (grants next : Grants) :
    Prop where
  grantOf? : ∀ store id, (next.heldIn store).grantOf? id =
    ((grants.heldIn store).grantOf? id).or (PermissionEntry.levelAmong k entries store id)
  entries : ∀ store, (next.heldIn store).entries =
    (grants.heldIn store).entries ++ entries.filterMap (PermissionEntry.onStream? k store)
  forced : ∀ store, (next.heldIn store).forced = (grants.heldIn store).forced

theorem adds_nil (k : Conventions) (grants : Grants) : Adds k [] grants grants :=
  ⟨fun _ _ => by simp [PermissionEntry.levelAmong], fun _ => by simp, fun _ => rfl⟩

theorem Adds.cons (hfirst : Adds k [e] grants mid) (hrest : Adds k entries mid next) :
    Adds k (e :: entries) grants next := by
  refine ⟨fun store id => ?_, fun store => ?_, fun store => ?_⟩
  · rw [hrest.grantOf?, hfirst.grantOf?, Option.or_assoc, ← PermissionEntry.levelAmong_append,
      List.singleton_append]
  · rw [hrest.entries, hfirst.entries, List.append_assoc, ← List.filterMap_append,
      List.singleton_append]
  · rw [hrest.forced, hfirst.forced]

theorem adds_of_addPermission (h : addPermission k grants e = .ok next) :
    Adds k [e] grants next := by
  obtain ⟨-, hfresh, rfl⟩ := (addPermission_iff k grants e next).mp h
  refine ⟨fun store id => ?_, fun store => ?_, fun store => ?_⟩ <;> rw [heldIn_set]
  · have hlevel : PermissionEntry.levelAmong k [e] store id =
        if e.denoted k = (store, id) then some e.level else none :=
      PermissionEntry.levelAmong_cons k e [] store id
    rw [hlevel]
    simp only [Prod.ext_iff]
    split
    case isTrue hstore =>
      rw [StoreGrants.grantOf?_granted hfresh, hstore]
      simp
    case isFalse hother => simp [Ne.symm hother]
  · split
    case isTrue hstore =>
      rw [StoreGrants.entries_granted, hstore]
      by_cases hw : (e.denoted k).2 = .wildcard <;> simp [PermissionEntry.onStream?, hw]
    case isFalse hother => simp [PermissionEntry.onStream?, Ne.symm hother]
  · split
    case isTrue hstore => rw [StoreGrants.forced_granted, hstore]
    case isFalse => rfl

theorem adds_of_foldlM (h : entries.foldlM (addPermission k) grants = .ok next) :
    Adds k entries grants next := by
  induction entries generalizing grants with
  | nil =>
    obtain rfl := Except.ok.inj h
    exact adds_nil k grants
  | cons e entries ih =>
    rw [List.foldlM_cons] at h
    obtain ⟨mid, hmid, hrest⟩ := bind_eq_ok_iff.mp h
    exact (adds_of_addPermission hmid).cons (ih hrest)

/-- Entries can be added if their ids are accepted, no two denote the same, and none denotes what
has a level already. -/
theorem exists_foldlM_addPermission_iff (k : Conventions) (entries : List PermissionEntry)
    (grants : Grants) : (∃ next, entries.foldlM (addPermission k) grants = .ok next) ↔
      (∀ e ∈ entries, k.Accepts e.stream) ∧ (entries.map (PermissionEntry.denoted k)).Nodup ∧
        ∀ e ∈ entries, (grants.heldIn (e.denoted k).1).grantOf? (e.denoted k).2 = none := by
  induction entries generalizing grants with
  | nil => simp [pure, Except.pure]
  | cons e entries ih =>
    simp only [List.foldlM_cons, bind_eq_ok_iff, List.forall_mem_cons, List.map_cons,
      List.nodup_cons]
    constructor
    · rintro ⟨next, mid, hmid, hrest⟩
      obtain ⟨haccepts, hfresh, -⟩ := (addPermission_iff k grants e mid).mp hmid
      obtain ⟨hall, hdistinct, hfree⟩ := (ih mid).mp ⟨next, hrest⟩
      have hadds := (adds_of_addPermission hmid).grantOf?
      have hback (x : PermissionEntry) (hx : x ∈ entries) := hadds _ _ ▸ hfree x hx
      simp only [Option.or_eq_none_iff, PermissionEntry.levelAmong_cons] at hback
      refine ⟨⟨haccepts, hall⟩, ⟨fun hin => ?_, hdistinct⟩, hfresh, fun x hx => (hback x hx).1⟩
      obtain ⟨x, hx, hsame⟩ := List.mem_map.mp hin
      have hnone := (hback x hx).2
      simp [← hsame] at hnone
    · rintro ⟨⟨haccepts, hall⟩, ⟨hnew, hdistinct⟩, hfresh, hfree⟩
      have hmid := (addPermission_iff k grants e _).mpr ⟨haccepts, hfresh, rfl⟩
      have hadds := (adds_of_addPermission hmid).grantOf?
      have hopen : ∀ x ∈ entries, (Grants.heldIn (grants.set (e.denoted k).1
          ((grants.heldIn (e.denoted k).1).granted (e.denoted k).2 e.level))
            (x.denoted k).1).grantOf? (x.denoted k).2 = none := by
        intro x hx
        have hother : e.denoted k ≠ x.denoted k :=
          fun hsame => hnew (hsame ▸ List.mem_map_of_mem hx)
        rw [hadds, hfree x hx, PermissionEntry.levelAmong_cons]
        simp [hother, PermissionEntry.levelAmong]
      obtain ⟨next, hnext⟩ := (ih _).mpr ⟨hall, hdistinct, hopen⟩
      exact ⟨next, _, hmid, hnext⟩

theorem addForced_iff (k : Conventions) (grants : Grants) (full : StreamId) (next : Grants) :
    addForced k grants full = .ok next ↔ k.Accepts full ∧ (k.split full.text).2 ≠ .wildcard ∧
      grants.set (k.split full.text).1
        ((grants.heldIn (k.split full.text).1).addForced (k.split full.text).2) = next := by
  rw [addForced_eq_ok_iff]
  simp only [splitEntry_eq_ok_iff]
  constructor
  · rintro ⟨store, id, ⟨haccepts, hsplit⟩, hproper, rfl⟩
    rw [hsplit]
    exact ⟨haccepts, hproper, rfl⟩
  · rintro ⟨haccepts, hproper, rfl⟩
    exact ⟨_, _, ⟨haccepts, rfl⟩, hproper, rfl⟩

theorem exists_foldlM_addForced_iff (k : Conventions) (fulls : List StreamId) (grants : Grants) :
    (∃ next, fulls.foldlM (addForced k) grants = .ok next) ↔
      ∀ full ∈ fulls, k.Accepts full ∧ (k.split full.text).2 ≠ .wildcard := by
  induction fulls generalizing grants with
  | nil => simp [pure, Except.pure]
  | cons full fulls ih =>
    simp only [List.foldlM_cons, bind_eq_ok_iff, List.forall_mem_cons]
    rw [exists_comm]
    simp only [exists_and_left, ih, addForced_iff]
    simp [and_assoc]

/-- Forced streams stand in their stores behind the old ones, and the entries stay. -/
theorem forced_of_foldlM (h : fulls.foldlM (addForced k) grants = .ok next) (store : StoreId) :
    (next.heldIn store).forced = (grants.heldIn store).forced ++
        (fulls.filter fun full => (k.split full.text).1 = store).map
          (fun full => (k.split full.text).2) ∧
      (next.heldIn store).entries = (grants.heldIn store).entries ∧
      (next.heldIn store).storeWide = (grants.heldIn store).storeWide := by
  induction fulls generalizing grants with
  | nil =>
    obtain rfl := Except.ok.inj h
    simp
  | cons full fulls ih =>
    rw [List.foldlM_cons] at h
    obtain ⟨mid, hmid, hrest⟩ := bind_eq_ok_iff.mp h
    obtain ⟨-, -, rfl⟩ := (addForced_iff k grants full mid).mp hmid
    obtain ⟨hforced, hentries, hwide⟩ := ih hrest
    rw [hforced, hentries, hwide, heldIn_set]
    by_cases hstore : store = (k.split full.text).1
    · simp [← hstore, StoreGrants.addForced]
    · simp [hstore, Ne.symm hstore]

end Grants

namespace Caller

variable {k : Conventions} {a : Access} {c : Caller} {store : StoreId} {id : StreamId}

theorem exists_ofAccess_iff (k : Conventions) (a : Access) : (∃ c, ofAccess k a = .ok c) ↔
    a.Proper k ∧ ∀ full ∈ a.fullIds, k.isNoExpand full = false := by
  have hgrants : (∃ c, ofAccess k a = .ok c) ↔
      (∃ permitted, a.permissions.foldlM (Grants.addPermission k) [] = .ok permitted) ∧
        ∀ full ∈ a.forced, k.Accepts full ∧ (k.split full.text).2 ≠ .wildcard := by
    simp only [ofAccess, Grants.ofAccess, map_eq_ok_iff, bind_eq_ok_iff]
    constructor
    · rintro ⟨_, grants, ⟨permitted, hpermitted, hforced⟩, -⟩
      exact ⟨⟨permitted, hpermitted⟩,
        (Grants.exists_foldlM_addForced_iff k a.forced permitted).mp ⟨grants, hforced⟩⟩
    · rintro ⟨⟨permitted, hpermitted⟩, hforced⟩
      obtain ⟨grants, hgrants⟩ :=
        (Grants.exists_foldlM_addForced_iff k a.forced permitted).mpr hforced
      exact ⟨_, grants, ⟨permitted, hpermitted, hgrants⟩, rfl⟩
  have hfresh : ∀ e ∈ a.permissions,
      (Grants.heldIn [] (e.denoted k).1).grantOf? (e.denoted k).2 = none := by
    simp [Grants.heldIn, Grants.get, StoreGrants.grantOf?, StoreGrants.levelOf?]
  rw [hgrants, Grants.exists_foldlM_addPermission_iff]
  constructor
  · rintro ⟨⟨hentries, hdistinct, -⟩, hforced⟩
    have hids : ∀ full ∈ a.fullIds, k.Accepts full := by
      intro full hfull
      rcases List.mem_append.mp hfull with hentry | hfull
      · obtain ⟨e, he, rfl⟩ := List.mem_map.mp hentry
        exact hentries e he
      · exact (hforced full hfull).1
    exact ⟨⟨fun full hfull => (k.local_eq_nil_iff full.text).not.mpr (hids full hfull).1,
      fun full hfull => (hforced full hfull).2, hdistinct⟩, fun full hfull => (hids full hfull).2⟩
  · rintro ⟨hproper, hunmarked⟩
    have hids : ∀ full ∈ a.fullIds, k.Accepts full := fun full hfull =>
      ⟨(k.local_eq_nil_iff full.text).not.mp (hproper.named full hfull), hunmarked full hfull⟩
    exact ⟨⟨fun e he => hids _ (List.mem_append_left _ (List.mem_map_of_mem he)),
      hproper.distinct, hfresh⟩, fun full hfull =>
        ⟨hids full (List.mem_append_right _ hfull), hproper.forced_proper full hfull⟩⟩

/-- In each store the caller holds what the access says. -/
theorem held_of_ofAccess (h : ofAccess k a = .ok c) (store : StoreId) :
    (c.held store).entries = a.entriesIn k store ∧ (c.held store).forced = a.forcedIn k store ∧
      ∀ id, (c.held store).grantOf? id = a.grantOf? k store id := by
  obtain ⟨grants, hgrants, rfl⟩ := map_eq_ok_iff.mp h
  obtain ⟨permitted, hpermitted, hforce⟩ := bind_eq_ok_iff.mp hgrants
  have hadds := Grants.adds_of_foldlM hpermitted
  obtain ⟨hforced, hentries, hwide⟩ := Grants.forced_of_foldlM hforce store
  have hempty : Grants.heldIn [] store = {} := rfl
  refine ⟨hentries.trans ?_, hforced.trans ?_, fun id => ?_⟩
  · rw [hadds.entries, hempty]
    rfl
  · rw [hadds.forced, hempty]
    rfl
  · have hsame : (grants.heldIn store).grantOf? id = (permitted.heldIn store).grantOf? id := by
      simp only [StoreGrants.grantOf?, StoreGrants.levelOf?, hentries, hwide]
    refine hsame.trans ?_
    rw [hadds.grantOf?, hempty]
    simp [StoreGrants.grantOf?, StoreGrants.levelOf?, Access.grantOf?]

/-- Every id that is handed out is what an entry or a forced stream denotes in the store. -/
theorem exists_full_of_handed (h : ofAccess k a = .ok c)
    (hid : id ∈ c.readableRoots store ++ c.forbidden store ++ c.forced store) :
    id ≠ .wildcard ∧ ∃ full ∈ a.fullIds, k.split full.text = (store, id) := by
  have hheld := held_sound h store
  obtain ⟨hentries, hforced, -⟩ := held_of_ofAccess h store
  have hentry {level : PermissionLevel} (hlevel : (id, level) ∈ (c.held store).entries) :
      id ≠ .wildcard ∧ ∃ full ∈ a.fullIds, k.split full.text = (store, id) := by
    refine ⟨fun hw => hheld.named (hw ▸ List.mem_map_of_mem hlevel), ?_⟩
    rw [hentries] at hlevel
    obtain ⟨e, he, hdenotes⟩ := List.mem_filterMap.mp hlevel
    unfold PermissionEntry.onStream? at hdenotes
    split at hdenotes
    case isTrue hstore =>
      obtain ⟨rfl, -⟩ := Prod.mk.inj (Option.some.inj hdenotes)
      exact ⟨e.stream, List.mem_append_left _ (List.mem_map_of_mem he), Prod.ext hstore.1 rfl⟩
    case isFalse => cases hdenotes
  rcases List.mem_append.mp hid with hlisted | hid
  · rcases List.mem_append.mp hlisted with hroot | hout
    · obtain ⟨level, hlevel, -⟩ := (mem_readableRoots_iff c store id).mp hroot
      exact hentry hlevel
    · obtain ⟨level, hlevel, -⟩ := (mem_forbidden_iff c store id).mp hout
      exact hentry hlevel
  · refine ⟨forced_ne_wildcard h hid, ?_⟩
    have hin : id ∈ a.forcedIn k store := hforced ▸ hid
    obtain ⟨full, hfull, rfl⟩ := List.mem_map.mp hin
    obtain ⟨hfull, hstore⟩ := List.mem_filter.mp hfull
    exact ⟨full, List.mem_append_right _ hfull, Prod.ext (of_decide_eq_true hstore) rfl⟩

theorem nodup_handed (h : ofAccess k a = .ok c) (store : StoreId) :
    (c.readableRoots store ++ c.forbidden store).Nodup := by
  have hheld := held_sound h store
  refine List.nodup_append'.mpr ⟨?_, ?_, fun id hroot => ?_⟩
  · exact hheld.distinct.sublist (List.filter_sublist.map _)
  · exact hheld.distinct.sublist (List.filter_sublist.map _)
  · exact notMem_forbidden_of_mem_readableRoots hheld hroot

/-- An access is accepted exactly if it is proper and its local ids carry no marker but one from
behind the name of a store; so it is sound if it is accepted and no id is marked there. It then
hands out the streams of its entries in each store once, in grant order, parted by whether their
level lets them be read. No wildcard is handed out, and what carries a marker is denoted by an id
with the marker behind the name. -/
theorem accepted_iff_marked_behind_name (k : Conventions) (a : Access) :
    ((∃ c, ofAccess k a = .ok c) ↔ a.Proper k ∧ ∀ full ∈ a.fullIds,
      k.isNoExpand (k.split full.text).2 = true → k.MarkedBehindName full.text) ∧
    (a.Sound k ↔ (∃ c, ofAccess k a = .ok c) ∧
      ∀ full ∈ a.fullIds, ¬ k.MarkedBehindName full.text) ∧
    ∀ c, ofAccess k a = .ok c → ∀ store,
      c.readableRoots store =
        ((a.entriesIn k store).filter fun entry => entry.2.canRead).map Prod.fst ∧
      c.forbidden store =
        ((a.entriesIn k store).filter fun entry => !entry.2.canRead).map Prod.fst ∧
      (c.readableRoots store ++ c.forbidden store).Nodup ∧ c.forced store = a.forcedIn k store ∧
      ∀ id ∈ c.readableRoots store ++ c.forbidden store ++ c.forced store, id ≠ .wildcard ∧
        (k.isNoExpand id = true ↔
          ∃ full ∈ a.fullIds, k.split full.text = (store, id) ∧ k.MarkedBehindName full.text) := by
  refine ⟨?_, ?_, fun c h store => ?_⟩
  · rw [exists_ofAccess_iff]
    exact and_congr_right fun _ => forall₂_congr fun full _ => k.unmarked_iff full.text
  · rw [exists_ofAccess_iff, Access.sound_iff, and_assoc]
    refine and_congr_right fun _ => ?_
    rw [← forall₂_and]
    refine forall₂_congr fun full _ => ?_
    rw [← Bool.not_eq_true, k.isNoExpand_local_iff, not_or, Bool.not_eq_true]
  · obtain ⟨hentries, hforced, -⟩ := held_of_ofAccess h store
    refine ⟨?_, ?_, nodup_handed h store, hforced, fun id hid => ?_⟩
    · rw [readableRoots, StoreGrants.entriesWhere, hentries]
    · simp only [forbidden, StoreGrants.entriesWhere, hentries,
        PermissionLevel.forbidsRead_eq_not_canRead]
    · obtain ⟨hproper, full, hfull, hsplit⟩ := exists_full_of_handed h hid
      refine ⟨hproper, fun hmarked => ?_, ?_⟩
      · have hunmarked := ((exists_ofAccess_iff k a).mp ⟨c, h⟩).2 full hfull
        have hbehind := (k.unmarked_iff full.text).mp hunmarked
        rw [hsplit] at hbehind
        exact ⟨full, hfull, hsplit, hbehind hmarked⟩
      · rintro ⟨full', -, hsplit', hbehind⟩
        have hmarked := (k.isNoExpand_local_iff full'.text).mpr (.inr hbehind)
        rwa [hsplit'] at hmarked

/-- An access whose entry has a marker behind the name of its store. -/
def markedAccess : Access := { id := "reader", permissions := [⟨⟨":dummy:#diary"⟩, .read⟩] }

def markedCaller : Caller :=
  ⟨markedAccess, [(⟨"dummy"⟩, { entries := [(⟨"#diary"⟩, .read)] })]⟩

/-- It is accepted, and hands out its stream with the marker. -/
theorem marked_entry_accepted : ofAccess .standard markedAccess = .ok markedCaller ∧
    ¬ markedAccess.Sound .standard ∧ markedCaller.readableRoots ⟨"dummy"⟩ = [⟨"#diary"⟩] ∧
    Conventions.standard.isNoExpand ⟨"#diary"⟩ = true := by
  refine ⟨rfl, fun hsound => ?_, rfl, by decide⟩
  have hunmarked := hsound.unmarked ⟨":dummy:#diary"⟩ List.mem_cons_self
  revert hunmarked
  decide +kernel

end Caller

end StreamScope
