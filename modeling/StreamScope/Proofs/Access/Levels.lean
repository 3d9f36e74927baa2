import StreamScope.Access.Caller
import StreamScope.Proofs.InMemory

/-!
Levels read off chains. The grants of a store decide on a chain by its nearest
entry, and the level on a stream is what they decide on the stream's chain. Hence
a readable stream stays readable downwards until an entry that forbids it, and
below an entry that forbids it nothing is readable until the next entry.
-/

namespace StreamScope

open Lineage Outcome

namespace StoreGrants

/-- The level that the grants of a store give to a stream with this chain. -/
def decides (g : StoreGrants) (chain : List StreamId) : Option PermissionLevel :=
  (chain.findSome? g.levelOf?).or g.storeWide

/-- No stream has two entries, and the wildcard has none and is not forced. -/
structure Sound (g : StoreGrants) : Prop where
  distinct : (g.entries.map Prod.fst).Nodup
  named : .wildcard ∉ g.entries.map Prod.fst
  proper : .wildcard ∉ g.forced

theorem sound_empty : Sound {} :=
  ⟨List.nodup_nil, by simp, by simp⟩

theorem mem_entriesWhere_iff (g : StoreGrants) (p : PermissionLevel → Bool) (id : StreamId) :
    id ∈ g.entriesWhere p ↔ ∃ level, (id, level) ∈ g.entries ∧ p level = true := by
  simp [entriesWhere]

theorem mem_of_levelOf? {g : StoreGrants} {id : StreamId} {level : PermissionLevel}
    (h : g.levelOf? id = some level) : (id, level) ∈ g.entries := by
  obtain ⟨entry, hentry, rfl⟩ := Option.map_eq_some_iff.mp h
  have hid : entry.1 = id := by simpa using List.find?_some hentry
  exact hid ▸ List.mem_of_find?_eq_some hentry

theorem levelOf?_eq_none_iff (g : StoreGrants) (id : StreamId) :
    g.levelOf? id = none ↔ id ∉ g.entries.map Prod.fst := by
  rw [levelOf?, Option.map_eq_none_iff, List.find?_eq_none]
  simp only [List.mem_map, not_exists, not_and, decide_eq_true_eq]

namespace Sound

/-- The entry of a stream is the one that its level is read from. -/
theorem levelOf?_eq_some_iff {g : StoreGrants} (hg : g.Sound) (id : StreamId)
    (level : PermissionLevel) : g.levelOf? id = some level ↔ (id, level) ∈ g.entries := by
  constructor
  · exact mem_of_levelOf?
  · intro h
    cases hl : g.levelOf? id with
    | none =>
      have hkey := (levelOf?_eq_none_iff g id).mp hl
      exact absurd (List.mem_map_of_mem h) hkey
    | some found =>
      have hfound := List.inj_on_of_nodup_map hg.distinct (mem_of_levelOf? hl) h rfl
      rw [(Prod.mk.inj hfound).2]

theorem grant? {g held : StoreGrants} (hg : g.Sound) {id : StreamId} {level : PermissionLevel}
    (h : g.grant? id level = some held) : held.Sound := by
  unfold StoreGrants.grant? at h
  split at h
  case isTrue hw =>
    split at h
    case isTrue hwide => cases h
    case isFalse hwide =>
      obtain rfl := Option.some.inj h
      exact ⟨hg.distinct, hg.named, hg.proper⟩
  case isFalse hw =>
    split at h
    case isTrue hlevel => cases h
    case isFalse hlevel =>
      obtain rfl := Option.some.inj h
      have hkey : id ∉ g.entries.map Prod.fst := by
        rw [← levelOf?_eq_none_iff]
        simpa using hlevel
      refine ⟨?_, ?_, hg.proper⟩ <;> rw [List.map_append]
      · apply hg.distinct.append (List.nodup_singleton _)
        simpa using hkey
      · rw [List.mem_append, not_or]
        exact ⟨hg.named, by simpa using Ne.symm hw⟩

theorem addForced {g : StoreGrants} (hg : g.Sound) {id : StreamId} (hid : id ≠ .wildcard) :
    (g.addForced id).Sound := by
  refine ⟨hg.distinct, hg.named, ?_⟩
  intro h
  rcases List.mem_append.mp h with hold | hnew
  · exact hg.proper hold
  · exact hid (List.mem_singleton.mp hnew).symm

end Sound

theorem decides_append (g : StoreGrants) (between chain : List StreamId) :
    g.decides (between ++ chain) = (between.findSome? g.levelOf?).or (g.decides chain) := by
  simp [decides, List.findSome?_append, Option.or_assoc]

/-- The nearest entry decides, whatever stands above it. -/
theorem decides_of_nearest {g : StoreGrants} {below above : List StreamId} {x : StreamId}
    {level : PermissionLevel} (hbelow : ∀ y ∈ below, g.levelOf? y = none)
    (hx : g.levelOf? x = some level) : g.decides (below ++ x :: above) = some level := by
  have hnone : below.findSome? g.levelOf? = none := List.findSome?_eq_none_iff.mpr hbelow
  rw [decides_append, hnone, decides, List.findSome?_cons, hx]
  rfl

end StoreGrants

namespace Grants

def Sound (grants : Grants) : Prop :=
  ∀ entry ∈ grants, entry.2.Sound

theorem mem_of_get {grants : Grants} {store : StoreId} {g : StoreGrants}
    (h : grants.get store = some g) : (store, g) ∈ grants := by
  obtain ⟨entry, hentry, rfl⟩ := Option.map_eq_some_iff.mp h
  have hstore : entry.1 = store := by simpa using List.find?_some hentry
  exact hstore ▸ List.mem_of_find?_eq_some hentry

namespace Sound

variable {grants grants' : Grants}

theorem get (h : grants.Sound) (store : StoreId) : ((grants.get store).getD {}).Sound := by
  cases hg : grants.get store with
  | none => exact StoreGrants.sound_empty
  | some g => exact h _ (mem_of_get hg)

theorem set (h : grants.Sound) (store : StoreId) {held : StoreGrants} (hheld : held.Sound) :
    (grants.set store held).Sound := by
  induction grants with
  | nil => simpa [Grants.set, Sound] using hheld
  | cons entry rest ih =>
    obtain ⟨s, g⟩ := entry
    have hrest := ih fun e he => h e (List.mem_cons_of_mem _ he)
    have hfirst := h (s, g) List.mem_cons_self
    unfold Grants.set
    split
    case isTrue hs =>
      intro e he
      rcases List.mem_cons.mp he with rfl | he
      · exact hheld
      · exact h e (List.mem_cons_of_mem _ he)
    case isFalse hs =>
      intro e he
      rcases List.mem_cons.mp he with rfl | he
      · exact hfirst
      · exact hrest e he

theorem addPermission {k : Conventions} (h : grants.Sound) {entry : PermissionEntry}
    (hadd : addPermission k grants entry = .ok grants') : grants'.Sound := by
  unfold Grants.addPermission at hadd
  obtain ⟨⟨store, id⟩, -, hadd⟩ := bind_eq_ok_iff.mp hadd
  cases hgrant : ((grants.get store).getD {}).grant? id entry.level with
  | none => simp [hgrant, throw, throwThe, MonadExceptOf.throw] at hadd
  | some held =>
    simp only [hgrant] at hadd
    obtain rfl := Except.ok.inj hadd
    exact h.set store ((h.get store).grant? hgrant)

theorem addForced {k : Conventions} (h : grants.Sound) {full : StreamId}
    (hadd : addForced k grants full = .ok grants') : grants'.Sound := by
  unfold Grants.addForced at hadd
  obtain ⟨⟨store, id⟩, -, hadd⟩ := bind_eq_ok_iff.mp hadd
  by_cases hid : id = .wildcard
  · simp [hid, throw, throwThe, MonadExceptOf.throw, bind, Except.bind] at hadd
  · simp only [hid, if_false] at hadd
    obtain rfl := Except.ok.inj hadd
    exact h.set store ((h.get store).addForced hid)

end Sound

/-- The grants of an access are sound in every store. -/
theorem sound_of_ofAccess {k : Conventions} {a : Access} {grants : Grants}
    (h : ofAccess k a = .ok grants) : grants.Sound := by
  obtain ⟨permitted, hpermitted, hforced⟩ := bind_eq_ok_iff.mp h
  have hempty : Sound [] := by simp [Sound]
  have hgranted := foldlM_keeps (fun _ _ _ hb hstep => Sound.addPermission hb hstep)
    hempty hpermitted
  exact foldlM_keeps (fun _ _ _ hb hstep => Sound.addForced hb hstep) hgranted hforced

end Grants

namespace Caller

variable {c : Caller} {r : Registry} {store : StoreId} {f : Forest} {d : StreamId}

theorem held_sound {k : Conventions} {a : Access} (h : ofAccess k a = .ok c) (store : StoreId) :
    (c.held store).Sound := by
  obtain ⟨grants, hgrants, rfl⟩ := map_eq_ok_iff.mp h
  exact (Grants.sound_of_ofAccess hgrants).get store

theorem forced_ne_wildcard {k : Conventions} {a : Access} (h : ofAccess k a = .ok c)
    {id : StreamId} (hid : id ∈ c.forced store) : id ≠ .wildcard := by
  rintro rfl
  exact (held_sound h store).proper hid

theorem mem_forbidden_iff (c : Caller) (store : StoreId) (id : StreamId) :
    id ∈ c.forbidden store ↔
      ∃ level, (id, level) ∈ (c.held store).entries ∧ level.forbidsRead = true :=
  StoreGrants.mem_entriesWhere_iff _ _ _

theorem wildcard_notMem_forbidden (hg : (c.held store).Sound) : .wildcard ∉ c.forbidden store := by
  intro hin
  obtain ⟨level, hentry, -⟩ := (mem_forbidden_iff c store _).mp hin
  exact hg.named (List.mem_map_of_mem hentry)

theorem hasBlanketRead_eq_false (hp : c.access.isPersonal = false)
    (hwide : ∀ level, (c.held store).storeWide = some level → level.canRead = false) :
    c.hasBlanketRead store = false := by
  cases hstore : (c.held store).storeWide with
  | none => simp [hasBlanketRead, hp, hstore]
  | some level => simp [hasBlanketRead, hp, hstore, hwide level hstore]

theorem level_of_chain (hf : r.Holds store f) {chain : List StreamId}
    (hchain : Chain f.streams d chain) :
    c.level r store d = .ok ((c.held store).decides chain) := by
  have hancestors := (hf.ancestors_eq_ok_some_iff d chain).mpr hchain
  unfold level held
  cases hg : c.grants.get store with
  | none =>
    have hnone : chain.findSome? (StoreGrants.levelOf? {}) = none :=
      List.findSome?_eq_none_iff.mpr fun _ _ => rfl
    simp [StoreGrants.decides, hnone]
  | some g => simp [hancestors, StoreGrants.decides, Except.map]

/-- In a forest it can always be told whether a stream may be read. -/
theorem exists_canRead (hf : r.Holds store f) (hd : d ∈ f.ids) (c : Caller) :
    ∃ readable, c.canRead r store d = .ok readable := by
  obtain ⟨chain, hchain⟩ := Forest.exists_chain hd
  unfold canRead
  split
  · exact ⟨true, rfl⟩
  · rw [level_of_chain hf hchain]
    exact ⟨_, rfl⟩

/-- What a chain says about reading, for a caller that needs an entry. -/
theorem canRead_of_chain (hp : c.access.isPersonal = false) (hf : r.Holds store f)
    {chain : List StreamId} (hchain : Chain f.streams d chain) :
    c.canRead r store d = .ok true ↔
      ∃ level, (c.held store).decides chain = some level ∧ level.canRead = true := by
  rw [canRead, hp, level_of_chain hf hchain]
  cases (c.held store).decides chain <;> simp [Except.map]

theorem canRead_of_levelOf? {id : StreamId} {level : PermissionLevel}
    (hlevel : (c.held store).levelOf? id = some level) (hout : id ∉ c.forbidden store) :
    level.canRead = true := by
  by_contra hread
  apply hout
  rw [mem_forbidden_iff]
  refine ⟨level, StoreGrants.mem_of_levelOf? hlevel, ?_⟩
  rw [PermissionLevel.forbidsRead_eq_not_canRead]
  simpa using hread

theorem mem_readableRoots_iff (c : Caller) (store : StoreId) (id : StreamId) :
    id ∈ c.readableRoots store ↔
      ∃ level, (id, level) ∈ (c.held store).entries ∧ level.canRead = true :=
  StoreGrants.mem_entriesWhere_iff _ _ _

/-- A stream has one entry, which cannot both let it be read and forbid it. -/
theorem notMem_forbidden_of_mem_readableRoots (hg : (c.held store).Sound) {id : StreamId}
    (h : id ∈ c.readableRoots store) : id ∉ c.forbidden store := by
  intro hout
  obtain ⟨level, hentry, hread⟩ := (mem_readableRoots_iff c store id).mp h
  obtain ⟨level', hentry', hforbids⟩ := (mem_forbidden_iff c store id).mp hout
  have hsame := List.inj_on_of_nodup_map hg.distinct hentry hentry' rfl
  obtain rfl := (Prod.mk.inj hsame).2
  rw [PermissionLevel.forbidsRead_eq_not_canRead, hread] at hforbids
  cases hforbids

/-- The entry of a stream itself decides, whatever stands above. -/
theorem canRead_of_entry (hp : c.access.isPersonal = false) (hf : r.Holds store f)
    (hg : (c.held store).Sound) (hd : d ∈ f.ids) {level : PermissionLevel}
    (hentry : (d, level) ∈ (c.held store).entries) :
    c.canRead r store d = .ok level.canRead := by
  obtain ⟨chain, hchain⟩ := Forest.exists_chain hd
  obtain ⟨above, rfl⟩ := hchain.eq_cons
  have hown := (hg.levelOf?_eq_some_iff d level).mpr hentry
  have hdecides : (c.held store).decides (d :: above) = some level := by
    simp [StoreGrants.decides, hown]
  rw [canRead, hp, level_of_chain hf hchain, hdecides]
  rfl

theorem canRead_of_mem_readableRoots (hp : c.access.isPersonal = false) (hf : r.Holds store f)
    (hg : (c.held store).Sound) (hd : d ∈ f.ids) (h : d ∈ c.readableRoots store) :
    c.canRead r store d = .ok true := by
  obtain ⟨level, hentry, hread⟩ := (mem_readableRoots_iff c store d).mp h
  rw [canRead_of_entry hp hf hg hd hentry, hread]

/-- A caller that reads the whole store reads each root that is not forbidden. -/
theorem canRead_of_mem_roots (hp : c.access.isPersonal = false) (hf : r.Holds store f)
    (hblanket : c.hasBlanketRead store = true) {top : StreamId} (htop : top ∈ f.roots)
    (hout : top ∉ c.forbidden store) : c.canRead r store top = .ok true := by
  rw [canRead_of_chain hp hf (Forest.chain_of_mem_roots htop)]
  cases hlevel : (c.held store).levelOf? top with
  | some level =>
    have hbelow : ∀ y ∈ ([] : List StreamId), (c.held store).levelOf? y = none := by simp
    exact ⟨level, StoreGrants.decides_of_nearest hbelow hlevel,
      canRead_of_levelOf? hlevel hout⟩
  | none =>
    simp only [hasBlanketRead, hp, Bool.false_or] at hblanket
    cases hwide : (c.held store).storeWide with
    | none => simp [hwide] at hblanket
    | some level => exact ⟨level, by simp [StoreGrants.decides, hlevel, hwide],
        by simpa [hwide] using hblanket⟩

/-- Readability goes down to every stream that is reached past no forbidding entry. -/
theorem canRead_of_descends (hp : c.access.isPersonal = false) (hf : r.Holds store f)
    {isOpen : StreamId → Prop} (hopen : ∀ id, isOpen id → id ∉ c.forbidden store)
    {top : StreamId} (h : f.Descends isOpen top d) (htop : c.canRead r store top = .ok true) :
    c.canRead r store d = .ok true := by
  obtain ⟨between, above, hchain, hway⟩ := h.exists_chain
  rw [canRead_of_chain hp hf hchain, StoreGrants.decides_append]
  cases hnear : between.findSome? (c.held store).levelOf? with
  | none => exact (canRead_of_chain hp hf hchain.drop).mp htop
  | some level =>
    obtain ⟨x, hx, hlevel⟩ := List.exists_of_findSome?_eq_some hnear
    have hout := hopen x (hway x (List.mem_append_left _ hx))
    exact ⟨level, rfl, canRead_of_levelOf? hlevel hout⟩

end Caller

end StreamScope
