import StreamScope.Proofs.Access.Levels

/-!
One store-wide entry more. An access that holds no store-wide entry in a store
may be given one, anywhere among its permissions: it is accepted again, and what
it holds is the same in every store, save for the new level of that one. Each
further entry and each forced stream keeps the two sets of grants alike.
-/

namespace StreamScope

open Outcome

namespace Grants

variable {k : Conventions} {store : StoreId} {level : PermissionLevel}
  {grants grants' next : Grants}

/-- What is held in a store, nothing where there are no grants. -/
def heldIn (grants : Grants) (store : StoreId) : StoreGrants := (grants.get store).getD {}

theorem heldIn_set (grants : Grants) (store : StoreId) (held : StoreGrants) (other : StoreId) :
    (grants.set store held).heldIn other = if other = store then held else grants.heldIn other := by
  unfold heldIn get
  induction grants with
  | nil => by_cases h : other = store <;> simp [set, h, eq_comm]
  | cons entry rest ih =>
    obtain ⟨s, g⟩ := entry
    by_cases hs : s = store
    · subst hs
      by_cases h : other = s
      · simp [set, h]
      · simp [set, h, Ne.symm h]
    · by_cases h : s = other
      · subst h
        simp [set, hs]
      · simpa [set, hs, h] using ih

theorem addPermission_eq_ok_iff (k : Conventions) (grants : Grants) (entry : PermissionEntry)
    (next : Grants) : addPermission k grants entry = .ok next ↔
      ∃ s id held, splitEntry k entry.stream = .ok (s, id) ∧
        (grants.heldIn s).grant? id entry.level = some held ∧ grants.set s held = next := by
  unfold addPermission
  rw [bind_eq_ok_iff, Prod.exists]
  refine exists_congr fun s => exists_congr fun id => ?_
  unfold heldIn
  cases hgrant : ((grants.get s).getD {}).grant? id entry.level with
  | none => simp [hgrant, throw, throwThe, MonadExceptOf.throw]
  | some held => simp [hgrant, pure, Except.pure]

theorem addForced_eq_ok_iff (k : Conventions) (grants : Grants) (full : StreamId)
    (next : Grants) : addForced k grants full = .ok next ↔
      ∃ s id, splitEntry k full = .ok (s, id) ∧ id ≠ .wildcard ∧
        grants.set s ((grants.heldIn s).addForced id) = next := by
  unfold addForced
  rw [bind_eq_ok_iff, Prod.exists]
  refine exists_congr fun s => exists_congr fun id => and_congr_right fun _ => ?_
  by_cases hid : id = .wildcard <;>
    simp [hid, heldIn, throw, throwThe, MonadExceptOf.throw, bind, Except.bind, pure, Except.pure]

/-- The second grants are the first with this level for the whole store. -/
def Widens (store : StoreId) (level : PermissionLevel) (grants grants' : Grants) : Prop :=
  ∀ s, grants'.heldIn s =
    if s = store then { grants.heldIn s with storeWide := some level } else grants.heldIn s

/-- A store-wide entry stays while grants are added. -/
theorem storeWide_of_grant? {g held : StoreGrants} {id : StreamId} {l : PermissionLevel}
    (h : g.grant? id l = some held) (hnone : held.storeWide = none) :
    id ≠ .wildcard ∧ g.storeWide = none := by
  unfold StoreGrants.grant? at h
  split at h
  case isTrue =>
    split at h
    case isTrue => cases h
    case isFalse =>
      obtain rfl := Option.some.inj h
      cases hnone
  case isFalse hid =>
    split at h
    case isTrue => cases h
    case isFalse =>
      obtain rfl := Option.some.inj h
      exact ⟨hid, hnone⟩

theorem storeWide_none_of_addPermission {entry : PermissionEntry}
    (h : addPermission k grants entry = .ok next) (hnone : (next.heldIn store).storeWide = none) :
    (grants.heldIn store).storeWide = none := by
  obtain ⟨s, id, held, -, hgrant, rfl⟩ := (addPermission_eq_ok_iff k grants entry next).mp h
  rw [heldIn_set] at hnone
  split at hnone
  case isTrue hs => exact hs ▸ (storeWide_of_grant? hgrant hnone).2
  case isFalse => exact hnone

theorem storeWide_addForced {full : StreamId} (h : addForced k grants full = .ok next) :
    (next.heldIn store).storeWide = (grants.heldIn store).storeWide := by
  obtain ⟨s, id, -, -, rfl⟩ := (addForced_eq_ok_iff k grants full next).mp h
  rw [heldIn_set]
  split
  case isTrue hs => rw [hs, StoreGrants.addForced]
  case isFalse => rfl

/-- What each step of a fold takes back to its start, the fold takes back to its start. -/
theorem storeWide_none_of_foldlM {α : Type} {add : Grants → α → Except AccessError Grants}
    (hback : ∀ b a b', add b a = .ok b' → (b'.heldIn store).storeWide = none →
      (b.heldIn store).storeWide = none)
    {xs : List α} (h : xs.foldlM add grants = .ok next)
    (hnone : (next.heldIn store).storeWide = none) : (grants.heldIn store).storeWide = none := by
  induction xs generalizing grants with
  | nil =>
    obtain rfl := Except.ok.inj h
    exact hnone
  | cons x xs ih =>
    rw [List.foldlM_cons] at h
    obtain ⟨mid, hmid, hrest⟩ := bind_eq_ok_iff.mp h
    exact hback grants x mid hmid (ih hrest)

namespace Widens

theorem set (h : Widens store level grants grants') (s : StoreId) {held held' : StoreGrants}
    (hheld : held' = if s = store then { held with storeWide := some level } else held) :
    Widens store level (grants.set s held) (grants'.set s held') := by
  intro other
  rw [heldIn_set, heldIn_set]
  by_cases hother : other = s
  · rw [if_pos hother, if_pos hother, hother, hheld]
  · rw [if_neg hother, if_neg hother, h other]

theorem addPermission (h : Widens store level grants grants') {entry : PermissionEntry}
    (hadd : addPermission k grants entry = .ok next) (hnone : (next.heldIn store).storeWide = none) :
    ∃ next', Grants.addPermission k grants' entry = .ok next' ∧ Widens store level next next' := by
  obtain ⟨s, id, held, hsplit, hgrant, rfl⟩ :=
    (addPermission_eq_ok_iff k grants entry next).mp hadd
  have hgrant' : (grants'.heldIn s).grant? id entry.level =
      some (if s = store then { held with storeWide := some level } else held) := by
    rw [h s]
    by_cases hs : s = store
    · subst hs
      rw [heldIn_set, if_pos rfl] at hnone
      have hid := (storeWide_of_grant? hgrant hnone).1
      rw [if_pos rfl, if_pos rfl]
      unfold StoreGrants.grant? at hgrant ⊢
      rw [if_neg hid] at hgrant ⊢
      split at hgrant
      case isTrue => cases hgrant
      case isFalse hfresh =>
        obtain rfl := Option.some.inj hgrant
        exact if_neg hfresh
    · rwa [if_neg hs, if_neg hs]
  exact ⟨_, (addPermission_eq_ok_iff k grants' entry _).mpr ⟨s, id, _, hsplit, hgrant', rfl⟩,
    h.set s rfl⟩

theorem addForced (h : Widens store level grants grants') {full : StreamId}
    (hadd : addForced k grants full = .ok next) :
    ∃ next', Grants.addForced k grants' full = .ok next' ∧ Widens store level next next' := by
  obtain ⟨s, id, hsplit, hid, rfl⟩ := (addForced_eq_ok_iff k grants full next).mp hadd
  refine ⟨_, (addForced_eq_ok_iff k grants' full _).mpr ⟨s, id, hsplit, hid, rfl⟩, h.set s ?_⟩
  rw [h s]
  by_cases hs : s = store
  · rw [if_pos hs, if_pos hs]
    rfl
  · rw [if_neg hs, if_neg hs]

/-- What each step keeps alike, a fold keeps alike. -/
theorem foldlM {α : Type} {add : Grants → α → Except AccessError Grants}
    (hback : ∀ b a b', add b a = .ok b' → (b'.heldIn store).storeWide = none →
      (b.heldIn store).storeWide = none)
    (hstep : ∀ b b' a mid, Widens store level b b' → add b a = .ok mid →
      (mid.heldIn store).storeWide = none →
        ∃ mid', add b' a = .ok mid' ∧ Widens store level mid mid')
    {xs : List α} (h : Widens store level grants grants') (hadd : xs.foldlM add grants = .ok next)
    (hnone : (next.heldIn store).storeWide = none) :
    ∃ next', xs.foldlM add grants' = .ok next' ∧ Widens store level next next' := by
  induction xs generalizing grants grants' with
  | nil =>
    obtain rfl := Except.ok.inj hadd
    exact ⟨grants', rfl, h⟩
  | cons x xs ih =>
    rw [List.foldlM_cons] at hadd
    obtain ⟨mid, hmid, hrest⟩ := bind_eq_ok_iff.mp hadd
    have hfree := storeWide_none_of_foldlM hback hrest hnone
    obtain ⟨mid', hmid', hwidens⟩ := hstep grants grants' x mid h hmid hfree
    obtain ⟨next', hnext', hwidens'⟩ := ih hwidens hrest
    refine ⟨next', ?_, hwidens'⟩
    rw [List.foldlM_cons]
    exact bind_eq_ok_iff.mpr ⟨mid', hmid', hnext'⟩

end Widens

/-- A store-wide entry can be put in wherever there is none, and changes only the store's level. -/
theorem exists_widened {a : Access} {before after : List PermissionEntry} {entry : PermissionEntry}
    (h : ofAccess k a = .ok grants) (hnone : (grants.heldIn store).storeWide = none)
    (ha : a.permissions = before ++ after)
    (hentry : splitEntry k entry.stream = .ok (store, .wildcard)) :
    ∃ grants', ofAccess k { a with permissions := before ++ entry :: after } = .ok grants' ∧
      Widens store entry.level grants grants' := by
  obtain ⟨permitted, hpermitted, hforced⟩ := bind_eq_ok_iff.mp h
  have hkeep (b : Grants) (id : StreamId) (b' : Grants) (hstep : addForced k b id = .ok b')
      (heq : (b'.heldIn store).storeWide = none) : (b.heldIn store).storeWide = none :=
    (storeWide_addForced hstep).symm.trans heq
  have hback (b : Grants) (e : PermissionEntry) (b' : Grants) (hstep : addPermission k b e = .ok b') :
      (b'.heldIn store).storeWide = none → (b.heldIn store).storeWide = none :=
    storeWide_none_of_addPermission hstep
  have hfree := storeWide_none_of_foldlM hkeep hforced hnone
  rw [ha, List.foldlM_append] at hpermitted
  obtain ⟨first, hfirst, hrest⟩ := bind_eq_ok_iff.mp hpermitted
  have hopen := storeWide_none_of_foldlM hback hrest hfree
  have hadd : addPermission k first entry =
      .ok (first.set store { first.heldIn store with storeWide := some entry.level }) := by
    refine (addPermission_eq_ok_iff k first entry _).mpr ⟨store, .wildcard, _, hentry, ?_, rfl⟩
    simp [StoreGrants.grant?, hopen]
  have hwidens : Widens store entry.level first
      (first.set store { first.heldIn store with storeWide := some entry.level }) := by
    intro s
    rw [heldIn_set]
    by_cases hs : s = store
    · rw [if_pos hs, if_pos hs, hs]
    · rw [if_neg hs, if_neg hs]
  obtain ⟨permitted', hpermitted', hwidens⟩ := Widens.foldlM hback
    (fun _ _ _ _ halike hstep heq => halike.addPermission hstep heq) hwidens hrest hfree
  obtain ⟨grants', hgrants', hwidens⟩ := Widens.foldlM hkeep
    (fun _ _ _ _ halike hstep _ => halike.addForced hstep) hwidens hforced hnone
  refine ⟨grants', bind_eq_ok_iff.mpr ⟨permitted', ?_, hgrants'⟩, hwidens⟩
  rw [List.foldlM_append]
  refine bind_eq_ok_iff.mpr ⟨first, hfirst, ?_⟩
  rw [List.foldlM_cons]
  exact bind_eq_ok_iff.mpr ⟨_, hadd, hpermitted'⟩

end Grants

namespace Caller

/-- The caller of an access that is given a store-wide entry. -/
theorem exists_widened {k : Conventions} {a : Access} {c : Caller} {store : StoreId}
    {before after : List PermissionEntry} {entry : PermissionEntry} (h : ofAccess k a = .ok c)
    (hnone : (c.held store).storeWide = none) (ha : a.permissions = before ++ after)
    (hentry : Grants.splitEntry k entry.stream = .ok (store, .wildcard)) :
    ∃ c', ofAccess k { a with permissions := before ++ entry :: after } = .ok c' ∧
      c'.access.kind = c.access.kind ∧ ∀ s, c'.held s =
        if s = store then { c.held s with storeWide := some entry.level } else c.held s := by
  obtain ⟨grants, hgrants, rfl⟩ := map_eq_ok_iff.mp h
  obtain ⟨grants', hgrants', hwidens⟩ := Grants.exists_widened hgrants hnone ha hentry
  exact ⟨_, map_eq_ok_iff.mpr ⟨grants', hgrants', rfl⟩, rfl, hwidens⟩

end Caller

end StreamScope
