import StreamScope.Proofs.Outcome
import StreamScope.Query.Validation

/-!
The grammar of raw clauses. A clause is grammatical when it names streams under
`any`, `all` and `not` only, in lists of ids that lie in one store, each an
optional marker and a plain body, save for a wildcard that stands alone in `any`
and without `all`. Validation reads the lists from left to right and stops at the
first fault; it accepts exactly the grammatical clauses, and binds each to the
store of its ids.
-/

namespace StreamScope

open Outcome

namespace Marker

theorem cut_fst (marker : Char) (cs : List Char) :
    (cut marker cs).1 = [] ∨ (cut marker cs).1 = [marker] := by
  cases cs with
  | nil => exact .inl rfl
  | cons c rest => by_cases hc : c = marker <;> simp [cut, hc]

theorem cut_append_of_head? {marker : Char} {head body : List Char}
    (hhead : head = [] ∨ head = [marker]) (hbody : body.head? ≠ some marker) :
    cut marker (head ++ body) = (head, body) := by
  rcases hhead with rfl | rfl
  · cases body with
    | nil => rfl
    | cons c rest =>
      have hc : c ≠ marker := by simpa using hbody
      simp [cut, hc]
  · exact cut_marked marker body

end Marker

theorem Conventions.getLast?_fullId (k : Conventions) (store : StoreId) {id : StreamId}
    (h : id.text.toList ≠ []) :
    (k.fullId store id).text.toList.getLast? = id.text.toList.getLast? := by
  unfold fullId
  split
  case isTrue hdefault => rfl
  case isFalse hother =>
    dsimp only
    rw [String.toList_append, List.getLast?_append_of_ne_nil _ h]

/-- No body of an id holds a character that leaves a blank, ends a line or controls a device, nor one
of the signs around texts, lists and objects and between their parts. -/
theorem Validation.isForbidden_iff (c : Char) : isForbidden c = true ↔
    c.toNat ≤ 0x20 ∨ 0x7F ≤ c.toNat ∧ c.toNat ≤ 0xA0 ∨ c.toNat = 0x1680 ∨
      0x2000 ≤ c.toNat ∧ c.toNat ≤ 0x200A ∨ c.toNat = 0x2028 ∨ c.toNat = 0x2029 ∨
      c.toNat = 0x202F ∨ c.toNat = 0x205F ∨ c.toNat = 0x3000 ∨
      c ∈ ['"', ',', '\\', '[', ']', '\x7b', '\x7d'] := by
  rw [isForbidden, Bool.or_eq_true, Bool.or_eq_true, Text.isWhitespace_iff, Text.isControl_iff,
    List.contains_iff_mem]
  by_cases hsign : c ∈ ['"', ',', '\\', '[', ']', '\x7b', '\x7d']
  · simp only [hsign, or_true]
  · simp only [hsign, or_false]
    omega

namespace StreamId

/-- An optional marker before a body that holds no marker, no star and no forbidden character. -/
def Plain (marker : Char) (id : StreamId) : Prop :=
  ∃ head body, id.text.toList = head ++ body ∧ (head = [] ∨ head = [marker]) ∧ body ≠ [] ∧
    ∀ c ∈ body, c ≠ marker ∧ c ≠ '*' ∧ Validation.isForbidden c = false

theorem Plain.ne_wildcard {marker : Char} {id : StreamId} (h : id.Plain marker) :
    id ≠ .wildcard := by
  rintro rfl
  obtain ⟨head, body, htext, -, hne, hbody⟩ := h
  have hstar : body = ['*'] := by
    rcases List.append_eq_singleton_iff.mp htext.symm with ⟨-, hstar⟩ | ⟨-, hnil⟩
    · exact hstar
    · exact absurd hnil hne
  exact (hbody '*' (by simp [hstar])).2.1 rfl

/-- Without its marker a plain id is its body. -/
theorem Plain.strip {marker : Char} {id : StreamId} (h : id.Plain marker) :
    (Marker.strip marker id).text.toList ≠ [] ∧ ∀ c ∈ (Marker.strip marker id).text.toList,
      c ≠ marker ∧ c ≠ '*' ∧ Validation.isForbidden c = false := by
  obtain ⟨head, body, htext, hhead, hne, hbody⟩ := h
  have hfirst : body.head? ≠ some marker :=
    fun hmarker => (hbody _ (List.mem_of_head? hmarker)).1 rfl
  have hstrip : (Marker.strip marker id).text.toList = body := by
    simp [Marker.strip, htext, Marker.cut_append_of_head? hhead hfirst]
  rw [hstrip]
  exact ⟨hne, hbody⟩

/-- The full id of a plain stream does not end in a star, as that of a wildcard does. -/
theorem Plain.full_ne_wildcard {k : Conventions} {id : StreamId} (h : id.Plain k.marker)
    (store other : StoreId) :
    k.fullId store (k.stripMarker id) ≠ k.fullId other .wildcard := by
  have hne : (k.stripMarker id).text.toList ≠ [] := h.strip.1
  have hlast : (k.stripMarker id).text.toList.getLast? ≠ some '*' := fun hstar =>
    (h.strip.2 '*' (List.mem_of_getLast? hstar)).2.1 rfl
  intro heq
  have hstar : (k.fullId other .wildcard).text.toList.getLast? = some '*' := by
    rw [Conventions.getLast?_fullId k other (by decide)]
    rfl
  rw [← heq, Conventions.getLast?_fullId k store hne] at hstar
  exact hlast hstar

end StreamId

namespace RawClause

variable {k : Conventions} {c : RawClause} {part : Combinator} {full : String}

/-- The ids in the list under a combinator. -/
def listed (c : RawClause) (part : Combinator) : List String :=
  match c.get? part with
  | some (.array items) => items.filterMap Json.asString?
  | _ => []

/-- All ids that the clause lists, in the order of the combinators. -/
def ids (c : RawClause) : List String := c.listed .any ++ c.listed .all ++ c.listed .not

/-- The listed ids without their stores. -/
def localIds (k : Conventions) (c : RawClause) (part : Combinator) : List StreamId :=
  (c.listed part).map fun full => (k.split full).2

/-- Whether `any` is the wildcard, as a text of its own or as the only id of a list. -/
def isWildcard (k : Conventions) (c : RawClause) : Bool :=
  match c.get? .any with
  | some (.string text) => text = "*"
  | _ => c.localIds k .any = [.wildcard]

/-- An id may be listed if it is plain, or is the wildcard and alone in `any`. -/
def Admits (k : Conventions) (c : RawClause) (part : Combinator) (full : String) : Prop :=
  (k.split full).2.Plain k.marker ∨
    (k.split full).2 = .wildcard ∧ part = .any ∧ c.listed part = [full]

structure Grammatical (k : Conventions) (c : RawClause) : Prop where
  keys : ∀ field ∈ c.fields, field.1 ∈ Combinator.keys
  included : (c.get? .any).isSome = true ∨ (c.get? .all).isSome = true
  lists : ∀ part value, c.get? part = some value →
    (∃ fulls, value = Json.ofStrings fulls) ∨ part = .any ∧ value = .string "*"
  oneStore : ∀ full ∈ c.ids, ∀ full' ∈ c.ids, k.storeOf full = k.storeOf full'
  admitted : ∀ part, ∀ full ∈ c.listed part, c.Admits k part full
  wildcardAlone : c.isWildcard k = true → c.get? .all = none
  named : c.isWildcard k = true ∨ c.listed .any ≠ [] ∨ c.listed .all ≠ []

/-- What the clause includes by `any`. -/
def inclusion (k : Conventions) (c : RawClause) : Option Inclusion :=
  if c.isWildcard k then some .wildcard else (c.get? .any).map fun _ => .ids (c.localIds k .any)

/-- The valid clause that a grammatical one stands for: its local ids in their order, under the
store of the first of them. -/
def bound (k : Conventions) (c : RawClause) : QueryClause where
  store := (c.ids.head?.map k.storeOf).getD k.defaultStore
  any := c.inclusion k
  all := c.localIds k .all
  not := c.localIds k .not

/-- The valid clause carries the store in which all its ids lie, and these without their stores
in the order in which they are listed. -/
structure Binds (k : Conventions) (c : RawClause) (p : QueryClause) : Prop where
  common : ∀ full ∈ c.ids, p.store = k.storeOf full
  home : c.ids = [] → p.store = k.defaultStore
  any : p.any = c.inclusion k
  all : p.all = c.localIds k .all
  not : p.not = c.localIds k .not
  forced : p.forced = []

/-- A grammatical clause binds one valid clause. -/
theorem Grammatical.binds_iff (h : c.Grammatical k) (p : QueryClause) :
    c.Binds k p ↔ p = c.bound k := by
  constructor
  · intro hp
    have hstore : p.store = (c.bound k).store := by
      unfold bound
      cases hids : c.ids with
      | nil => exact hp.home hids
      | cons first rest => exact hp.common first (hids ▸ List.mem_cons_self)
    obtain ⟨store, any, all, not, forced⟩ := p
    obtain ⟨-, -, rfl, rfl, rfl, rfl⟩ := hp
    obtain rfl := hstore
    rfl
  · rintro rfl
    refine ⟨fun full hfull => ?_, fun hnone => by simp [bound, hnone], rfl, rfl, rfl, rfl⟩
    unfold bound
    cases hids : c.ids with
    | nil => simp [hids] at hfull
    | cons first rest => exact h.oneStore first (hids ▸ List.mem_cons_self) full hfull

/-- A list under a combinator, if there is one, holds ids only, and only such as it admits. -/
def Lists (k : Conventions) (c : RawClause) (part : Combinator) : Prop :=
  (∀ value, c.get? part = some value → ∃ fulls, value = Json.ofStrings fulls) ∧
    ∀ full ∈ c.listed part, c.Admits k part full

theorem grammatical_iff (k : Conventions) (c : RawClause) : c.Grammatical k ↔
    ((∀ field ∈ c.fields, field.1 ∈ Combinator.keys) ∧
      ((c.get? .any).isSome = true ∨ (c.get? .all).isSome = true)) ∧
    ((∀ value, c.get? .any = some value →
        (∃ fulls, value = Json.ofStrings fulls) ∨ value = .string "*") ∧
      ∀ full ∈ c.listed .any, c.Admits k .any full) ∧
    c.Lists k .all ∧ c.Lists k .not ∧
    (∀ full ∈ c.ids, ∀ full' ∈ c.ids, k.storeOf full = k.storeOf full') ∧
    (c.isWildcard k = true → c.get? .all = none) ∧
    (c.isWildcard k = true ∨ c.listed .any ≠ [] ∨ c.listed .all ≠ []) := by
  constructor
  · intro h
    have hlists (part : Combinator) (hpart : part ≠ .any) : c.Lists k part :=
      ⟨fun value hvalue => (h.lists part value hvalue).resolve_right fun hstar => hpart hstar.1,
        h.admitted part⟩
    exact ⟨⟨h.keys, h.included⟩,
      ⟨fun value hvalue => (h.lists .any value hvalue).imp id And.right, h.admitted .any⟩,
      hlists .all (by simp), hlists .not (by simp), h.oneStore, h.wildcardAlone, h.named⟩
  · rintro ⟨⟨hkeys, hincluded⟩, ⟨hany, hanyids⟩, hall, hnot, hstores, halone, hnamed⟩
    exact {
      keys := hkeys
      included := hincluded
      lists := fun part value hvalue => by
        cases part with
        | any => exact (hany value hvalue).imp id fun hstar => ⟨rfl, hstar⟩
        | all => exact .inl (hall.1 value hvalue)
        | not => exact .inl (hnot.1 value hvalue)
      oneStore := hstores
      admitted := fun part => by
        cases part with
        | any => exact hanyids
        | all => exact hall.2
        | not => exact hnot.2
      wildcardAlone := halone
      named := hnamed }

theorem inclusion_eq_wildcard_iff : c.inclusion k = some .wildcard ↔ c.isWildcard k = true := by
  unfold inclusion
  cases c.isWildcard k <;> simp

theorem listed_of_get?_eq_none (h : c.get? part = none) : c.listed part = [] := by
  simp [listed, h]

theorem listed_of_get?_eq_ofStrings {fulls : List String}
    (h : c.get? part = some (.ofStrings fulls)) : c.listed part = fulls := by
  simp [listed, h, Json.ofStrings, List.filterMap_map, Function.comp_def, Json.asString?]

theorem listed_ofIds (ids : List String) (part : Combinator) :
    (ofIds ids).listed part = if part = .any then ids else [] := by
  cases part with
  | any => exact listed_of_get?_eq_ofStrings rfl
  | all => rfl
  | not => rfl

theorem ids_ofIds (fulls : List String) : (ofIds fulls).ids = fulls := by
  simp [ids, listed_ofIds]

/-- The inclusion is empty, or missing, if it is no wildcard and lists no id. -/
theorem inclusion_isEmpty_iff : ((c.inclusion k).map Inclusion.isEmpty).getD true = true ↔
    ¬ (c.isWildcard k = true ∨ c.listed .any ≠ []) := by
  unfold inclusion
  cases c.isWildcard k with
  | true => simp [Inclusion.isEmpty]
  | false =>
    cases hany : c.get? .any with
    | none => simp [listed_of_get?_eq_none hany]
    | some value => simp [Inclusion.isEmpty, localIds]

theorem isWildcard_of_localIds (h : c.localIds k .any = [.wildcard]) : c.isWildcard k = true := by
  unfold isWildcard
  split
  case h_1 text hvalue => simp [localIds, listed, hvalue] at h
  case h_2 hother => simpa using h

/-- Outside `any` every listed id is plain. -/
theorem Grammatical.plain_of_localIds (h : c.Grammatical k) (hpart : part ≠ .any) {id : StreamId}
    (hid : id ∈ c.localIds k part) : id.Plain k.marker := by
  obtain ⟨full, hfull, rfl⟩ := List.mem_map.mp hid
  exact (h.admitted part full hfull).resolve_right fun halone => hpart halone.2.1

/-- The ids that a valid clause includes are plain. -/
theorem Grammatical.plain_of_included (h : c.Grammatical k) {id : StreamId}
    (hid : id ∈ (c.bound k).anyIds ++ (c.bound k).all) : id.Plain k.marker := by
  rcases List.mem_append.mp hid with hany | hall
  · have hlisted : c.isWildcard k = false ∧ id ∈ c.localIds k .any := by
      unfold QueryClause.anyIds bound inclusion at hany
      cases hw : c.isWildcard k with
      | true => simp [hw, Inclusion.listed] at hany
      | false => cases hvalue : c.get? .any <;> simp_all [Inclusion.listed]
    obtain ⟨full, hfull, rfl⟩ := List.mem_map.mp hlisted.2
    refine (h.admitted .any full hfull).resolve_right fun halone => ?_
    -- an id that is the wildcard stands alone, and then the clause lists no id
    have hwild : c.isWildcard k = true :=
      isWildcard_of_localIds (by rw [localIds, halone.2.2, List.map_singleton, halone.1])
    rw [hlisted.1] at hwild
    cases hwild
  · exact h.plain_of_localIds (by simp) hall

end RawClause

namespace Validation

variable {k : Conventions} {clause c : RawClause} {part : Combinator} {bound bound' : Binding}
  {ids : List StreamId}

theorem idFault?_eq_none_iff (marker : Char) (id : StreamId) :
    idFault? marker id = none ↔ id.Plain marker := by
  have hbody : idFault? marker id = none ↔ (Marker.cut marker id.text.toList).2 ≠ [] ∧
      ∀ c ∈ (Marker.cut marker id.text.toList).2,
        c ≠ marker ∧ c ≠ '*' ∧ isForbidden c = false := by
    unfold idFault?
    generalize (Marker.cut marker id.text.toList).2 = body
    simp only [ite_eq_iff, reduceCtorEq, and_false, false_or, Option.map_eq_none_iff,
      List.find?_eq_none, List.contains_eq_mem, decide_eq_true_eq, List.isEmpty_iff,
      Bool.not_eq_true]
    constructor
    · rintro ⟨-, hne, hmarker, hstar, hforbidden⟩
      exact ⟨hne, fun c hc => ⟨fun h => hmarker (h ▸ hc), fun h => hstar (h ▸ hc), hforbidden c hc⟩⟩
    · rintro ⟨hne, hchars⟩
      refine ⟨?_, hne, fun h => (hchars _ h).1 rfl, fun h => (hchars _ h).2.1 rfl,
        fun c hc => (hchars c hc).2.2⟩
      rintro rfl
      exact (hchars '*' List.mem_cons_self).2.1 rfl
  rw [hbody]
  constructor
  · intro hplain
    exact ⟨_, _, (Marker.cut_append marker id.text.toList).symm, Marker.cut_fst marker _, hplain⟩
  · intro hplain
    obtain ⟨head, body, htext, hhead, hne, hchars⟩ := hplain
    have hfirst : body.head? ≠ some marker := fun h => (hchars _ (List.mem_of_head? h)).1 rfl
    rw [htext, Marker.cut_append_of_head? hhead hfirst]
    exact ⟨hne, hchars⟩

theorem checkId_eq_ok_iff (full : String) (alone : Bool) (id : StreamId) :
    checkId k clause part alone full id = .ok () ↔
      id.Plain k.marker ∨ id = .wildcard ∧ part = .any ∧ alone = true := by
  by_cases hw : id = .wildcard
  · have hplain : ¬ id.Plain k.marker := fun h => h.ne_wildcard hw
    by_cases hpart : part = .any <;> cases alone <;> simp [checkId, hw, hpart, hw ▸ hplain]
  · rw [← idFault?_eq_none_iff]
    cases hfault : idFault? k.marker id <;> simp [checkId, hw, hfault]

/-- A list of ids binds a clause to the store of its first id, unless the clause is bound already,
and no id lies in another store. -/
def BindsTo (k : Conventions) (bound : Binding) (fulls : List String) (bound' : Binding) : Prop :=
  bound' = bound.or (fulls.head?.map fun full => (k.storeOf full, full)) ∧
    ∀ full ∈ fulls, bound'.map Prod.fst = some (k.storeOf full)

theorem bindsTo_nil_iff : BindsTo k bound [] bound' ↔ bound' = bound := by
  simp [BindsTo]

theorem bindsTo_append_iff (xs ys : List String) :
    BindsTo k bound (xs ++ ys) bound' ↔
      ∃ mid, BindsTo k bound xs mid ∧ BindsTo k mid ys bound' := by
  cases xs with
  | nil => simp [bindsTo_nil_iff]
  | cons x xs =>
    -- the first id binds the clause, and the binding stays
    have hsome : ∃ b, bound.or (some (k.storeOf x, x)) = some b := by cases bound <;> simp
    obtain ⟨b, hb⟩ := hsome
    simp only [BindsTo, List.cons_append, List.head?_cons, Option.map_some, hb]
    constructor
    · rintro ⟨rfl, hall⟩
      exact ⟨some b, ⟨rfl, fun full hfull => hall full (List.mem_append_left ys hfull)⟩, rfl,
        fun full hfull => hall full (List.mem_append_right (x :: xs) hfull)⟩
    · rintro ⟨_, ⟨rfl, hxs⟩, rfl, hys⟩
      exact ⟨rfl, fun full hfull => (List.mem_append.mp hfull).elim (hxs full) (hys full)⟩

/-- The ids of a clause bind it to the store in which all of them lie. -/
theorem bindsTo_none_iff (fulls : List String) : BindsTo k none fulls bound' ↔
    bound' = fulls.head?.map (fun full => (k.storeOf full, full)) ∧
      ∀ full ∈ fulls, ∀ full' ∈ fulls, k.storeOf full = k.storeOf full' := by
  unfold BindsTo
  rw [Option.none_or]
  refine and_congr_right ?_
  rintro rfl
  cases fulls with
  | nil => simp
  | cons first rest =>
    simp only [List.head?_cons, Option.map_some, Option.some.injEq]
    constructor
    · exact fun h full hfull full' hfull' => (h full hfull).symm.trans (h full' hfull')
    · exact fun h full hfull => h first List.mem_cons_self full hfull

theorem bindStore_eq_ok_iff (full : String) :
    bindStore clause full (k.storeOf full) bound = .ok bound' ↔ BindsTo k bound [full] bound' := by
  cases bound with
  | none =>
    simp only [bindStore, BindsTo, Except.ok.injEq, Option.none_or, List.head?_cons,
      Option.map_some, List.mem_singleton, forall_eq]
    constructor
    · rintro rfl
      exact ⟨rfl, rfl⟩
    · exact fun h => h.1.symm
  | some b =>
    obtain ⟨store, first⟩ := b
    by_cases hstore : store = k.storeOf full
    · simp only [bindStore, BindsTo, hstore, if_true, Except.ok.injEq, Option.some_or,
        List.mem_singleton, forall_eq]
      constructor
      · rintro rfl
        exact ⟨rfl, rfl⟩
      · exact fun h => h.1.symm
    · simp only [bindStore, BindsTo, hstore, if_false, reduceCtorEq, false_iff, Option.some_or,
        List.mem_singleton, forall_eq]
      rintro ⟨rfl, hbound⟩
      exact hstore (Option.some.inj hbound)

theorem checkItems_cons (alone : Bool) (full : String) (items : List Json) :
    checkItems k clause part alone bound (.string full :: items) =
      bindStore clause full (k.storeOf full) bound >>= fun mid =>
      checkId k clause part alone full (k.split full).2 >>= fun _ =>
      checkItems k clause part alone mid items >>= fun rest =>
      .ok ((k.split full).2 :: rest.1, rest.2) := rfl

theorem checkItems_eq_ok_iff (alone : Bool) (items : List Json) :
    checkItems k clause part alone bound items = .ok (ids, bound') ↔
      ∃ fulls, items = fulls.map .string ∧ ids = fulls.map (fun full => (k.split full).2) ∧
        (∀ full ∈ fulls, (k.split full).2.Plain k.marker ∨
          (k.split full).2 = .wildcard ∧ part = .any ∧ alone = true) ∧
        BindsTo k bound fulls bound' := by
  induction items generalizing bound ids with
  | nil =>
    simp only [checkItems, Except.ok.injEq, Prod.mk.injEq]
    constructor
    · rintro ⟨rfl, rfl⟩
      exact ⟨[], rfl, rfl, by simp, bindsTo_nil_iff.mpr rfl⟩
    · rintro ⟨fulls, hfulls, rfl, -, hbinds⟩
      obtain rfl := List.map_eq_nil_iff.mp hfulls.symm
      exact ⟨rfl, (bindsTo_nil_iff.mp hbinds).symm⟩
  | cons item items ih =>
    cases item with
    | string full =>
      rw [checkItems_cons, bind_eq_ok_iff]
      simp only [bind_eq_ok_iff, bindStore_eq_ok_iff]
      constructor
      · rintro ⟨mid, hfirst, ⟨⟩, hchecked, ⟨rest, last⟩, hitems, heq⟩
        obtain ⟨rfl, rfl⟩ := Prod.mk.inj (Except.ok.inj heq)
        obtain ⟨fulls, rfl, rfl, hall, hrest⟩ := ih.mp hitems
        have hadmitted := (checkId_eq_ok_iff full alone _).mp hchecked
        exact ⟨full :: fulls, rfl, rfl, List.forall_mem_cons.mpr ⟨hadmitted, hall⟩,
          (bindsTo_append_iff [full] fulls).mpr ⟨mid, hfirst, hrest⟩⟩
      · rintro ⟨fulls, hitems, rfl, hall, hbinds⟩
        cases fulls with
        | nil => simp at hitems
        | cons first fulls =>
          obtain ⟨hfull, rfl⟩ := List.cons.inj hitems
          obtain rfl := Json.string.inj hfull
          obtain ⟨hadmitted, hall⟩ := List.forall_mem_cons.mp hall
          obtain ⟨mid, hfirst, hrest⟩ := (bindsTo_append_iff [full] fulls).mp hbinds
          exact ⟨mid, hfirst, (), (checkId_eq_ok_iff full alone _).mpr hadmitted, (_, _),
            ih.mpr ⟨fulls, rfl, rfl, hall, hrest⟩, rfl⟩
    | _ =>
      simp only [checkItems, reduceCtorEq, false_iff, not_exists]
      rintro fulls ⟨hitems, -⟩
      cases fulls <;> simp at hitems

theorem length_le_one_iff_of_mem {full : String} {fulls : List String} (h : full ∈ fulls) :
    fulls.length ≤ 1 ↔ fulls = [full] := by
  constructor
  · intro hlen
    match fulls, h, hlen with
    | [only], h, _ => rw [List.mem_singleton.mp h]
  · rintro rfl
    simp

/-- The ids that are read from the list under a combinator. -/
theorem checkPart_eq_ok_iff {value : Json} (hvalue : c.get? part = some value) :
    checkPart k c part bound value = .ok (ids, bound') ↔
      (∃ fulls, value = .ofStrings fulls) ∧ ids = c.localIds k part ∧
        (∀ full ∈ c.listed part, c.Admits k part full) ∧
        BindsTo k bound (c.listed part) bound' := by
  cases value with
  | array items =>
    rw [checkPart, checkItems_eq_ok_iff]
    have hread (fulls : List String) (hitems : items = fulls.map .string) :
        c.listed part = fulls ∧ ∀ full ∈ fulls,
          ((k.split full).2.Plain k.marker ∨
            (k.split full).2 = .wildcard ∧ part = .any ∧ decide (items.length ≤ 1) = true ↔
              c.Admits k part full) := by
      have hlisted : c.listed part = fulls :=
        RawClause.listed_of_get?_eq_ofStrings (by rw [hvalue, hitems]; rfl)
      refine ⟨hlisted, fun full hfull => ?_⟩
      rw [RawClause.Admits, hlisted, ← length_le_one_iff_of_mem hfull, hitems, List.length_map,
        decide_eq_true_eq]
    constructor
    · rintro ⟨fulls, hitems, rfl, hall, hbinds⟩
      obtain ⟨hlisted, hadmits⟩ := hread fulls hitems
      rw [RawClause.localIds, hlisted]
      exact ⟨⟨fulls, congrArg Json.array hitems⟩, rfl,
        fun full hfull => (hadmits full hfull).mp (hall full hfull), hbinds⟩
    · rintro ⟨⟨fulls, hfulls⟩, rfl, hall, hbinds⟩
      have hitems : items = fulls.map .string := Json.array.inj hfulls
      obtain ⟨hlisted, hadmits⟩ := hread fulls hitems
      rw [RawClause.localIds, hlisted]
      rw [hlisted] at hall hbinds
      exact ⟨fulls, hitems, rfl, fun full hfull => (hadmits full hfull).mpr (hall full hfull),
        hbinds⟩
  | _ => simp [checkPart, Json.ofStrings]

/-- An absent list is read like an empty one. -/
theorem checkOptionalPart_eq_ok_iff :
    checkOptionalPart k c part bound = .ok (ids, bound') ↔
      c.Lists k part ∧ ids = c.localIds k part ∧ BindsTo k bound (c.listed part) bound' := by
  unfold checkOptionalPart RawClause.Lists
  cases hvalue : c.get? part with
  | none =>
    simp [RawClause.localIds, RawClause.listed_of_get?_eq_none hvalue, bindsTo_nil_iff, eq_comm]
  | some value =>
    simp only [checkPart_eq_ok_iff hvalue, Option.some.injEq, forall_eq', and_assoc, and_left_comm]

theorem checkAny_eq_ok_iff {any : Option Inclusion} :
    checkAny k c = .ok (any, bound') ↔
      ((∀ value, c.get? .any = some value →
          (∃ fulls, value = .ofStrings fulls) ∨ value = .string "*") ∧
        ∀ full ∈ c.listed .any, c.Admits k .any full) ∧
        any = c.inclusion k ∧ BindsTo k none (c.listed .any) bound' := by
  unfold checkAny
  split
  case h_1 hnone =>
    have hlisted := RawClause.listed_of_get?_eq_none hnone
    simp [RawClause.inclusion, RawClause.isWildcard, RawClause.localIds, hnone, hlisted,
      bindsTo_nil_iff, eq_comm]
  case h_2 hstar =>
    have hlisted : c.listed .any = [] := by simp [RawClause.listed, hstar]
    simp [RawClause.inclusion, RawClause.isWildcard, hstar, hlisted, bindsTo_nil_iff, eq_comm]
  case h_3 value hother hvalue =>
    have hstar : value ≠ .string "*" := fun h => hother h
    have hinclusion : (∃ fulls, value = .ofStrings fulls) → c.inclusion k =
        some (if c.localIds k .any = [.wildcard] then .wildcard else .ids (c.localIds k .any)) := by
      rintro ⟨fulls, rfl⟩
      by_cases hwild : c.localIds k .any = [.wildcard] <;>
        simp [RawClause.inclusion, RawClause.isWildcard, hvalue, Json.ofStrings, hwild]
    simp only [bind_eq_ok_iff, hvalue, Option.some.injEq, forall_eq', hstar, or_false]
    constructor
    · rintro ⟨⟨ids, mid⟩, hpart, heq⟩
      obtain ⟨hstrings, rfl, hall, hbinds⟩ := (checkPart_eq_ok_iff hvalue).mp hpart
      obtain ⟨rfl, rfl⟩ := Prod.mk.inj (Except.ok.inj heq)
      exact ⟨⟨hstrings, hall⟩, (hinclusion hstrings).symm, hbinds⟩
    · rintro ⟨⟨hstrings, hall⟩, rfl, hbinds⟩
      exact ⟨(_, _), (checkPart_eq_ok_iff hvalue).mpr ⟨hstrings, rfl, hall, hbinds⟩,
        by rw [hinclusion hstrings]; rfl⟩

theorem checkProperties_eq_ok_iff : checkProperties c = .ok () ↔
    (∀ field ∈ c.fields, field.1 ∈ Combinator.keys) ∧
      ((c.get? .any).isSome = true ∨ (c.get? .all).isSome = true) := by
  unfold checkProperties
  split
  case isTrue hnone =>
    simp only [Bool.and_eq_true, Option.isNone_iff_eq_none] at hnone
    simp [hnone.1, hnone.2]
  case isFalse hsome =>
    have hsome : (c.get? .any).isSome = true ∨ (c.get? .all).isSome = true := by
      simpa [Option.isSome_iff_ne_none, imp_iff_not_or] using hsome
    cases hfind : c.fields.find? fun field => !Combinator.keys.contains field.1 with
    | none => simpa [hsome] using hfind
    | some field =>
      have hkey : ¬ ∀ field ∈ c.fields, field.1 ∈ Combinator.keys := by
        intro hkeys
        have hunknown := List.find?_some hfind
        simp [hkeys field (List.mem_of_find?_eq_some hfind)] at hunknown
      simp only [reduceCtorEq, hkey, false_and]

end Validation

open Validation in
theorem validateClause_eq (k : Conventions) (c : RawClause) :
    validateClause k c = checkProperties c >>= fun _ =>
      checkAny k c >>= fun any =>
      checkOptionalPart k c .all any.2 >>= fun all =>
      checkOptionalPart k c .not all.2 >>= fun not =>
      if any.1 = some .wildcard && (c.get? .all).isSome then .error (.clause c .wildcardWithAll)
      else if (any.1.map Inclusion.isEmpty).getD true && all.1.isEmpty then
        .error (.clause c .noStream)
      else .ok {
        store := (not.2.map (·.1)).getD k.defaultStore
        any := any.1
        all := all.1
        not := not.1 } := rfl

open Validation RawClause in
theorem validateClause_eq_ok_iff (k : Conventions) (c : RawClause) (p : QueryClause) :
    validateClause k c = .ok p ↔ c.Grammatical k ∧ p = c.bound k := by
  have halone : ¬ (c.inclusion k = some .wildcard && (c.get? .all).isSome) = true ↔
      (c.isWildcard k = true → c.get? .all = none) := by
    simp [inclusion_eq_wildcard_iff]
  have hnamed : ¬ (((c.inclusion k).map Inclusion.isEmpty).getD true &&
      (c.localIds k .all).isEmpty) = true ↔
      c.isWildcard k = true ∨ c.listed .any ≠ [] ∨ c.listed .all ≠ [] := by
    rw [Bool.and_eq_true, inclusion_isEmpty_iff, ← or_assoc]
    simp [localIds, imp_iff_not_or]
  rw [validateClause_eq, grammatical_iff]
  simp only [bind_eq_ok_iff, ite_eq_iff, reduceCtorEq, and_false, false_or, Except.ok.injEq]
  constructor
  · rintro ⟨⟨⟩, hproperties, ⟨any, first⟩, hany, ⟨all, second⟩, hall, ⟨not, last⟩, hnot,
      hguard, hguard', rfl⟩
    obtain ⟨hanylist, rfl, hanybinds⟩ := checkAny_eq_ok_iff.mp hany
    obtain ⟨halllist, rfl, hallbinds⟩ := checkOptionalPart_eq_ok_iff.mp hall
    obtain ⟨hnotlist, rfl, hnotbinds⟩ := checkOptionalPart_eq_ok_iff.mp hnot
    have hbinds : BindsTo k none c.ids last := (bindsTo_append_iff _ _).mpr
      ⟨_, (bindsTo_append_iff _ _).mpr ⟨_, hanybinds, hallbinds⟩, hnotbinds⟩
    obtain ⟨rfl, hstores⟩ := (bindsTo_none_iff c.ids).mp hbinds
    refine ⟨⟨checkProperties_eq_ok_iff.mp hproperties, hanylist, halllist, hnotlist, hstores,
      halone.mp hguard, hnamed.mp hguard'⟩, ?_⟩
    simp only [RawClause.bound, Option.map_map, Function.comp_def]
  · rintro ⟨⟨hproperties, hanylist, halllist, hnotlist, hstores, hwild, hnames⟩, rfl⟩
    obtain ⟨second, hbinds, hnotbinds⟩ := (bindsTo_append_iff _ _).mp
      ((bindsTo_none_iff c.ids).mpr ⟨rfl, hstores⟩)
    obtain ⟨first, hanybinds, hallbinds⟩ := (bindsTo_append_iff _ _).mp hbinds
    refine ⟨(), checkProperties_eq_ok_iff.mpr hproperties,
      (_, first), checkAny_eq_ok_iff.mpr ⟨hanylist, rfl, hanybinds⟩,
      (_, second), checkOptionalPart_eq_ok_iff.mpr ⟨halllist, rfl, hallbinds⟩,
      (_, _), checkOptionalPart_eq_ok_iff.mpr ⟨hnotlist, rfl, hnotbinds⟩,
      halone.mpr hwild, hnamed.mpr hnames, ?_⟩
    simp only [RawClause.bound, Option.map_map, Function.comp_def]

theorem validate_eq_ok_iff (k : Conventions) (clauses : List RawClause) (ps : List QueryClause) :
    validate k clauses = .ok ps ↔
      (∀ c ∈ clauses, c.Grammatical k) ∧ ps = clauses.map (RawClause.bound k) := by
  have hbound : List.Forall₂ (fun c p => p = RawClause.bound k c) clauses ps ↔
      ps = clauses.map (RawClause.bound k) := by
    simp only [eq_comm (b := RawClause.bound k _), eq_comm (a := ps)]
    rw [← List.forall₂_map_left_iff (f := RawClause.bound k) (R := Eq), List.forall₂_eq_eq_eq]
  simp only [validate, mapM_eq_ok_iff, validateClause_eq_ok_iff]
  rw [List.forall₂_and_left, hbound]

theorem exists_grammatical_of_validate {k : Conventions} {clauses : List RawClause}
    {ps : List QueryClause} (h : validate k clauses = .ok ps) {p : QueryClause} (hp : p ∈ ps) :
    ∃ c : RawClause, c.Grammatical k ∧ p = c.bound k := by
  obtain ⟨hgrammatical, rfl⟩ := (validate_eq_ok_iff k clauses ps).mp h
  obtain ⟨c, hc, rfl⟩ := List.mem_map.mp hp
  exact ⟨c, hgrammatical c hc, rfl⟩

/-- Validation accepts exactly the grammatical clauses, and what it makes of each is bound by it. -/
theorem validate_accepts_grammar (k : Conventions) (clauses : List RawClause) :
    ((∃ ps, validate k clauses = .ok ps) ↔ ∀ c ∈ clauses, c.Grammatical k) ∧
      ∀ ps, validate k clauses = .ok ps ↔
        List.Forall₂ (fun c p => c.Grammatical k ∧ c.Binds k p) clauses ps := by
  have hclause (c : RawClause) (p : QueryClause) :
      validateClause k c = .ok p ↔ c.Grammatical k ∧ c.Binds k p := by
    rw [validateClause_eq_ok_iff]
    exact and_congr_right fun h => (h.binds_iff p).symm
  refine ⟨by simp [validate_eq_ok_iff], fun ps => ?_⟩
  simp only [validate, mapM_eq_ok_iff, hclause]

end StreamScope
