import StreamScope.Proofs.Query.Grammar

/-!
Two spellings of an id. An id is spelled with a prefix when the prefix stands
behind an optional marker and something follows it. Of the two prefixes that
conventions may define neither begins the other or with the marker, so no id is
spelled with both, and each translation takes back what the other one did. Two ids
have one legacy spelling if they are equal or one of them is that of the other.
-/

namespace StreamScope

namespace LegacyPrefixes

variable {marker : Char} {old new id : String} {head rest : List Char} {p : LegacyPrefixes}

/-- The id is an optional marker, the prefix, and something behind it. -/
def Spells (marker : Char) (old id : String) : Prop :=
  ∃ head rest, id.toList = head ++ old.toList ++ rest ∧ (head = [] ∨ head = [marker]) ∧ rest ≠ []

/-- A prefix that can be told from a marker before it. -/
structure Findable (marker : Char) (old : String) : Prop where
  ne_nil : old.toList ≠ []
  head?_ne : old.toList.head? ≠ some marker

/-- Two prefixes that no id is spelled with at once. -/
structure Sound (marker : Char) (p : LegacyPrefixes) : Prop where
  legacy : Findable marker p.legacy
  current : Findable marker p.current
  legacy_not_prefix : ¬ p.legacy.toList <+: p.current.toList
  current_not_prefix : ¬ p.current.toList <+: p.legacy.toList

theorem fault?_eq_none_iff (marker : Char) (p : LegacyPrefixes) :
    p.fault? marker = none ↔ p.Sound marker := by
  have hsound : p.Sound marker ↔ (p.legacy.toList ≠ [] ∧ p.current.toList ≠ []) ∧
      (¬ p.legacy.toList <+: p.current.toList ∧ ¬ p.current.toList <+: p.legacy.toList) ∧
      p.legacy.toList.head? ≠ some marker ∧ p.current.toList.head? ≠ some marker := by
    constructor
    · exact fun h => ⟨⟨h.legacy.ne_nil, h.current.ne_nil⟩,
        ⟨h.legacy_not_prefix, h.current_not_prefix⟩, h.legacy.head?_ne, h.current.head?_ne⟩
    · rintro ⟨⟨hlegacy, hcurrent⟩, ⟨hnot, hnot'⟩, hfirst, hfirst'⟩
      exact ⟨⟨hlegacy, hfirst⟩, ⟨hcurrent, hfirst'⟩, hnot, hnot'⟩
  rw [hsound]
  unfold fault?
  simp only [ite_eq_iff, reduceCtorEq, and_false, false_or, Bool.or_eq_true, not_or,
    List.isEmpty_iff, List.isPrefixOf_iff_prefix, decide_eq_true_eq, and_true, ne_eq]

/-- The pair the other way round. -/
def swapped (p : LegacyPrefixes) : LegacyPrefixes := ⟨p.current, p.legacy⟩

theorem Sound.swapped (h : p.Sound marker) : p.swapped.Sound marker :=
  ⟨h.current, h.legacy, h.current_not_prefix, h.legacy_not_prefix⟩

theorem Findable.head?_append_ne (h : Findable marker old) (rest : List Char) :
    (old.toList ++ rest).head? ≠ some marker := by
  rw [List.head?_append_of_ne_nil _ h.ne_nil]
  exact h.head?_ne

/-- Behind its marker an id is read in one way. -/
theorem Findable.cut_eq (h : Findable marker old) (hhead : head = [] ∨ head = [marker])
    (rest : List Char) :
    Marker.cut marker (head ++ old.toList ++ rest) = (head, old.toList ++ rest) := by
  rw [List.append_assoc]
  exact Marker.cut_append_of_head? hhead (h.head?_append_ne rest)

theorem Findable.append_inj (h : Findable marker old) (h' : Findable marker new)
    {head' rest' : List Char} (hhead : head = [] ∨ head = [marker])
    (hhead' : head' = [] ∨ head' = [marker])
    (heq : head ++ old.toList ++ rest = head' ++ new.toList ++ rest') :
    head = head' ∧ old.toList ++ rest = new.toList ++ rest' := by
  have hcut := congrArg (Marker.cut marker) heq
  rw [h.cut_eq hhead, h'.cut_eq hhead'] at hcut
  exact Prod.mk.inj hcut

theorem swap_eq (h : Findable marker old) (hid : id.toList = head ++ old.toList ++ rest)
    (hhead : head = [] ∨ head = [marker]) (hrest : rest ≠ []) :
    swap marker old new id = String.ofList (head ++ new.toList ++ rest) := by
  have hlength : 0 < rest.length := List.length_pos_iff.mpr hrest
  unfold swap
  rw [hid, h.cut_eq hhead]
  simp [hlength]

theorem swap_of_not_spells (h : ¬ Spells marker old id) : swap marker old new id = id := by
  have happend := Marker.cut_append marker id.toList
  have hhead := Marker.cut_fst marker id.toList
  unfold swap
  cases hcut : Marker.cut marker id.toList with
  | mk head body =>
    rw [hcut] at happend hhead
    refine if_neg fun hfound => h ?_
    rw [Bool.and_eq_true, List.isPrefixOf_iff_prefix, decide_eq_true_eq] at hfound
    obtain ⟨⟨rest, rfl⟩, hlength⟩ := hfound
    refine ⟨head, rest, ?_, hhead, ?_⟩
    · rw [List.append_assoc]
      exact happend.symm
    · rintro rfl
      simp at hlength

theorem Findable.strip_eq {id : StreamId} (h : Findable marker old)
    (hid : id.text.toList = head ++ old.toList ++ rest) (hhead : head = [] ∨ head = [marker]) :
    (Marker.strip marker id).text = String.ofList (old.toList ++ rest) := by
  rw [Marker.strip, hid, h.cut_eq hhead]

theorem Spells.strip {id : StreamId} (h : Findable marker old) (hid : Spells marker old id.text) :
    Spells marker old (Marker.strip marker id).text := by
  obtain ⟨head, rest, htext, hhead, hrest⟩ := hid
  refine ⟨[], rest, ?_, .inl rfl, hrest⟩
  rw [h.strip_eq htext hhead, String.toList_ofList, List.nil_append]

/-- An id is marked in all its spellings or in none. -/
theorem isMarked_swap (h : Findable marker old) (h' : Findable marker new) (id : String) :
    Marker.isMarked marker ⟨swap marker old new id⟩ = Marker.isMarked marker ⟨id⟩ := by
  by_cases hspells : Spells marker old id
  · obtain ⟨head, rest, hid, hhead, hrest⟩ := hspells
    rw [swap_eq h hid hhead hrest]
    unfold Marker.isMarked
    dsimp only
    rw [hid, String.toList_ofList]
    rcases hhead with rfl | rfl
    · have hnew := decide_eq_false (h'.head?_append_ne rest)
      exact hnew.trans (decide_eq_false (h.head?_append_ne rest)).symm
    · rfl
  · rw [swap_of_not_spells hspells]

/-- The spelling changes behind the marker. -/
theorem swap_strip {id : StreamId} (h : Findable marker old) (h' : Findable marker new)
    (hid : Spells marker old id.text) :
    swap marker old new (Marker.strip marker id).text =
      (Marker.strip marker ⟨swap marker old new id.text⟩).text := by
  obtain ⟨head, rest, htext, hhead, hrest⟩ := hid
  have hnew : swap marker old new id.text = String.ofList (head ++ new.toList ++ rest) :=
    swap_eq h htext hhead hrest
  have hstripped : (Marker.strip marker id).text.toList = [] ++ old.toList ++ rest := by
    rw [h.strip_eq htext hhead, String.toList_ofList, List.nil_append]
  have hnewStripped : (Marker.strip marker ⟨String.ofList (head ++ new.toList ++ rest)⟩).text =
      String.ofList (new.toList ++ rest) :=
    h'.strip_eq String.toList_ofList hhead
  rw [swap_eq h hstripped (.inl rfl) hrest, hnew, hnewStripped, List.nil_append]

/-- What is spelled with one of the prefixes is not spelled with the other. -/
theorem Sound.not_spells_of_spells (hp : p.Sound marker) (h : Spells marker p.current id) :
    ¬ Spells marker p.legacy id := by
  rintro ⟨head, rest, hid, hhead, -⟩
  obtain ⟨head', rest', hid', hhead', -⟩ := h
  obtain ⟨-, hbody⟩ := hp.legacy.append_inj hp.current hhead hhead' (hid.symm.trans hid')
  have hlegacy : p.legacy.toList <+: p.current.toList ++ rest' := ⟨rest, hbody⟩
  rcases List.prefix_or_prefix_of_prefix hlegacy (List.prefix_append _ rest') with hpre | hpre
  · exact hp.legacy_not_prefix hpre
  · exact hp.current_not_prefix hpre

/-- An id in the legacy spelling loses it. -/
theorem Sound.spells_toCurrent (hp : p.Sound marker) (h : Spells marker p.legacy id) :
    Spells marker p.current (p.toCurrent marker id) := by
  obtain ⟨head, rest, hid, hhead, hrest⟩ := h
  refine ⟨head, rest, ?_, hhead, hrest⟩
  rw [toCurrent, swap_eq hp.legacy hid hhead hrest, String.toList_ofList]

theorem Sound.not_spells_toCurrent (hp : p.Sound marker) (id : String) :
    ¬ Spells marker p.legacy (p.toCurrent marker id) := by
  by_cases h : Spells marker p.legacy id
  · exact hp.not_spells_of_spells (hp.spells_toCurrent h)
  · rwa [toCurrent, swap_of_not_spells h]

/-- The current spelling of an id is the id unless this has the legacy one. -/
theorem Sound.toCurrent_eq_self_iff (hp : p.Sound marker) (id : String) :
    p.toCurrent marker id = id ↔ ¬ Spells marker p.legacy id := by
  constructor
  · intro heq
    rw [← heq]
    exact hp.not_spells_toCurrent id
  · exact swap_of_not_spells

theorem Sound.toCurrent_toCurrent (hp : p.Sound marker) (id : String) :
    p.toCurrent marker (p.toCurrent marker id) = p.toCurrent marker id :=
  (hp.toCurrent_eq_self_iff _).mpr (hp.not_spells_toCurrent id)

theorem Sound.toLegacy_toLegacy (hp : p.Sound marker) (id : String) :
    p.toLegacy marker (p.toLegacy marker id) = p.toLegacy marker id :=
  hp.swapped.toCurrent_toCurrent id

/-- The legacy spelling has the same current one. -/
theorem Sound.toCurrent_toLegacy (hp : p.Sound marker) (id : String) :
    p.toCurrent marker (p.toLegacy marker id) = p.toCurrent marker id := by
  by_cases h : Spells marker p.current id
  · rw [(hp.toCurrent_eq_self_iff id).mpr (hp.not_spells_of_spells h)]
    obtain ⟨head, rest, hid, hhead, hrest⟩ := h
    have hlegacy : (p.toLegacy marker id).toList = head ++ p.legacy.toList ++ rest := by
      rw [toLegacy, swap_eq hp.current hid hhead hrest, String.toList_ofList]
    rw [toCurrent, swap_eq hp.legacy hlegacy hhead hrest, ← hid, String.ofList_toList]
  · rw [toLegacy, swap_of_not_spells h]

/-- The current spelling of a legacy id goes back to it. -/
theorem Sound.toLegacy_toCurrent (hp : p.Sound marker) (h : Spells marker p.legacy id) :
    p.toLegacy marker (p.toCurrent marker id) = id :=
  (hp.swapped.toCurrent_toLegacy id).trans
    ((hp.swapped.toCurrent_eq_self_iff id).mpr (hp.swapped.not_spells_of_spells h))

/-- The legacy spelling of an id is the id, or has the id as its current one. -/
theorem Sound.eq_or_eq_of_toLegacy_eq (hp : p.Sound marker) {a b : String}
    (h : p.toLegacy marker a = b) : a = b ∨ a = p.toCurrent marker b := by
  by_cases ha : Spells marker p.current a
  · right
    rw [← h, hp.toCurrent_toLegacy]
    exact ((hp.toCurrent_eq_self_iff a).mpr (hp.not_spells_of_spells ha)).symm
  · left
    rw [← h]
    exact (swap_of_not_spells ha).symm

/-- An id that goes back to a legacy id does so without its marker too. -/
theorem Sound.toLegacy_strip (hp : p.Sound marker) {id : StreamId} {x : String}
    (hx : Spells marker p.legacy x) (h : p.toLegacy marker id.text = x) :
    p.toLegacy marker (Marker.strip marker id).text = (Marker.strip marker ⟨x⟩).text := by
  rcases hp.eq_or_eq_of_toLegacy_eq h with hid | hid
  · obtain ⟨text⟩ := id
    subst hid
    exact swap_of_not_spells (hp.swapped.not_spells_of_spells (hx.strip hp.legacy))
  · have hspells : Spells marker p.current id.text := hid ▸ hp.spells_toCurrent hx
    rw [← h]
    exact swap_strip hp.current hp.legacy hspells

/-- Ids share their legacy spelling if they are equal or one is the legacy spelling of the other. -/
theorem Sound.toLegacy_eq_toLegacy_iff (hp : p.Sound marker) (a b : String) :
    p.toLegacy marker a = p.toLegacy marker b ↔
      a = b ∨ a = p.toLegacy marker b ∨ b = p.toLegacy marker a := by
  constructor
  · intro heq
    by_cases ha : Spells marker p.current a
    · by_cases hb : Spells marker p.current b
      · -- both are their own current spelling, which the legacy one determines
        left
        rw [← (hp.toCurrent_eq_self_iff a).mpr (hp.not_spells_of_spells ha),
          ← (hp.toCurrent_eq_self_iff b).mpr (hp.not_spells_of_spells hb),
          ← hp.toCurrent_toLegacy a, ← hp.toCurrent_toLegacy b, heq]
      · have hself : p.toLegacy marker b = b := swap_of_not_spells hb
        exact .inr (.inr (hself.symm.trans heq.symm))
    · have hself : p.toLegacy marker a = a := swap_of_not_spells ha
      exact .inr (.inl (hself.symm.trans heq))
  · rintro (rfl | rfl | rfl)
    · rfl
    · exact hp.toLegacy_toLegacy b
    · exact (hp.toLegacy_toLegacy a).symm

end LegacyPrefixes

def systemPrefixes : LegacyPrefixes := ⟨".", ":_system:"⟩

namespace Conventions

open LegacyPrefixes

/-- Settings under which the parts of an id can be told apart. -/
structure Settings.Sound (s : Settings) : Prop where
  defaultStore_ne_nil : s.defaultStore.text.toList ≠ []
  delimiter_notMem : s.delimiter ∉ s.defaultStore.text.toList
  delimiter_free : isReserved s.delimiter = false
  marker_free : isReserved s.marker = false
  delimiter_ne_marker : s.delimiter ≠ s.marker
  aliases_ne_empty : "" ∉ s.aliases
  legacy : ∀ p, s.legacy = some p → p.Sound s.marker

theorem Settings.fault?_eq_none_iff (s : Settings) : s.fault? = none ↔ s.Sound := by
  unfold Settings.fault?
  simp only [ite_eq_iff, reduceCtorEq, and_false, false_or, List.isEmpty_iff, List.contains_eq_mem,
    decide_eq_true_eq, Bool.not_eq_true, Option.map_eq_none_iff, Option.bind_eq_none_iff,
    LegacyPrefixes.fault?_eq_none_iff]
  constructor
  · rintro ⟨hne, hfree, hdelimiter, hmarker, hdiffer, haliases, hlegacy⟩
    exact ⟨hne, hfree, hdelimiter, hmarker, hdiffer, haliases, hlegacy⟩
  · exact fun h => ⟨h.defaultStore_ne_nil, h.delimiter_notMem, h.delimiter_free, h.marker_free,
      h.delimiter_ne_marker, h.aliases_ne_empty, h.legacy⟩

theorem settings_sound (k : Conventions) : k.toSettings.Sound :=
  (Settings.fault?_eq_none_iff k.toSettings).mp k.sound

theorem marker_ne_star (k : Conventions) : k.marker ≠ '*' := by
  intro hstar
  have hfree := k.settings_sound.marker_free
  rw [hstar] at hfree
  revert hfree
  decide

theorem legacy_sound {k : Conventions} {p : LegacyPrefixes} (h : k.legacy = some p) :
    p.Sound k.marker :=
  k.settings_sound.legacy p h

/-- Each translation changes the ids in the other spelling and no others, keeps their marker, and
forgets what either of them did before it. -/
theorem translations_retract {k : Conventions} {p : LegacyPrefixes} (h : k.legacy = some p)
    (x : String) :
    (p.toCurrent k.marker (p.toCurrent k.marker x) = p.toCurrent k.marker x ∧
      p.toLegacy k.marker (p.toLegacy k.marker x) = p.toLegacy k.marker x ∧
      p.toCurrent k.marker (p.toLegacy k.marker x) = p.toCurrent k.marker x ∧
      p.toLegacy k.marker (p.toCurrent k.marker x) = p.toLegacy k.marker x) ∧
    ((k.isNoExpand ⟨x⟩ = true ↔ k.isNoExpand ⟨p.toCurrent k.marker x⟩ = true) ∧
      (k.isNoExpand ⟨x⟩ = true ↔ k.isNoExpand ⟨p.toLegacy k.marker x⟩ = true)) ∧
    (p.toCurrent k.marker x ≠ x ↔ Spells k.marker p.legacy x) ∧
      (p.toLegacy k.marker x ≠ x ↔ Spells k.marker p.current x) := by
  have hp := legacy_sound h
  refine ⟨⟨hp.toCurrent_toCurrent x, hp.toLegacy_toLegacy x, hp.toCurrent_toLegacy x,
    hp.swapped.toCurrent_toLegacy x⟩, ⟨?_, ?_⟩, ?_, ?_⟩
  · unfold isNoExpand toCurrent
    rw [isMarked_swap hp.legacy hp.current]
  · unfold isNoExpand toLegacy
    rw [isMarked_swap hp.current hp.legacy]
  · exact (not_congr (hp.toCurrent_eq_self_iff x)).trans not_not
  · exact (not_congr (hp.swapped.toCurrent_eq_self_iff x)).trans not_not

/-- A marked system stream, from its legacy spelling to the current one and back. -/
theorem translations_retract_account : standard.legacy = some systemPrefixes ∧
    (systemPrefixes.toCurrent '#' "#:_system:account" = "#:_system:account" ∧
      systemPrefixes.toLegacy '#' "#.account" = "#.account" ∧
      systemPrefixes.toCurrent '#' "#.account" = "#:_system:account" ∧
      systemPrefixes.toLegacy '#' "#:_system:account" = "#.account") ∧
    ((standard.isNoExpand ⟨"#.account"⟩ = true ↔
        standard.isNoExpand ⟨"#:_system:account"⟩ = true) ∧
      (standard.isNoExpand ⟨"#.account"⟩ = true ↔ standard.isNoExpand ⟨"#.account"⟩ = true)) ∧
    ("#:_system:account" ≠ "#.account" ↔ Spells '#' "." "#.account") ∧
      ("#.account" ≠ "#.account" ↔ Spells '#' ":_system:" "#.account") := by
  have hprefixes : standard.legacy = some systemPrefixes := rfl
  exact ⟨hprefixes, translations_retract hprefixes "#.account"⟩

end Conventions

end StreamScope
