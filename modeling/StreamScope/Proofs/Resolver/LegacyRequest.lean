import StreamScope.Proofs.Query.Naming
import StreamScope.Proofs.Resolver.LegacyAnswer

/-!
A legacy id from the request to the answer. The request is put in the current
spelling first, and the id that results may name a store: then it is cut at the
name, and the current prefix with it. An answer goes back to the id that was sent
as long as no store is named, since the id is then kept whole; and where one is,
only if the current prefix is the default store's name before the legacy prefix.
-/

namespace StreamScope

open LegacyPrefixes Outcome StreamsParameter

variable {k : Conventions} {p : LegacyPrefixes} {x : String}

namespace RawClause

/-- A clause of one id is bound to the store of the id, and is the wildcard of the store or lists
the id alone. -/
theorem bound_ofIds_singleton (k : Conventions) (full : String) :
    (ofIds [full]).bound k = if (k.split full).2 = .wildcard then .wildcard (k.split full).1
      else .ofIds (k.split full).1 [(k.split full).2] := by
  have hany : (ofIds [full]).localIds k .any = [(k.split full).2] := by
    simp [localIds, listed_ofIds]
  have hwild : (ofIds [full]).isWildcard k = decide ((k.split full).2 = .wildcard) := by
    simp only [isWildcard, hany, List.cons.injEq, and_true]
    rfl
  by_cases h : (k.split full).2 = .wildcard
  · simp [bound, inclusion, ids_ofIds, hwild, h, localIds, listed_ofIds, Conventions.storeOf,
      QueryClause.wildcard]
  · have hsent : (ofIds [full]).get? .any = some (.ofStrings [full]) := rfl
    simp [bound, inclusion, ids_ofIds, hwild, hsent, h, localIds, listed_ofIds, Conventions.storeOf,
      QueryClause.ofIds]

end RawClause

/-- A request read as one id is that id in its current spelling. -/
theorem normalize_of_parse_singleton {raw : Option Json} (hk : k.legacy = some p)
    (hraw : parse raw = .ok (.ids [x])) (defaults : List RawClause) :
    normalize k defaults true raw = .ok [.ofIds [p.toCurrent k.marker x]] := by
  have hcurrent : currentSpelling k true x = p.toCurrent k.marker x := by
    simp [currentSpelling, hk]
  rw [normalize, hraw, ← hcurrent]
  rfl

namespace Conventions

variable {head store rest : List Char}

/-- The store that the current spelling of a legacy id names begins in the prefix. -/
theorem Names.of_toCurrent (hk : k.legacy = some p) (hx : Spells k.marker p.legacy x)
    (h : k.Names (p.toCurrent k.marker x) head store rest) :
    ∃ after, after ≠ [] ∧ x = String.ofList (head ++ (p.legacy.toList ++ after)) ∧
      p.current.toList ++ after = k.delimiter :: (store ++ k.delimiter :: rest) := by
  have hp := legacy_sound hk
  obtain ⟨before, after, hid, hbefore, hafter⟩ := hx
  have hfull : (p.toCurrent k.marker x).toList = before ++ p.current.toList ++ after := by
    rw [toCurrent, swap_eq hp.legacy hid hbefore hafter, String.toList_ofList]
  have hcut := h.cut_eq
  rw [hfull, hp.current.cut_eq hbefore after] at hcut
  obtain ⟨rfl, hbody⟩ := Prod.mk.inj hcut
  refine ⟨after, hafter, ?_, hbody⟩
  rw [← List.append_assoc, ← hid, String.ofList_toList]

/-- Where a store is named, a legacy id is found again in the default store only if the current
prefix is the name of that store before the legacy prefix. -/
theorem Names.restores_iff (hk : k.legacy = some p) (hx : Spells k.marker p.legacy x)
    (h : k.Names (p.toCurrent k.marker x) head store rest) :
    (k.split (p.toCurrent k.marker x)).1 = k.defaultStore ∧
        p.toLegacy k.marker (k.split (p.toCurrent k.marker x)).2.text = x ↔
      p.current.toList =
        k.delimiter :: (k.defaultStore.text.toList ++ k.delimiter :: p.legacy.toList) := by
  have hp := legacy_sound hk
  obtain ⟨after, hafter, hid, hbody⟩ := h.of_toCurrent hk hx
  have hstore : (k.split (p.toCurrent k.marker x)).1 = k.defaultStore ↔
      store = k.defaultStore.text.toList := by
    rw [h.split_eq]
    constructor
    · intro hdefault
      rw [← hdefault, String.toList_ofList]
    · rintro rfl
      rw [String.ofList_toList]
  have hback : p.toLegacy k.marker (k.split (p.toCurrent k.marker x)).2.text = x ↔
      (k.split (p.toCurrent k.marker x)).2.text = x := by
    refine ⟨fun hlegacy => ?_, fun hsame => ?_⟩
    · exact (hp.eq_or_eq_of_toLegacy_eq hlegacy).resolve_right h.local_ne
    · rw [hsame]
      exact swap_of_not_spells (hp.swapped.not_spells_of_spells hx)
  have hlocal : (k.split (p.toCurrent k.marker x)).2.text = x ↔
      rest = p.legacy.toList ++ after := by
    have hlegacy := List.length_pos_iff.mpr hp.legacy.ne_nil
    have hlength := List.length_pos_iff.mpr hafter
    have hlong : 1 < (p.legacy.toList ++ after).length := by
      rw [List.length_append]
      omega
    have hiff := h.local_eq_iff hlong
    rwa [← hid] at hiff
  rw [hstore, hback, hlocal]
  constructor
  · rintro ⟨rfl, rfl⟩
    apply List.append_cancel_right
    rw [hbody]
    simp
  · intro hcurrent
    rw [hcurrent] at hbody
    obtain ⟨hname, hrest⟩ := append_delimiter_inj k.settings_sound.delimiter_notMem
      h.delimiter_notMem (by simpa using hbody)
    exact ⟨hname.symm, hrest.symm⟩

/-- A legacy id is found again in the default store exactly if its current spelling names no store,
or the current prefix is the default store's name before the legacy prefix. -/
theorem split_toCurrent_iff (hk : k.legacy = some p) (hx : Spells k.marker p.legacy x) :
    (k.split (p.toCurrent k.marker x)).1 = k.defaultStore ∧
        p.toLegacy k.marker (k.split (p.toCurrent k.marker x)).2.text = x ↔
      ¬ k.NamesStore (p.toCurrent k.marker x) ∨ p.current.toList =
        k.delimiter :: (k.defaultStore.text.toList ++ k.delimiter :: p.legacy.toList) := by
  by_cases hnames : k.NamesStore (p.toCurrent k.marker x)
  · obtain ⟨head, store, rest, hparts⟩ := id hnames
    rw [hparts.restores_iff hk hx]
    simp only [hnames, not_true_eq_false, false_or]
  · have hback := (legacy_sound hk).toLegacy_toCurrent hx
    simp [split_of_not_namesStore hnames, hnames, hback]

/-- Where the current prefix begins with an alias between delimiters, no store is named. -/
theorem not_namesStore_toCurrent {name : String} (hk : k.legacy = some p)
    (hx : Spells k.marker p.legacy x) (hname : name ∈ k.aliases) (hfree : k.delimiter ∉ name.toList)
    (hcurrent : k.delimiter :: (name.toList ++ [k.delimiter]) <+: p.current.toList) :
    ¬ k.NamesStore (p.toCurrent k.marker x) := by
  obtain ⟨before, after, hid, hbefore, hafter⟩ := hx
  obtain ⟨more, hmore⟩ := hcurrent
  have hfull : (p.toCurrent k.marker x).toList =
      before ++ k.delimiter :: (name.toList ++ k.delimiter :: (more ++ after)) := by
    rw [toCurrent, swap_eq (legacy_sound hk).legacy hid hbefore hafter, String.toList_ofList,
      ← hmore]
    simp
  exact not_namesStore_of_alias hname hfree hbefore hfull

end Conventions

/-- A legacy id that a request may send goes to the store that its current spelling names, under
the id that is left there. It is in the default store and goes back to what was sent exactly if no
store is named, or if the current prefix is the default store's name before the legacy prefix. The
answer then shows the stream by the id that was sent, with its marker and without. A prefix that
begins with an alias names no store. -/
theorem legacy_request_returns_iff {raw : Option Json} {defaults : List RawClause}
    {ps : List QueryClause} (hk : k.legacy = some p) (hx : Spells k.marker p.legacy x)
    (hraw : parse raw = .ok (.ids [x]))
    (hps : (normalize k defaults true raw >>= validate k) = .ok ps) :
    ∃ store id, k.split (p.toCurrent k.marker x) = (store, id) ∧
      ps = [if id = .wildcard then .wildcard store else .ofIds store [id]] ∧
      (store = k.defaultStore ∧ p.toLegacy k.marker id.text = x ↔
        ¬ k.NamesStore (p.toCurrent k.marker x) ∨ p.current.toList =
          k.delimiter :: (k.defaultStore.text.toList ++ k.delimiter :: p.legacy.toList)) ∧
      (store = k.defaultStore → p.toLegacy k.marker id.text = x →
        ∀ r : Resolver, r.config.conventions = k → ∀ q, r.toLegacy q = q.mapIds r.shown ∧
          r.shown store id = ⟨x⟩ ∧ r.shown store (k.stripMarker id) = k.stripMarker ⟨x⟩) ∧
      ∀ name ∈ k.aliases, k.delimiter ∉ name.toList →
        k.delimiter :: (name.toList ++ [k.delimiter]) <+: p.current.toList →
          ¬ k.NamesStore (p.toCurrent k.marker x) := by
  refine ⟨(k.split (p.toCurrent k.marker x)).1, (k.split (p.toCurrent k.marker x)).2, rfl, ?_,
    Conventions.split_toCurrent_iff hk hx, ?_, fun name hname hfree hcurrent =>
      Conventions.not_namesStore_toCurrent hk hx hname hfree hcurrent⟩
  · rw [normalize_of_parse_singleton hk hraw] at hps
    have hbound := ((validate_eq_ok_iff k _ ps).mp hps).2
    rw [hbound, List.map_singleton, RawClause.bound_ofIds_singleton]
  · rintro hstore hback r rfl q
    have hstrip := (Conventions.legacy_sound hk).toLegacy_strip hx hback
    refine ⟨r.toLegacy_eq q, ?_, ?_⟩
    · simp [Resolver.shown, hk, hstore, hback]
    · simp only [Resolver.shown, hk, hstore, if_true, Conventions.stripMarker, hstrip]

/-- Under the standard conventions every legacy id is found again. -/
theorem standard_split_toCurrent (hx : Spells Conventions.standard.marker systemPrefixes.legacy x) :
    (Conventions.standard.split (systemPrefixes.toCurrent Conventions.standard.marker x)).1 =
        Conventions.standard.defaultStore ∧
      systemPrefixes.toLegacy Conventions.standard.marker (Conventions.standard.split
        (systemPrefixes.toCurrent Conventions.standard.marker x)).2.text = x := by
  have hnames : ¬ Conventions.standard.NamesStore
      (systemPrefixes.toCurrent Conventions.standard.marker x) :=
    Conventions.not_namesStore_toCurrent rfl hx (List.mem_cons_self : "_system" ∈ _) (by decide)
      ⟨[], by decide⟩
  exact (Conventions.split_toCurrent_iff rfl hx).mpr (.inl hnames)

/-- A marked system stream, which the answer shows without the marker. -/
theorem legacy_request_returns_account : Conventions.standard.legacy = some systemPrefixes ∧
    Spells Conventions.standard.marker systemPrefixes.legacy "#.account" ∧
    parse (some (.string "#.account")) = .ok (.ids ["#.account"]) ∧
    (normalize .standard [] true (some (.string "#.account")) >>= validate .standard) =
      .ok [.ofIds ⟨"local"⟩ [⟨"#:_system:account"⟩]] ∧
    ∃ store id, Conventions.standard.split
        (systemPrefixes.toCurrent Conventions.standard.marker "#.account") = (store, id) ∧
      [QueryClause.ofIds ⟨"local"⟩ [⟨"#:_system:account"⟩]] =
        [if id = .wildcard then .wildcard store else .ofIds store [id]] ∧
      (store = Conventions.standard.defaultStore ∧
          systemPrefixes.toLegacy Conventions.standard.marker id.text = "#.account" ↔
        ¬ Conventions.standard.NamesStore
          (systemPrefixes.toCurrent Conventions.standard.marker "#.account") ∨
        systemPrefixes.current.toList = Conventions.standard.delimiter ::
          (Conventions.standard.defaultStore.text.toList ++
            Conventions.standard.delimiter :: systemPrefixes.legacy.toList)) ∧
      (store = Conventions.standard.defaultStore →
        systemPrefixes.toLegacy Conventions.standard.marker id.text = "#.account" →
        ∀ r : Resolver, r.config.conventions = .standard → ∀ q, r.toLegacy q = q.mapIds r.shown ∧
          r.shown store id = ⟨"#.account"⟩ ∧
          r.shown store (Conventions.standard.stripMarker id) =
            Conventions.standard.stripMarker ⟨"#.account"⟩) ∧
      ∀ name ∈ Conventions.standard.aliases, Conventions.standard.delimiter ∉ name.toList →
        Conventions.standard.delimiter :: (name.toList ++ [Conventions.standard.delimiter]) <+:
          systemPrefixes.current.toList → ¬ Conventions.standard.NamesStore
            (systemPrefixes.toCurrent Conventions.standard.marker "#.account") := by
  have hspells : Spells Conventions.standard.marker systemPrefixes.legacy "#.account" :=
    ⟨['#'], "account".toList, by decide, .inr rfl, by decide⟩
  have hvalid : (normalize .standard [] true (some (.string "#.account")) >>= validate .standard) =
      .ok [.ofIds ⟨"local"⟩ [⟨"#:_system:account"⟩]] :=
    toOption_eq_some_iff.mp (by decide +kernel)
  exact ⟨rfl, hspells, rfl, hvalid, legacy_request_returns_iff rfl hspells rfl hvalid⟩

/-- Prefixes of which the current one names another store. -/
def foreignPrefixes : LegacyPrefixes := ⟨".", ":dummy:"⟩

def foreignConventions : Conventions := ⟨{ legacy := some foreignPrefixes }, by decide +kernel⟩

/-- Prefixes of which the legacy one opens a list. -/
def openingPrefixes : LegacyPrefixes := ⟨"[", ":_system:"⟩

def openingConventions : Conventions := ⟨{ legacy := some openingPrefixes }, by decide +kernel⟩

/-- A legacy id is read in a store where it has no legacy spelling, and one that opens a list is
not read as an id. -/
theorem legacy_request_goes_astray :
    (Conventions.Settings.build { legacy := some foreignPrefixes } = .ok foreignConventions ∧
      Spells foreignConventions.marker foreignPrefixes.legacy ".diary" ∧
      (normalize foreignConventions [] true (some (.string ".diary")) >>=
        validate foreignConventions) = .ok [.ofIds ⟨"dummy"⟩ [⟨"diary"⟩]] ∧
      ⟨"dummy"⟩ ≠ foreignConventions.defaultStore ∧
      foreignPrefixes.toLegacy foreignConventions.marker "diary" ≠ ".diary") ∧
    Conventions.Settings.build { legacy := some openingPrefixes } = .ok openingConventions ∧
      Spells openingConventions.marker openingPrefixes.legacy "[\"diary\"]" ∧
      (normalize openingConventions [] true (some (.string "[\"diary\"]")) >>=
        validate openingConventions) = .ok [.ofIds ⟨"local"⟩ [⟨"diary"⟩]] ∧
      openingPrefixes.toLegacy openingConventions.marker "diary" ≠ "[\"diary\"]" := by
  have hforeign : Spells foreignConventions.marker foreignPrefixes.legacy ".diary" :=
    ⟨[], "diary".toList, by decide, .inl rfl, by decide⟩
  have hastray : (normalize foreignConventions [] true (some (.string ".diary")) >>=
      validate foreignConventions) = .ok [.ofIds ⟨"dummy"⟩ [⟨"diary"⟩]] :=
    toOption_eq_some_iff.mp (by decide +kernel)
  have hopening : Spells openingConventions.marker openingPrefixes.legacy "[\"diary\"]" :=
    ⟨[], "\"diary\"]".toList, by decide, .inl rfl, by decide⟩
  have hlist : (normalize openingConventions [] true (some (.string "[\"diary\"]")) >>=
      validate openingConventions) = .ok [.ofIds ⟨"local"⟩ [⟨"diary"⟩]] :=
    toOption_eq_some_iff.mp (by decide +kernel)
  exact ⟨⟨rfl, hforeign, hastray, by decide, by decide +kernel⟩,
    rfl, hopening, hlist, by decide +kernel⟩

end StreamScope
