import StreamScope.Proofs.Json.Reading
import StreamScope.Proofs.Outcome
import StreamScope.Proofs.Query.Spelling

/-!
Conventions in the form in which they are stored. All settings are written, the
absence of legacy prefixes as null, and each of them is read back. What is read
is built as settings are that are given directly, so a stored form leads to
conventions exactly if it has the shape of settings and these are sound.
-/

namespace StreamScope

open Json Outcome

theorem LegacyPrefixes.ofJson?_toJson (source : Source) (p : LegacyPrefixes) :
    LegacyPrefixes.ofJson? source p.toJson = some p := by
  simp [LegacyPrefixes.ofJson?, LegacyPrefixes.toJson, record?_ofFields, lookup?, Json.required,
    asString?]

namespace Conventions

variable {source : Source} {j : Json} {s : Settings} {k : Conventions}

theorem Settings.build_eq_ok_iff : s.build = .ok k ↔ k.toSettings = s := by
  unfold Settings.build
  split
  case h_1 hsound =>
    constructor
    · intro h
      rw [← Except.ok.inj h]
    · rintro rfl
      rfl
  case h_2 fault hfault =>
    refine iff_of_false nofun ?_
    rintro rfl
    rw [k.sound] at hfault
    cases hfault

theorem Settings.exists_build_iff (s : Settings) : (∃ k, s.build = .ok k) ↔ s.Sound := by
  rw [← Settings.fault?_eq_none_iff]
  constructor
  · rintro ⟨k, hk⟩
    exact Settings.build_eq_ok_iff.mp hk ▸ k.sound
  · exact fun hsound => ⟨⟨s, hsound⟩, Settings.build_eq_ok_iff.mpr rfl⟩

/-- Each field is written under its key, the absence of legacy prefixes as null. -/
theorem record?_toJson (source : Source) (k : Conventions) :
    k.toJson.record? source ["default_store", "store_delimiter", "no_expand_marker",
      "system_store_aliases", "legacy"] =
      some [some (.string k.defaultStore.text), some (.string (String.singleton k.delimiter)),
        some (.string (String.singleton k.marker)), some (.ofStrings k.aliases),
        some ((k.legacy.map LegacyPrefixes.toJson).getD .null)] := by
  rw [toJson, record?_ofFields]
  simp [lookup?]

theorem Settings.ofJson?_toJson (source : Source) (k : Conventions) :
    Settings.ofJson? source k.toJson = some k.toSettings := by
  have hstore : Json.nullable asString? (some (.string k.defaultStore.text)) =
      some (some k.defaultStore.text) := inverts_string.nullable nofun
  have hchar (c : Char) : Json.nullable asChar? (some (.string (String.singleton c))) =
      some (some c) := inverts_char.nullable nofun
  have haliases : Json.nullable (asList? asString?) (some (.ofStrings k.aliases)) =
      some (some k.aliases) := inverts_string.list.nullable nofun
  have hlegacy : Json.nullable (LegacyPrefixes.ofJson? source)
      (some ((k.legacy.map LegacyPrefixes.toJson).getD .null)) = some k.legacy := by
    cases k.legacy with
    | none => rfl
    | some p => exact congrArg (Option.map some) (LegacyPrefixes.ofJson?_toJson source p)
  simp only [Settings.ofJson?, record?_toJson, Option.bind_eq_bind, Option.bind_some, hstore, hchar,
    haliases, hlegacy, Option.map_some, Option.getD_some, Option.pure_def]

theorem ofJson_eq_ok_iff : ofJson source j = .ok k ↔
    ∃ s, Settings.ofJson? source j = some s ∧ s.build = .ok k := by
  unfold ofJson
  cases Settings.ofJson? source j with
  | none => simp
  | some s => simp [mapError_eq_ok_iff]

/-- Conventions that were built come back from their stored form. A stored form is read exactly if
it gives settings that are sound, as exactly those are that can be built directly, and it is read as
the conventions with these settings. -/
theorem stored_conventions_rebuilt (source : Source) :
    (∀ s k, Settings.build s = .ok k →
      k.toSettings = s ∧ Conventions.ofJson source k.toJson = .ok k) ∧
    (∀ s, (∃ k, Settings.build s = .ok k) ↔ s.Sound) ∧
    ∀ j k, Conventions.ofJson source j = .ok k ↔
      ∃ s, Settings.ofJson? source j = some s ∧ s.Sound ∧ k.toSettings = s := by
  refine ⟨fun s k hbuild => ⟨Settings.build_eq_ok_iff.mp hbuild, ?_⟩, Settings.exists_build_iff,
    fun j k => ?_⟩
  · exact ofJson_eq_ok_iff.mpr
      ⟨k.toSettings, Settings.ofJson?_toJson source k, Settings.build_eq_ok_iff.mpr rfl⟩
  · simp only [ofJson_eq_ok_iff, Settings.build_eq_ok_iff]
    refine exists_congr fun s => and_congr_right fun _ => (and_iff_right_of_imp ?_).symm
    rintro rfl
    exact k.settings_sound

/-- Other marks than the standard ones, and no legacy prefixes. -/
def plainSettings : Settings :=
  { delimiter := '/', marker := '!', aliases := [], legacy := none }

def plainConventions : Conventions := ⟨plainSettings, by decide +kernel⟩

/-- A stored form with one character for both marks. -/
def ambiguousForm : Json :=
  .object [("no_expand_marker", .string "/"), ("store_delimiter", .string "/")]

theorem stored_conventions_rebuilt_plain : plainSettings.build = .ok plainConventions ∧
    Conventions.ofJson .json plainConventions.toJson = .ok plainConventions ∧
    ∀ k, Conventions.ofJson .json ambiguousForm ≠ .ok k := by
  have hbuild : plainSettings.build = .ok plainConventions := Settings.build_eq_ok_iff.mpr rfl
  obtain ⟨hback, -, hread⟩ := stored_conventions_rebuilt .json
  refine ⟨hbuild, (hback _ _ hbuild).2, fun k hk => ?_⟩
  obtain ⟨s, hs, hsound, -⟩ := (hread _ _).mp hk
  have hsame : (Settings.ofJson? .json ambiguousForm).all fun s => s.delimiter = s.marker := by
    decide +kernel
  rw [hs] at hsame
  exact hsound.delimiter_ne_marker (of_decide_eq_true hsame)

end Conventions

end StreamScope
