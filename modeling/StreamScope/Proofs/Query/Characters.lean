import StreamScope.Proofs.Query.Grouping
import StreamScope.Proofs.Query.Naming

/-!
Forbidden characters. Validation looks for them in the local part of an id, behind
the name of a store. So the local parts of an accepted clause are free of them, and
so are the delimiter and the marker; but the name of a store is never looked at,
and there any character gets through.
-/

namespace StreamScope

open Validation

theorem Conventions.isForbidden_of_not_isReserved {x : Char} (h : isReserved x = false) :
    isForbidden x = false := by
  simp only [isReserved, isForbidden, Bool.or_eq_false_iff, List.contains_eq_mem, List.mem_cons,
    decide_eq_false_iff_not, not_or] at h ⊢
  exact ⟨h.1, h.2.2⟩

namespace Conventions

variable {k : Conventions} {full full' : String} {head name name' rest : List Char} {x : Char}

/-- The local part is one that validation accepts in some place. -/
def LocalAccepted (k : Conventions) (full : String) : Prop :=
  (k.split full).2.Plain k.marker ∨ (k.split full).2 = .wildcard

/-- The character stands in the name of the store. -/
def InName (k : Conventions) (full : String) (x : Char) : Prop :=
  ∃ head name rest, k.Names full head name rest ∧ x ∈ name

theorem LocalAccepted.isForbidden_eq_false (h : k.LocalAccepted full)
    (hx : x ∈ (k.split full).2.text.toList) : isForbidden x = false := by
  rcases h with ⟨head, body, htext, hhead, -, hbody⟩ | hwild
  · rw [htext] at hx
    rcases List.mem_append.mp hx with hmem | hmem
    · rcases hhead with rfl | rfl
      · cases hmem
      · rw [List.mem_singleton.mp hmem]
        exact isForbidden_of_not_isReserved k.settings_sound.marker_free
    · exact (hbody x hmem).2.2
  · rw [hwild] at hx
    rw [List.mem_singleton.mp hx]
    decide

/-- What is forbidden in an id can stand only in the name of its store. -/
theorem LocalAccepted.mem_iff_inName (h : k.LocalAccepted full) (hx : isForbidden x = true) :
    x ∈ full.toList ↔ k.InName full x := by
  constructor
  · intro hmem
    have hlocal : x ∉ (k.split full).2.text.toList := fun hlocal => by
      simp [h.isForbidden_eq_false hlocal] at hx
    have hfree (d : Char) (hd : isReserved d = false) : x ≠ d := by
      rintro rfl
      simp [isForbidden_of_not_isReserved hd] at hx
    by_cases hnames : k.NamesStore full
    · obtain ⟨head, name, rest, hparts⟩ := hnames
      refine ⟨head, name, rest, hparts, ?_⟩
      rw [hparts.split_eq, String.toList_ofList, List.mem_append, not_or] at hlocal
      have hrest : x ∉ rest := by
        intro hmem
        rw [if_neg (List.ne_nil_of_mem hmem)] at hlocal
        exact hlocal.2 hmem
      have hdelimiter := hfree k.delimiter k.settings_sound.delimiter_free
      simpa [hparts.text, hlocal.1, hrest, hdelimiter] using hmem
    · rw [split_of_not_namesStore hnames] at hlocal
      exact absurd hmem hlocal
  · rintro ⟨head, name, rest, hparts, hname⟩
    simp [hparts.text, hname]

/-- The local part does not depend on the name. -/
theorem Names.localAccepted_iff (h : k.Names full head name rest)
    (h' : k.Names full' head name' rest) : k.LocalAccepted full ↔ k.LocalAccepted full' := by
  rw [LocalAccepted, LocalAccepted, h.split_eq, h'.split_eq]

end Conventions

namespace RawClause

variable {k : Conventions} {c : RawClause} {full : String}

/-- The clause holds the id in a list, or as a text in place of one. -/
def Sends (c : RawClause) (full : String) : Prop :=
  ∃ part, full ∈ c.listed part ∨ c.get? part = some (.string full)

theorem Grammatical.localAccepted (h : c.Grammatical k) (hfull : c.Sends full) :
    k.LocalAccepted full := by
  obtain ⟨part, hlisted | htext⟩ := hfull
  · exact (h.admitted part full hlisted).imp id And.left
  · rcases h.lists part _ htext with ⟨fulls, hfulls⟩ | ⟨-, hstar⟩
    · cases hfulls
    · obtain rfl := Json.string.inj hstar
      exact .inr (by rw [k.split_star])

end RawClause

/-- In an accepted clause a forbidden character stands exactly where the name of a store holds it,
so the clause is free of them exactly if the names in its ids are. And no name is looked at: of two
ids that differ in it both are accepted or none. -/
theorem forbidden_iff_in_name (k : Conventions) :
    (∀ clauses ps, validate k clauses = .ok ps → ∀ c ∈ clauses,
      (∀ full, c.Sends full → ∀ x, isForbidden x = true →
        (x ∈ full.toList ↔ k.InName full x)) ∧
      ((∀ full, c.Sends full → ∀ x ∈ full.toList, isForbidden x = false) ↔
        ∀ full, c.Sends full → ∀ x, k.InName full x → isForbidden x = false)) ∧
    ∀ full full' head name name' rest, k.Names full head name rest →
      k.Names full' head name' rest →
        ((∃ p, validate k [.ofIds [full]] = .ok [p]) ↔
          ∃ p, validate k [.ofIds [full']] = .ok [p]) := by
  constructor
  · intro clauses ps h c hc
    have hgrammatical := ((validate_eq_ok_iff k clauses ps).mp h).1 c hc
    have hmem (full : String) (hfull : c.Sends full) (x : Char) (hx : isForbidden x = true) :=
      (hgrammatical.localAccepted hfull).mem_iff_inName hx
    refine ⟨hmem, ?_, ?_⟩
    · rintro hclean full hfull x ⟨head, name, rest, hparts, hname⟩
      exact hclean full hfull x (by simp [hparts.text, hname])
    · intro hnames full hfull x hx
      by_contra hforbidden
      rw [Bool.not_eq_false] at hforbidden
      have hclean := hnames full hfull x ((hmem full hfull x hforbidden).mp hx)
      simp [hclean] at hforbidden
  · intro full full' head name name' rest h h'
    rw [exists_validate_alone_iff, exists_validate_alone_iff]
    exact h.localAccepted_iff h'

/-- The blank of a marked id stands in the name of its store, and the id is accepted with the blank
as it is without. -/
theorem forbidden_iff_in_name_blank :
    validate .standard [.ofIds ["#:my store:a"]] = .ok [.ofIds ⟨"my store"⟩ [⟨"#a"⟩]] ∧
    (RawClause.ofIds ["#:my store:a"]).Sends "#:my store:a" ∧
    Conventions.standard.InName "#:my store:a" ' ' ∧ ' ' ∈ "#:my store:a".toList ∧
    ∃ p, validate .standard [.ofIds ["#:mystore:a"]] = .ok [p] := by
  have hvalid : validate .standard [.ofIds ["#:my store:a"]] =
      .ok [.ofIds ⟨"my store"⟩ [⟨"#a"⟩]] := rfl
  have hsends : (RawClause.ofIds ["#:my store:a"]).Sends "#:my store:a" :=
    ⟨.any, .inl List.mem_cons_self⟩
  have hnames : Conventions.standard.Names "#:my store:a" ['#'] "my store".toList ['a'] :=
    ⟨by decide, .inr rfl, by decide, by decide, by decide⟩
  have hnames' : Conventions.standard.Names "#:mystore:a" ['#'] "mystore".toList ['a'] :=
    ⟨by decide, .inr rfl, by decide, by decide, by decide⟩
  have hname : Conventions.standard.InName "#:my store:a" ' ' := ⟨_, _, _, hnames, by decide⟩
  have hclause := (forbidden_iff_in_name .standard).1 _ _ hvalid _ List.mem_cons_self
  have hother := (forbidden_iff_in_name .standard).2 _ _ _ _ _ _ hnames hnames'
  exact ⟨hvalid, hsends, hname, (hclause.1 _ hsends ' ' rfl).mpr hname, hother.mp ⟨_, hvalid⟩⟩

/-- A blank in the name of a store is accepted, and one in the local part is not. -/
theorem blank_in_name_accepted :
    validate .standard [.ofIds [":my store:a"]] = .ok [.ofIds ⟨"my store"⟩ [⟨"a"⟩]] ∧
    (RawClause.ofIds [":my store:a"]).Sends ":my store:a" ∧ ' ' ∈ ":my store:a".toList ∧
    isForbidden ' ' = true ∧ validate .standard [.ofIds [":store:my a"]] =
      .error (.id ":store:my a" (.forbiddenCharacter ' ')) :=
  ⟨rfl, ⟨.any, .inl List.mem_cons_self⟩, by decide, rfl, rfl⟩

end StreamScope
