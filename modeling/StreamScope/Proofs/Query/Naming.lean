import Mathlib.Data.List.TakeWhile
import StreamScope.Proofs.Query.Spelling

/-!
How an id names a store. The name stands between two delimiters, behind an
optional marker; it is not empty and no alias of the default store. An id that
names a store in this way lies there under what follows the name, which is
shorter than the id, and any other id lies in the default store as it is.
-/

namespace StreamScope

namespace Conventions

variable {k : Conventions} {full : String} {head store rest : List Char}

/-- The id is an optional marker, the name of a store between delimiters, and the rest. -/
structure Names (k : Conventions) (full : String) (head store rest : List Char) : Prop where
  text : full.toList = head ++ k.delimiter :: (store ++ k.delimiter :: rest)
  head : head = [] ∨ head = [k.marker]
  ne_nil : store ≠ []
  delimiter_notMem : k.delimiter ∉ store
  not_alias : String.ofList store ∉ k.aliases

def NamesStore (k : Conventions) (full : String) : Prop :=
  ∃ head store rest, k.Names full head store rest

theorem ne_delimiter_of_mem (h : k.delimiter ∉ store) :
    ∀ c ∈ store, decide (c ≠ k.delimiter) = true :=
  fun _ hc => decide_eq_true fun hdelimiter => h (hdelimiter ▸ hc)

theorem takeWhile_append_delimiter (h : k.delimiter ∉ store) (rest : List Char) :
    (store ++ k.delimiter :: rest).takeWhile (· ≠ k.delimiter) = store := by
  rw [List.takeWhile_append_of_pos (ne_delimiter_of_mem h)]
  simp

theorem dropWhile_append_delimiter (h : k.delimiter ∉ store) (rest : List Char) :
    (store ++ k.delimiter :: rest).dropWhile (· ≠ k.delimiter) = k.delimiter :: rest := by
  rw [List.dropWhile_append_of_pos (ne_delimiter_of_mem h)]
  simp

/-- Text before the first delimiter is told from what follows. -/
theorem append_delimiter_inj {store' rest' : List Char} (h : k.delimiter ∉ store)
    (h' : k.delimiter ∉ store')
    (heq : store ++ k.delimiter :: rest = store' ++ k.delimiter :: rest') :
    store = store' ∧ rest = rest' := by
  have hstore := congrArg (List.takeWhile (· ≠ k.delimiter)) heq
  rw [takeWhile_append_delimiter h, takeWhile_append_delimiter h'] at hstore
  subst hstore
  exact ⟨rfl, by simpa using heq⟩

theorem parts?_eq_some_iff (k : Conventions) (body store rest : List Char) :
    k.parts? body = some (store, rest) ↔
      body = k.delimiter :: (store ++ k.delimiter :: rest) ∧ store ≠ [] ∧
        k.delimiter ∉ store ∧ String.ofList store ∉ k.aliases := by
  constructor
  · intro h
    cases body with
    | nil => simp [parts?] at h
    | cons c after =>
      have happend := List.takeWhile_append_dropWhile (p := (· ≠ k.delimiter)) (l := after)
      have hfree : k.delimiter ∉ after.takeWhile (· ≠ k.delimiter) := fun hmem => by
        simpa using List.mem_takeWhile_imp hmem
      have hstop := List.head?_dropWhile_not (· ≠ k.delimiter) after
      cases hdrop : after.dropWhile (· ≠ k.delimiter) with
      | nil =>
        simp only [parts?, hdrop] at h
        cases h
      | cons d tail =>
        have hd : d = k.delimiter := by
          rw [hdrop] at hstop
          simpa using hstop
        simp only [parts?, hdrop, Option.ite_none_right_eq_some, Bool.and_eq_true,
          decide_eq_true_eq, Bool.not_eq_true', List.isEmpty_eq_false_iff,
          List.contains_eq_mem, decide_eq_false_iff_not, Option.some.injEq, Prod.mk.injEq] at h
        obtain ⟨⟨⟨rfl, hne⟩, halias⟩, rfl, rfl⟩ := h
        rw [hdrop, hd] at happend
        exact ⟨by rw [happend], hne, hfree, halias⟩
  · rintro ⟨rfl, hne, hfree, halias⟩
    simp only [parts?, takeWhile_append_delimiter hfree, dropWhile_append_delimiter hfree]
    simp [hne, halias]

/-- An id that names a store has two delimiters and the name. -/
theorem NamesStore.two_lt_length (h : k.NamesStore full) : 2 < full.toList.length := by
  obtain ⟨head, store, rest, hnames⟩ := h
  have hstore := List.length_pos_iff.mpr hnames.ne_nil
  rw [hnames.text]
  simp only [List.length_append, List.length_cons]
  omega

theorem Names.cut_eq (h : k.Names full head store rest) :
    Marker.cut k.marker full.toList =
      (head, k.delimiter :: (store ++ k.delimiter :: rest)) := by
  rw [h.text]
  refine Marker.cut_append_of_head? h.head fun hmarker => ?_
  exact k.settings_sound.delimiter_ne_marker (Option.some.inj hmarker)

/-- An id that names a store is there what stands behind the name, and without that the wildcard. -/
theorem Names.split_eq (h : k.Names full head store rest) :
    k.split full = (⟨String.ofList store⟩,
      ⟨String.ofList (head ++ if rest = [] then ['*'] else rest)⟩) := by
  have hparts := (k.parts?_eq_some_iff _ store rest).mpr
    ⟨rfl, h.ne_nil, h.delimiter_notMem, h.not_alias⟩
  simp only [split, h.cut_eq, hparts, List.isEmpty_iff]
  rfl

/-- Behind the name of a store the id is shorter than it was. -/
theorem Names.local_ne (h : k.Names full head store rest) : (k.split full).2.text ≠ full := by
  intro heq
  have hlength := congrArg (fun id => id.toList.length) heq
  simp only [h.split_eq, String.toList_ofList, h.text, List.length_append, List.length_cons]
    at hlength
  by_cases hrest : rest = []
  · simp [hrest] at hlength
  · simp [hrest] at hlength
    omega

/-- A text too long for the wildcard is left behind the name exactly if it stands there. -/
theorem Names.local_eq_iff (h : k.Names full head store rest) {tail : List Char}
    (htail : 1 < tail.length) :
    (k.split full).2.text = String.ofList (head ++ tail) ↔ rest = tail := by
  have hstar : tail ≠ ['*'] := by
    rintro rfl
    simp at htail
  have hnil : tail ≠ [] := by
    rintro rfl
    simp at htail
  rw [h.split_eq, String.ofList_inj, List.append_cancel_left_eq]
  by_cases hrest : rest = []
  · simp [hrest, hstar.symm, hnil.symm]
  · simp [hrest]

theorem split_of_not_namesStore (h : ¬ k.NamesStore full) :
    k.split full = (k.defaultStore, ⟨full⟩) := by
  have happend := Marker.cut_append k.marker full.toList
  have hhead := Marker.cut_fst k.marker full.toList
  have hparts : k.parts? (Marker.cut k.marker full.toList).2 = none := by
    rw [Option.eq_none_iff_forall_ne_some]
    rintro ⟨store, rest⟩ hsome
    obtain ⟨hbody, hne, hfree, halias⟩ := (k.parts?_eq_some_iff _ store rest).mp hsome
    exact h ⟨_, store, rest, by rw [← hbody, happend], hhead, hne, hfree, halias⟩
  simp only [split, hparts]

theorem split_star (k : Conventions) : k.split "*" = (k.defaultStore, .wildcard) := by
  refine split_of_not_namesStore fun hnames => ?_
  have hlength := hnames.two_lt_length
  have hone : "*".toList.length = 1 := rfl
  omega

/-- Nothing but the empty id is left empty. -/
theorem local_eq_nil_iff (k : Conventions) (full : String) :
    (k.split full).2.text.toList = [] ↔ full.toList = [] := by
  by_cases hnames : k.NamesStore full
  · obtain ⟨head, store, rest, h⟩ := hnames
    rw [h.split_eq, h.text]
    by_cases hrest : rest = [] <;> simp [hrest]
  · rw [split_of_not_namesStore hnames]

/-- No store is named where the alias of the default store stands in its place. -/
theorem not_namesStore_of_alias {name : String} (hname : name ∈ k.aliases)
    (hfree : k.delimiter ∉ name.toList) (hhead : head = [] ∨ head = [k.marker])
    (hfull : full.toList = head ++ k.delimiter :: (name.toList ++ k.delimiter :: rest)) :
    ¬ k.NamesStore full := by
  rintro ⟨head', store, rest', hnames⟩
  have hcut : Marker.cut k.marker full.toList =
      (head, k.delimiter :: (name.toList ++ k.delimiter :: rest)) := by
    rw [hfull]
    exact Marker.cut_append_of_head? hhead fun hmarker =>
      k.settings_sound.delimiter_ne_marker (Option.some.inj hmarker)
  have hbody := congrArg Prod.snd (hcut.symm.trans hnames.cut_eq)
  obtain ⟨hstore, -⟩ := append_delimiter_inj hfree hnames.delimiter_notMem (List.cons.inj hbody).2
  refine hnames.not_alias ?_
  rwa [← hstore, String.ofList_toList]

end Conventions

end StreamScope
