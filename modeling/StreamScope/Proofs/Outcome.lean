import Mathlib.Data.List.Forall2
import Mathlib.Data.List.Permutation

/-!
Computations that may fail, read from their outcome: a composition succeeds when
its parts do and fails as the first of them that fails, a traversal succeeds when
every step does, and what each step of a fold keeps, the fold keeps. A step may
also report faults without failing; a traversal whose reports are all empty is
one in which no step has anything to report. Of two computations one lies below
the other if it fails or both succeed alike, and so do their compositions.
-/

namespace StreamScope.Outcome

variable {ε ε' α β γ : Type}

theorem bind_eq_ok_iff {x : Except ε α} {f : α → Except ε β} {b : β} :
    x >>= f = .ok b ↔ ∃ a, x = .ok a ∧ f a = .ok b := by
  cases x <;> simp [bind, Except.bind]

theorem map_eq_ok_iff {x : Except ε α} {f : α → β} {b : β} :
    x.map f = .ok b ↔ ∃ a, x = .ok a ∧ f a = b := by
  cases x <;> simp [Except.map]

theorem mapError_eq_ok_iff {x : Except ε α} {f : ε → ε'} {a : α} :
    x.mapError f = .ok a ↔ x = .ok a := by
  cases x <;> simp [Except.mapError]

theorem toOption_eq_some_iff {x : Except ε α} {a : α} : x.toOption = some a ↔ x = .ok a := by
  cases x <;> simp [Except.toOption]

theorem bind_eq_error_iff {x : Except ε α} {f : α → Except ε β} {e : ε} :
    x >>= f = .error e ↔ x = .error e ∨ ∃ a, x = .ok a ∧ f a = .error e := by
  cases x <;> simp [bind, Except.bind]

theorem map_eq_error_iff {x : Except ε α} {f : α → β} {e : ε} :
    x.map f = .error e ↔ x = .error e := by
  cases x <;> simp [Except.map]

theorem mapError_eq_error_iff {x : Except ε α} {f : ε → ε'} {e' : ε'} :
    x.mapError f = .error e' ↔ ∃ e, x = .error e ∧ f e = e' := by
  cases x <;> simp [Except.mapError]

theorem exists_zip_of_mem {R : α → β → Prop} {xs : List α} {ys : List β}
    (h : List.Forall₂ R xs ys) {x : α} (hx : x ∈ xs) : ∃ y, (x, y) ∈ xs.zip ys ∧ R x y := by
  induction h with
  | nil => simp at hx
  | @cons x' y xs ys hxy _ ih =>
    rcases List.mem_cons.mp hx with rfl | hx
    · exact ⟨y, List.mem_cons_self, hxy⟩
    · obtain ⟨y', hy', hrel⟩ := ih hx
      exact ⟨y', List.mem_cons_of_mem _ hy', hrel⟩

theorem exists_right_of_mem {R : α → β → Prop} {xs : List α} {ys : List β}
    (h : List.Forall₂ R xs ys) {x : α} (hx : x ∈ xs) : ∃ y ∈ ys, R x y := by
  obtain ⟨y, hzip, hxy⟩ := exists_zip_of_mem h hx
  exact ⟨y, (List.of_mem_zip hzip).2, hxy⟩

theorem exists_left_of_mem {R : α → β → Prop} {xs : List α} {ys : List β}
    (h : List.Forall₂ R xs ys) {y : β} (hy : y ∈ ys) : ∃ x ∈ xs, R x y :=
  exists_right_of_mem h.flip hy

theorem forall₂_toList {R : α → β → Prop} {a : Option α} {b : Option β} (h : Option.Rel R a b) :
    List.Forall₂ R a.toList b.toList := by
  cases h with
  | none => exact .nil
  | some hab => exact .cons hab .nil

/-- Two traversals of one list side by side. -/
theorem forall₂_zip {R : α → β → Prop} {S : α → γ → Prop} {xs : List α} {ys : List β}
    {zs : List γ} (hR : List.Forall₂ R xs ys) (hS : List.Forall₂ S xs zs) :
    List.Forall₂ (fun x yz => R x yz.1 ∧ S x yz.2) xs (ys.zip zs) := by
  induction hR generalizing zs with
  | nil => exact .nil
  | cons hxy _ ih =>
    cases hS with
    | cons hxz hS => exact .cons ⟨hxy, hxz⟩ (ih hS)

/-- Two traversals one after the other are one traversal. -/
theorem forall₂_comp_iff {R : α → β → Prop} {S : β → γ → Prop} (xs : List α) (zs : List γ) :
    (∃ ys, List.Forall₂ R xs ys ∧ List.Forall₂ S ys zs) ↔
      List.Forall₂ (fun x z => ∃ y, R x y ∧ S y z) xs zs := by
  constructor
  · intro hboth
    obtain ⟨ys, hR, hS⟩ := hboth
    induction hR generalizing zs with
    | nil =>
      cases hS
      exact .nil
    | cons hxy _ ih =>
      cases hS with
      | cons hyz hS => exact .cons ⟨_, hxy, hyz⟩ (ih _ hS)
  · intro h
    induction h with
    | nil => exact ⟨[], .nil, .nil⟩
    | cons hxz _ ih =>
      obtain ⟨y, hxy, hyz⟩ := hxz
      obtain ⟨ys, hR, hS⟩ := ih
      exact ⟨y :: ys, .cons hxy hR, .cons hyz hS⟩

/-- A traversal of two lists, one after the other, consists of a traversal of each. -/
theorem forall₂_append_iff {R : α → β → Prop} (xs more : List α) (zs : List β) :
    List.Forall₂ R (xs ++ more) zs ↔
      ∃ ys rest, List.Forall₂ R xs ys ∧ List.Forall₂ R more rest ∧ zs = ys ++ rest := by
  induction xs generalizing zs with
  | nil => simp
  | cons x xs ih =>
    rw [List.cons_append, List.forall₂_cons_left_iff]
    simp only [ih, List.forall₂_cons_left_iff]
    constructor
    · rintro ⟨y, _, hxy, ⟨ys, rest, hys, hrest, rfl⟩, rfl⟩
      exact ⟨y :: ys, rest, ⟨y, ys, hxy, hys, rfl⟩, hrest, rfl⟩
    · rintro ⟨_, rest, ⟨y, ys, hxy, hys, rfl⟩, hrest, rfl⟩
      exact ⟨y, ys ++ rest, hxy, ⟨ys, rest, hys, hrest, rfl⟩, rfl⟩

theorem mapM_eq_ok_iff (f : α → Except ε β) (xs : List α) (ys : List β) :
    xs.mapM f = .ok ys ↔ List.Forall₂ (fun x y => f x = .ok y) xs ys := by
  induction xs generalizing ys with
  | nil => cases ys <;> simp [pure, Except.pure]
  | cons x xs ih =>
    rw [List.mapM_cons, bind_eq_ok_iff]
    constructor
    · intro hfirst
      obtain ⟨y, hy, hrest⟩ := hfirst
      obtain ⟨rest, hxs, heq⟩ := bind_eq_ok_iff.mp hrest
      obtain rfl := Except.ok.inj heq
      exact .cons hy ((ih rest).mp hxs)
    · intro h
      cases h with
      | cons hy hxs => exact ⟨_, hy, bind_eq_ok_iff.mpr ⟨_, (ih _).mpr hxs, rfl⟩⟩

theorem exists_of_mem_mapM {f : α → Except ε β} {xs : List α} {ys : List β} {y : β}
    (h : xs.mapM f = .ok ys) (hy : y ∈ ys) : ∃ x ∈ xs, f x = .ok y :=
  exists_left_of_mem ((mapM_eq_ok_iff f xs ys).mp h) hy

/-- A traversal fails as one of its steps. -/
theorem exists_of_mapM_eq_error {f : α → Except ε β} {xs : List α} {e : ε}
    (h : xs.mapM f = .error e) : ∃ x ∈ xs, f x = .error e := by
  induction xs with
  | nil => cases h
  | cons x xs ih =>
    rw [List.mapM_cons] at h
    rcases bind_eq_error_iff.mp h with hx | ⟨y, -, hrest⟩
    · exact ⟨x, List.mem_cons_self, hx⟩
    · rcases bind_eq_error_iff.mp hrest with hxs | ⟨ys, -, hpure⟩
      · obtain ⟨x', hx', herror⟩ := ih hxs
        exact ⟨x', List.mem_cons_of_mem x hx', herror⟩
      · cases hpure

/-- A traversal succeeds when every step does; what each result satisfies, all results do. -/
theorem exists_mapM_eq_ok {P : β → Prop} {f : α → Except ε β} {xs : List α}
    (h : ∀ x ∈ xs, ∃ y, f x = .ok y ∧ P y) : ∃ ys, xs.mapM f = .ok ys ∧ ∀ y ∈ ys, P y := by
  simp only [mapM_eq_ok_iff]
  induction xs with
  | nil => exact ⟨[], .nil, by simp⟩
  | cons x xs ih =>
    obtain ⟨y, hy, hP⟩ := h x List.mem_cons_self
    obtain ⟨ys, hys, hall⟩ := ih fun x' hx' => h x' (List.mem_cons_of_mem _ hx')
    exact ⟨y :: ys, .cons hy hys, List.forall_mem_cons.mpr ⟨hP, hall⟩⟩

theorem exists_mapM_ok {f : α → Except ε β} {xs : List α} (h : ∀ x ∈ xs, ∃ y, f x = .ok y) :
    ∃ ys, xs.mapM f = .ok ys := by
  have hsteps : ∀ x ∈ xs, ∃ y, f x = .ok y ∧ True := by simpa using h
  obtain ⟨ys, hys, -⟩ := exists_mapM_eq_ok hsteps
  exact ⟨ys, hys⟩

theorem mapM_of_ok {f : α → Except ε β} {g : α → β} {xs : List α} (h : ∀ x ∈ xs, f x = .ok (g x)) :
    xs.mapM f = .ok (xs.map g) := by
  rw [mapM_eq_ok_iff, List.forall₂_map_right_iff, List.forall₂_same]
  exact h

/-- A traversal without reports: every step succeeds and reports nothing. -/
theorem mapM_silent_iff (f : α → Except ε (β × List γ)) (xs : List α) (ys : List β) :
    (∃ reported, xs.mapM f = .ok reported ∧ reported.flatMap Prod.snd = [] ∧
      reported.map Prod.fst = ys) ↔ List.Forall₂ (fun x y => f x = .ok (y, [])) xs ys := by
  simp only [mapM_eq_ok_iff]
  constructor
  · intro hreported
    obtain ⟨reported, hsteps, hsilent, rfl⟩ := hreported
    induction hsteps with
    | nil => exact .nil
    | @cons x r xs reported hx _ ih =>
      simp only [List.flatMap_cons, List.append_eq_nil_iff] at hsilent
      have hr : r = (r.1, []) := Prod.ext rfl hsilent.1
      exact .cons (hr ▸ hx) (ih hsilent.2)
  · intro h
    exact ⟨ys.map fun y => (y, []), List.forall₂_map_right_iff.mpr h, by simp,
      by simp [Function.comp_def]⟩

theorem foldlM_keeps {f : β → α → Except ε β} {P : β → Prop}
    (hstep : ∀ b a b', P b → f b a = .ok b' → P b') {xs : List α} {b b' : β} (hb : P b)
    (h : xs.foldlM f b = .ok b') : P b' := by
  induction xs generalizing b with
  | nil =>
    obtain rfl := Except.ok.inj h
    exact hb
  | cons x xs ih =>
    rw [List.foldlM_cons] at h
    obtain ⟨next, hnext, hrest⟩ := bind_eq_ok_iff.mp h
    exact ih (hstep b x next hb hnext) hrest

theorem bind_congr_of_ok {x : Except ε α} {f g : α → Except ε β} (h : ∀ a, x = .ok a → f a = g a) :
    x >>= f = x >>= g := by
  cases x with
  | error e => rfl
  | ok a => exact h a rfl

theorem mapM_congr {f g : α → Except ε β} {xs : List α} (h : ∀ x ∈ xs, f x = g x) :
    xs.mapM f = xs.mapM g := by
  induction xs with
  | nil => rfl
  | cons x xs ih =>
    rw [List.mapM_cons, List.mapM_cons, h x List.mem_cons_self,
      ih fun x' hx' => h x' (List.mem_cons_of_mem x hx')]

/-- What the first computation succeeds with, the second does too; a failure lies below all. -/
def Below (x y : Except ε α) : Prop := ∀ a, x = .ok a → y = .ok a

namespace Below

variable {x y : Except ε α}

theorem refl (x : Except ε α) : Below x x := fun _ h => h

theorem of_error {e : ε} (h : x = .error e) : Below x y := by
  intro a ha
  rw [h] at ha
  cases ha

theorem bind {f g : α → Except ε β} (h : Below x y) (hf : ∀ a, x = .ok a → Below (f a) (g a)) :
    Below (x >>= f) (y >>= g) := by
  intro b hb
  obtain ⟨a, ha, hfa⟩ := bind_eq_ok_iff.mp hb
  exact bind_eq_ok_iff.mpr ⟨a, h a ha, hf a ha b hfa⟩

theorem map (h : Below x y) (f : α → β) : Below (x.map f) (y.map f) := by
  intro b hb
  obtain ⟨a, ha, hfa⟩ := map_eq_ok_iff.mp hb
  exact map_eq_ok_iff.mpr ⟨a, h a ha, hfa⟩

theorem mapError (h : Below x y) (f : ε → ε') : Below (x.mapError f) (y.mapError f) :=
  fun a ha => mapError_eq_ok_iff.mpr (h a (mapError_eq_ok_iff.mp ha))

theorem mapM {f g : α → Except ε β} {xs : List α} (h : ∀ x ∈ xs, Below (f x) (g x)) :
    Below (xs.mapM f) (xs.mapM g) := by
  induction xs with
  | nil => exact refl _
  | cons x xs ih =>
    rw [List.mapM_cons, List.mapM_cons]
    refine bind (h x List.mem_cons_self) fun _ _ => ?_
    exact bind (ih fun x' hx' => h x' (List.mem_cons_of_mem x hx')) fun _ _ => refl _

end Below

end StreamScope.Outcome
