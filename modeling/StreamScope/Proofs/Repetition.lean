import Mathlib.Data.List.Basic

/-!
Lists in which every element counts where it first stands. What is left of a
list without its repetitions lists nothing twice, and it makes no difference
whether the parts of a list lose theirs before the whole does.
-/

namespace StreamScope

variable {α : Type} [BEq α] [LawfulBEq α]

theorem filter_eraseDups (p : α → Bool) :
    ∀ l : List α, l.eraseDups.filter p = (l.filter p).eraseDups
  | [] => rfl
  | a :: l => by
    have hrest := filter_eraseDups p (l.filter fun b => !b == a)
    rw [List.eraseDups_cons]
    cases hp : p a with
    | true =>
      rw [List.filter_cons_of_pos hp, List.filter_cons_of_pos hp, List.eraseDups_cons, hrest,
        List.filter_comm]
    | false =>
      have hsame : (l.filter fun b => !b == a).filter p = l.filter p := by
        rw [List.filter_filter]
        refine List.filter_congr fun b _ => ?_
        cases hb : b == a with
        | false => simp
        | true => simp [eq_of_beq hb, hp]
      rw [List.filter_cons_of_neg (by simp [hp]), List.filter_cons_of_neg (by simp [hp]), hrest,
        hsame]
termination_by l => l.length
decreasing_by exact Nat.lt_succ_of_le (List.length_filter_le _ _)

theorem eraseDups_of_nodup {l : List α} (h : l.Nodup) : l.eraseDups = l := by
  induction h with
  | nil => rfl
  | @cons a l hne _ ih =>
    have hkept : (l.filter fun b => !b == a) = l :=
      List.filter_eq_self.mpr fun b hb => by simpa using (hne b hb).symm
    rw [List.eraseDups_cons, hkept, ih]

theorem nodup_eraseDups : ∀ l : List α, l.eraseDups.Nodup
  | [] => List.nodup_nil
  | a :: l => by
    rw [List.eraseDups_cons, List.nodup_cons, List.mem_eraseDups]
    exact ⟨by simp, nodup_eraseDups (l.filter fun b => !b == a)⟩
termination_by l => l.length
decreasing_by exact Nat.lt_succ_of_le (List.length_filter_le _ _)

/-- What is listed once in each part is listed once in the whole. -/
theorem eraseDups_flatMap_eraseDups {β : Type} (f : β → List α) (xs : List β) :
    (xs.flatMap fun x => (f x).eraseDups).eraseDups = (xs.flatMap f).eraseDups := by
  induction xs with
  | nil => rfl
  | cons x xs ih =>
    have hfirst : (f x).eraseDups.eraseDups = (f x).eraseDups :=
      eraseDups_of_nodup (nodup_eraseDups (f x))
    have hseen : (fun b => !(f x).eraseDups.elem b) = fun b => !(f x).elem b := by
      funext b
      simp [List.mem_eraseDups]
    rw [List.flatMap_cons, List.flatMap_cons, List.eraseDups_append, List.eraseDups_append, hfirst,
      List.removeAll, List.removeAll, hseen, ← filter_eraseDups, ih, filter_eraseDups]

end StreamScope
