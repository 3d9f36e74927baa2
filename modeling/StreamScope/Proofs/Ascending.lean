import StreamScope.Stream
import Mathlib.Data.List.Induction

/-!
Ascending lists under a comparison that orders its elements. Such a list holds
what was inserted into it and nothing else, each element once and in its place.
-/

namespace StreamScope

namespace Ascending

variable {α : Type} {cmp : α → α → Ordering} {x y : α} {xs : List α}

theorem mem_insert_iff [Std.LawfulEqCmp cmp] : y ∈ insert cmp x xs ↔ y = x ∨ y ∈ xs := by
  refine ⟨mem_of_mem_insert, ?_⟩
  induction xs with
  | nil => simp [insert]
  | cons z zs ih =>
    unfold insert
    split
    case h_1 => simp
    case h_2 heq =>
      -- the element that is replaced is the new one itself
      obtain rfl := Std.LawfulEqCmp.eq_of_compare heq
      simp
    case h_3 =>
      simp only [List.mem_cons]
      rintro (rfl | rfl | hy)
      · exact .inr (ih (.inl rfl))
      · exact .inl rfl
      · exact .inr (ih (.inr hy))

theorem pairwise_insert [Std.TransCmp cmp] [Std.LawfulEqCmp cmp]
    (h : xs.Pairwise fun a b => cmp a b = .lt) :
    (insert cmp x xs).Pairwise fun a b => cmp a b = .lt := by
  induction h with
  | nil => exact List.pairwise_singleton _ x
  | @cons z zs hz hzs ih =>
    unfold insert
    split
    case h_1 hlt =>
      refine List.pairwise_cons.mpr ⟨?_, List.pairwise_cons.mpr ⟨hz, hzs⟩⟩
      intro y hy
      rcases List.mem_cons.mp hy with rfl | hy
      · exact hlt
      · exact Std.TransCmp.lt_trans hlt (hz y hy)
    case h_2 heq =>
      obtain rfl := Std.LawfulEqCmp.eq_of_compare heq
      exact List.pairwise_cons.mpr ⟨hz, hzs⟩
    case h_3 hgt =>
      refine List.pairwise_cons.mpr ⟨?_, ih⟩
      intro y hy
      rcases mem_insert_iff.mp hy with rfl | hy
      · exact Std.OrientedCmp.gt_iff_lt.mp hgt
      · exact hz y hy

theorem ofList_append_singleton (cmp : α → α → Ordering) (xs : List α) (x : α) :
    ofList cmp (xs ++ [x]) = insert cmp x (ofList cmp xs) := by
  simp [ofList]

theorem mem_ofList_iff [Std.LawfulEqCmp cmp] (xs : List α) : y ∈ ofList cmp xs ↔ y ∈ xs := by
  induction xs using List.reverseRecOn with
  | nil => rfl
  | append_singleton xs x ih =>
    rw [ofList_append_singleton, mem_insert_iff, ih, List.mem_append, List.mem_singleton, or_comm]

theorem pairwise_ofList [Std.TransCmp cmp] [Std.LawfulEqCmp cmp] (xs : List α) :
    (ofList cmp xs).Pairwise fun a b => cmp a b = .lt := by
  induction xs using List.reverseRecOn with
  | nil => exact List.Pairwise.nil
  | append_singleton xs x ih =>
    rw [ofList_append_singleton]
    exact pairwise_insert ih

end Ascending

namespace StoreId

instance : Std.TransOrd StoreId where
  eq_swap {a b} := (Std.OrientedCmp.eq_swap : compare a.text b.text = _)
  isLE_trans {a _ c} hab hbc :=
    (Std.TransCmp.isLE_trans hab hbc : (compare a.text c.text).isLE = true)

instance : Std.LawfulEqOrd StoreId where
  compare_self {a} := (Std.ReflCmp.compare_self : compare a.text a.text = .eq)
  eq_of_compare {a b} h := by
    have htext : a.text = b.text := Std.LawfulEqOrd.eq_of_compare h
    cases a
    cases b
    exact congrArg StoreId.mk htext

end StoreId

end StreamScope
