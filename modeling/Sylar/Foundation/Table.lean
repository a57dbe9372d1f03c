import Mathlib.Algebra.BigOperators.Group.List.Basic
import Mathlib.Algebra.GroupWithZero.Nat
import Mathlib.Algebra.BigOperators.Group.Finset.Basic

/-!
# Tables updated at one index

A list used as a table: `l[i]?` looks an entry up and `l.set i b` replaces it. A total over the
table changes by the difference of the two entries (`sum_map_set`), and every other entry stays
(`forall_set`). For a finite family, a function with one value replaced, see `sum_update`.
-/

namespace Table

variable {α : Type*} {l : List α} {i : ℕ} {a b : α}

/-- The entries before and behind the one at index `i`. -/
theorem exists_split (h : l[i]? = some a) :
    ∃ l₁ l₂, l = l₁ ++ a :: l₂ ∧ ∀ b, l.set i b = l₁ ++ b :: l₂ := by
  obtain ⟨hi, rfl⟩ := List.getElem?_eq_some_iff.mp h
  refine ⟨l.take i, l.drop (i + 1), ?_, fun b => List.set_eq_take_append_cons_drop .. |>.trans ?_⟩
  · rw [List.getElem_cons_drop, List.take_append_drop]
  · rw [if_pos hi]

/-- A total over a table after one entry has been replaced. -/
theorem sum_map_set {M : Type*} [AddCommMonoid M] (f : α → M) (h : l[i]? = some a) (b : α) :
    ((l.set i b).map f).sum + f a = (l.map f).sum + f b := by
  obtain ⟨l₁, l₂, hl, hset⟩ := exists_split h
  rw [hset, hl]
  simp only [List.map_append, List.map_cons, List.sum_append, List.sum_cons]
  ac_rfl

/-- A total of natural numbers is at least each of its summands. -/
theorem le_sum_map (f : α → ℕ) (h : l[i]? = some a) : f a ≤ (l.map f).sum := by
  obtain ⟨l₁, l₂, rfl, -⟩ := exists_split h
  simp only [List.map_append, List.map_cons, List.sum_append, List.sum_cons]
  omega

/-- What holds of every other entry and its index, and of the new entry, holds of all entries. -/
theorem forall_set {P : ℕ → α → Prop} (h : ∀ j a, j ≠ i → l[j]? = some a → P j a) (hb : P i b) :
    ∀ j a, (l.set i b)[j]? = some a → P j a := by
  intro j a hj
  by_cases hij : i = j
  · subst hij
    rw [List.getElem?_set_self'] at hj
    obtain ⟨_, -, rfl⟩ := Option.map_eq_some_iff.mp hj
    exact hb
  · rw [List.getElem?_set_ne hij] at hj
    exact h j a (Ne.symm hij) hj

/-- A total over a finite family after one member has been replaced. -/
theorem sum_update {W M : Type*} [Fintype W] [DecidableEq W] [AddCommMonoid M] (f : α → M)
    (g : W → α) (w : W) (x : α) :
    (∑ v, f (Function.update g w x v)) + f (g w) = (∑ v, f (g v)) + f x := by
  rw [← Finset.add_sum_erase _ _ (Finset.mem_univ w),
    ← Finset.add_sum_erase (a := w) _ (fun v => f (g v)) (Finset.mem_univ w)]
  have hrest : ∑ v ∈ Finset.univ.erase w, f (Function.update g w x v) =
      ∑ v ∈ Finset.univ.erase w, f (g v) :=
    Finset.sum_congr rfl fun v hv => by rw [Function.update_of_ne (Finset.ne_of_mem_erase hv)]
  rw [Function.update_self, hrest]
  ac_rfl

/-- If the replaced member gains `a` and loses `b`, so does the total. -/
theorem sum_update_add {W M : Type*} [Fintype W] [DecidableEq W] [AddCancelCommMonoid M]
    (f : α → M) (g : W → α) (w : W) {x : α} {a b : M} (h : f x + b = f (g w) + a) :
    (∑ v, f (Function.update g w x v)) + b = (∑ v, f (g v)) + a := by
  have hsum := sum_update f g w x
  apply add_right_cancel (b := f (g w))
  calc (∑ v, f (Function.update g w x v)) + b + f (g w)
      = (∑ v, f (Function.update g w x v)) + f (g w) + b := add_right_comm ..
    _ = (∑ v, f (g v)) + (f x + b) := by rw [hsum, add_assoc]
    _ = (∑ v, f (g v)) + a + f (g w) := by rw [h, add_assoc, add_comm a]

end Table
