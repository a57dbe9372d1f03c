import Mathlib.Data.List.Basic
import Mathlib.Tactic.Ring

/-!
# Slices of lists and of chunked lists

Reading and overwriting a contiguous range of a list, and the flat view of a list of chunks that
all have the same length.

* `overwrite l p d` — `l` with the elements from position `p` on replaced by `d`, extended when
  `d` runs past the end.
* `Uniform B cs` — every chunk of `cs` has length `B`; then position `p` of `cs.flatten` lies in
  chunk `p / B` at offset `p % B`.

`overwrite_append_left`, `overwrite_append_right` and `overwrite_append_split` move a write into
the part of a concatenation it falls in; `overwrite_overwrite` joins two writes, and
`take_overwrite` restricts a write to a prefix.
-/

namespace Slice

variable {α : Type*}

/-- `l` with the elements at `p, …, p + |d| - 1` replaced by `d`. -/
def overwrite (l : List α) (p : ℕ) (d : List α) : List α :=
  l.take p ++ d ++ l.drop (p + d.length)

@[simp]
theorem overwrite_nil (l : List α) (p : ℕ) : overwrite l p [] = l := by
  simp [overwrite]

/-- A write that ends inside `l` leaves what follows `l` alone. -/
theorem overwrite_append_left (l m : List α) {p : ℕ} (d : List α) (h : p + d.length ≤ l.length) :
    overwrite (l ++ m) p d = overwrite l p d ++ m := by
  simp only [overwrite, List.append_assoc]
  rw [List.take_append_of_le_length (by omega), List.drop_append_of_le_length h]

/-- A write that starts behind `l` leaves `l` alone. -/
theorem overwrite_append_right (l m : List α) (p : ℕ) (d : List α) :
    overwrite (l ++ m) (l.length + p) d = l ++ overwrite m p d := by
  simp only [overwrite, List.append_assoc, Nat.add_assoc, List.drop_length_add_append]
  rw [List.take_length_add_append, List.append_assoc]

/-- A write that starts in `l` and ends behind it is a write to the end of `l` and a write to the
beginning of what follows. -/
theorem overwrite_append_split (l m : List α) {p : ℕ} (d : List α) (hp : p ≤ l.length)
    (h : l.length ≤ p + d.length) :
    overwrite (l ++ m) p d =
      overwrite l p (d.take (l.length - p)) ++ overwrite m 0 (d.drop (l.length - p)) := by
  have hlen : (d.take (l.length - p)).length = l.length - p := by
    rw [List.length_take]
    omega
  have hend : l.drop (p + (l.length - p)) = [] := List.drop_eq_nil_of_le (by omega)
  have hskip : p + d.length = l.length + (d.drop (l.length - p)).length := by
    rw [List.length_drop]
    omega
  simp only [overwrite, hlen, hend, List.append_nil, List.take_zero, List.nil_append,
    Nat.zero_add]
  rw [List.take_append_of_le_length hp, hskip, List.drop_length_add_append]
  calc l.take p ++ d ++ m.drop (d.drop (l.length - p)).length
      = l.take p ++ (d.take (l.length - p) ++ d.drop (l.length - p)) ++
          m.drop (d.drop (l.length - p)).length := by rw [List.take_append_drop]
    _ = _ := by simp only [List.append_assoc]

/-- Two writes one behind the other are a write of both strings. -/
theorem overwrite_overwrite (l : List α) {p : ℕ} (d e : List α) (hp : p ≤ l.length) :
    overwrite (overwrite l p d) (p + d.length) e = overwrite l p (d ++ e) := by
  have hlen : (l.take p ++ d).length = p + d.length := by
    rw [List.length_append, List.length_take, Nat.min_eq_left hp]
  have hdrop : (overwrite l p d).drop (p + d.length + e.length) =
      l.drop (p + (d ++ e).length) := by
    rw [overwrite, ← hlen, List.drop_length_add_append, List.drop_drop, hlen, List.length_append,
      Nat.add_assoc]
  rw [overwrite, hdrop, overwrite, overwrite, ← hlen, List.take_left, List.append_assoc _ d e]

/-- The prefix of length `s`, extended by the end of the write when that lies behind it, of a
written list is the write to that prefix. -/
theorem take_overwrite (l : List α) {p s : ℕ} (d : List α) (hp : p ≤ s) (hs : s ≤ l.length)
    (h : p + d.length ≤ l.length) :
    (overwrite l p d).take (max s (p + d.length)) = overwrite (l.take s) p d := by
  have hlen : (l.take p ++ d).length = p + d.length := by
    rw [List.length_append, List.length_take]
    omega
  have hpre : (l.take s).take p = l.take p := by
    rw [List.take_take, Nat.min_eq_left hp]
  rw [overwrite, overwrite, hpre]
  rcases Nat.le_total s (p + d.length) with hle | hle
  · rw [Nat.max_eq_right hle, ← hlen, List.take_left,
      List.drop_eq_nil_of_le (by rw [List.length_take]; omega), List.append_nil]
  · obtain ⟨k, rfl⟩ := Nat.exists_eq_add_of_le hle
    rw [Nat.max_eq_left hle, ← hlen, List.take_length_add_append, hlen, List.drop_take,
      Nat.add_sub_cancel_left]

/-! ## Lists of chunks of one length -/

/-- Every chunk has length `B`. -/
def Uniform (B : ℕ) (cs : List (List α)) : Prop := ∀ c ∈ cs, c.length = B

namespace Uniform

variable {B : ℕ} {cs ds : List (List α)}

theorem cons_iff {c : List α} : Uniform B (c :: cs) ↔ c.length = B ∧ Uniform B cs := by
  simp [Uniform]

theorem take (h : Uniform B cs) (k : ℕ) : Uniform B (cs.take k) := fun c hc =>
  h c (List.mem_of_mem_take hc)

theorem length_flatten (h : Uniform B cs) : cs.flatten.length = cs.length * B := by
  induction cs with
  | nil => simp
  | cons c cs ih =>
    obtain ⟨hc, hcs⟩ := cons_iff.mp h
    rw [List.flatten_cons, List.length_append, ih hcs, hc, List.length_cons]
    ring

/-- The flat view splits between chunks. -/
theorem flatten_eq_take_append_drop (cs : List (List α)) (k : ℕ) :
    cs.flatten = (cs.take k).flatten ++ (cs.drop k).flatten := by
  rw [← List.flatten_append, List.take_append_drop]

/-- The chunks from number `k` on hold the elements from position `k * B` on. -/
theorem drop_flatten (h : Uniform B cs) {k : ℕ} (hk : k ≤ cs.length) :
    cs.flatten.drop (k * B) = (cs.drop k).flatten := by
  have hlen : (cs.take k).flatten.length = k * B := by
    rw [(h.take k).length_flatten, List.length_take, Nat.min_eq_left hk]
  rw [flatten_eq_take_append_drop cs k, ← hlen, List.drop_left]

end Uniform

end Slice
