import Mathlib.Algebra.Group.Nat.Defs

/-!
# Machine sizes as natural numbers

Counters of type `size_t` are natural numbers. Subtraction wraps around at `0`; additions are left
exact, for what is counted is memory already allocated. Times are of type `uint64_t`, whose sums
wrap.
-/

namespace Sylar

/-- `size_t` subtraction, which wraps around when the subtrahend is larger. -/
def subSize (a b : ℕ) : ℕ := if b ≤ a then a - b else a + 2 ^ 64 - b

theorem subSize_of_le {a b : ℕ} (h : b ≤ a) : subSize a b = a - b := if_pos h

/-- The sum of two times, when it wraps and when it does not. -/
theorem toNat_add_eq (a b : UInt64) : (a + b).toNat =
    if a.toNat + b.toNat < 2 ^ 64 then a.toNat + b.toNat else a.toNat + b.toNat - 2 ^ 64 := by
  have ha := a.toNat_lt
  have hb := b.toNat_lt
  rw [UInt64.toNat_add]
  split
  · exact Nat.mod_eq_of_lt ‹_›
  · omega

end Sylar
