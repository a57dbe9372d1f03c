import Sylar.Foundation.Bits
import Mathlib.Data.Nat.Count

/-!
# Counting ones

`ones n f` is the number of ones among the first `n` bits of `f`. It depends neither on the order of
the bits (`ones_reverse`) nor on how they are cut into bytes (`ones_bit`, `ones_toLE`).

* `ones_and_sub_one` — `x &&& (x - 1)` has one bit less than `x`, as long as `x` is not zero;
* `IsMask p bs` — the ones of `bs` are its first `p` bits, in network order, so that there are `p`.
-/

namespace Bits

/-- The number of ones among the first `n` bits. -/
def ones (n : ℕ) (f : ℕ → Bool) : ℕ := Nat.count (fun i => f i = true) n

variable {n p : ℕ} {f g : ℕ → Bool}

/-- There are no ones among no bits. -/
lemma ones_zero (f : ℕ → Bool) : ones 0 f = 0 := Nat.count_zero _

/-- One more bit counts if it is set. -/
lemma ones_succ (n : ℕ) (f : ℕ → Bool) : ones (n + 1) f = ones n f + (f n).toNat := by
  rw [ones, Nat.count_succ, ones]
  cases f n <;> rfl

/-- The first bit can be counted apart. -/
lemma ones_succ' (n : ℕ) (f : ℕ → Bool) :
    ones (n + 1) f = ones n (fun i => f (i + 1)) + (f 0).toNat := by
  rw [ones, Nat.count_succ', ones]
  cases f 0 <;> rfl

/-- Bits can be counted in two parts. -/
lemma ones_add (m n : ℕ) (f : ℕ → Bool) :
    ones (m + n) f = ones m f + ones n (fun i => f (m + i)) := Nat.count_add _ m n

/-- There are at most as many ones as bits. -/
lemma ones_le (n : ℕ) (f : ℕ → Bool) : ones n f ≤ n := Nat.count_le _

/-- Only the first bits count. -/
theorem ones_congr (h : ∀ i < n, f i = g i) : ones n f = ones n g := by
  induction n with
  | zero => rw [ones_zero, ones_zero]
  | succ n ih =>
    rw [ones_succ, ones_succ, h n (Nat.lt_succ_self n), ih fun i hi => h i (Nat.lt_succ_of_lt hi)]

/-- The order of the bits does not matter. -/
theorem ones_reverse (n : ℕ) (f : ℕ → Bool) : ones n (fun i => f (n - 1 - i)) = ones n f := by
  induction n with
  | zero => rw [ones_zero, ones_zero]
  | succ n ih =>
    have hshift : ones n (fun i => f (n + 1 - 1 - (i + 1))) = ones n fun i => f (n - 1 - i) := by
      apply ones_congr
      intro i _
      congr 1
      omega
    rw [ones_succ', hshift, ih, ones_succ]
    rfl

/-- The bits that are ones make up the first `p`. -/
theorem ones_prefix (hp : p ≤ n) (h : ∀ i < n, f i = decide (i < p)) : ones n f = p := by
  obtain ⟨k, rfl⟩ := Nat.exists_eq_add_of_le hp
  have hbefore : ones p f = p := by
    apply Nat.count_of_forall
    intro i hi
    rw [h i (by omega), decide_eq_true hi]
  have hbehind : ones k (fun i => f (p + i)) = 0 := by
    apply Nat.count_of_forall_not
    intro i hi
    have hbit : f (p + i) = false := by rw [h (p + i) (by omega), decide_eq_false (by omega)]
    exact Bool.eq_false_iff.1 hbit
  rw [ones_add, hbefore, hbehind, Nat.add_zero]

/-! ## Words -/

section Words

variable {w : ℕ}

/-- Subtracting one does not wrap above zero. -/
lemma toNat_sub_one {x : BitVec w} (hx : x ≠ 0) : (x - 1).toNat = x.toNat - 1 := by
  have hpos : 0 < x.toNat := BitVec.toNat_pos_of_ne_zero hx
  have hone : (1#w).toNat = 1 := by
    apply BitVec.toNat_one
    apply Nat.pos_of_ne_zero
    rintro rfl
    exact hx (Subsingleton.elim x 0)
  have hle : 1#w ≤ x := by
    rw [BitVec.le_def, hone]
    exact hpos
  rw [BitVec.ofNat_eq_ofNat, BitVec.toNat_sub_of_le hle, hone]

/-- Subtracting one clears the last bit, if it is set. -/
lemma concat_true_sub_one (y : BitVec w) : y.concat true - 1 = y.concat false := by
  have hne : y.concat true ≠ 0 := by
    intro h
    have hnat := congrArg BitVec.toNat h
    rw [BitVec.toNat_concat, Bool.toNat_true] at hnat
    cases hnat
  apply BitVec.eq_of_toNat_eq
  rw [toNat_sub_one hne, BitVec.toNat_concat, BitVec.toNat_concat]
  rfl

/-- Otherwise it borrows. -/
lemma concat_false_sub_one {y : BitVec w} (hy : y ≠ 0) :
    y.concat false - 1 = (y - 1).concat true := by
  have hpos : 0 < y.toNat := BitVec.toNat_pos_of_ne_zero hy
  have hne : y.concat false ≠ 0 := by
    intro h
    have hnat := congrArg BitVec.toNat h
    rw [BitVec.toNat_concat, Bool.toNat_false, BitVec.ofNat_eq_ofNat, BitVec.toNat_zero] at hnat
    omega
  apply BitVec.eq_of_toNat_eq
  rw [toNat_sub_one hne, BitVec.toNat_concat, BitVec.toNat_concat, toNat_sub_one hy,
    Bool.toNat_true, Bool.toNat_false]
  omega

/-- Zero has no ones. -/
lemma ones_zeroWord (w : ℕ) : ones w (0 : BitVec w).getLsbD = 0 := by
  apply Nat.count_of_forall_not
  intro i _
  exact Bool.eq_false_iff.1 BitVec.getLsbD_zero

/-- A bit that is appended counts if it is set. -/
lemma ones_concat (y : BitVec w) (b : Bool) :
    ones (w + 1) (y.concat b).getLsbD = ones w y.getLsbD + b.toNat := by
  have hshift : (fun i => (y.concat b).getLsbD (i + 1)) = y.getLsbD := by
    funext i
    exact BitVec.getLsbD_concat_succ
  rw [ones_succ', hshift, BitVec.getLsbD_concat_zero]

/-- `x &&& (x - 1)` is `x` without its lowest one. -/
theorem ones_and_sub_one (x : BitVec w) (hx : x ≠ 0) :
    ones w (x &&& (x - 1)).getLsbD + 1 = ones w x.getLsbD := by
  induction x using BitVec.concat_induction with
  | nil => exact absurd rfl hx
  | concat y b ih =>
    cases b with
    | true =>
      rw [concat_true_sub_one, BitVec.concat_and_concat, BitVec.and_self, ones_concat, ones_concat]
      rfl
    | false =>
      have hy : y ≠ 0 := by
        rintro rfl
        exact hx BitVec.zero_concat_false
      rw [concat_false_sub_one hy, BitVec.concat_and_concat, ones_concat, ones_concat, ← ih hy]
      rfl

/-- Clearing the last one makes a number smaller. -/
theorem and_sub_one_lt {x : BitVec w} (hx : x ≠ 0) : (x &&& (x - 1)).toNat < x.toNat := by
  have hpos : 0 < x.toNat := BitVec.toNat_pos_of_ne_zero hx
  have hle : (x &&& (x - 1)).toNat ≤ (x - 1).toNat := by
    rw [BitVec.toNat_and]
    exact Nat.and_le_right
  rw [toNat_sub_one hx] at hle
  omega

end Words

end Bits

/-! ## Byte strings -/

namespace Bytes

open Bits

/-- The ones of a byte string are those of its bytes. -/
theorem ones_bit_cons (b : UInt8) (bs : List UInt8) :
    ones (8 * (b :: bs).length) (bit (b :: bs)) =
      ones 8 b.toBitVec.getLsbD + ones (8 * bs.length) (bit bs) := by
  have hfirst : ones 8 (bit (b :: bs)) = ones 8 b.toBitVec.getLsbD := by
    rw [← ones_reverse 8 b.toBitVec.getLsbD]
    apply ones_congr
    intro i hi
    rw [bit, Nat.div_eq_of_lt hi, Nat.mod_eq_of_lt hi]
    rfl
  have hrest : (fun i => bit (b :: bs) (8 + i)) = bit bs := by
    funext i
    rw [bit, Nat.add_div_left i (by decide), Nat.add_mod_left, List.getElem?_cons_succ]
    rfl
  rw [List.length_cons, Nat.mul_succ, Nat.add_comm, ones_add, hfirst, hrest]

/-- The ones of a byte string are those of its bytes. -/
theorem ones_bit (bs : List UInt8) :
    ones (8 * bs.length) (bit bs) = (bs.map fun b => ones 8 b.toBitVec.getLsbD).sum := by
  induction bs with
  | nil => exact ones_zero _
  | cons b bs ih => rw [ones_bit_cons, ih, List.map_cons, List.sum_cons]

/-- A number has the ones of its bytes, in either order. -/
theorem ones_reverse_toLE (n x : ℕ) :
    ones (8 * n) (bit (toLE n x).reverse) = ones (8 * n) x.testBit := by
  rw [← ones_reverse (8 * n) x.testBit]
  exact ones_congr fun i hi => bit_reverse_toLE x hi

/-- A number has as many ones as its bytes. -/
theorem ones_toLE (n x : ℕ) : ones (8 * n) (bit (toLE n x)) = ones (8 * n) x.testBit := by
  have hbytes := ones_bit (toLE n x)
  have hreverse := ones_bit (toLE n x).reverse
  rw [List.length_reverse, List.map_reverse, List.sum_reverse] at hreverse
  rw [length_toLE] at hbytes hreverse
  rw [hbytes, ← hreverse, ones_reverse_toLE]

/-- The ones of `bs` are its first `p` bits. -/
structure IsMask (p : ℕ) (bs : List UInt8) : Prop where
  le_length : p ≤ 8 * bs.length
  bit_eq : ∀ i < 8 * bs.length, bit bs i = decide (i < p)

/-- A mask has as many ones as it is long. -/
theorem IsMask.ones_eq {p : ℕ} {bs : List UInt8} (h : IsMask p bs) :
    ones (8 * bs.length) (bit bs) = p := ones_prefix h.le_length h.bit_eq

end Bytes
