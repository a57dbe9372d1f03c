import Mathlib.Algebra.Order.Ring.Int
import Mathlib.Data.List.Basic
import Mathlib.Tactic.LinearCombination
import Mathlib.Tactic.Positivity
import Mathlib.Tactic.Ring

/-!
# Numbers as byte strings

A number below `256 ^ n` and its `n` bytes.

* `toLE n x` and `ofLE bs` — the bytes from the least significant one on, and the number they
  stand for; `ofLE_toLE` and `toLE_ofLE` are the round trips;
* `swap n x` — the number whose bytes are those of `x` in reverse order;
* `twosLE n v` — the two's-complement bytes of an integer. A bit vector has the same bytes as
  the integer it stands for, signed (`toLE_toNat_eq_twosLE_toInt`) or unsigned
  (`toLE_eq_twosLE`).
-/

namespace Bytes

/-- The `n` least significant bytes of `x`, from the least significant one on. -/
def toLE : ℕ → ℕ → List UInt8
  | 0, _ => []
  | n + 1, x => UInt8.ofNat (x % 256) :: toLE n (x / 256)

/-- The number whose bytes, from the least significant one on, are `bs`. -/
def ofLE : List UInt8 → ℕ
  | [] => 0
  | b :: bs => b.toNat + 256 * ofLE bs

/-- The number with the `n` bytes of `x` in reverse order. -/
def swap (n x : ℕ) : ℕ := ofLE (toLE n x).reverse

/-- The `n` bytes of `v` in two's complement, from the least significant one on. -/
def twosLE : ℕ → ℤ → List UInt8
  | 0, _ => []
  | n + 1, v => UInt8.ofNat (v % 256).toNat :: twosLE n (v / 256)

@[simp]
theorem length_toLE (n x : ℕ) : (toLE n x).length = n := by
  induction n generalizing x with
  | zero => rfl
  | succ n ih => rw [toLE, List.length_cons, ih]

/-- The bytes of a number stand for it. -/
theorem ofLE_toLE {n x : ℕ} (h : x < 256 ^ n) : ofLE (toLE n x) = x := by
  induction n generalizing x with
  | zero =>
    rw [pow_zero, Nat.lt_one_iff] at h
    rw [h]
    rfl
  | succ n ih =>
    have hquot : x / 256 < 256 ^ n := Nat.div_lt_of_lt_mul (by rwa [← pow_succ'])
    have hbyte : x % 256 % 2 ^ 8 = x % 256 := Nat.mod_eq_of_lt (Nat.mod_lt x (by decide))
    rw [toLE, ofLE, ih hquot, UInt8.toNat_ofNat', hbyte, Nat.mod_add_div]

theorem ofLE_lt (bs : List UInt8) : ofLE bs < 256 ^ bs.length := by
  induction bs with
  | nil => exact Nat.one_pos
  | cons b bs ih =>
    have hb : b.toNat < 256 := b.toNat_lt
    rw [ofLE, List.length_cons, pow_succ]
    omega

/-- Every byte string consists of the bytes of a number. -/
theorem toLE_ofLE {n : ℕ} {bs : List UInt8} (h : bs.length = n) : toLE n (ofLE bs) = bs := by
  subst h
  induction bs with
  | nil => rfl
  | cons b bs ih =>
    have hb : b.toNat < 256 := b.toNat_lt
    have hlow : (b.toNat + 256 * ofLE bs) % 256 = b.toNat := by omega
    have hhigh : (b.toNat + 256 * ofLE bs) / 256 = ofLE bs := by omega
    rw [List.length_cons, toLE, ofLE, hlow, hhigh, ih, UInt8.ofNat_toNat]

/-- Swapping reverses the bytes. -/
theorem toLE_swap (n x : ℕ) : toLE n (swap n x) = (toLE n x).reverse :=
  toLE_ofLE (by rw [List.length_reverse, length_toLE])

/-- Swapping twice gives the number back. -/
theorem swap_swap {n x : ℕ} (h : x < 256 ^ n) : swap n (swap n x) = x := by
  rw [swap, toLE_swap, List.reverse_reverse, ofLE_toLE h]

/-! ## Two's complement -/

/-- The residue modulo a product: the last digit together with the residue of the quotient. -/
private theorem emod_mul_eq (v : ℤ) {b m : ℤ} (hb : 0 < b) (hm : 0 < m) :
    v % (b * m) = v % b + b * (v / b % m) := by
  have hlow := Int.emod_add_mul_ediv v b
  have hhigh := Int.emod_add_mul_ediv (v / b) m
  have hv : v = v % b + b * (v / b % m) + b * m * (v / b / m) := by
    linear_combination -hlow - b * hhigh
  have hdigit := Int.emod_nonneg v hb.ne'
  have hdigit' := Int.emod_lt_of_pos v hb
  have hrest := Int.emod_nonneg (v / b) hm.ne'
  have hrest' := Int.emod_lt_of_pos (v / b) hm
  conv_lhs => rw [hv, Int.add_mul_emod_self_left]
  refine Int.emod_eq_of_lt (by positivity) ?_
  calc v % b + b * (v / b % m) < b + b * (v / b % m) := Int.add_lt_add_right hdigit' _
    _ = b * (v / b % m + 1) := by ring
    _ ≤ b * m := mul_le_mul_of_nonneg_left (by omega) hb.le

/-- The bytes of a number are the two's-complement bytes of every integer it is congruent to. -/
theorem toLE_emod (n : ℕ) (v : ℤ) : toLE n (v % 256 ^ n).toNat = twosLE n v := by
  induction n generalizing v with
  | zero => rfl
  | succ n ih =>
    have hpos : (0 : ℤ) < 256 ^ n := by positivity
    have hsplit : v % 256 ^ (n + 1) = v % 256 + 256 * (v / 256 % 256 ^ n) := by
      rw [pow_succ', emod_mul_eq v (by norm_num) hpos]
    have hbyte := Int.emod_nonneg v (by norm_num : (256 : ℤ) ≠ 0)
    have hbyte' := Int.emod_lt_of_pos v (by norm_num : (0 : ℤ) < 256)
    have hrest := Int.emod_nonneg (v / 256) hpos.ne'
    have hlow : (v % 256 ^ (n + 1)).toNat % 256 = (v % 256).toNat := by
      rw [hsplit]
      omega
    have hhigh : (v % 256 ^ (n + 1)).toNat / 256 = (v / 256 % 256 ^ n).toNat := by
      rw [hsplit]
      omega
    rw [toLE, twosLE, hlow, hhigh, ih]

theorem toLE_eq_twosLE {n x : ℕ} (h : x < 256 ^ n) : toLE n x = twosLE n x := by
  rw [← toLE_emod, Int.emod_eq_of_lt (by positivity) (by exact_mod_cast h), Int.toNat_natCast]

/-- A bit vector has the bytes of the signed integer it stands for. -/
theorem toLE_toNat_eq_twosLE_toInt {n : ℕ} (v : BitVec (8 * n)) :
    toLE n v.toNat = twosLE n v.toInt := by
  have hpow : (256 : ℤ) ^ n = ((2 ^ (8 * n) : ℕ) : ℤ) := by
    rw [pow_mul]
    norm_num
  have hres : v.toInt % 256 ^ n = v.toNat := by
    rw [hpow, BitVec.toInt_eq_toNat_bmod, Int.bmod_emod]
    exact Int.emod_eq_of_lt (by positivity) (by exact_mod_cast v.isLt)
  rw [← toLE_emod, hres, Int.toNat_natCast]

end Bytes
