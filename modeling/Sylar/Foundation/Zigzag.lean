import Mathlib.Data.Nat.Notation
import Mathlib.Data.Int.Notation
import Mathlib.Algebra.Group.Nat.Defs
import Mathlib.Logic.Equiv.Nat

/-!
# Zigzag codes of signed words

`encode` and `decode` map signed words to unsigned ones, and back, with the shifts and wrap-around
of machine arithmetic. `toNat_encode` and `toInt_decode` say that they are the two directions of
`Equiv.intEquivNat`, which counts the integers as `0, -1, 1, -2, 2, …`, cut off at the width. So the
two are inverse to each other (`decode_encode`, `encode_decode`), at the extreme values as well.
-/

namespace Zigzag

variable {w : ℕ}

/-- The code of a signed word. -/
def encode (v : BitVec w) : BitVec w := if v.slt 0 then -v * 2 - 1 else v * 2

/-- The signed word with a code. -/
def decode (u : BitVec w) : BitVec w := (u >>> 1) ^^^ -(u &&& 1)

/-! ## The enumeration of the integers -/

/-- A number that is not negative has an even code. -/
lemma intEquivNat_natCast (k : ℕ) : Equiv.intEquivNat k = 2 * k := rfl

/-- A negative one has an odd code. -/
lemma intEquivNat_negSucc (k : ℕ) : Equiv.intEquivNat (Int.negSucc k) = 2 * k + 1 := rfl

/-- Integers of small magnitude have small codes. -/
lemma intEquivNat_lt (z : ℤ) : Equiv.intEquivNat z < 2 * z.natAbs + 1 := by
  cases z with
  | ofNat k =>
    change Equiv.intEquivNat (k : ℤ) < 2 * k + 1
    rw [intEquivNat_natCast]
    exact Nat.lt_succ_self _
  | negSucc k =>
    rw [intEquivNat_negSucc, Int.natAbs_negSucc]
    omega

/-! ## Words as integers -/

/-- Doubling a word. -/
lemma toNat_mul_two (x : BitVec w) : (x * 2).toNat = 2 * x.toNat % 2 ^ w := by
  rw [BitVec.toNat_mul, BitVec.ofNat_eq_ofNat, BitVec.toNat_ofNat, Nat.mul_mod_mod, Nat.mul_comm]

/-- Subtracting one from a word. -/
lemma toNat_sub_one (hw : 0 < w) (x : BitVec w) :
    (x - 1).toNat = if x.toNat = 0 then 2 ^ w - 1 else x.toNat - 1 := by
  have hlt := x.isLt
  rw [BitVec.ofNat_eq_ofNat, BitVec.toNat_sub, BitVec.toNat_one hw]
  split_ifs with hzero
  · rw [hzero, Nat.add_zero, Nat.mod_eq_of_lt (by omega)]
  · rw [show 2 ^ w - 1 + x.toNat = x.toNat - 1 + 2 ^ w by omega, Nat.add_mod_right,
      Nat.mod_eq_of_lt (by omega)]

/-- The last bit of a word. -/
lemma toNat_and_one (hw : 0 < w) (x : BitVec w) : (x &&& 1).toNat = x.toNat % 2 := by
  rw [BitVec.ofNat_eq_ofNat, BitVec.toNat_and, BitVec.toNat_one hw, Nat.and_one_is_mod]

/-- Halving a word. -/
lemma toNat_shiftRight_one (x : BitVec w) : (x >>> 1).toNat = x.toNat / 2 := by
  rw [BitVec.toNat_ushiftRight, Nat.shiftRight_eq_div_pow, pow_one]

/-- The code of a word is that of its integer. -/
theorem toNat_encode (hw : 0 < w) (v : BitVec w) :
    (encode v).toNat = Equiv.intEquivNat v.toInt := by
  have hlt := v.isLt
  rw [encode]
  split_ifs with hneg
  · have hmsb := BitVec.msb_eq_true_iff_two_mul_ge.1 (BitVec.slt_zero_iff_msb_cond.1 hneg)
    have hint : v.toInt = Int.negSucc (2 ^ w - v.toNat - 1) := by
      rw [BitVec.toInt_eq_toNat_cond, if_neg (by omega), Int.negSucc_eq]
      omega
    have hminus : (-v).toNat = 2 ^ w - v.toNat := by
      rw [BitVec.toNat_neg, Nat.mod_eq_of_lt (by omega)]
    rw [hint, intEquivNat_negSucc, toNat_sub_one hw, toNat_mul_two, hminus]
    -- twice the magnitude wraps around for the minimum only
    by_cases hmin : 2 * (2 ^ w - v.toNat) = 2 ^ w
    · rw [hmin, Nat.mod_self, if_pos rfl]
      omega
    · rw [Nat.mod_eq_of_lt (by omega), if_neg (by omega)]
      omega
  · have hmsb : 2 * v.toNat < 2 ^ w := by
      apply BitVec.msb_eq_false_iff_two_mul_lt.1
      exact Bool.eq_false_iff.2 fun htrue => hneg (BitVec.slt_zero_iff_msb_cond.2 htrue)
    rw [BitVec.toInt_eq_toNat_of_lt hmsb, intEquivNat_natCast, toNat_mul_two,
      Nat.mod_eq_of_lt hmsb]

/-- The word with a code has the integer with this code. -/
theorem toInt_decode (hw : 0 < w) (u : BitVec w) :
    (decode u).toInt = Equiv.intEquivNat.symm u.toNat := by
  have hlt := u.isLt
  have hshift := toNat_shiftRight_one u
  symm
  rw [Equiv.symm_apply_eq]
  rcases Nat.mod_two_eq_zero_or_one u.toNat with heven | hodd
  · have hmask : u &&& 1 = 0#w := by
      apply BitVec.eq_of_toNat_eq
      rw [toNat_and_one hw, heven, BitVec.toNat_ofNat, Nat.zero_mod]
    rw [decode, hmask, BitVec.neg_zero, BitVec.xor_zero,
      BitVec.toInt_eq_toNat_of_lt (by omega), intEquivNat_natCast, hshift]
    omega
  · have hmask : u &&& 1 = 1#w := by
      apply BitVec.eq_of_toNat_eq
      rw [toNat_and_one hw, hodd, BitVec.toNat_one hw]
    have hnot : (~~~(u >>> 1)).toInt = Int.negSucc (u.toNat / 2) := by
      have htoNat : (~~~(u >>> 1)).toNat = 2 ^ w - 1 - u.toNat / 2 := by
        rw [BitVec.toNat_not, hshift]
      rw [BitVec.toInt_eq_toNat_cond, if_neg (by omega), Int.negSucc_eq]
      omega
    rw [decode, hmask, BitVec.neg_one_eq_allOnes, BitVec.xor_allOnes, hnot, intEquivNat_negSucc]
    omega

/-- Every word comes back from its code. -/
theorem decode_encode (hw : 0 < w) (v : BitVec w) : decode (encode v) = v := by
  apply BitVec.eq_of_toInt_eq
  rw [toInt_decode hw, toNat_encode hw, Equiv.symm_apply_apply]

/-- Every word is the code of one. -/
theorem encode_decode (hw : 0 < w) (u : BitVec w) : encode (decode u) = u := by
  apply BitVec.eq_of_toNat_eq
  rw [toNat_encode hw, toInt_decode hw, Equiv.apply_symm_apply]

/-- Words of small magnitude have small codes. -/
theorem toNat_encode_lt (hw : 0 < w) (v : BitVec w) :
    (encode v).toNat < 2 * v.toInt.natAbs + 1 := by
  rw [toNat_encode hw]
  exact intEquivNat_lt v.toInt

end Zigzag
