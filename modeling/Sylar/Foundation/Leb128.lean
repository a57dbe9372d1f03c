import Mathlib.Algebra.Group.Nat.Defs
import Mathlib.Data.List.Basic

/-!
# LEB128

A number as groups of seven bits, the lowest group first. Each group is a byte; the high bit is set
in every byte but the last.

* `Encodes bs v` — the bytes `bs` are an encoding of `v`. It need not be the shortest one: groups
  of zeros may follow those that `v` needs.
* `ofNat_group` — a number with one more group in front, as bit vectors that are or-ed together.
-/

namespace Leb128

/-- `bs` is a LEB128 encoding of `v`. -/
inductive Encodes : List UInt8 → ℕ → Prop
  | last (b : UInt8) (hb : b.toNat < 128) : Encodes [b] b.toNat
  | group (b : UInt8) {bs : List UInt8} {v : ℕ} (hb : 128 ≤ b.toNat) (h : Encodes bs v) :
      Encodes (b :: bs) (b.toNat - 128 + 128 * v)

variable {w : ℕ}

/-- The group `a` and the number `v` behind it do not overlap. -/
theorem ofNat_group {a : ℕ} (ha : a < 128) (v : ℕ) :
    BitVec.ofNat w (a + 128 * v) = BitVec.ofNat w a ||| BitVec.ofNat w v <<< 7 := by
  have hor : 2 ^ 7 * v + a = 2 ^ 7 * v ||| a := Nat.two_pow_add_eq_or_of_lt ha v
  have hshift : BitVec.ofNat w (2 ^ 7 * v) = BitVec.ofNat w v <<< 7 := by
    apply BitVec.eq_of_toNat_eq
    rw [BitVec.toNat_ofNat, BitVec.toNat_shiftLeft, BitVec.toNat_ofNat, Nat.shiftLeft_eq,
      Nat.mul_comm, Nat.mod_mul_mod]
  rw [show a + 128 * v = 2 ^ 7 * v ||| a by omega, BitVec.ofNat_or, hshift, BitVec.or_comm]

/-- A byte below `128` is its group. -/
theorem setWidth_byte (b : UInt8) : b.toBitVec.setWidth w = BitVec.ofNat w b.toNat := by
  rw [← BitVec.ofNat_toNat, UInt8.toNat_toBitVec]

/-- The group of a byte with the high bit set. -/
theorem setWidth_byte_and {b : UInt8} (hb : 128 ≤ b.toNat) :
    b.toBitVec.setWidth w &&& 0x7f = BitVec.ofNat w (b.toNat - 128) := by
  have hlt := b.toNat_lt
  have hgroup : b.toNat &&& 127 = b.toNat - 128 := by
    rw [show 127 = 2 ^ 7 - 1 from rfl, Nat.and_two_pow_sub_one_eq_mod]
    omega
  rw [setWidth_byte, show (0x7f : BitVec w) = BitVec.ofNat w 127 from rfl, ← BitVec.ofNat_and,
    hgroup]

/-- A group of a number, with the high bit set. -/
theorem toNat_group (hw : 8 ≤ w) (value : BitVec w) :
    (UInt8.ofBitVec (((value &&& 0x7f) ||| 0x80).setWidth 8)).toNat = value.toNat % 128 + 128 := by
  have hpow : 2 ^ 8 ≤ 2 ^ w := Nat.pow_le_pow_right (by decide) hw
  have hmask : (0x7f : BitVec w).toNat = 2 ^ 7 - 1 :=
    Nat.mod_eq_of_lt (show 127 < 2 ^ w by omega)
  have hbit : (0x80 : BitVec w).toNat = 2 ^ 7 * 1 :=
    Nat.mod_eq_of_lt (show 128 < 2 ^ w by omega)
  have hlow : value.toNat % 2 ^ 7 < 2 ^ 7 := Nat.mod_lt _ (by decide)
  change (((value &&& 0x7f) ||| 0x80).setWidth 8).toNat = _
  rw [BitVec.toNat_setWidth, BitVec.toNat_or, BitVec.toNat_and, hmask, hbit,
    Nat.and_two_pow_sub_one_eq_mod, Nat.or_comm, ← Nat.two_pow_add_eq_or_of_lt hlow]
  omega

end Leb128
