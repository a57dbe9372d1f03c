import Sylar.ByteArray.Varint
import Sylar.Foundation.Zigzag

/-!
# `ByteArray` — zigzag

`EncodeZigzag32` and `EncodeZigzag64` go by the sign of the value, the decoders shift and mask. Both
are the functions of `Zigzag` at their width, hence inverse to each other for every value
(`zigzag_law`), and a value of small magnitude has a small code, whatever its sign.
-/

namespace Sylar.ByteArray

theorem toBitVec_EncodeZigzag32 (v : Int32) :
    (EncodeZigzag32 v).toBitVec = Zigzag.encode v.toBitVec := by
  by_cases hneg : v < 0
  · have hslt : v.toBitVec.slt 0 = true := hneg
    rw [EncodeZigzag32, if_pos hneg, Zigzag.encode, if_pos hslt]
    rfl
  · have hslt : ¬v.toBitVec.slt 0 = true := hneg
    rw [EncodeZigzag32, if_neg hneg, Zigzag.encode, if_neg hslt]
    rfl

theorem toBitVec_EncodeZigzag64 (v : Int64) :
    (EncodeZigzag64 v).toBitVec = Zigzag.encode v.toBitVec := by
  by_cases hneg : v < 0
  · have hslt : v.toBitVec.slt 0 = true := hneg
    rw [EncodeZigzag64, if_pos hneg, Zigzag.encode, if_pos hslt]
    rfl
  · have hslt : ¬v.toBitVec.slt 0 = true := hneg
    rw [EncodeZigzag64, if_neg hneg, Zigzag.encode, if_neg hslt]
    rfl

theorem toBitVec_DecodeZigzag32 (u : UInt32) :
    (DecodeZigzag32 u).toBitVec = Zigzag.decode u.toBitVec := rfl

theorem toBitVec_DecodeZigzag64 (u : UInt64) :
    (DecodeZigzag64 u).toBitVec = Zigzag.decode u.toBitVec := rfl

/-! ## Results -/

/-- Zigzag is a bijection in both widths. The code of `v` is at most `2 * |v|`. -/
theorem zigzag_law :
    ((∀ v : Int32, DecodeZigzag32 (EncodeZigzag32 v) = v) ∧
      (∀ u : UInt32, EncodeZigzag32 (DecodeZigzag32 u) = u) ∧
      ∀ v : Int32, (EncodeZigzag32 v).toNat < 2 * v.toInt.natAbs + 1) ∧
    ((∀ v : Int64, DecodeZigzag64 (EncodeZigzag64 v) = v) ∧
      (∀ u : UInt64, EncodeZigzag64 (DecodeZigzag64 u) = u) ∧
      ∀ v : Int64, (EncodeZigzag64 v).toNat < 2 * v.toInt.natAbs + 1) := by
  refine ⟨⟨?_, ?_, ?_⟩, ⟨?_, ?_, ?_⟩⟩
  · intro v
    apply Int32.toBitVec_inj.1
    rw [toBitVec_DecodeZigzag32, toBitVec_EncodeZigzag32, Zigzag.decode_encode (by decide)]
  · intro u
    apply UInt32.toBitVec_inj.1
    rw [toBitVec_EncodeZigzag32, toBitVec_DecodeZigzag32, Zigzag.encode_decode (by decide)]
  · intro v
    rw [← UInt32.toNat_toBitVec, toBitVec_EncodeZigzag32]
    exact Zigzag.toNat_encode_lt (by decide) v.toBitVec
  · intro v
    apply Int64.toBitVec_inj.1
    rw [toBitVec_DecodeZigzag64, toBitVec_EncodeZigzag64, Zigzag.decode_encode (by decide)]
  · intro u
    apply UInt64.toBitVec_inj.1
    rw [toBitVec_EncodeZigzag64, toBitVec_DecodeZigzag64, Zigzag.encode_decode (by decide)]
  · intro v
    rw [← UInt64.toNat_toBitVec, toBitVec_EncodeZigzag64]
    exact Zigzag.toNat_encode_lt (by decide) v.toBitVec

/-- Codes of the extreme values. -/
example : EncodeZigzag32 Int32.minValue = 4294967295 ∧
    EncodeZigzag32 Int32.maxValue = 4294967294 := by
  decide

end Sylar.ByteArray
