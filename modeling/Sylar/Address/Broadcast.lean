import Sylar.Address.Prefix

/-!
# Subnet masks and broadcast addresses

`MaskLaw` says that the subnet mask for a prefix has the bits of the prefix, and that the broadcast
address is the address or-ed with the complement of that mask. `maskLaw_iff` says for which prefixes
both are returned: the empty prefix of an IPv4 address shifts too far, and the full prefix of an
IPv6 address accesses a byte behind the last.
-/

namespace Sylar.Address

open Sylar.ByteArray Bytes

/-- For the first `p` bits, functions for addresses with these bytes and this port have returned a
mask and the broadcast address of `a`. -/
def MaskLaw {α : Type} (bytes : α → List UInt8) (port : α → UInt16) (p : ℕ) (a : α)
    (subnetMask broadcastAddress : Option (Option α)) : Prop :=
  ∃ mask baddr, subnetMask = some (some mask) ∧ broadcastAddress = some (some baddr) ∧
    (∀ i < 8 * (bytes a).length, bit (bytes mask) i = decide (i < p)) ∧
    port baddr = port a ∧
    ∀ i < 8 * (bytes a).length, bit (bytes baddr) i = (bit (bytes a) i || !bit (bytes mask) i)

namespace IPv4Address

variable {host : Endian} {address : IPv4Address} {prefix_len : UInt32}

theorem maskLaw (hne : prefix_len ≠ 0) (hle : prefix_len ≤ 32) :
    MaskLaw (bytes host) sin_port prefix_len.toNat address (subnetMask host prefix_len)
      (address.broadcastAddress host prefix_len) := by
  obtain ⟨mask, hmask, hbit⟩ := bit_networkMask host hne hle
  have hlength : (address.bytes host).length = 4 := host.length_memory ..
  have hsubnet : ∀ i < 8 * 4, bit (host.memory 4 (~~~mask).toNat) i =
      decide (i < prefix_len.toNat) := by
    intro i hi
    rw [bit_not _ hi, hbit i hi, ← decide_not, decide_eq_decide]
    exact Nat.not_le
  rw [subnetMask, broadcastAddress, if_neg (UInt32.not_lt.2 hle), hmask]
  refine ⟨_, _, rfl, rfl, ?_, rfl, ?_⟩
  · rw [hlength]
    exact hsubnet
  · intro i hi
    rw [hlength] at hi
    change bit (host.memory 4 (address.s_addr ||| mask).toNat) i =
      (bit (host.memory 4 address.s_addr.toNat) i || !bit (host.memory 4 (~~~mask).toNat) i)
    rw [bit_or _ _ hi, bit_not _ hi, Bool.not_not]

/-- The empty prefix has no mask. -/
theorem maskLaw_iff_ne_zero (hle : prefix_len ≤ 32) :
    MaskLaw (bytes host) sin_port prefix_len.toNat address (subnetMask host prefix_len)
      (address.broadcastAddress host prefix_len) ↔ prefix_len ≠ 0 := by
  constructor
  · -- `1 << 32`
    rintro ⟨mask, baddr, hmask, -⟩ rfl
    rw [subnetMask, networkMask, CreateMask_zero] at hmask
    cases hmask
  · intro hne
    exact maskLaw hne hle

end IPv4Address

namespace IPv6Address

variable {address : IPv6Address} {prefix_len : UInt32} {k : ℕ}

theorem testBit_not (b : UInt8) {j : ℕ} (hj : j < 8) :
    (~~~b).toNat.testBit j = !b.toNat.testBit j := by
  have hnot : (~~~b).toNat = 2 ^ 8 - (b.toNat + 1) := by
    rw [UInt8.toNat_not, Nat.add_comm, ← Nat.sub_sub]
    rfl
  rw [hnot, Nat.testBit_two_pow_sub_succ b.toNat_lt, decide_eq_true hj, Bool.true_and]

theorem testBit_ones {j : ℕ} (hj : j < 8) : (0xff : UInt8).toNat.testBit j = true := by
  rw [show (0xff : UInt8) = ~~~0 from rfl, testBit_not _ hj, UInt8.toNat_zero, Nat.zero_testBit,
    Bool.not_false]

theorem bit_zero (k : ℕ) : bit zero.s6_addr k = false := by
  rw [bit, zero, List.getElem?_replicate]
  split
  case isTrue => exact Nat.zero_testBit _
  case isFalse => exact Nat.zero_testBit _

/-- The mask has the bits of the bytes in front of the last byte of the prefix, and then as many of
that byte as the prefix has. -/
theorem subnetMask_eq (hlt : prefix_len.toNat / 8 < 16) : ∃ mask,
    subnetMask prefix_len = some (some mask) ∧
      ∀ k < 8 * 16, bit mask.s6_addr k = decide (k < prefix_len.toNat) := by
  obtain ⟨b, hb⟩ := exists_byte zero hlt
  rw [subnetMask, CreateMask_byte, toNat_div_eight]
  rw [hb]
  refine ⟨_, rfl, fun k hk => ?_⟩
  have hbit : 7 - k % 8 < 8 := by omega
  -- a byte in front of the last one, the last one, or a byte behind it
  simp only [bit_setBytes _ _ _ hlt hk, List.mem_range]
  by_cases hfront : k / 8 < prefix_len.toNat / 8
  · rw [if_pos hfront, testBit_ones hbit, decide_eq_true (by omega)]
  · rw [if_neg hfront]
    split
    case isTrue hlast =>
      rw [testBit_not _ hbit,
        testBit_byte_mask (Nat.mod_lt _ (by decide)) (Nat.mod_lt _ (by decide)), ← decide_not,
        decide_eq_decide]
      omega
    case isFalse hne => rw [bit_zero, decide_eq_false (by omega)]

/-- The broadcast address has all bits behind the prefix. -/
theorem broadcastAddress_eq (address : IPv6Address) (hlt : prefix_len.toNat / 8 < 16) : ∃ baddr,
    address.broadcastAddress prefix_len = some (some baddr) ∧
      baddr.sin6_port = address.sin6_port ∧ ∀ k < 8 * 16, bit baddr.s6_addr k =
        (bit address.s6_addr k || decide (prefix_len.toNat ≤ k)) := by
  obtain ⟨b, hb⟩ := exists_byte address hlt
  rw [broadcastAddress, CreateMask_byte, toNat_div_eight]
  rw [hb]
  refine ⟨_, rfl, sin6_port_setBytes .., fun k hk => ?_⟩
  have hbit : 7 - k % 8 < 8 := by omega
  -- a byte behind the last one, the last one, or a byte in front of it
  simp only [bit_setBytes _ _ _ hlt hk, mem_behind (by omega : k / 8 < 16)]
  by_cases hbehind : prefix_len.toNat / 8 < k / 8
  · rw [if_pos hbehind, testBit_ones hbit, decide_eq_true (by omega), Bool.or_true]
  · rw [if_neg hbehind]
    split
    case isTrue hlast =>
      rw [UInt8.toNat_or, Nat.testBit_or, testBit_getElem? hb hlast,
        testBit_byte_mask (Nat.mod_lt _ (by decide)) (Nat.mod_lt _ (by decide))]
      congr 1
      apply decide_eq_decide.2
      omega
    case isFalse hne => rw [decide_eq_false (by omega), Bool.or_false]

/-- The full prefix has no last byte. -/
theorem maskLaw_iff_ne_full (hle : prefix_len ≤ 128) :
    MaskLaw s6_addr sin6_port prefix_len.toNat address (subnetMask prefix_len)
      (address.broadcastAddress prefix_len) ↔ prefix_len ≠ 128 := by
  constructor
  · -- `s6_addr[16]`
    rintro ⟨mask, baddr, hmask, -⟩ rfl
    have hnone : subnetMask 128 = none := by decide
    rw [hnone] at hmask
    cases hmask
  · intro hne
    have hlt : prefix_len.toNat / 8 < 16 := by
      have hlt : prefix_len.toNat < 128 := Nat.lt_of_le_of_ne hle fun h =>
        hne (UInt32.toNat_inj.1 h)
      omega
    obtain ⟨mask, hmask, hbits⟩ := subnetMask_eq hlt
    obtain ⟨baddr, hbaddr, hport, hbits'⟩ := broadcastAddress_eq address hlt
    refine ⟨mask, baddr, hmask, hbaddr, ?_, hport, ?_⟩
    · rw [address.length_s6_addr]
      exact hbits
    · intro k hk
      rw [address.length_s6_addr] at hk
      rw [hbits' k hk, hbits k hk, ← decide_not]
      congr 1
      exact decide_eq_decide.2 Nat.not_lt.symm

end IPv6Address

/-- Subnet masks and broadcast addresses are returned, and as they should be, for all prefixes but
the empty one of an IPv4 address, for which `CreateMask` shifts by the width of its operand, and the
one of 128 bits of an IPv6 address, for which the index of the last byte is 16. -/
theorem maskLaw_iff (host : Endian) :
    (∀ (a : IPv4Address) (prefix_len : UInt32), prefix_len ≤ 32 →
      (MaskLaw (IPv4Address.bytes host) IPv4Address.sin_port prefix_len.toNat a
        (IPv4Address.subnetMask host prefix_len) (a.broadcastAddress host prefix_len) ↔
          prefix_len ≠ 0)) ∧
    ∀ (a : IPv6Address) (prefix_len : UInt32), prefix_len ≤ 128 →
      (MaskLaw IPv6Address.s6_addr IPv6Address.sin6_port prefix_len.toNat a
        (IPv6Address.subnetMask prefix_len) (a.broadcastAddress prefix_len) ↔
          prefix_len ≠ 128) :=
  ⟨fun _ _ => IPv4Address.maskLaw_iff_ne_zero, fun _ _ => IPv6Address.maskLaw_iff_ne_full⟩

/-- The subnet mask of the empty prefix shifts an `int` by 32, and that of 128 bits is written to
`s6_addr[16]`. -/
theorem not_maskLaw_extremes :
    (¬ MaskLaw (IPv4Address.bytes .little) IPv4Address.sin_port 0 ⟨0x0501a8c0, 80⟩
      (IPv4Address.subnetMask .little 0)
      (IPv4Address.broadcastAddress .little ⟨0x0501a8c0, 80⟩ 0)) ∧
    ¬ MaskLaw IPv6Address.s6_addr IPv6Address.sin6_port 128 IPv6Address.zero
      (IPv6Address.subnetMask 128) (IPv6Address.broadcastAddress IPv6Address.zero 128) := by
  constructor
  · rintro ⟨mask, baddr, hmask, -⟩
    have hnone : IPv4Address.subnetMask .little 0 = none := by decide
    rw [hnone] at hmask
    cases hmask
  · rintro ⟨mask, baddr, hmask, -⟩
    have hnone : IPv6Address.subnetMask 128 = none := by decide
    rw [hnone] at hmask
    cases hmask

end Sylar.Address
