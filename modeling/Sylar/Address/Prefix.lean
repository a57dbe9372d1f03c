import Sylar.Address.Defs
import Sylar.Foundation.Bits

/-!
# Network addresses, broadcast addresses and subnet masks

Model of `CreateMask` and of `networkAddress`, `broadcastAddress` and `subnetMask` of both address
families from `socket/address.cpp`, and the bits of what they return.

A shift of an `int` by 32 or more, and an access to `s6_addr` at 16 or more, is not defined: `none`.
The difference `(1 << 31) - 1` of an `int` wraps. A null pointer is `some none`.
-/

namespace Sylar.Address

open Sylar.ByteArray Bytes

/-- `1 << amount`, an `int`. -/
def shiftOne (amount : UInt64) : Option (BitVec 32) :=
  if amount < 32 then some ((1 : BitVec 32) <<< amount.toNat) else none

/-- `CreateMask<T>(bits)` for a type of `w` bits. -/
def CreateMask (w : UInt64) (bits : UInt32) : Option ℕ :=
  (shiftOne (w - bits.toUInt64)).map fun one => (one - 1).toNat % 2 ^ w.toNat

namespace IPv4Address

variable (host : Endian) (address : IPv4Address) (prefix_len : UInt32)

/-- `CreateMask<uint32_t>(prefix_len)` in network byte order. -/
def networkMask : Option UInt32 :=
  (CreateMask 32 prefix_len).map fun mask => UInt32.ofNat (byteswapOnLittleEndian host 4 mask)

/-- `broadcastAddress(prefix_len)`. -/
def broadcastAddress : Option (Option IPv4Address) :=
  if prefix_len > 32 then some none
  else
    (networkMask host prefix_len).map fun mask =>
      some { address with s_addr := address.s_addr ||| mask }

/-- `networkAddress(prefix_len)`. -/
def networkAddress : Option (Option IPv4Address) :=
  if prefix_len > 32 then some none
  else
    (networkMask host prefix_len).map fun mask =>
      some { address with s_addr := address.s_addr &&& mask }

/-- `subnetMask(prefix_len)`. -/
def subnetMask : Option (Option IPv4Address) :=
  (networkMask host prefix_len).map fun mask => some { s_addr := ~~~mask, sin_port := 0 }

end IPv4Address

namespace IPv6Address

variable (address : IPv6Address) (prefix_len : UInt32)

/-- `s6_addr[i] = b`. -/
def setByte (i : ℕ) (b : UInt8) : IPv6Address where
  s6_addr := address.s6_addr.set i b
  sin6_port := address.sin6_port
  length_s6_addr := by rw [List.length_set, address.length_s6_addr]

/-- A loop of assignments `s6_addr[i] = b`. -/
def setBytes (is : List ℕ) (b : UInt8) : IPv6Address :=
  is.foldl (fun address i => address.setByte i b) address

/-- `broadcastAddress(prefix_len)`. -/
def broadcastAddress : Option (Option IPv6Address) := do
  let i := (prefix_len / 8).toNat
  let mask ← CreateMask 8 (prefix_len % 8)
  let b ← address.s6_addr[i]?
  some (some ((address.setByte i (b ||| UInt8.ofNat mask)).setBytes
    (List.range' (i + 1) (16 - (i + 1))) 0xff))

/-- `networkAddress(prefix_len)`, which refuses prefixes longer than those of an IPv4 address. -/
def networkAddress : Option (Option IPv6Address) :=
  if prefix_len > 32 then some none
  else do
    let i := (prefix_len / 8).toNat
    let mask ← CreateMask 8 (prefix_len % 8)
    let b ← address.s6_addr[i]?
    some (some ((address.setByte i (b &&& UInt8.ofNat mask)).setBytes
      (List.range' (i + 1) (16 - (i + 1))) 0x00))

/-- A `sockaddr_in6` filled with zeros. -/
def zero : IPv6Address where
  s6_addr := List.replicate 16 0
  sin6_port := 0
  length_s6_addr := List.length_replicate

/-- `subnetMask(prefix_len)`. -/
def subnetMask : Option (Option IPv6Address) := do
  let i := (prefix_len / 8).toNat
  let mask ← CreateMask 8 (prefix_len % 8)
  let _ ← zero.s6_addr[i]?
  some (some ((zero.setByte i (~~~UInt8.ofNat mask)).setBytes (List.range i) 0xff))

end IPv6Address

/-! ## Masks -/

section Masks

variable {w : UInt64} {bits : UInt32}

theorem toNat_sub_bits (hbits : bits.toNat ≤ w.toNat) :
    (w - bits.toUInt64).toNat = w.toNat - bits.toNat := by
  rw [UInt64.toNat_sub_of_le, UInt32.toNat_toUInt64]
  rwa [UInt64.le_iff_toNat_le, UInt32.toNat_toUInt64]

/-- A mask has as many ones, from the least significant bit on, as the type has bits behind the
first `bits`. -/
theorem CreateMask_eq (hbits : bits.toNat ≤ w.toNat)
    (hshift : w.toNat - bits.toNat < 32) :
    CreateMask w bits = some (2 ^ (w.toNat - bits.toNat) - 1) := by
  have hamount : w - bits.toUInt64 < 32 := by
    rw [UInt64.lt_iff_toNat_lt, toNat_sub_bits hbits]
    exact hshift
  rw [CreateMask, shiftOne, if_pos hamount, Option.map_some, toNat_sub_bits hbits]
  generalize hn : w.toNat - bits.toNat = n at hshift
  -- neither the shift nor the conversion to the type loses a bit
  have hpos : 1 ≤ 2 ^ n := Nat.one_le_two_pow
  have hlt : 2 ^ n < 2 ^ 32 := Nat.pow_lt_pow_right (by decide) hshift
  have hle : 2 ^ n ≤ 2 ^ w.toNat := Nat.pow_le_pow_right (by decide) (by omega)
  have hone : ((1 : BitVec 32) <<< n).toNat = 2 ^ n := by
    rw [BitVec.toNat_shiftLeft, Nat.shiftLeft_eq, show (1 : BitVec 32).toNat = 1 from rfl,
      Nat.one_mul, Nat.mod_eq_of_lt hlt]
  have hsub : ((1 : BitVec 32) <<< n - 1).toNat = 2 ^ n - 1 := by
    rw [BitVec.toNat_sub, hone, show (1 : BitVec 32).toNat = 1 from rfl]
    omega
  rw [hsub, Nat.mod_eq_of_lt (by omega)]

/-- A shift by 32 is not defined. -/
theorem CreateMask_zero : CreateMask 32 0 = none := by
  decide

end Masks

/-! ## IPv4 addresses -/

section Words

variable {host : Endian} {i : ℕ}

/-- A bit in the memory of a variable is a bit of the variable. -/
theorem exists_bit_memory (host : Endian) {n : ℕ} (h : i < 8 * n) :
    ∃ k < 8 * n, ∀ x, bit (host.memory n x) i = x.testBit k := by
  cases host with
  | little => exact ⟨8 * (i / 8) + (7 - i % 8), by omega, fun x => bit_toLE x h⟩
  | big => exact ⟨8 * n - 1 - i, by omega, fun x => bit_reverse_toLE x h⟩

theorem bit_and (a b : UInt32) (h : i < 8 * 4) : bit (host.memory 4 (a &&& b).toNat) i =
    (bit (host.memory 4 a.toNat) i && bit (host.memory 4 b.toNat) i) := by
  obtain ⟨k, -, hk⟩ := exists_bit_memory host h
  rw [hk, hk, hk, UInt32.toNat_and, Nat.testBit_and]

theorem bit_or (a b : UInt32) (h : i < 8 * 4) : bit (host.memory 4 (a ||| b).toNat) i =
    (bit (host.memory 4 a.toNat) i || bit (host.memory 4 b.toNat) i) := by
  obtain ⟨k, -, hk⟩ := exists_bit_memory host h
  rw [hk, hk, hk, UInt32.toNat_or, Nat.testBit_or]

theorem bit_not (a : UInt32) (h : i < 8 * 4) :
    bit (host.memory 4 (~~~a).toNat) i = !bit (host.memory 4 a.toNat) i := by
  obtain ⟨k, hlt, hk⟩ := exists_bit_memory host h
  have hnot : (~~~a).toNat = 2 ^ 32 - (a.toNat + 1) := by
    rw [UInt32.toNat_not, Nat.add_comm, ← Nat.sub_sub]
    rfl
  rw [hk, hk, hnot, Nat.testBit_two_pow_sub_succ a.toNat_lt, decide_eq_true hlt, Bool.true_and]

theorem byteswapOnLittleEndian_lt (host : Endian) (n : ℕ) {x : ℕ} (h : x < 256 ^ n) :
    byteswapOnLittleEndian host n x < 256 ^ n := by
  cases host with
  | little =>
    have hlt := ofLE_lt (toLE n x).reverse
    rwa [List.length_reverse, length_toLE] at hlt
  | big => exact h

/-- The mask in network byte order has ones behind the first `prefix_len` bits. -/
theorem bit_networkMask (host : Endian) {prefix_len : UInt32} (hne : prefix_len ≠ 0)
    (hle : prefix_len ≤ 32) : ∃ mask, IPv4Address.networkMask host prefix_len = some mask ∧
      ∀ i < 8 * 4, bit (host.memory 4 mask.toNat) i = decide (prefix_len.toNat ≤ i) := by
  have hpos : 0 < prefix_len.toNat := by
    rw [Nat.pos_iff_ne_zero, Ne, ← UInt32.toNat_zero, UInt32.toNat_inj]
    exact hne
  have hle' : prefix_len.toNat ≤ 32 := hle
  have hmask : CreateMask 32 prefix_len = some (2 ^ (32 - prefix_len.toNat) - 1) :=
    CreateMask_eq hle (by change 32 - prefix_len.toNat < 32; omega)
  have hlt : 2 ^ (32 - prefix_len.toNat) - 1 < 256 ^ 4 :=
    (Nat.sub_le _ _).trans_lt (Nat.pow_lt_pow_right (by decide) (by omega : _ < 32))
  rw [IPv4Address.networkMask, hmask]
  refine ⟨_, rfl, fun i hi => ?_⟩
  -- the swap turns the order of the host into network order, where the first bit is the highest
  have hswap : byteswapOnLittleEndian host 4 _ < 2 ^ 32 := byteswapOnLittleEndian_lt host 4 hlt
  rw [UInt32.toNat_ofNat', Nat.mod_eq_of_lt hswap, memory_eq_reverse,
    byteswapOnLittleEndian_involutive host hlt, bit_reverse_toLE _ hi, Nat.testBit_two_pow_sub_one]
  apply decide_eq_decide.2
  omega

end Words

/-! ## IPv6 addresses -/

section Arrays

variable {i p : ℕ}

/-- The bits of a byte that is and-ed with a mask. -/
theorem testBit_byte_mask {r j : ℕ} (hr : r < 8) (hj : j < 8) :
    (UInt8.ofNat (2 ^ (8 - r) - 1)).toNat.testBit (7 - j) = decide (r ≤ j) := by
  have hlt : 2 ^ (8 - r) - 1 < 2 ^ 8 :=
    (Nat.sub_lt Nat.one_le_two_pow Nat.one_pos).trans_le
      (Nat.pow_le_pow_right (by decide) (Nat.sub_le 8 r))
  rw [UInt8.toNat_ofNat', Nat.mod_eq_of_lt hlt, Nat.testBit_two_pow_sub_one]
  apply decide_eq_decide.2
  omega

theorem CreateMask_byte (prefix_len : UInt32) :
    CreateMask 8 (prefix_len % 8) = some (2 ^ (8 - prefix_len.toNat % 8) - 1) := by
  have hmod : (prefix_len % 8).toNat = prefix_len.toNat % 8 := UInt32.toNat_mod ..
  rw [← hmod]
  apply CreateMask_eq
  · rw [hmod]
    change _ ≤ 8
    omega
  · change 8 - _ < 32
    omega

/-- The bytes that a loop of assignments leaves. -/
theorem getElem?_setBytes (address : IPv6Address) (is : List ℕ) (b : UInt8) (k : ℕ) :
    (address.setBytes is b).s6_addr[k]? =
      if k ∈ is ∧ k < 16 then some b else address.s6_addr[k]? := by
  induction is generalizing address with
  | nil => simp [IPv6Address.setBytes]
  | cons i is ih =>
    have hcons : address.setBytes (i :: is) b = (address.setByte i b).setBytes is b := rfl
    rw [hcons, ih, IPv6Address.setByte, List.getElem?_set, address.length_s6_addr]
    by_cases hki : k = i
    · subst hki
      by_cases hk : k < 16
      · simp [hk]
      · have hnone : address.s6_addr[k]? = none :=
          List.getElem?_eq_none (by rw [address.length_s6_addr]; omega)
        simp [hk, hnone]
    · simp [hki, Ne.symm hki]

theorem sin6_port_setBytes (address : IPv6Address) (is : List ℕ) (b : UInt8) :
    (address.setBytes is b).sin6_port = address.sin6_port := by
  induction is generalizing address with
  | nil => rfl
  | cons i is ih => exact ih (address.setByte i b)

theorem toNat_div_eight (prefix_len : UInt32) : (prefix_len / 8).toNat = prefix_len.toNat / 8 :=
  UInt32.toNat_div ..

/-- The indices of a loop over the bytes behind one byte. -/
theorem mem_behind {k : ℕ} (hk : k < 16) : k ∈ List.range' (i + 1) (16 - (i + 1)) ↔ i < k := by
  rw [List.mem_range'_1]
  omega

/-- The bits after one byte and then some others have been assigned. -/
theorem bit_setBytes (address : IPv6Address) {i k : ℕ} (v w : UInt8) {is : List ℕ} (hi : i < 16)
    (hk : k < 8 * 16) : bit ((address.setByte i v).setBytes is w).s6_addr k =
      if k / 8 ∈ is then w.toNat.testBit (7 - k % 8)
      else if k / 8 = i then v.toNat.testBit (7 - k % 8)
      else bit address.s6_addr k := by
  have hlt : k / 8 < 16 := by omega
  rw [bit, getElem?_setBytes]
  by_cases hmem : k / 8 ∈ is
  · rw [if_pos ⟨hmem, hlt⟩, if_pos hmem, Option.getD_some]
  · rw [if_neg (fun h => hmem h.1), if_neg hmem]
    exact bit_set (by rwa [address.length_s6_addr]) v k

theorem exists_byte (address : IPv6Address) (hi : i < 16) : ∃ b, address.s6_addr[i]? = some b := by
  rw [← address.length_s6_addr] at hi
  exact ⟨_, List.getElem?_eq_getElem hi⟩

/-- The bit of a byte that is an element of the address. -/
theorem testBit_getElem? {address : IPv6Address} {k : ℕ} {b : UInt8}
    (hb : address.s6_addr[i]? = some b) (hk : k / 8 = i) :
    b.toNat.testBit (7 - k % 8) = bit address.s6_addr k := by
  rw [bit, hk, hb, Option.getD_some]

end Arrays

end Sylar.Address
