import Sylar.Address.Prefix

/-!
# Network addresses

`networkAddress` keeps the wrong side of the mask: the bits behind the prefix of an IPv4 address,
and those of the last byte of the prefix of an IPv6 address. `networkAddress_iff` says for which
addresses and prefixes the result is the network address nevertheless.
-/

namespace Sylar.Address

open Sylar.ByteArray Bytes

/-- A function for addresses with these bytes and this port has returned the network address of
`a`: the first `p` bits of `a`, and zeros. -/
def IsNetwork {α : Type} (bytes : α → List UInt8) (port : α → UInt16) (p : ℕ) (a : α)
    (result : Option (Option α)) : Prop :=
  ∃ a', result = some (some a') ∧ port a' = port a ∧ IsPrefix p (bytes a) (bytes a')

/-- The bits of a number in memory are those of the number. -/
theorem eq_zero_iff_bit (host : Endian) (x : UInt32) :
    x = 0 ↔ ∀ i < 8 * 4, bit (host.memory 4 x.toNat) i = false := by
  have hzero : ∀ i < 8 * 4, bit (host.memory 4 0) i = false := by
    intro i hi
    obtain ⟨k, -, hk⟩ := exists_bit_memory host hi
    rw [hk, Nat.zero_testBit]
  constructor
  · rintro rfl
    exact hzero
  · intro h
    have hmemory : host.memory 4 x.toNat = host.memory 4 0 := by
      apply eq_of_bit
      · rw [host.length_memory, host.length_memory]
      · intro i hi
        rw [host.length_memory] at hi
        rw [h i hi, hzero i hi]
    have hnumber := congrArg host.ofMemory hmemory
    rw [host.ofMemory_memory x.toNat_lt, host.ofMemory_memory (by decide)] at hnumber
    exact UInt32.toNat_inj.1 hnumber

namespace IPv4Address

variable {host : Endian} {address : IPv4Address} {prefix_len : UInt32}

/-- The result has the bits behind the prefix. -/
theorem networkAddress_eq (host : Endian) (address : IPv4Address) (hne : prefix_len ≠ 0)
    (hle : prefix_len ≤ 32) : ∃ s_addr,
    address.networkAddress host prefix_len = some (some { address with s_addr }) ∧
      ∀ i < 8 * 4, bit (host.memory 4 s_addr.toNat) i =
        (bit (address.bytes host) i && decide (prefix_len.toNat ≤ i)) := by
  obtain ⟨mask, hmask, hbit⟩ := bit_networkMask host hne hle
  refine ⟨address.s_addr &&& mask, ?_, fun i hi => ?_⟩
  · rw [networkAddress, if_neg (UInt32.not_lt.2 hle), hmask]
    rfl
  · rw [bit_and _ _ hi, hbit i hi]
    rfl

/-- An address is its network address, as computed, only if it is zero. -/
theorem isNetwork_iff (hle : prefix_len ≤ 32) :
    IsNetwork (bytes host) sin_port prefix_len.toNat address
      (address.networkAddress host prefix_len) ↔ address.s_addr = 0 ∧ prefix_len ≠ 0 := by
  by_cases hne : prefix_len = 0
  · -- the mask is not defined
    refine iff_of_false ?_ fun h => h.2 hne
    rintro ⟨a', hresult, -⟩
    rw [networkAddress, if_neg (UInt32.not_lt.2 hle), networkMask, hne, CreateMask_zero] at hresult
    cases hresult
  · -- the bits in front are cleared, those behind are kept, and both should be the other way round
    obtain ⟨s_addr, hresult, hbits⟩ := networkAddress_eq host address hne hle
    have hlength : (address.bytes host).length = 4 := host.length_memory ..
    rw [hresult, and_iff_left hne, eq_zero_iff_bit host]
    constructor
    · rintro ⟨a', heq, -, hkeeps⟩ i hi
      cases heq
      have hbit := hkeeps.bit_eq i (by rwa [hlength])
      change bit (host.memory 4 s_addr.toNat) i = _ at hbit
      rw [hbits i hi] at hbit
      change bit (address.bytes host) i = false
      by_cases hp : i < prefix_len.toNat
      · simpa [hp, Nat.not_le.2 hp] using hbit.symm
      · simpa [hp, Nat.not_lt.1 hp] using hbit
    · intro hzero
      refine ⟨_, rfl, rfl, ⟨?_, fun i hi => ?_⟩⟩
      · rw [hlength]
        exact host.length_memory ..
      · rw [hlength] at hi
        have hbit : bit (address.bytes host) i = false := hzero i hi
        change bit (host.memory 4 s_addr.toNat) i = _
        rw [hbits i hi, hbit, Bool.and_false, Bool.false_and]

end IPv4Address

namespace IPv6Address

variable {address : IPv6Address} {prefix_len : UInt32}

/-- The result has the bits behind the prefix in its last byte, and those of the bytes in front. -/
theorem networkAddress_eq (address : IPv6Address) (hle : prefix_len ≤ 32) : ∃ a',
    address.networkAddress prefix_len = some (some a') ∧ a'.sin6_port = address.sin6_port ∧
      ∀ k < 8 * 16, bit a'.s6_addr k =
        if prefix_len.toNat / 8 < k / 8 then false
        else if k / 8 = prefix_len.toNat / 8 then
          bit address.s6_addr k && decide (prefix_len.toNat ≤ k)
        else bit address.s6_addr k := by
  have hle' : prefix_len.toNat ≤ 32 := hle
  have hi : prefix_len.toNat / 8 < 16 := by omega
  obtain ⟨b, hb⟩ := exists_byte address hi
  rw [networkAddress, if_neg (UInt32.not_lt.2 hle), CreateMask_byte, toNat_div_eight]
  dsimp only
  rw [hb]
  refine ⟨_, rfl, sin6_port_setBytes .., fun k hk => ?_⟩
  simp only [bit_setBytes _ _ _ hi hk, mem_behind (by omega : k / 8 < 16)]
  by_cases hbehind : prefix_len.toNat / 8 < k / 8
  · rw [if_pos hbehind, if_pos hbehind, UInt8.toNat_zero, Nat.zero_testBit]
  · rw [if_neg hbehind, if_neg hbehind]
    split
    case isTrue hlast =>
      have hmask := testBit_byte_mask (Nat.mod_lt prefix_len.toNat (by decide : 0 < 8))
        (Nat.mod_lt k (by decide : 0 < 8))
      rw [UInt8.toNat_and, Nat.testBit_and, testBit_getElem? hb hlast, hmask]
      congr 1
      apply decide_eq_decide.2
      omega
    case isFalse => rfl

/-- A byte is zero exactly if its bits are. -/
theorem getElem?_eq_zero_iff {i : ℕ} (hi : i < 16) : address.s6_addr[i]? = some 0 ↔
    ∀ k, k / 8 = i → bit address.s6_addr k = false := by
  obtain ⟨b, hb⟩ := exists_byte address hi
  rw [hb, Option.some_inj]
  constructor
  · intro hzero k hk
    rw [← testBit_getElem? hb hk, hzero, UInt8.toNat_zero, Nat.zero_testBit]
  · intro h
    apply byte_eq_of_testBit
    intro j hj
    -- the bit `j` of the byte in network order
    have hquot : (8 * i + (7 - j)) / 8 = i := by omega
    have hrem : 7 - (8 * i + (7 - j)) % 8 = j := by omega
    have hbit := h (8 * i + (7 - j)) hquot
    rw [← testBit_getElem? hb hquot, hrem] at hbit
    rw [hbit, UInt8.toNat_zero, Nat.zero_testBit]

/-- An address is its network address, as computed, only if the byte with the end of the prefix is
zero. -/
theorem isNetwork_iff : IsNetwork s6_addr sin6_port prefix_len.toNat address
    (address.networkAddress prefix_len) ↔
      prefix_len ≤ 32 ∧ address.s6_addr[prefix_len.toNat / 8]? = some 0 := by
  by_cases hle : prefix_len ≤ 32
  · obtain ⟨a', hresult, hport, hbits⟩ := networkAddress_eq address hle
    have hi : prefix_len.toNat / 8 < 16 := by
      have hle' : prefix_len.toNat ≤ 32 := hle
      omega
    rw [hresult, and_iff_right hle, getElem?_eq_zero_iff hi]
    -- the bytes in front and behind are right in any case
    constructor
    · rintro ⟨a'', heq, -, hkeeps⟩ k hk
      cases heq
      have hbit := hkeeps.bit_eq k (by rw [address.length_s6_addr]; omega)
      rw [hbits k (by omega), if_neg (by omega), if_pos hk] at hbit
      by_cases hp : k < prefix_len.toNat
      · simpa [hp, Nat.not_le.2 hp] using hbit.symm
      · simpa [hp, Nat.not_lt.1 hp] using hbit
    · intro hzero
      refine ⟨a', rfl, hport, ⟨by rw [a'.length_s6_addr, address.length_s6_addr], fun k hk => ?_⟩⟩
      rw [address.length_s6_addr] at hk
      rw [hbits k hk]
      split
      case isTrue hbehind =>
        rw [decide_eq_false (by omega), Bool.false_and]
      case isFalse hfront =>
        split
        case isTrue hlast => rw [hzero k hlast, Bool.and_false, Bool.false_and]
        case isFalse hne => rw [decide_eq_true (by omega), Bool.true_and]
  · -- a null pointer
    refine iff_of_false ?_ fun h => hle h.1
    rintro ⟨a', hresult, -⟩
    rw [networkAddress, if_pos (UInt32.not_le.1 hle)] at hresult
    cases hresult

end IPv6Address

/-- `networkAddress` returns the network address exactly for the IPv4 address `0.0.0.0` with a
prefix that is not empty, and for an IPv6 address with a prefix of at most 32 bits that ends in, or
in front of, a byte that is zero. A function that returns network addresses is idempotent, and
addresses with the same prefix have the same network address. -/
theorem networkAddress_iff (host : Endian) :
    (∀ (a : IPv4Address) (prefix_len : UInt32), prefix_len ≤ 32 →
      (IsNetwork (IPv4Address.bytes host) IPv4Address.sin_port prefix_len.toNat a
        (a.networkAddress host prefix_len) ↔ a.s_addr = 0 ∧ prefix_len ≠ 0)) ∧
    (∀ (a : IPv6Address) (prefix_len : UInt32), prefix_len ≤ 128 →
      (IsNetwork IPv6Address.s6_addr IPv6Address.sin6_port prefix_len.toNat a
        (a.networkAddress prefix_len) ↔
          prefix_len ≤ 32 ∧ a.s6_addr[prefix_len.toNat / 8]? = some 0)) ∧
    ∀ (p : ℕ) (bs bs' cs' : List UInt8), IsPrefix p bs bs' →
      (IsPrefix p bs' cs' → cs' = bs') ∧
      ∀ cs, cs.length = bs.length → (∀ i < 8 * bs.length, i < p → bit cs i = bit bs i) →
        IsPrefix p cs cs' → cs' = bs' :=
  ⟨fun _ _ hle => IPv4Address.isNetwork_iff hle, fun _ _ _ => IPv6Address.isNetwork_iff,
    fun _ _ _ _ h => ⟨h.idem, fun _ hlen hsame h' => h.congr h' hlen hsame⟩⟩

/-- The network address of `192.168.1.5` with 24 bits is computed as `0.0.0.5`. -/
theorem not_networkAddress : ¬ IsNetwork (IPv4Address.bytes .little) IPv4Address.sin_port 24
    ⟨0x0501a8c0, 80⟩ (IPv4Address.networkAddress .little ⟨0x0501a8c0, 80⟩ 24) := by
  have hresult : IPv4Address.networkAddress .little ⟨0x0501a8c0, 80⟩ 24 =
      some (some ⟨0x05000000, 80⟩) := rfl
  rw [hresult]
  rintro ⟨a', heq, -, hkeeps⟩
  cases heq
  exact absurd (hkeeps.bit_eq 0 (by decide)) (by decide)

end Sylar.Address
