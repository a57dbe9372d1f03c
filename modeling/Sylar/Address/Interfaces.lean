import Sylar.Address.Order
import Sylar.ByteArray.Endian
import Sylar.Foundation.Ones
import Mathlib.Data.Int.Notation
import Mathlib.Data.List.Sort

/-!
# The addresses of the interfaces

Model of `CountBytes`, `Address::Create` and `Address::GetInterfaceAddresses` from
`socket/address.cpp`. The entries come from `getifaddrs`; their pointers lead to objects of bytes in
memory, laid out as `sockaddr_in` and `sockaddr_in6` are, or are null. To follow a null pointer, or
to read behind the end of an object, is not defined: `none`.

`CountBytes` counts the ones of a word (`CountBytes_eq`). So the prefix length that
`GetInterfaceAddresses` adds for a netmask is the length of the prefix (`interfaces_law`).
-/

namespace Sylar.Address

open Sylar.ByteArray Bits Bytes

/-! ## Model -/

/-- The loop of `CountBytes`. It ends, as `value` gets smaller. -/
def countLoop {w : ℕ} (value : BitVec w) (result : UInt32) : UInt32 :=
  if hne : value ≠ 0 then
    -- `value - 1` of a `uint8_t` is an `int`, which is not negative here
    countLoop (value &&& (value - 1)) (result + 1)
  else result
termination_by value.toNat
decreasing_by exact and_sub_one_lt hne

/-- `CountBytes<T>(value)` for an unsigned type of `w` bits. -/
def CountBytes {w : ℕ} (value : BitVec w) : UInt32 := countLoop value 0

def AF_UNSPEC : ℕ := 0

def AF_INET : ℕ := 2

def AF_INET6 : ℕ := 10

namespace Sockaddr

/-- The `n` bytes at the offset `i`. -/
def load (a : Sockaddr) (i n : ℕ) : Option (List UInt8) :=
  if i + n ≤ a.getAddrLen then some ((a.getAddr.drop i).take n) else none

/-- `sa_family`. -/
def sa_family (host : Endian) (a : Sockaddr) : Option ℕ := (a.load 0 2).map host.ofMemory

/-- `sin_addr.s_addr` of a `sockaddr_in`. -/
def s_addr (host : Endian) (a : Sockaddr) : Option UInt32 :=
  (a.load 4 4).map fun bs => UInt32.ofNat (host.ofMemory bs)

/-- `sin6_addr.s6_addr` of a `sockaddr_in6`. -/
def s6_addr (a : Sockaddr) : Option (List UInt8) := a.load 8 16

/-- A copy of the first `n` bytes. -/
def copy (a : Sockaddr) (n : ℕ) : Option Sockaddr := (a.load 0 n).map Sockaddr.mk

end Sockaddr

/-- `Address::Create(addr, addrlen)`, which makes no use of the length. The class of the new address
goes by its family. -/
def Create (host : Endian) : Option Sockaddr → Option (Option Sockaddr)
  | none => some none
  | some addr =>
    match addr.sa_family host, addr.copy 16 with
    | some family, some result =>
      if family = AF_INET then some (some result)
      else if family = AF_INET6 then (addr.copy 28).map some
      else some (some result)
    | _, _ => none

/-- An entry of the list that `getifaddrs` returns. -/
structure Ifaddrs where
  ifa_name : List Char
  ifa_addr : Option Sockaddr
  ifa_netmask : Option Sockaddr

/-- The `std::multimap` from names to addresses and prefix lengths, in iteration order. -/
abbrev Interfaces := List (List Char × Sockaddr × UInt32)

/-- `insert(x)` puts `x` behind the elements with the same name. -/
def Interfaces.insert (x : List Char × Sockaddr × UInt32) (result : Interfaces) : Interfaces :=
  List.orderedInsert (fun x y => x.1 < y.1) x result

/-- The loop over the bytes of an IPv6 netmask. -/
def countMask (s6_addr : List UInt8) : UInt32 :=
  s6_addr.foldl (fun prefix_len b => prefix_len + CountBytes b.toBitVec) 0

/-- The address and the prefix length for an entry, when there is an address to insert. -/
def interface (host : Endian) (family : ℤ) (it : Ifaddrs) :
    Option (Option (Sockaddr × UInt32)) := do
  let ifa_addr ← it.ifa_addr
  let sa_family ← ifa_addr.sa_family host
  if family ≠ AF_UNSPEC ∧ family ≠ sa_family then some none
  else if sa_family = AF_INET then do
    let _addr ← Create host it.ifa_addr
    let ifa_netmask ← it.ifa_netmask
    let netmask ← ifa_netmask.s_addr host
    some (_addr.map fun _addr => (_addr, CountBytes netmask.toBitVec))
  else if sa_family = AF_INET6 then do
    let _addr ← Create host it.ifa_addr
    let ifa_netmask ← it.ifa_netmask
    let netmask ← ifa_netmask.s6_addr
    some (_addr.map fun _addr => (_addr, countMask netmask))
  else some none

/-- The loop of `GetInterfaceAddresses`. -/
def interfaceLoop (host : Endian) (family : ℤ) : List Ifaddrs → Interfaces → Option Interfaces
  | [], result => some result
  | it :: results, result =>
    match interface host family it with
    | none => none
    | some none => interfaceLoop host family results result
    | some (some value) =>
      interfaceLoop host family results (Interfaces.insert (it.ifa_name, value) result)

/-- `Address::GetInterfaceAddresses(result, family)`, where `results` are the entries that
`getifaddrs` finds, unless it fails. -/
def GetInterfaceAddresses (host : Endian) (results : Option (List Ifaddrs)) (result : Interfaces)
    (family : ℤ) : Option (Bool × Interfaces) :=
  match results with
  | none => some (false, result)
  | some results => (interfaceLoop host family results result).map fun result => (true, result)

/-! ## Ones -/

/-- Every turn of the loop takes one away. -/
theorem countLoop_eq {w : ℕ} (value : BitVec w) (result : UInt32) :
    countLoop value result = result + UInt32.ofNat (ones w value.getLsbD) := by
  induction value, result using countLoop.induct with
  | case1 value result hne ih =>
    rw [countLoop, dif_pos hne, ih, ← ones_and_sub_one value hne, UInt32.ofNat_add,
      UInt32.add_assoc, UInt32.add_comm 1]
    rfl
  | case2 value result hzero =>
    obtain rfl : value = 0 := not_not.1 hzero
    rw [countLoop, dif_neg hzero, ones_zeroWord]
    exact (UInt32.add_zero result).symm

/-- `CountBytes` counts ones. -/
theorem CountBytes_eq {w : ℕ} (value : BitVec w) :
    CountBytes value = UInt32.ofNat (ones w value.getLsbD) := by
  rw [CountBytes, countLoop_eq, UInt32.zero_add]

/-- The number of ones fits into the result for all types of fewer than `2 ^ 32` bits. -/
theorem toNat_CountBytes {w : ℕ} (hw : w < 2 ^ 32) (value : BitVec w) :
    (CountBytes value).toNat = ones w value.getLsbD := by
  rw [CountBytes_eq, UInt32.toNat_ofNat_of_lt' (Nat.lt_of_le_of_lt (ones_le w _) hw)]

/-- The loop over bytes counts their ones. -/
theorem foldl_CountBytes (s6_addr : List UInt8) (prefix_len : UInt32) :
    s6_addr.foldl (fun prefix_len b => prefix_len + CountBytes b.toBitVec) prefix_len =
      prefix_len + UInt32.ofNat (ones (8 * s6_addr.length) (bit s6_addr)) := by
  induction s6_addr generalizing prefix_len with
  | nil =>
    rw [List.foldl_nil, List.length_nil, Nat.mul_zero, ones_zero]
    exact (UInt32.add_zero prefix_len).symm
  | cons b bs ih =>
    rw [List.foldl_cons, ih, ones_bit_cons, CountBytes_eq, UInt32.ofNat_add, UInt32.add_assoc]

/-- So the loop over `s6_addr` counts the ones of a mask. -/
theorem countMask_eq (s6_addr : List UInt8) :
    countMask s6_addr = UInt32.ofNat (ones (8 * s6_addr.length) (bit s6_addr)) := by
  rw [countMask, foldl_CountBytes, UInt32.zero_add]

/-- The byte order does not change how many ones there are. -/
theorem ones_memory (host : Endian) (n x : ℕ) :
    ones (8 * n) (bit (host.memory n x)) = ones (8 * n) x.testBit := by
  cases host with
  | little => exact ones_toLE n x
  | big => exact ones_reverse_toLE n x

/-- The word that four bytes are loaded into has the ones of the bytes. -/
theorem CountBytes_ofMemory (host : Endian) {bs : List UInt8} (hlen : bs.length = 4) :
    CountBytes (UInt32.ofNat (host.ofMemory bs)).toBitVec =
      UInt32.ofNat (ones (8 * bs.length) (bit bs)) := by
  have hlt := host.ofMemory_lt bs
  rw [hlen] at hlt
  have hword : (UInt32.ofNat (host.ofMemory bs)).toBitVec.getLsbD =
      (host.ofMemory bs).testBit := by
    have hnat : (UInt32.ofNat (host.ofMemory bs)).toBitVec.toNat = host.ofMemory bs :=
      UInt32.toNat_ofNat_of_lt' hlt
    funext i
    rw [BitVec.getLsbD, hnat]
  have hmemory := ones_memory host 4 (host.ofMemory bs)
  rw [host.memory_ofMemory hlen] at hmemory
  rw [CountBytes_eq, hword, hlen, hmemory]

/-! ## Entries -/

/-- What is read of an object has the length that was asked for. -/
theorem Sockaddr.length_load {a : Sockaddr} {i n : ℕ} {bs : List UInt8} (h : a.load i n = some bs) :
    bs.length = n := by
  rw [Sockaddr.load] at h
  split_ifs at h with hle
  rw [← Option.some.inj h, List.length_take, List.length_drop]
  rw [Sockaddr.getAddrLen] at hle
  omega

/-- The word in a netmask has the ones of its four bytes. -/
theorem Sockaddr.s_addr_map (host : Endian) (a : Sockaddr) :
    (a.s_addr host).map (fun netmask => CountBytes netmask.toBitVec) =
      (a.load 4 4).map fun bs => UInt32.ofNat (ones (8 * bs.length) (bit bs)) := by
  rw [Sockaddr.s_addr, Option.map_map]
  apply Option.map_congr
  intro bs hload
  exact CountBytes_ofMemory host (Sockaddr.length_load hload)

/-- The mask of an IPv6 entry is counted over the bytes of `s6_addr`. -/
theorem Sockaddr.s6_addr_map (a : Sockaddr) :
    a.s6_addr.map countMask =
      (a.load 8 16).map fun bs => UInt32.ofNat (ones (8 * bs.length) (bit bs)) :=
  Option.map_congr fun bs _ => countMask_eq bs

namespace Ifaddrs

/-- The family of the address of an entry. -/
def family (host : Endian) (it : Ifaddrs) : Option ℕ := it.ifa_addr.bind (Sockaddr.sa_family host)

/-- The netmask in network order. Where it lies goes by the family of the address. -/
def netmask (host : Endian) (it : Ifaddrs) : Option (List UInt8) :=
  if it.family host = some AF_INET then it.ifa_netmask.bind (Sockaddr.load · 4 4)
  else it.ifa_netmask.bind (Sockaddr.load · 8 16)

/-- The family of the address is one that the caller asks for, and one of the two that are known. -/
def requested (host : Endian) (family : ℤ) (it : Ifaddrs) : Bool :=
  match it.family host with
  | none => false
  | some sa_family => (family = AF_UNSPEC ∨ family = sa_family) ∧
      (sa_family = AF_INET ∨ sa_family = AF_INET6)

/-- What is read for an entry can be read. -/
structure Readable (host : Endian) (family : ℤ) (it : Ifaddrs) : Prop where
  family_ne : it.family host ≠ none
  objects_ne : it.requested host family = true →
    Create host it.ifa_addr ≠ none ∧ it.netmask host ≠ none

/-- What `GetInterfaceAddresses` should add for a requested entry. -/
structure Listed (host : Endian) (it : Ifaddrs) (x : List Char × Sockaddr × UInt32) : Prop where
  name_eq : x.1 = it.ifa_name
  addr_eq : Create host it.ifa_addr = some (some x.2.1)
  prefix_len_eq : ∀ netmask p, it.netmask host = some netmask → IsMask p netmask →
    x.2.2.toNat = p

end Ifaddrs

section Entries

variable {host : Endian} {family : ℤ} {it : Ifaddrs} {sa_family : ℕ}

/-- The entries of the families that are asked for. -/
lemma requested_iff (h : it.family host = some sa_family) : it.requested host family = true ↔
    (family = AF_UNSPEC ∨ family = sa_family) ∧ (sa_family = AF_INET ∨ sa_family = AF_INET6) := by
  rw [Ifaddrs.requested, h]
  exact decide_eq_true_iff

/-- What a turn of the loop adds for a netmask. -/
def counted (_addr : Option Sockaddr) (netmask : List UInt8) : Option (Sockaddr × UInt32) :=
  _addr.map fun _addr => (_addr, UInt32.ofNat (ones (8 * netmask.length) (bit netmask)))

/-- In either family a member of the netmask is counted, with the ones of the `n` bytes at `i`. -/
lemma bind_member {α : Type} {create : Option (Option Sockaddr)} {ifa_netmask : Option Sockaddr}
    {member : Sockaddr → Option α} {count : α → UInt32} {i n : ℕ}
    (hcount : ∀ a, (member a).map count =
      (a.load i n).map fun bs => UInt32.ofNat (ones (8 * bs.length) (bit bs))) :
    (create.bind fun _addr => ifa_netmask.bind fun ifa_netmask => (member ifa_netmask).bind
      fun netmask => some (_addr.map fun _addr => (_addr, count netmask))) =
      create.bind fun _addr => (ifa_netmask.bind (Sockaddr.load · i n)).map (counted _addr) := by
  cases create with
  | none => rfl
  | some _addr =>
    cases ifa_netmask with
    | none => rfl
    | some a =>
      have hpair := congrArg (Option.map fun prefix_len => _addr.map (·, prefix_len)) (hcount a)
      rw [Option.map_map, Option.map_map] at hpair
      exact Option.map_eq_bind.symm.trans hpair

/-- A requested entry needs an address and a netmask. -/
theorem interface_requested (h : it.family host = some sa_family)
    (hrequested : it.requested host family = true) :
    interface host family it =
      (Create host it.ifa_addr).bind fun _addr => (it.netmask host).map (counted _addr) := by
  obtain ⟨ifa_addr, haddr, hfamily⟩ := Option.bind_eq_some_iff.1 h
  obtain ⟨hasked, hknown⟩ := (requested_iff h).1 hrequested
  have hkeep : ¬(family ≠ AF_UNSPEC ∧ family ≠ sa_family) := by
    rwa [not_and_or, not_not, not_not]
  rw [interface, haddr, Option.bind_eq_bind, Option.bind_some, hfamily, Option.bind_eq_bind,
    Option.bind_some, if_neg hkeep]
  by_cases hinet : sa_family = AF_INET
  · rw [if_pos hinet, Ifaddrs.netmask, if_pos (h.trans (congrArg some hinet))]
    exact bind_member (Sockaddr.s_addr_map host)
  · obtain rfl := hknown.resolve_left hinet
    have hother : it.family host ≠ some AF_INET := by
      rw [h]
      decide
    rw [if_neg hinet, if_pos rfl, Ifaddrs.netmask, if_neg hother]
    exact bind_member Sockaddr.s6_addr_map

/-- Nothing is added for another entry. -/
theorem interface_not_requested (h : it.family host = some sa_family)
    (hrequested : it.requested host family = false) : interface host family it = some none := by
  obtain ⟨ifa_addr, haddr, hfamily⟩ := Option.bind_eq_some_iff.1 h
  have hnot := mt (requested_iff h).2 (Bool.eq_false_iff.1 hrequested)
  rw [not_and_or, not_or, not_or] at hnot
  rw [interface, haddr, Option.bind_eq_bind, Option.bind_some, hfamily, Option.bind_eq_bind,
    Option.bind_some]
  rcases hnot with hskip | ⟨hinet, hinet6⟩
  · rw [if_pos hskip]
  · rw [if_neg hinet, if_neg hinet6, ite_self]

/-- An entry without an address cannot be read. -/
theorem interface_family_none (h : it.family host = none) : interface host family it = none := by
  rw [interface]
  cases haddr : it.ifa_addr with
  | none => rfl
  | some ifa_addr =>
    have hfamily : ifa_addr.sa_family host = none := by
      rw [← h, Ifaddrs.family, haddr, Option.bind_some]
    rw [Option.bind_eq_bind, Option.bind_some, hfamily]
    rfl

/-- A turn of the loop fails if the entry cannot be read. -/
theorem interface_eq_none_iff : interface host family it = none ↔ ¬it.Readable host family := by
  cases h : it.family host with
  | none =>
    have hnot : ¬it.Readable host family := fun hread => hread.family_ne h
    exact iff_of_true (interface_family_none h) hnot
  | some sa_family =>
    have hne : it.family host ≠ none := by
      rw [h]
      exact Option.some_ne_none sa_family
    cases hrequested : it.requested host family with
    | false =>
      have hread : it.Readable host family := by
        refine ⟨hne, fun htrue => ?_⟩
        rw [hrequested] at htrue
        cases htrue
      rw [interface_not_requested h hrequested]
      exact iff_of_false (Option.some_ne_none none) (not_not.2 hread)
    | true =>
      rw [interface_requested h hrequested]
      cases hcreate : Create host it.ifa_addr with
      | none => exact iff_of_true rfl fun hread => (hread.objects_ne hrequested).1 hcreate
      | some _addr =>
        cases hnetmask : it.netmask host with
        | none => exact iff_of_true rfl fun hread => (hread.objects_ne hrequested).2 hnetmask
        | some netmask =>
          have hread : it.Readable host family := by
            refine ⟨hne, fun _ => ?_⟩
            rw [hcreate, hnetmask]
            exact ⟨Option.some_ne_none _addr, Option.some_ne_none netmask⟩
          exact iff_of_false (Option.some_ne_none _) (not_not.2 hread)

/-- `Create` makes an object for every address. -/
theorem Create_some {addr : Sockaddr} {_addr : Option Sockaddr}
    (h : Create host (some addr) = some _addr) : ∃ a, _addr = some a := by
  rw [Create] at h
  split at h
  · split_ifs at h
    · exact ⟨_, (Option.some.inj h).symm⟩
    · obtain ⟨a, -, rfl⟩ := Option.map_eq_some_iff.1 h
      exact ⟨a, rfl⟩
    · exact ⟨_, (Option.some.inj h).symm⟩
  · cases h

/-- No mask has more than 16 bytes. -/
theorem length_netmask_le {netmask : List UInt8} (h : it.netmask host = some netmask) :
    netmask.length ≤ 16 := by
  rw [Ifaddrs.netmask] at h
  split_ifs at h
  · obtain ⟨ifa_netmask, -, hload⟩ := Option.bind_eq_some_iff.1 h
    rw [Sockaddr.length_load hload]
    decide
  · obtain ⟨ifa_netmask, -, hload⟩ := Option.bind_eq_some_iff.1 h
    rw [Sockaddr.length_load hload]

/-- What is inserted for an entry. -/
theorem interface_eq_some {value : Option (Sockaddr × UInt32)}
    (h : interface host family it = some value) :
    (it.requested host family = false ∧ value = none) ∨
      (it.requested host family = true ∧
        ∃ x, value = some x ∧ it.Listed host (it.ifa_name, x)) := by
  cases hfamily : it.family host with
  | none =>
    rw [interface_family_none hfamily] at h
    cases h
  | some sa_family =>
    cases hrequested : it.requested host family with
    | false =>
      rw [interface_not_requested hfamily hrequested] at h
      exact .inl ⟨rfl, (Option.some.inj h).symm⟩
    | true =>
      obtain ⟨ifa_addr, haddr, -⟩ := Option.bind_eq_some_iff.1 hfamily
      rw [interface_requested hfamily hrequested] at h
      obtain ⟨_addr, hcreate, hmap⟩ := Option.bind_eq_some_iff.1 h
      obtain ⟨netmask, hnetmask, rfl⟩ := Option.map_eq_some_iff.1 hmap
      rw [haddr] at hcreate
      obtain ⟨a, rfl⟩ := Create_some hcreate
      refine .inr ⟨rfl, _, rfl, rfl, haddr ▸ hcreate, ?_⟩
      intro netmask' p hnetmask' hmask
      obtain rfl : netmask = netmask' := Option.some.inj (hnetmask.symm.trans hnetmask')
      have hle := length_netmask_le hnetmask
      have hlt : 8 * netmask.length < 2 ^ 32 := by omega
      rw [hmask.ones_eq]
      exact UInt32.toNat_ofNat_of_lt' (Nat.lt_of_le_of_lt hmask.le_length hlt)

end Entries

/-! ## Results -/

section Loop

variable {host : Endian} {family : ℤ} {results : List Ifaddrs}

/-- The loop fails if one of its entries cannot be read. -/
theorem interfaceLoop_eq_none_iff (result : Interfaces) :
    interfaceLoop host family results result = none ↔
      ∃ it ∈ results, ¬it.Readable host family := by
  induction results generalizing result with
  | nil => exact iff_of_false (Option.some_ne_none result) fun ⟨_, hmem, _⟩ => List.not_mem_nil hmem
  | cons it results ih =>
    rw [interfaceLoop, List.exists_mem_cons_iff, ← interface_eq_none_iff]
    cases hturn : interface host family it with
    | none => exact iff_of_true rfl (.inl rfl)
    | some value =>
      rw [or_iff_right (Option.some_ne_none value)]
      cases value with
      | none => exact ih result
      | some value => exact ih _

/-- The loop adds a pair for every requested entry. -/
theorem interfaceLoop_eq_some {result result' : Interfaces}
    (h : interfaceLoop host family results result = some result') :
    ∃ added, List.Forall₂ (Ifaddrs.Listed host)
        (results.filter (Ifaddrs.requested host family)) added ∧
      result'.Perm (result ++ added) := by
  induction results generalizing result with
  | nil =>
    obtain rfl := Option.some.inj h
    exact ⟨[], .nil, by rw [List.append_nil]⟩
  | cons it results ih =>
    rw [interfaceLoop] at h
    cases hturn : interface host family it with
    | none =>
      rw [hturn] at h
      cases h
    | some value =>
      rw [hturn] at h
      rcases interface_eq_some hturn with ⟨hskip, rfl⟩ | ⟨hrequested, x, rfl, hlisted⟩
      · rw [List.filter_cons_of_neg (Bool.eq_false_iff.1 hskip)]
        exact ih h
      · obtain ⟨added, hforall, hperm⟩ := ih h
        rw [List.filter_cons_of_pos hrequested]
        refine ⟨(it.ifa_name, x) :: added, .cons hlisted hforall, hperm.trans ?_⟩
        -- where `x` has been inserted does not matter
        have hinsert := List.perm_orderedInsert (fun x y => x.1 < y.1) (it.ifa_name, x) result
        exact (hinsert.append_right added).trans List.perm_middle.symm

end Loop

/-- `CountBytes` returns the number of ones, for words and for bytes. Where all netmasks can be
read, `GetInterfaceAddresses` adds each requested address with the length of the prefix that is its
netmask. -/
theorem interfaces_law :
    (∀ value : UInt32, (CountBytes value.toBitVec).toNat = ones 32 value.toBitVec.getLsbD) ∧
    (∀ value : UInt8, (CountBytes value.toBitVec).toNat = ones 8 value.toBitVec.getLsbD) ∧
    ∀ (host : Endian) (results : List Ifaddrs) (result : Interfaces) (family : ℤ),
      (GetInterfaceAddresses host (some results) result family = none ↔
        ∃ it ∈ results, ¬it.Readable host family) ∧
      ∀ ok result', GetInterfaceAddresses host (some results) result family = some (ok, result') →
        ok = true ∧ ∃ added,
          List.Forall₂ (Ifaddrs.Listed host)
            (results.filter (Ifaddrs.requested host family)) added ∧
          result'.Perm (result ++ added) := by
  refine ⟨fun value => toNat_CountBytes (by decide) _, fun value => toNat_CountBytes (by decide) _,
    fun host results result family => ⟨?_, ?_⟩⟩
  · rw [GetInterfaceAddresses, Option.map_eq_none_iff]
    exact interfaceLoop_eq_none_iff result
  · intro ok result' h
    obtain ⟨loop, hloop, heq⟩ := Option.map_eq_some_iff.1 h
    obtain ⟨rfl, rfl⟩ := Prod.mk.inj heq
    exact ⟨rfl, interfaceLoop_eq_some hloop⟩

/-- An entry for an IPv4 address with the netmask `255.255.255.0`, on a little-endian machine. -/
def inetEntry : Ifaddrs where
  ifa_name := ['l', 'o']
  ifa_addr := some ⟨[2, 0, 0, 0, 127, 0, 0, 1] ++ List.replicate 8 0⟩
  ifa_netmask := some ⟨[2, 0, 0, 0, 255, 255, 255, 0] ++ List.replicate 8 0⟩

/-- An entry for an IPv6 address, with a netmask of 64 ones. -/
def inet6Entry : Ifaddrs where
  ifa_name := ['l', 'o']
  ifa_addr := some ⟨[10, 0, 0, 0, 0, 0, 0, 0] ++ List.replicate 20 1⟩
  ifa_netmask := some ⟨[10, 0, 0, 0, 0, 0, 0, 0] ++ List.replicate 8 255 ++ List.replicate 12 0⟩

theorem interfaces_law_netmasks : ∃ result',
    GetInterfaceAddresses .little (some [inetEntry, inet6Entry]) [] 0 = some (true, result') ∧
      (result'.map fun x => x.2.2.toNat).Perm [24, 64] := by
  obtain ⟨hnone, hsome⟩ := interfaces_law.2.2 .little [inetEntry, inet6Entry] [] 0
  rcases heq : GetInterfaceAddresses _ _ _ _ with _ | ⟨ok, result'⟩
  · obtain ⟨it, hmem, hnot⟩ := hnone.1 heq
    refine absurd ?_ hnot
    rcases List.mem_cons.1 hmem with rfl | hmem
    · exact ⟨by decide, fun _ => ⟨by decide, by decide⟩⟩
    · obtain rfl := List.mem_singleton.1 hmem
      exact ⟨by decide, fun _ => ⟨by decide, by decide⟩⟩
  · obtain ⟨rfl, added, hadded, hperm⟩ := hsome ok result' heq
    refine ⟨result', rfl, (hperm.map _).trans ?_⟩
    have hall : [inetEntry, inet6Entry].filter (Ifaddrs.requested .little 0) =
        [inetEntry, inet6Entry] := rfl
    rw [hall] at hadded
    obtain ⟨x, _, hx, hrest, rfl⟩ := List.forall₂_cons_left_iff.1 hadded
    obtain ⟨y, _, hy, hend, rfl⟩ := List.forall₂_cons_left_iff.1 hrest
    obtain rfl := List.forall₂_nil_left_iff.1 hend
    have hinet : x.2.2.toNat = 24 :=
      hx.prefix_len_eq [255, 255, 255, 0] 24 (by decide) ⟨by decide, by decide⟩
    have hinet6 : y.2.2.toNat = 64 :=
      hy.prefix_len_eq (List.replicate 8 255 ++ List.replicate 8 0) 64 (by decide)
        ⟨by decide, by decide +kernel⟩
    rw [List.nil_append, List.map_cons, List.map_cons, List.map_nil, hinet, hinet6]

end Sylar.Address
