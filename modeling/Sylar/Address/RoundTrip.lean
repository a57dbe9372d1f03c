import Sylar.Address.Defs
import Sylar.Address.Grammar

/-!
# The text of an address denotes the address

`IPv6Address::print` compresses the first run of zero groups while it goes through the groups, with
one flag and a look back at the group before. `printGroups_eq` says what comes out: the groups in
full when none is zero, else the groups before the first run, `::`, and the groups behind it. Read
by the grammar of addresses, that is the address that was printed (`text_round_trip`), for either
byte order of the machine.
-/

namespace Sylar.Address

open Bytes Digits Sylar.ByteArray

namespace IPv6Address

variable (host : Endian)

/-- The groups of an address, as numbers. -/
def groups (addr : List ℕ) : List ℕ := addr.map (byteswapOnLittleEndian host 2)

/-! ## The loop of print -/

/-- Once a run is compressed, every group is written with a colon in front. -/
theorem printLoop_used (p : ℕ) (xs : List ℕ) :
    printLoop host (some p) true xs =
      ((groups host xs).flatMap fun y => ':' :: Nat.toDigits 16 y, true) := by
  induction xs generalizing p with
  | nil => rfl
  | cons x xs ih => simp [printLoop, ih, groups, hex]

/-- In front of a compressed run, zeros are skipped. -/
theorem printLoop_zeros (prev : Option ℕ) (k : ℕ) (xs : List ℕ) :
    printLoop host prev false (List.replicate (k + 1) 0 ++ xs) =
      printLoop host (some 0) false xs := by
  induction k generalizing prev with
  | zero => simp [printLoop]
  | succ k ih =>
    rw [List.replicate_succ, List.cons_append, printLoop, if_pos ⟨rfl, rfl⟩, ih]

/-- The group behind the run writes the `::`. -/
theorem printLoop_behind {y : ℕ} (hy : y ≠ 0) (ys : List ℕ) :
    printLoop host (some 0) false (y :: ys) =
      (':' :: ':' :: groupsText (groups host (y :: ys)), true) := by
  have hused := printLoop_used host y ys
  simp [printLoop, hy, hused, groups, groupsText_cons, hex]

/-- Before the run, the groups are written with a colon in front of all but the first. -/
theorem printLoop_nonzero {xs : List ℕ} (hxs : ∀ x ∈ xs, x ≠ 0) {p : ℕ} (hp : p ≠ 0)
    (rest : List ℕ) :
    ∃ q, printLoop host (some p) false (xs ++ rest) =
      (((groups host xs).flatMap fun y => ':' :: Nat.toDigits 16 y) ++
          (printLoop host (some q) false rest).1,
        (printLoop host (some q) false rest).2) := by
  induction xs generalizing p with
  | nil => exact ⟨p, by simp [groups]⟩
  | cons x xs ih =>
    obtain ⟨hx, hxs⟩ := List.forall_mem_cons.1 hxs
    obtain ⟨q, hloop⟩ := ih hxs hx
    refine ⟨q, ?_⟩
    rw [List.cons_append, printLoop, if_neg (by simp [hx])]
    simp [hp, hloop, groups, hex]

/-- From the start of the array. -/
theorem printLoop_start {xs : List ℕ} (hxs : ∀ x ∈ xs, x ≠ 0) (rest : List ℕ) :
    ∃ prev, printLoop host none false (xs ++ rest) =
      (groupsText (groups host xs) ++ (printLoop host prev false rest).1,
        (printLoop host prev false rest).2) := by
  cases xs with
  | nil => exact ⟨none, by simp [groups, groupsText]⟩
  | cons x xs =>
    obtain ⟨hx, hxs⟩ := List.forall_mem_cons.1 hxs
    obtain ⟨q, hloop⟩ := printLoop_nonzero host hxs hx rest
    refine ⟨some q, ?_⟩
    rw [List.cons_append, printLoop, if_neg (by simp [hx])]
    simp [hloop, groups, groupsText_cons, hex]

end IPv6Address

/-- The first run of zeros in a list. -/
theorem exists_zero_run (xs : List ℕ) : (∀ x ∈ xs, x ≠ 0) ∨
    ∃ left k right, xs = left ++ List.replicate (k + 1) 0 ++ right ∧
      (∀ x ∈ left, x ≠ 0) ∧ right.head? ≠ some 0 := by
  induction xs with
  | nil => exact Or.inl (by simp)
  | cons x xs ih =>
    by_cases hx : x = 0
    · subst hx
      right
      obtain hnone | ⟨left, k, right, rfl, hleft, hright⟩ := ih
      · refine ⟨[], 0, xs, rfl, by simp, ?_⟩
        intro hhead
        exact hnone 0 (List.mem_of_mem_head? hhead) rfl
      · cases left with
        | nil => exact ⟨[], k + 1, right, rfl, by simp, hright⟩
        | cons y left =>
          have hy := hleft y List.mem_cons_self
          exact ⟨[], 0, _, rfl, by simp, by simpa using hy⟩
    · obtain hnone | ⟨left, k, right, rfl, hleft, hright⟩ := ih
      · exact Or.inl (List.forall_mem_cons.2 ⟨hx, hnone⟩)
      · exact Or.inr ⟨x :: left, k, right, rfl, List.forall_mem_cons.2 ⟨hx, hleft⟩, hright⟩

namespace IPv6Address

variable (host : Endian)

/-- Without a zero group, all groups are written in full. -/
theorem printGroups_full {addr : List ℕ} (h : ∀ x ∈ addr, x ≠ 0) :
    printGroups host addr = groupsText (groups host addr) := by
  obtain ⟨prev, hloop⟩ := printLoop_start host h []
  have hlast : addr[7]? ≠ some 0 := fun hget => h 0 (List.mem_of_getElem? hget) rfl
  rw [List.append_nil] at hloop
  simp [printGroups, hloop, printLoop, hlast]

/-- The first run of zero groups is written as `::`. -/
theorem printGroups_run {left right : List ℕ} {k : ℕ}
    (hlen : left.length + (k + 1) + right.length = 8) (hleft : ∀ x ∈ left, x ≠ 0)
    (hright : right.head? ≠ some 0) :
    printGroups host (left ++ List.replicate (k + 1) 0 ++ right) =
      groupsText (groups host left) ++ ':' :: ':' :: groupsText (groups host right) := by
  obtain ⟨prev, hloop⟩ :=
    printLoop_start host hleft (List.replicate (k + 1) 0 ++ right)
  rw [← List.append_assoc, printLoop_zeros] at hloop
  cases right with
  | nil =>
    -- the run is at the end: the code behind the loop writes the `::`
    have hlast : (left ++ List.replicate (k + 1) 0 ++ [])[7]? = some 0 := by
      have hlen' : left.length + (k + 1) = 8 := hlen
      rw [List.append_nil, List.getElem?_append_right (by omega), List.getElem?_replicate,
        if_pos (by omega)]
    rw [printGroups, hloop]
    simp only [hlast]
    simp [printLoop, groups, groupsText]
  | cons y ys =>
    have hy : y ≠ 0 := by simpa using hright
    rw [printGroups, hloop, printLoop_behind host hy]
    simp

/-! ## The groups of the bytes -/

/-- Two bytes as a group. -/
theorem byteswap_word (a b : UInt8) :
    byteswapOnLittleEndian host 2 (host.ofMemory [a, b]) = a.toNat * 256 + b.toNat := by
  rw [byteswapOnLittleEndian_ofMemory host (by rfl : [a, b].length = 2)]
  simp [ofLE]
  omega

/-- The groups are the bytes, two by two. -/
theorem flatMap_groupBytes {bytes : List UInt8} (h : Even bytes.length) :
    (groups host (words host bytes)).flatMap groupBytes = bytes := by
  fun_induction words host bytes with
  | case1 a b bs ih =>
    have hbs : Even bs.length := by simpa [Nat.even_add_one] using h
    have hrest := ih hbs
    rw [groups] at hrest ⊢
    rw [List.map_cons, List.flatMap_cons, byteswap_word, groupBytes_ofBytes, hrest]
    rfl
  | case2 bytes hshort =>
    match bytes with
    | [] => rfl
    | [a] => exact absurd h (by simp)
    | a :: b :: bs => exact absurd rfl (hshort a b bs)

theorem length_words {bytes : List UInt8} : (words host bytes).length = bytes.length / 2 := by
  fun_induction words host bytes with
  | case1 a b bs ih =>
    rw [List.length_cons, ih, List.length_cons, List.length_cons]
    omega
  | case2 bytes hshort =>
    match bytes with
    | [] => rfl
    | [a] => simp
    | a :: b :: bs => exact absurd rfl (hshort a b bs)

theorem groups_lt {bytes : List UInt8} : ∀ n ∈ groups host (words host bytes), n < 65536 := by
  fun_induction words host bytes with
  | case1 a b bs ih =>
    have ha : a.toNat < 256 := a.toNat_lt
    have hb : b.toNat < 256 := b.toNat_lt
    refine List.forall_mem_cons.2 ⟨?_, ih⟩
    rw [byteswap_word]
    omega
  | case2 => simp [groups]

/-! ## Reading the text -/

/-- What print writes between the brackets reads as the groups. -/
theorem readIPv6Groups_printGroups {addr : List ℕ} (hlen : addr.length = 8)
    (hlt : ∀ n ∈ groups host addr, n < 65536) :
    readIPv6Groups (printGroups host addr) = some (groups host addr) := by
  obtain hnone | ⟨left, k, right, rfl, hleft, hright⟩ := exists_zero_run addr
  · -- no group is zero, so nothing is compressed
    rw [printGroups_full host hnone]
    exact readIPv6Groups_full (by simpa [groups] using hlen) hlt
  · have hlen' : left.length + (k + 1) + right.length = 8 := by
      simpa [Nat.add_assoc] using hlen
    have hgroups : groups host (left ++ List.replicate (k + 1) 0 ++ right) =
        groups host left ++ List.replicate (k + 1) 0 ++ groups host right := by
      simp [groups]
    rw [hgroups] at hlt ⊢
    rw [printGroups_run host hlen' hleft hright]
    refine readIPv6Groups_double (by simpa [groups] using hlen') ?_ ?_
    · exact fun n hn => hlt n (by simp [hn])
    · exact fun n hn => hlt n (by simp [hn])

/-- Neither a bracket nor anything but digits and colons stands between the brackets. -/
theorem not_mem_printGroups {addr : List ℕ} (hlen : addr.length = 8) :
    ']' ∉ printGroups host addr := by
  have hgroups : ∀ l, ']' ∉ groupsText l := not_mem_groupsText (by decide) (by decide)
  obtain hnone | ⟨left, k, right, rfl, hleft, hright⟩ := exists_zero_run addr
  · rw [printGroups_full host hnone]
    exact hgroups _
  · rw [printGroups_run host (by simpa [Nat.add_assoc] using hlen) hleft hright]
    simp [hgroups]

theorem read_print (address : IPv6Address) :
    lookupSplit (address.print host) =
        (printGroups host (words host address.s6_addr), some (decimal (address.getPort host))) ∧
      readAddress (printGroups host (words host address.s6_addr)) = some address.s6_addr := by
  have hlen : (words host address.s6_addr).length = 8 := by
    rw [length_words, address.length_s6_addr]
  have hread := readIPv6Groups_printGroups host hlen (groups_lt host)
  refine ⟨?_, ?_⟩
  · refine lookupSplit_brackets ?_ (not_mem_printGroups host hlen) _
    intro hempty
    rw [hempty] at hread
    cases hread
  · have heven : Even address.s6_addr.length := by
      rw [address.length_s6_addr]
      decide
    simp [readAddress, readIPv6, hread, flatMap_groupBytes host heven]

end IPv6Address

namespace IPv4Address

variable (host : Endian)

theorem length_bytes (address : IPv4Address) : (address.bytes host).length = 4 :=
  Endian.length_memory host 4 _

/-- The shifts and masks take the bytes in network order. -/
theorem print_eq (address : IPv4Address) :
    address.print host =
      octetsText (address.bytes host) ++ [':'] ++ decimal (address.getPort host) := by
  have hmask : ∀ a k : ℕ, (a >>> k) &&& 0xff = a / 2 ^ k % 256 := fun a k => by
    rw [Nat.shiftRight_eq_div_pow]
    exact Nat.and_two_pow_sub_one_eq_mod _ 8
  have hlow : ∀ a : ℕ, a &&& 0xff = a % 256 := fun a => Nat.and_two_pow_sub_one_eq_mod a 8
  have hbyte : ∀ a : ℕ, (UInt8.ofNat (a % 256)).toNat = a % 256 := fun a =>
    Nat.mod_eq_of_lt (Nat.mod_lt a (by decide))
  rw [bytes, memory_eq_reverse, print, octetsText]
  simp only [hmask, hlow, toLE, List.reverse_cons, List.reverse_nil, List.nil_append,
    List.cons_append, List.map_cons, List.map_nil, List.intercalate_cons_cons,
    List.intercalate_singleton, List.append_assoc, hbyte, Nat.div_div_eq_div_mul]
  rfl

theorem read_print (address : IPv4Address) :
    lookupSplit (address.print host) =
        (octetsText (address.bytes host), some (decimal (address.getPort host))) ∧
      readAddress (octetsText (address.bytes host)) = some (address.bytes host) := by
  have hlen := address.length_bytes host
  have hread := readIPv4_octetsText hlen
  refine ⟨?_, ?_⟩
  · rw [print_eq]
    refine lookupSplit_colon ?_ ?_ (not_mem_octetsText (by decide) (by decide) _) _
    · intro hempty
      rw [hempty] at hread
      cases hread
    · intro hhead
      exact not_mem_octetsText (by decide) (by decide) _ (List.mem_of_mem_head? hhead)
  · rw [readAddress, readIPv6_octetsText hlen, hread]

end IPv4Address

namespace IPAddress

variable (host : Endian)

/-- The text of an address splits into a node that denotes its bytes and its port in decimal. -/
theorem read_toString (address : IPAddress) :
    ∃ node, lookupSplit (address.toString host) =
        (node, some (decimal (address.getPort host))) ∧
      readAddress node = some (address.bytes host) := by
  cases address with
  | v4 address => exact ⟨_, address.read_print host⟩
  | v6 address => exact ⟨_, address.read_print host⟩

/-- A port is known by its value in the order of the host. -/
theorem port_eq_of_byteswap {p q : UInt16} (h : byteswapOnLittleEndian host 2 p.toNat =
    byteswapOnLittleEndian host 2 q.toNat) : p = q := by
  have hinv := congrArg (byteswapOnLittleEndian host 2) h
  rw [byteswapOnLittleEndian_involutive host p.toNat_lt,
    byteswapOnLittleEndian_involutive host q.toNat_lt] at hinv
  exact UInt16.toNat_inj.1 hinv

/-- An address is known by its bytes and its port. -/
theorem eq_of_bytes_of_getPort {a b : IPAddress} (hbytes : a.bytes host = b.bytes host)
    (hport : a.getPort host = b.getPort host) : a = b := by
  cases a with
  | v4 a =>
    cases b with
    | v4 b =>
      have haddr : host.ofMemory (a.bytes host) = host.ofMemory (b.bytes host) :=
        congrArg host.ofMemory hbytes
      rw [IPv4Address.bytes, IPv4Address.bytes, Endian.ofMemory_memory host a.s_addr.toNat_lt,
        Endian.ofMemory_memory host b.s_addr.toNat_lt, UInt32.toNat_inj] at haddr
      obtain ⟨addr, port⟩ := a
      obtain ⟨addr', port'⟩ := b
      cases port_eq_of_byteswap host hport
      cases haddr
      rfl
    | v6 b =>
      -- four bytes are not sixteen
      have hlen : (a.bytes host).length = b.s6_addr.length := congrArg List.length hbytes
      rw [a.length_bytes, b.length_s6_addr] at hlen
      cases hlen
  | v6 a =>
    cases b with
    | v4 b =>
      have hlen : a.s6_addr.length = (b.bytes host).length := congrArg List.length hbytes
      rw [b.length_bytes, a.length_s6_addr] at hlen
      cases hlen
    | v6 b =>
      obtain ⟨addr, port, _⟩ := a
      obtain ⟨addr', port', _⟩ := b
      cases port_eq_of_byteswap host hport
      cases hbytes
      rfl

end IPAddress

/-- For every address of either kind, splitting its text as `Address::Lookup` does gives a node
that denotes the bytes of the address and a service that is the port in decimal. So no two
addresses have the same text. -/
theorem text_round_trip (host : Endian) :
    (∀ address : IPAddress, ∃ node,
      lookupSplit (address.toString host) = (node, some (decimal (address.getPort host))) ∧
        readAddress node = some (address.bytes host)) ∧
      Function.Injective (IPAddress.toString host) := by
  refine ⟨IPAddress.read_toString host, ?_⟩
  intro a b htext
  obtain ⟨node, hsplit, hread⟩ := a.read_toString host
  obtain ⟨node', hsplit', hread'⟩ := b.read_toString host
  rw [htext, hsplit'] at hsplit
  obtain ⟨rfl, hservice⟩ := Prod.mk.inj hsplit
  have hbytes : a.bytes host = b.bytes host := Option.some_inj.1 (hread.symm.trans hread')
  have hport : decimal (a.getPort host) = decimal (b.getPort host) :=
    Option.some_inj.1 hservice.symm
  exact IPAddress.eq_of_bytes_of_getPort host hbytes
    (toDigits_injective (by decide) (by decide) hport)

/-- The text of `::1` on a little-endian machine, port 80. -/
example : (IPv6Address.print .little
    ⟨[0, 0, 0, 0, 0, 0, 0, 0, 0, 0, 0, 0, 0, 0, 0, 1], 0x5000, rfl⟩) = "[::1]:80".toList := by
  decide

end Sylar.Address
