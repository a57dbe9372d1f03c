import Sylar.Foundation.Digits
import Sylar.ByteArray.Endian

/-!
# Internet addresses and their text

Model of `IPv4Address` and `IPv6Address` from `socket/address.cpp`, as far as the text of an address
goes: `print`, `toString`, `getPort`, and the part of `Address::Lookup` that splits a text into the
node and the service for `getaddrinfo`. The byte order of the machine is an argument `host`. A
text is a list of characters, none of them NUL.
-/

namespace Sylar.Address

open Sylar.ByteArray

/-- `os << n` in the default format. -/
def decimal (n : ℕ) : List Char := Nat.toDigits 10 n

/-- `os << std::hex << n`. -/
def hex (n : ℕ) : List Char := Nat.toDigits 16 n

/-- `m_addr` of an IPv4 address, a `sockaddr_in`, whose fields are in network byte order. -/
structure IPv4Address where
  s_addr : UInt32
  sin_port : UInt16

/-- `m_addr` of an IPv6 address, a `sockaddr_in6`. -/
structure IPv6Address where
  s6_addr : List UInt8
  sin6_port : UInt16
  length_s6_addr : s6_addr.length = 16

/-- An address of either kind. -/
inductive IPAddress where
  | v4 (address : IPv4Address)
  | v6 (address : IPv6Address)

namespace IPv4Address

/-- The bytes of `sin_addr`. -/
def bytes (host : Endian) (address : IPv4Address) : List UInt8 :=
  host.memory 4 address.s_addr.toNat

/-- `getPort()`. -/
def getPort (host : Endian) (address : IPv4Address) : ℕ :=
  byteswapOnLittleEndian host 2 address.sin_port.toNat

/-- `print(os)`. -/
def print (host : Endian) (address : IPv4Address) : List Char :=
  let addr := byteswapOnLittleEndian host 4 address.s_addr.toNat
  decimal ((addr >>> 24) &&& 0xff) ++ ['.'] ++
    decimal ((addr >>> 16) &&& 0xff) ++ ['.'] ++
    decimal ((addr >>> 8) &&& 0xff) ++ ['.'] ++
    decimal (addr &&& 0xff) ++
    [':'] ++ decimal (byteswapOnLittleEndian host 2 address.sin_port.toNat)

end IPv4Address

namespace IPv6Address

/-- The bytes seen as an array of `uint16_t`. -/
def words (host : Endian) : List UInt8 → List ℕ
  | a :: b :: bs => host.ofMemory [a, b] :: words host bs
  | _ => []

/-- The loop of `print` over the rest of the array, where `prev` is the element before, with the
last value of `used_zeros`. -/
def printLoop (host : Endian) : Option ℕ → Bool → List ℕ → List Char × Bool
  | _, used_zeros, [] => ([], used_zeros)
  | prev, used_zeros, x :: xs =>
    if x = 0 ∧ !used_zeros then printLoop host (some x) used_zeros xs
    else
      let compress : Bool := prev = some 0 ∧ !used_zeros
      let rest := printLoop host (some x) (used_zeros || compress) xs
      ((if compress then [':'] else []) ++ (if prev.isSome then [':'] else []) ++
        hex (byteswapOnLittleEndian host 2 x) ++ rest.1, rest.2)

/-- What `print` writes between the brackets. -/
def printGroups (host : Endian) (addr : List ℕ) : List Char :=
  let (text, used_zeros) := printLoop host none false addr
  if !used_zeros ∧ addr[7]? = some 0 then text ++ [':', ':'] else text

/-- `getPort()`. -/
def getPort (host : Endian) (address : IPv6Address) : ℕ :=
  byteswapOnLittleEndian host 2 address.sin6_port.toNat

/-- `print(os)`. -/
def print (host : Endian) (address : IPv6Address) : List Char :=
  ['['] ++ printGroups host (words host address.s6_addr) ++ [']', ':'] ++
    decimal (byteswapOnLittleEndian host 2 address.sin6_port.toNat)

end IPv6Address

namespace IPAddress

/-- The bytes of the address, in network order. -/
def bytes (host : Endian) : IPAddress → List UInt8
  | .v4 address => address.bytes host
  | .v6 address => address.s6_addr

/-- `getPort()`. -/
def getPort (host : Endian) : IPAddress → ℕ
  | .v4 address => address.getPort host
  | .v6 address => address.getPort host

/-- `toString()`. -/
def toString (host : Endian) : IPAddress → List Char
  | .v4 address => address.print host
  | .v6 address => address.print host

end IPAddress

/-! ## Splitting a text -/

/-- What stands before and behind the first `c`. -/
def memchr (c : Char) (cs : List Char) : Option (List Char × List Char) :=
  match cs.dropWhile (· ≠ c) with
  | [] => none
  | _ :: behind => some (cs.takeWhile (· ≠ c), behind)

/-- The node and the service that `Address::Lookup(host)` gives to `getaddrinfo`. -/
def lookupSplit (host : List Char) : List Char × Option (List Char) :=
  let (node, service) : List Char × Option (List Char) :=
    match host with
    | '[' :: cs =>
      match memchr ']' cs with
      | some (node, ':' :: service) => (node, some service)
      | some (node, _) => (node, none)
      | none => ([], none)
    | _ => ([], none)
  let (node, service) : List Char × Option (List Char) :=
    if node = [] then
      match memchr ':' host with
      | some (node, service) => (node, some service)
      | none => ([], none)
    else (node, service)
  -- without a separator, or with nothing before it, the whole text is the node
  (if node = [] then host else node, service)

theorem memchr_append {c : Char} {s : List Char} (h : c ∉ s) (t : List Char) :
    memchr c (s ++ c :: t) = some (s, t) := by
  have hne : ∀ a ∈ s, decide (a ≠ c) = true := by
    intro a ha
    simpa using ne_of_mem_of_not_mem ha h
  rw [memchr, List.dropWhile_append_of_pos hne, List.takeWhile_append_of_pos hne]
  simp

/-- A text in brackets is the node, what follows the colon behind them the service. -/
theorem lookupSplit_brackets {node : List Char} (hne : node ≠ []) (h : ']' ∉ node)
    (service : List Char) :
    lookupSplit (['['] ++ node ++ [']', ':'] ++ service) = (node, some service) := by
  have hsplit : memchr ']' (node ++ ']' :: ':' :: service) = some (node, ':' :: service) :=
    memchr_append h _
  simp [lookupSplit, hsplit, hne]

/-- Otherwise the first colon separates the two. -/
theorem lookupSplit_colon {node : List Char} (hne : node ≠ []) (hhead : node.head? ≠ some '[')
    (h : ':' ∉ node) (service : List Char) :
    lookupSplit (node ++ [':'] ++ service) = (node, some service) := by
  obtain ⟨c, cs, rfl⟩ := List.exists_cons_of_ne_nil hne
  have hc : c ≠ '[' := by simpa using hhead
  have hsplit : memchr ':' (c :: (cs ++ ':' :: service)) = some (c :: cs, service) :=
    memchr_append h service
  simp [lookupSplit, hsplit, hc]

end Sylar.Address
