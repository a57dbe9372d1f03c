import Sylar.ByteArray.Defs
import Sylar.Foundation.Bytes

/-!
# Byte order of the machine

Model of `socket/endian.h`. The byte order of the machine, `SYLAR_BYTE_ORDER`, is an argument
`host`: `memory host n x` are the bytes of a variable of `n` bytes that holds the bits `x`.
-/

namespace Sylar.ByteArray

open Bytes

namespace Endian

/-- The bytes of a variable of `n` bytes with the bits `x`. -/
def memory (host : Endian) (n x : ℕ) : List UInt8 :=
  match host with
  | .little => toLE n x
  | .big => (toLE n x).reverse

/-- The bits of the variable whose bytes are `bs`. -/
def ofMemory (host : Endian) (bs : List UInt8) : ℕ :=
  match host with
  | .little => ofLE bs
  | .big => ofLE bs.reverse

end Endian

/-- `byteswap(value)` for a value of `n` bytes. -/
def byteswap (n x : ℕ) : ℕ := swap n x

/-- `byteswapOnLittleEndian(t)` for a value of `n` bytes. -/
def byteswapOnLittleEndian (host : Endian) (n x : ℕ) : ℕ :=
  match host with
  | .little => byteswap n x
  | .big => x

namespace Endian

@[simp]
theorem length_memory (host : Endian) (n x : ℕ) : (host.memory n x).length = n := by
  cases host <;> simp [memory]

/-- Swapped when the orders differ, a variable has its bytes in the order `e`. -/
theorem memory_byteswap (e host : Endian) (n x : ℕ) :
    host.memory n (if e ≠ host then byteswap n x else x) = e.memory n x := by
  cases e <;> cases host <;> simp [memory, byteswap, toLE_swap]

/-- The bytes in the order `e`, loaded and swapped when the orders differ. -/
theorem byteswap_ofMemory (e host : Endian) {n x : ℕ} (hx : x < 256 ^ n) :
    (if e = host then host.ofMemory (e.memory n x)
      else byteswap n (host.ofMemory (e.memory n x))) = x := by
  have hswap : swap n (ofLE (toLE n x).reverse) = x := swap_swap hx
  cases e <;> cases host <;> simp [memory, ofMemory, byteswap, ofLE_toLE hx, hswap]

/-- A variable holds the bits that its bytes say. -/
theorem ofMemory_memory (host : Endian) {n x : ℕ} (hx : x < 256 ^ n) :
    host.ofMemory (host.memory n x) = x := by
  cases host <;> simp [memory, ofMemory, ofLE_toLE hx]

/-- Bytes are those of the variable that they are loaded into. -/
theorem memory_ofMemory (host : Endian) {n : ℕ} {bs : List UInt8} (h : bs.length = n) :
    host.memory n (host.ofMemory bs) = bs := by
  cases host
  · exact toLE_ofLE h
  · have hreverse : bs.reverse.length = n := by rw [List.length_reverse, h]
    rw [memory, ofMemory, toLE_ofLE hreverse, List.reverse_reverse]

theorem ofMemory_lt (host : Endian) (bs : List UInt8) : host.ofMemory bs < 256 ^ bs.length := by
  cases host
  · exact ofLE_lt bs
  · rw [← List.length_reverse]
    exact ofLE_lt bs.reverse

/-- A single byte is its own swap. -/
theorem byteswap_one {x : ℕ} (hx : x < 256 ^ 1) : byteswap 1 x = x := ofLE_toLE hx

end Endian

@[simp]
theorem byteswapOnLittleEndian_zero (host : Endian) : byteswapOnLittleEndian host 2 0 = 0 := by
  cases host <;> decide

/-- Swapped, the bits of a variable are the number that its bytes write in network order. -/
theorem byteswapOnLittleEndian_ofMemory (host : Endian) {n : ℕ} {bs : List UInt8}
    (h : bs.length = n) : byteswapOnLittleEndian host n (host.ofMemory bs) = ofLE bs.reverse := by
  cases host
  · simp [byteswapOnLittleEndian, Endian.ofMemory, byteswap, swap, toLE_ofLE h]
  · rfl

/-- The bytes of a variable write its swapped value in network order. -/
theorem memory_eq_reverse (host : Endian) (n x : ℕ) :
    host.memory n x = (toLE n (byteswapOnLittleEndian host n x)).reverse := by
  cases host
  · simp [byteswapOnLittleEndian, Endian.memory, byteswap, toLE_swap]
  · rfl

/-- Swapping is its own inverse. -/
theorem byteswapOnLittleEndian_involutive (host : Endian) {n x : ℕ} (h : x < 256 ^ n) :
    byteswapOnLittleEndian host n (byteswapOnLittleEndian host n x) = x := by
  cases host
  · exact swap_swap h
  · rfl

end Sylar.ByteArray
