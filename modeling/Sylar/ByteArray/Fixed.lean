import Sylar.ByteArray.Append
import Sylar.ByteArray.Endian

/-!
# `ByteArray` — integers of fixed width

Model of `writeFint8` … `writeFuint64` and `readFint8` … `readFuint64` on a machine of byte order
`host`.

`Fixed` is a value of one of the eight types, and `Fixed.encode e f` its encoding in the byte order
`e`. `Fixed.write_run` and `Kind.read_eq` describe the functions on well-formed states: what is
stored and what is read back is the encoding in the selected order, whatever the host.
-/

namespace Sylar.ByteArray

open Bytes Slice

/-! ## Model -/

/-- The body of `writeFint16` … `writeFuint64`. -/
def writeFixed (host : Endian) (n x : ℕ) : Op Unit := fun ba =>
  let value := if ba.endian ≠ host then byteswap n x else x
  write (host.memory n value) ba

/-- `readTemplate(type)`. -/
def readTemplate (host : Endian) (n : ℕ) : Op ℕ := do
  let buf ← read n
  let v := host.ofMemory buf
  let ba ← get
  if ba.endian = host then return v else return byteswap n v

/-- `ByteArray::writeFint8(value)`. -/
def writeFint8 (host : Endian) (value : Int8) : Op Unit := write (host.memory 1 value.toUInt8.toNat)

/-- `ByteArray::writeFuint8(value)`. -/
def writeFuint8 (host : Endian) (value : UInt8) : Op Unit := write (host.memory 1 value.toNat)

/-- `ByteArray::writeFint16(value)`. -/
def writeFint16 (host : Endian) (value : Int16) : Op Unit := writeFixed host 2 value.toUInt16.toNat

/-- `ByteArray::writeFuint16(value)`. -/
def writeFuint16 (host : Endian) (value : UInt16) : Op Unit := writeFixed host 2 value.toNat

/-- `ByteArray::writeFint32(value)`. -/
def writeFint32 (host : Endian) (value : Int32) : Op Unit := writeFixed host 4 value.toUInt32.toNat

/-- `ByteArray::writeFuint32(value)`. -/
def writeFuint32 (host : Endian) (value : UInt32) : Op Unit := writeFixed host 4 value.toNat

/-- `ByteArray::writeFint64(value)`. -/
def writeFint64 (host : Endian) (value : Int64) : Op Unit := writeFixed host 8 value.toUInt64.toNat

/-- `ByteArray::writeFuint64(value)`. -/
def writeFuint64 (host : Endian) (value : UInt64) : Op Unit := writeFixed host 8 value.toNat

/-- The bits of a variable of one byte after `read(&v, sizeof(v))`. -/
def readByte (host : Endian) : Op ℕ := host.ofMemory <$> read 1

/-- `ByteArray::readFint8()`. -/
def readFint8 (host : Endian) : Op Int8 := do return (UInt8.ofNat (← readByte host)).toInt8

/-- `ByteArray::readFuint8()`. -/
def readFuint8 (host : Endian) : Op UInt8 := do return UInt8.ofNat (← readByte host)

/-- `ByteArray::readFint16()`. -/
def readFint16 (host : Endian) : Op Int16 := do
  return (UInt16.ofNat (← readTemplate host 2)).toInt16

/-- `ByteArray::readFuint16()`. -/
def readFuint16 (host : Endian) : Op UInt16 := do return UInt16.ofNat (← readTemplate host 2)

/-- `ByteArray::readFint32()`. -/
def readFint32 (host : Endian) : Op Int32 := do
  return (UInt32.ofNat (← readTemplate host 4)).toInt32

/-- `ByteArray::readFuint32()`. -/
def readFuint32 (host : Endian) : Op UInt32 := do return UInt32.ofNat (← readTemplate host 4)

/-- `ByteArray::readFint64()`. -/
def readFint64 (host : Endian) : Op Int64 := do
  return (UInt64.ofNat (← readTemplate host 8)).toInt64

/-- `ByteArray::readFuint64()`. -/
def readFuint64 (host : Endian) : Op UInt64 := do return UInt64.ofNat (← readTemplate host 8)

/-- The types of fixed width. -/
inductive Kind
  | fint8
  | fuint8
  | fint16
  | fuint16
  | fint32
  | fuint32
  | fint64
  | fuint64
  deriving DecidableEq, Repr

/-- A value of a type of fixed width. -/
inductive Fixed
  | fint8 (value : Int8)
  | fuint8 (value : UInt8)
  | fint16 (value : Int16)
  | fuint16 (value : UInt16)
  | fint32 (value : Int32)
  | fuint32 (value : UInt32)
  | fint64 (value : Int64)
  | fuint64 (value : UInt64)
  deriving DecidableEq

namespace Fixed

/-- The type of a value. -/
def kind : Fixed → Kind
  | fint8 _ => .fint8
  | fuint8 _ => .fuint8
  | fint16 _ => .fint16
  | fuint16 _ => .fuint16
  | fint32 _ => .fint32
  | fuint32 _ => .fuint32
  | fint64 _ => .fint64
  | fuint64 _ => .fuint64

/-- The function that writes a value of this type. -/
def write (host : Endian) : Fixed → Op Unit
  | fint8 value => writeFint8 host value
  | fuint8 value => writeFuint8 host value
  | fint16 value => writeFint16 host value
  | fuint16 value => writeFuint16 host value
  | fint32 value => writeFint32 host value
  | fuint32 value => writeFuint32 host value
  | fint64 value => writeFint64 host value
  | fuint64 value => writeFuint64 host value

/-- The integer that a value stands for. -/
def toInt : Fixed → ℤ
  | fint8 value => value.toInt
  | fuint8 value => value.toNat
  | fint16 value => value.toInt
  | fuint16 value => value.toNat
  | fint32 value => value.toInt
  | fuint32 value => value.toNat
  | fint64 value => value.toInt
  | fuint64 value => value.toNat

/-- The bits of a value. -/
def bits : Fixed → ℕ
  | fint8 value => value.toUInt8.toNat
  | fuint8 value => value.toNat
  | fint16 value => value.toUInt16.toNat
  | fuint16 value => value.toNat
  | fint32 value => value.toUInt32.toNat
  | fuint32 value => value.toNat
  | fint64 value => value.toUInt64.toNat
  | fuint64 value => value.toNat

end Fixed

namespace Kind

/-- `sizeof(type)`. -/
def width : Kind → ℕ
  | fint8 => 1
  | fuint8 => 1
  | fint16 => 2
  | fuint16 => 2
  | fint32 => 4
  | fuint32 => 4
  | fint64 => 8
  | fuint64 => 8

/-- The function that reads a value of this type. -/
def read (host : Endian) : Kind → Op Fixed
  | fint8 => .fint8 <$> readFint8 host
  | fuint8 => .fuint8 <$> readFuint8 host
  | fint16 => .fint16 <$> readFint16 host
  | fuint16 => .fuint16 <$> readFuint16 host
  | fint32 => .fint32 <$> readFint32 host
  | fuint32 => .fuint32 <$> readFuint32 host
  | fint64 => .fint64 <$> readFint64 host
  | fuint64 => .fuint64 <$> readFuint64 host

/-- The value of this type with these bits. -/
def ofBits : Kind → ℕ → Fixed
  | fint8, x => .fint8 (UInt8.ofNat x).toInt8
  | fuint8, x => .fuint8 (UInt8.ofNat x)
  | fint16, x => .fint16 (UInt16.ofNat x).toInt16
  | fuint16, x => .fuint16 (UInt16.ofNat x)
  | fint32, x => .fint32 (UInt32.ofNat x).toInt32
  | fuint32, x => .fuint32 (UInt32.ofNat x)
  | fint64, x => .fint64 (UInt64.ofNat x).toInt64
  | fuint64, x => .fuint64 (UInt64.ofNat x)

/-- The bits that the function for this type loads. -/
def load (host : Endian) : Kind → Op ℕ
  | fint8 => readByte host
  | fuint8 => readByte host
  | k => readTemplate host k.width

/-- A reader casts the integer that it has loaded. -/
theorem read_def (host : Endian) (k : Kind) : k.read host = k.ofBits <$> k.load host := by
  cases k <;> simp only [read, load, width, readFint8, readFuint8, readFint16, readFuint16,
    readFint32, readFuint32, readFint64, readFuint64, bind_pure_comp, Functor.map_map] <;> rfl

/-- No type is empty. -/
theorem width_pos (k : Kind) : 0 < k.width := by cases k <;> decide

end Kind

/-- The two's-complement encoding of a value in the byte order `e`. -/
def Fixed.encode (e : Endian) (f : Fixed) : List UInt8 :=
  match e with
  | .little => twosLE f.kind.width f.toInt
  | .big => (twosLE f.kind.width f.toInt).reverse

/-! ## Values and their bytes -/

namespace Fixed

/-- The bits of a value fit into its width. -/
theorem bits_lt (f : Fixed) : f.bits < 256 ^ f.kind.width := by
  cases f with
  | fint8 value => exact value.toUInt8.toNat_lt
  | fuint8 value => exact value.toNat_lt
  | fint16 value => exact value.toUInt16.toNat_lt
  | fuint16 value => exact value.toNat_lt
  | fint32 value => exact value.toUInt32.toNat_lt
  | fuint32 value => exact value.toNat_lt
  | fint64 value => exact value.toUInt64.toNat_lt
  | fuint64 value => exact value.toNat_lt

/-- The bits of a value have the bytes of the integer it stands for. -/
theorem toLE_bits (f : Fixed) : toLE f.kind.width f.bits = twosLE f.kind.width f.toInt := by
  have hbits := f.bits_lt
  cases f with
  | fint8 value => exact toLE_toNat_eq_twosLE_toInt (n := 1) value.toBitVec
  | fint16 value => exact toLE_toNat_eq_twosLE_toInt (n := 2) value.toBitVec
  | fint32 value => exact toLE_toNat_eq_twosLE_toInt (n := 4) value.toBitVec
  | fint64 value => exact toLE_toNat_eq_twosLE_toInt (n := 8) value.toBitVec
  | fuint8 value => exact toLE_eq_twosLE hbits
  | fuint16 value => exact toLE_eq_twosLE hbits
  | fuint32 value => exact toLE_eq_twosLE hbits
  | fuint64 value => exact toLE_eq_twosLE hbits

/-- A value comes back from its bits. -/
theorem ofBits_bits (f : Fixed) : f.kind.ofBits f.bits = f := by
  cases f <;> simp [kind, bits, Kind.ofBits]

/-- The encoding is what a machine of that byte order has in memory. -/
theorem encode_eq (e : Endian) (f : Fixed) : f.encode e = e.memory f.kind.width f.bits := by
  cases e <;> rw [encode, Endian.memory, toLE_bits]

/-- A value is encoded in its width. -/
@[simp]
theorem length_encode (e : Endian) (f : Fixed) : (f.encode e).length = f.kind.width := by
  rw [encode_eq, Endian.length_memory]

end Fixed

/-- A single byte has no byte order. -/
theorem writeFixed_one (host : Endian) {x : ℕ} (hx : x < 256 ^ 1) :
    writeFixed host 1 x = write (host.memory 1 x) := by
  funext ba
  rw [writeFixed, Endian.byteswap_one hx, ite_self]

/-- All eight functions store the bits of their argument in the selected order. -/
theorem Fixed.write_run (host : Endian) (f : Fixed) (ba : ByteArray) :
    (f.write host).run ba = (ByteArray.write (f.encode ba.endian)).run ba := by
  have hfixed : f.write host = writeFixed host f.kind.width f.bits := by
    have hbits := f.bits_lt
    cases f with
    | fint8 value => exact (writeFixed_one host hbits).symm
    | fuint8 value => exact (writeFixed_one host hbits).symm
    | _ => rfl
  rw [hfixed, EStateM.run, writeFixed, Endian.memory_byteswap, ← encode_eq]
  rfl

/-! ## Writing and reading a value -/

variable {ba ba' : ByteArray}

/-- A function is applied to what has been read. -/
theorem run_map_of_ok {α β : Type} {x : Op α} {a : α} (g : α → β) (h : x.run ba = .ok a ba') :
    (g <$> x).run ba = .ok (g a) ba' := by
  change EStateM.map g x ba = _
  rw [EStateM.map, show x ba = _ from h]

/-- Two operations succeed if both of them do. -/
theorem run_bind_eq_ok {α β : Type} {x : Op α} {f : α → Op β} {b : β} :
    (x >>= f).run ba = .ok b ba' ↔ ∃ a ba₁, x.run ba = .ok a ba₁ ∧ (f a).run ba₁ = .ok b ba' := by
  rw [EStateM.run_bind]
  cases x.run ba with
  | ok a ba₁ => exact ⟨fun h => ⟨a, ba₁, rfl, h⟩, fun ⟨_, _, ha, h⟩ => (by cases ha; exact h)⟩
  | error fault ba₁ => exact ⟨fun h => (by cases h), fun ⟨_, _, ha, _⟩ => (by cases ha)⟩

/-- Applying a function does not fail. -/
theorem run_map_eq_ok {α β : Type} {x : Op α} {g : α → β} {b : β} :
    (g <$> x).run ba = .ok b ba' ↔ ∃ a, x.run ba = .ok a ba' ∧ g a = b := by
  rw [map_eq_pure_bind, run_bind_eq_ok]
  constructor
  · rintro ⟨a, ba₁, hx, hpure⟩
    cases hpure
    exact ⟨a, hx, rfl⟩
  · rintro ⟨a, hx, rfl⟩
    exact ⟨a, ba', hx, rfl⟩

/-- `ReadTemplate` turns the bytes of the host around if the orders differ. -/
theorem readTemplate_run (host : Endian) {n x : ℕ} (hx : x < 256 ^ n)
    (hrun : (read n).run ba = .ok (ba.endian.memory n x) ba') (hendian : ba'.endian = ba.endian) :
    (readTemplate host n).run ba = .ok x ba' := by
  have hload := ba.endian.byteswap_ofMemory host hx
  rw [readTemplate, EStateM.run_bind, hrun]
  simp only [EStateM.run_bind, EStateM.run_get, hendian]
  -- the value is swapped exactly if the selected order is not the host's
  split_ifs at hload ⊢ with heq
  · rw [EStateM.run_pure, hload]
  · rw [EStateM.run_pure, hload]

/-- A single byte is loaded without a swap. -/
theorem readByte_run (host : Endian) {x : ℕ} (hx : x < 256 ^ 1)
    (hrun : (read 1).run ba = .ok (ba.endian.memory 1 x) ba') :
    (readByte host).run ba = .ok x ba' := by
  have hload : host.ofMemory (ba.endian.memory 1 x) = x := by
    have hone := ba.endian.byteswap_ofMemory host hx
    rwa [Endian.byteswap_one, ite_self] at hone
    cases ba.endian <;> cases host <;> exact ofLE_lt _
  exact (run_map_of_ok _ hrun).trans (by rw [hload])

/-- Where the content at the position is the encoding of a value in the selected order, the
function that reads values of its type returns it. -/
theorem Kind.read_eq (host : Endian) (h : WellFormed ba) (f : Fixed)
    (hcontent : (ba.content.drop ba.position).take f.kind.width = f.encode ba.endian) :
    ∃ ba', (f.kind.read host).run ba = .ok f ba' ∧ WellFormed ba' ∧ ba'.content = ba.content ∧
      ba'.position = ba.position + f.kind.width ∧ ba'.size = ba.size ∧
      ba'.endian = ba.endian ∧ ba'.capacity = ba.capacity := by
  have hwidth := f.kind.width_pos
  -- the encoding has its full length, so it lies inside the content
  have havail : ba.position + f.kind.width ≤ ba.size := by
    have hlen := congrArg List.length hcontent
    rw [Fixed.length_encode, List.length_take, List.length_drop, h.length_content] at hlen
    omega
  obtain ⟨ba', hrun, h', hsame, hposition, hsize, -⟩ := ByteArray.read_eq h hwidth havail
  obtain ⟨hendian, -, -, hcapacity⟩ := read_frame hrun
  rw [hcontent, Fixed.encode_eq] at hrun
  refine ⟨ba', ?_, h', hsame, hposition, hsize, hendian, hcapacity⟩
  have hbits := f.bits_lt
  have hload : (f.kind.load host).run ba = .ok f.bits ba' := by
    have htemplate := readTemplate_run host hbits hrun hendian
    cases f with
    | fint8 value => exact readByte_run host hbits hrun
    | fuint8 value => exact readByte_run host hbits hrun
    | _ => exact htemplate
  rw [Kind.read_def, run_map_of_ok _ hload, f.ofBits_bits]

end Sylar.ByteArray
