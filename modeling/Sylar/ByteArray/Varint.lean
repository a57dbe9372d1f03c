import Sylar.ByteArray.Strings
import Sylar.Foundation.Leb128

/-!
# `ByteArray` — integers of variable width

Model of `writeInt32`, `writeUint32`, `writeInt64`, `writeUint64`, `writeStringVint` and of the
functions that read what these write.

The readers follow LEB128: `readUint32_eq` says that `readUint32` decodes every encoding of up to
five bytes. The writers stop in front of the last group, whose high bit would be clear
(`varintLoop_eq`). So a reader takes at least one byte more than the writer has stored for a value,
and is ahead of the writer from the first value on (`readVint_ahead`): nothing but the empty
sequence of values comes back (`vintLaw_iff_nil`).

Conversions between integer types keep the bits. Where the zigzag functions negate or double a
signed value the result is taken modulo `2 ^ 32` or `2 ^ 64`.
-/

namespace Sylar.ByteArray

open Leb128

/-! ## Model -/

/-- `EncodeZigzag32(v)`. -/
def EncodeZigzag32 (v : Int32) : UInt32 := if v < 0 then (-v).toUInt32 * 2 - 1 else (v * 2).toUInt32

/-- `EncodeZigzag64(v)`. -/
def EncodeZigzag64 (v : Int64) : UInt64 := if v < 0 then (-v).toUInt64 * 2 - 1 else (v * 2).toUInt64

/-- `DecodeZigzag32(v)`. -/
def DecodeZigzag32 (v : UInt32) : Int32 := ((v >>> 1) ^^^ -(v &&& 1)).toInt32

/-- `DecodeZigzag64(v)`. -/
def DecodeZigzag64 (v : UInt64) : Int64 := ((v >>> 1) ^^^ -(v &&& 1)).toInt64

/-- The loop of `writeUint32` and `writeUint64`, which stores groups in an array that has room for
`room` more. -/
def varintLoop {w : ℕ} (room : ℕ) (value : BitVec w) : Except Fault (List UInt8) :=
  if value ≥ 0x80 then
    match room with
    | 0 => .error .overrun -- a write behind the array
    | room + 1 => do
      let data ← varintLoop room (value >>> 7)
      return UInt8.ofBitVec (((value &&& 0x7f) ||| 0x80).setWidth 8) :: data
  else .ok []

/-- The body of `writeUint32` and `writeUint64`, with an array of `room` bytes. What is left of the
value after the loop is not stored. -/
def writeVarint {w : ℕ} (room : ℕ) (value : BitVec w) : Op Unit := fun ba =>
  match varintLoop room value with
  | .error fault => .error fault ba
  | .ok data => write data ba

/-- `ByteArray::writeUint32(value)`. -/
def writeUint32 (value : UInt32) : Op Unit := writeVarint 5 value.toBitVec

/-- `ByteArray::writeInt32(value)`. -/
def writeInt32 (value : Int32) : Op Unit := writeUint32 (EncodeZigzag32 value)

/-- `ByteArray::writeUint64(value)`. -/
def writeUint64 (value : UInt64) : Op Unit := writeVarint 10 value.toBitVec

/-- `ByteArray::writeInt64(value)`, which calls `writeUint32`. -/
def writeInt64 (value : Int64) : Op Unit := writeUint32 (EncodeZigzag64 value).toUInt32

/-- `ByteArray::writeStringVint(value)`. -/
def writeStringVint (value : List UInt8) : Op Unit := do
  writeUint64 (UInt64.ofNat value.length)
  write value

/-- The loop of `readUint32` and `readUint64`; the list holds the values of `i` still to come. -/
def readVarintLoop {w : ℕ} (host : Endian) : List ℕ → BitVec w → Op (BitVec w)
  | [], res => pure res
  | i :: shifts, res => do
    let t ← readFuint8 host
    -- `break` behind the last group; the loop also ends when `i` gets too large
    if t < 0x80 then return res ||| t.toBitVec.setWidth w <<< i
    else readVarintLoop host shifts (res ||| (t.toBitVec.setWidth w &&& 0x7f) <<< i)

/-- `ByteArray::readUint32()`. -/
def readUint32 (host : Endian) : Op Int32 := do
  let res ← readVarintLoop host [0, 7, 14, 21, 28] (0 : BitVec 32)
  return Int32.ofBitVec res

/-- `ByteArray::readInt32()`. -/
def readInt32 (host : Endian) : Op Int32 := do
  let v ← readUint32 host
  return DecodeZigzag32 v.toUInt32

/-- `ByteArray::readUint64()`, which returns an `int32_t`. -/
def readUint64 (host : Endian) : Op Int32 := do
  let res ← readVarintLoop host [0, 7, 14, 21, 28, 35, 42, 49, 56, 63] (0 : BitVec 64)
  return Int32.ofBitVec (res.setWidth 32)

/-- `ByteArray::readInt64()`, which returns an `int32_t`. -/
def readInt64 (host : Endian) : Op Int32 := do
  let v ← readUint64 host
  return (DecodeZigzag64 v.toInt64.toUInt64).toInt32

/-- `ByteArray::readStringVint()`. -/
def readStringVint (host : Endian) : Op (List UInt8) := do
  let len ← readUint64 host
  read len.toInt64.toUInt64.toNat

/-- A value for one of the functions that write with variable width. -/
inductive Vint
  | uint32 (value : UInt32)
  | int32 (value : Int32)
  | uint64 (value : UInt64)
  | int64 (value : Int64)
  | string (value : List UInt8)

/-- What the functions return that read with variable width. -/
inductive VintResult
  | int32 (value : Int32)
  | string (value : List UInt8)

namespace Vint

/-- The function that writes a value of this type. -/
def write : Vint → Op Unit
  | uint32 value => writeUint32 value
  | int32 value => writeInt32 value
  | uint64 value => writeUint64 value
  | int64 value => writeInt64 value
  | string value => writeStringVint value

/-- The function that reads a value of this type. -/
def read (host : Endian) : Vint → Op VintResult
  | uint32 _ => .int32 <$> readUint32 host
  | int32 _ => .int32 <$> readInt32 host
  | uint64 _ => .int32 <$> readUint64 host
  | int64 _ => .int32 <$> readInt64 host
  | string _ => .string <$> readStringVint host

/-- The result, converted to the type of the value, is the value. -/
def Back : Vint → VintResult → Prop
  | uint32 value, .int32 r => r.toUInt32 = value
  | int32 value, .int32 r => r = value
  | uint64 value, .int32 r => r.toInt64.toUInt64 = value
  | int64 value, .int32 r => r.toInt64 = value
  | string value, .string r => r = value
  | _, _ => False

/-- The value is written with `writeUint32` or `writeInt32`. -/
def Is32 : Vint → Prop
  | uint32 _ => True
  | int32 _ => True
  | _ => False

/-- The value is written with `writeUint64`, `writeInt64` or `writeStringVint`. -/
def Is64 : Vint → Prop
  | uint64 _ => True
  | int64 _ => True
  | string _ => True
  | _ => False

end Vint

/-- The values of the functions of 32 bits. -/
abbrev Vint32 := {x : Vint // x.Is32}

/-- The values of the functions of 64 bits. -/
abbrev Vint64 := {x : Vint // x.Is64}

/-- The values are written one after another, and the position goes back to `0`. -/
def writeVints (values : List Vint) : Op Unit := do
  forM values Vint.write
  setPosition 0

/-- Values that are written into `ba` and read back from the beginning come out as the same values,
and the position ends at the end. -/
def VintLaw (host : Endian) (ba : ByteArray) (values : List Vint) : Prop :=
  ∃ ba₀ results ba', (writeVints values).run ba = .ok () ba₀ ∧
    (values.mapM (Vint.read host)).run ba₀ = .ok results ba' ∧
    List.Forall₂ Vint.Back values results ∧ ba'.getPosition = ba'.getSize

variable {ba ba' : ByteArray} {w : ℕ}

/-! ## Reading -/

/-- `readFuint8` returns the byte at the position. -/
theorem readFuint8_eq (host : Endian) (h : WellFormed ba) {b : UInt8} {rest : List UInt8}
    (hcontent : ba.content.drop ba.position = b :: rest) :
    ∃ ba', (readFuint8 host).run ba = .ok b ba' ∧ WellFormed ba' ∧ ba'.content = ba.content ∧
      ba'.position = ba.position + 1 ∧ ba'.size = ba.size := by
  have hlen := congrArg List.length hcontent
  rw [List.length_drop, h.length_content, List.length_cons] at hlen
  obtain ⟨ba', hrun, h', hsame, hposition, hsize, -⟩ :=
    ByteArray.read_eq h Nat.one_pos (by omega)
  rw [hcontent, List.take_succ_cons, List.take_zero] at hrun
  refine ⟨ba', ?_, h', hsame, hposition, hsize⟩
  have hmem : host.ofMemory [b] = b.toNat := by cases host <;> simp [Endian.ofMemory, Bytes.ofLE]
  rw [readFuint8, readByte, EStateM.run_bind, run_map_of_ok _ hrun]
  simp only [hmem, UInt8.ofNat_toNat, EStateM.run_pure]

/-- The loop decodes an encoding that has no more bytes than the loop has rounds left. -/
theorem readVarintLoop_eq (host : Endian) (h : WellFormed ba) {bs rest : List UInt8} {v : ℕ}
    (henc : Encodes bs v) {i rounds : ℕ} (hrounds : bs.length ≤ rounds)
    (hcontent : ba.content.drop ba.position = bs ++ rest) (res : BitVec w) :
    ∃ ba', (readVarintLoop host (List.range' i rounds 7) res).run ba =
        .ok (res ||| BitVec.ofNat w v <<< i) ba' ∧ WellFormed ba' ∧ ba'.content = ba.content ∧
      ba'.position = ba.position + bs.length ∧ ba'.size = ba.size := by
  induction henc generalizing ba i rounds res with
  | last b hb =>
    -- the round that reads it leaves the loop
    obtain ⟨rounds, rfl⟩ := Nat.exists_eq_add_of_le' hrounds
    obtain ⟨ba₁, hrun₁, h₁, hcontent₁, hposition₁, hsize₁⟩ := readFuint8_eq host h hcontent
    refine ⟨ba₁, ?_, h₁, hcontent₁, hposition₁, hsize₁⟩
    have hlast : b < 0x80 := hb
    rw [List.length_singleton, List.range'_succ, readVarintLoop, EStateM.run_bind, hrun₁]
    simp only [hlast, if_true, EStateM.run_pure, setWidth_byte]
  | @group b bs v hb _ ih =>
    rw [List.length_cons] at hrounds
    obtain ⟨rounds, rfl⟩ := Nat.exists_eq_add_of_le' (Nat.one_le_of_lt hrounds)
    obtain ⟨ba₁, hrun₁, h₁, hcontent₁, hposition₁, hsize₁⟩ := readFuint8_eq host h hcontent
    -- the rest of the encoding is in front, and its groups belong seven bits further up
    have hbehind : ba₁.content.drop ba₁.position = bs ++ rest := by
      rw [hcontent₁, hposition₁, ← List.drop_drop, hcontent]
      rfl
    obtain ⟨ba₂, hrun₂, h₂, hcontent₂, hposition₂, hsize₂⟩ := ih h₁ (i := i + 7)
      (Nat.le_of_succ_le_succ hrounds) hbehind (res ||| (b.toBitVec.setWidth w &&& 0x7f) <<< i)
    refine ⟨ba₂, ?_, h₂, hcontent₂.trans hcontent₁, ?_, hsize₂.trans hsize₁⟩
    · have hmore : ¬ b < 0x80 := Nat.not_lt.mpr hb
      have hlt := b.toNat_lt
      rw [List.range'_succ, readVarintLoop, EStateM.run_bind, hrun₁]
      simp only [hmore, if_false, hrun₂]
      rw [setWidth_byte_and hb, ofNat_group (by omega), BitVec.shiftLeft_or_distrib,
        ← BitVec.shiftLeft_add, Nat.add_comm 7 i, ← BitVec.or_assoc]
    · rw [hposition₂, hposition₁, List.length_cons]
      omega

/-- `readUint32` decodes LEB128: in front of an encoding of `v` of at most five bytes, it returns
the 32 bits of `v` and moves the position behind the encoding. -/
theorem readUint32_eq (host : Endian) (ba : ByteArray) (bs rest : List UInt8) (v : ℕ)
    (h : WellFormed ba) (henc : Encodes bs v) (hv : v < 2 ^ 32) (hlen : bs.length ≤ 5)
    (hcontent : ba.content.drop ba.position = bs ++ rest) :
    ∃ r ba', (readUint32 host).run ba = .ok r ba' ∧ r.toUInt32.toNat = v ∧
      ba'.position = ba.position + bs.length ∧ WellFormed ba' ∧ ba'.content = ba.content := by
  obtain ⟨ba', hrun, h', hsame, hposition, -⟩ :=
    readVarintLoop_eq host h henc (i := 0) hlen hcontent (0 : BitVec 32)
  rw [show List.range' 0 5 7 = [0, 7, 14, 21, 28] from rfl] at hrun
  refine ⟨Int32.ofBitVec ((0 : BitVec 32) ||| BitVec.ofNat 32 v <<< 0), ba', ?_, ?_, hposition,
    h', hsame⟩
  · rw [readUint32, EStateM.run_bind, hrun]
    rfl
  · rw [BitVec.shiftLeft_zero, show (0 : BitVec 32) = 0#32 from rfl, BitVec.zero_or]
    exact Nat.mod_eq_of_lt hv

/-- An encoding of `300` in three bytes, one more than needed, across the boundary of two-byte
nodes. -/
theorem readUint32_eq_example :
    ∃ r ba', (readUint32 .little).run
        { new 2 (fun _ _ => 0) with
          capacity := 4, size := 4
          nodes := [⟨2, [0xac, 0x82], rfl⟩, ⟨2, [0x00, 9], rfl⟩] } = .ok r ba' ∧
      r.toUInt32.toNat = 300 ∧ ba'.position = 0 + 3 ∧ WellFormed ba' ∧
      ba'.content = [0xac, 0x82, 0x00, 9] := by
  refine readUint32_eq .little _ [0xac, 0x82, 0x00] [9] 300 (by decide) ?_ (by decide)
    (by decide) rfl
  exact .group 0xac (by decide) (.group 0x82 (by decide) (.last 0 (by decide)))

/-! ## Writing -/

theorem toNat_bound (hw : 8 ≤ w) : (0x80 : BitVec w).toNat = 128 := by
  have hpow : 2 ^ 8 ≤ 2 ^ w := Nat.pow_le_pow_right (by decide) hw
  exact Nat.mod_eq_of_lt (show 128 < 2 ^ w by omega)

/-- The loop stores nothing of a value that is a single group. -/
theorem varintLoop_single (hw : 8 ≤ w) (room : ℕ) {value : BitVec w} (hvalue : value.toNat < 128) :
    varintLoop room value = .ok [] ∧ Encodes [UInt8.ofNat value.toNat] value.toNat := by
  constructor
  · rw [varintLoop.eq_def, if_neg]
    rw [ge_iff_le, BitVec.le_def, toNat_bound hw]
    omega
  · have hbyte : (UInt8.ofNat value.toNat).toNat = value.toNat :=
      Nat.mod_eq_of_lt (show value.toNat < 2 ^ 8 by omega)
    have henc := Encodes.last (UInt8.ofNat value.toNat) (by omega)
    rwa [hbyte] at henc

/-- The loop stores an encoding of the value without its last byte, which would be the only one
with the high bit clear. -/
theorem varintLoop_eq (hw : 8 ≤ w) {k room : ℕ} (value : BitVec w) (hk : k ≤ room)
    (hvalue : value.toNat < 128 ^ (k + 1)) :
    ∃ data last, varintLoop room value = .ok data ∧ data.length ≤ k ∧
      (∀ b ∈ data, 128 ≤ b.toNat) ∧ Encodes (data ++ [last]) value.toNat := by
  induction k generalizing room value with
  | zero =>
    obtain ⟨hloop, henc⟩ := varintLoop_single hw room (by rwa [Nat.zero_add, pow_one] at hvalue)
    exact ⟨[], _, hloop, Nat.le_refl _, by simp, henc⟩
  | succ k ih =>
    by_cases hmore : value ≥ 0x80
    · -- one group is stored, and the loop goes on with the quotient
      obtain ⟨room, rfl⟩ := Nat.exists_eq_add_of_le' (Nat.one_le_of_lt hk)
      have hrest : (value >>> 7).toNat = value.toNat / 128 := by
        rw [BitVec.toNat_ushiftRight, Nat.shiftRight_eq_div_pow]
      have hquot : value.toNat / 128 < 128 ^ (k + 1) :=
        Nat.div_lt_of_lt_mul (by rwa [← pow_succ'])
      obtain ⟨data, last, hloop, hlen, hhigh, henc⟩ :=
        @ih room (value >>> 7) (Nat.le_of_succ_le_succ hk) (by rwa [hrest])
      have hgroup := toNat_group hw value
      have hset : 128 ≤ (UInt8.ofBitVec (((value &&& 0x7f) ||| 0x80).setWidth 8)).toNat := by
        omega
      refine ⟨UInt8.ofBitVec (((value &&& 0x7f) ||| 0x80).setWidth 8) :: data, last, ?_,
        Nat.succ_le_succ hlen, List.forall_mem_cons.mpr ⟨hset, hhigh⟩, ?_⟩
      · rw [varintLoop, if_pos hmore, hloop]
        rfl
      · have hnext := Encodes.group _ hset henc
        rwa [hgroup, hrest, Nat.add_sub_cancel, Nat.mod_add_div] at hnext
    · -- the value is a single group, with room or without
      rw [ge_iff_le, BitVec.le_def, toNat_bound hw] at hmore
      obtain ⟨hloop, henc⟩ := varintLoop_single hw room (Nat.lt_of_not_le hmore)
      exact ⟨[], _, hloop, Nat.zero_le _, by simp, henc⟩

namespace Vint

/-- The bytes of a string follow those of its length. -/
def tail : Vint → List UInt8
  | string value => value
  | uint32 _ | int32 _ | uint64 _ | int64 _ => []

/-- The number of rounds that a reader makes for groups. -/
def rounds : Vint → ℕ
  | uint32 _ | int32 _ => 5
  | uint64 _ | int64 _ | string _ => 10

/-- What is stored for a value: fewer bytes with the high bit set than its reader has rounds, and
the bytes of a string. -/
def Stored (x : Vint) (bs : List UInt8) : Prop :=
  ∃ head, bs = head ++ x.tail ∧ (∀ b ∈ head, 128 ≤ b.toNat) ∧ head.length < x.rounds

end Vint

/-- `writeUint32` and `writeUint64` append bytes with the high bit set, one fewer than an encoding
has. -/
theorem writeVarint_eq (hw : 8 ≤ w) {k room : ℕ} (value : BitVec w) (hk : k ≤ room)
    (hvalue : value.toNat < 128 ^ (k + 1)) (h : Appended ba) :
    ∃ head ba', (writeVarint room value).run ba = .ok () ba' ∧ Appended ba' ∧
      ba'.content = ba.content ++ head ∧ (∀ b ∈ head, 128 ≤ b.toNat) ∧ head.length ≤ k := by
  obtain ⟨data, -, hloop, hlen, hhigh, -⟩ := varintLoop_eq hw value hk hvalue
  obtain ⟨ba', hrun, h', hcontent, -⟩ := append_eq h data
  refine ⟨data, ba', ?_, h', hcontent, hhigh, hlen⟩
  simp only [EStateM.run, writeVarint, hloop]
  exact hrun

theorem writeUint32_eq (value : UInt32) (h : Appended ba) :
    ∃ head ba', (writeUint32 value).run ba = .ok () ba' ∧ Appended ba' ∧
      ba'.content = ba.content ++ head ∧ (∀ b ∈ head, 128 ≤ b.toNat) ∧ head.length ≤ 4 :=
  writeVarint_eq (by decide) value.toBitVec (by decide)
    (value.toNat_lt.trans_le (by decide)) h

theorem writeUint64_eq (value : UInt64) (h : Appended ba) :
    ∃ head ba', (writeUint64 value).run ba = .ok () ba' ∧ Appended ba' ∧
      ba'.content = ba.content ++ head ∧ (∀ b ∈ head, 128 ≤ b.toNat) ∧ head.length ≤ 9 :=
  writeVarint_eq (by decide) value.toBitVec (by decide)
    (value.toNat_lt.trans_le (by decide)) h

/-- A writer at the end of the content appends what it stores for a value. -/
theorem Vint.write_eq (x : Vint) (h : Appended ba) :
    ∃ bs ba', x.write.run ba = .ok () ba' ∧ Appended ba' ∧ ba'.content = ba.content ++ bs ∧
      x.Stored bs := by
  -- three of the functions end up in `writeUint32`
  have h32 (value : UInt32) (hx : 5 ≤ x.rounds) (htail : x.tail = [])
      (hrun : x.write = writeUint32 value) : ∃ bs ba', x.write.run ba = .ok () ba' ∧
      Appended ba' ∧ ba'.content = ba.content ++ bs ∧ x.Stored bs := by
    obtain ⟨head, ba', hwrite, h', hcontent, hhigh, hlen⟩ := writeUint32_eq value h
    exact ⟨head, ba', hrun ▸ hwrite, h', hcontent, head, by rw [htail, List.append_nil], hhigh,
      by omega⟩
  cases x with
  | uint32 value => exact h32 value (by simp [rounds]) rfl rfl
  | int32 value => exact h32 _ (by simp [rounds]) rfl rfl
  | int64 value => exact h32 _ (by simp [rounds]) rfl rfl
  | uint64 value =>
    obtain ⟨head, ba', hwrite, h', hcontent, hhigh, hlen⟩ := writeUint64_eq value h
    exact ⟨head, ba', hwrite, h', hcontent, head, (List.append_nil _).symm, hhigh,
      Nat.lt_succ_of_le hlen⟩
  | string value =>
    -- the length, and then the bytes
    obtain ⟨head, ba₁, hrun₁, h₁, hcontent₁, hhigh, hlen⟩ :=
      writeUint64_eq (UInt64.ofNat value.length) h
    obtain ⟨ba₂, hrun₂, h₂, hcontent₂, -⟩ := append_eq h₁ value
    refine ⟨head ++ value, ba₂, ?_, h₂, by rw [hcontent₂, hcontent₁, List.append_assoc],
      head, rfl, hhigh, Nat.lt_succ_of_le hlen⟩
    rw [write, writeStringVint, EStateM.run_bind, hrun₁]
    exact hrun₂

/-- A writer at the end of the content appends what it stores for the values in order. -/
theorem forM_vint_eq (values : List Vint) (h : Appended ba) :
    ∃ chunks ba', (forM values Vint.write).run ba = .ok () ba' ∧ Appended ba' ∧
      ba'.content = ba.content ++ chunks.flatten ∧ List.Forall₂ Vint.Stored values chunks := by
  induction values generalizing ba with
  | nil => exact ⟨[], ba, rfl, h, by simp, .nil⟩
  | cons x values ih =>
    obtain ⟨bs, ba₁, hrun₁, h₁, hcontent₁, hstored⟩ := x.write_eq h
    obtain ⟨chunks, ba₂, hrun₂, h₂, hcontent₂, hall⟩ := ih h₁
    refine ⟨bs :: chunks, ba₂, ?_, h₂, ?_, .cons hstored hall⟩
    · rw [List.forM_cons, EStateM.run_bind, hrun₁]
      exact hrun₂
    · rw [hcontent₂, hcontent₁, List.flatten_cons, List.append_assoc]

/-! ## A reader of what was written -/

/-- A read that returns has moved the position over what it returns. -/
theorem read_ok (h : WellFormed ba) {n : ℕ} {buf : List UInt8}
    (hrun : (read n).run ba = .ok buf ba') :
    WellFormed ba' ∧ ba'.content = ba.content ∧ ba'.position = ba.position + buf.length ∧
      buf = (ba.content.drop ba.position).take n := by
  by_cases hn : n = 0
  · subst hn
    rw [read_zero h] at hrun
    split_ifs at hrun
    cases hrun
    exact ⟨h, rfl, rfl, rfl⟩
  · by_cases havail : ba.position + n ≤ ba.size
    · obtain ⟨ba₁, hrun₁, h₁, hcontent₁, hposition₁, -⟩ :=
        ByteArray.read_eq h (Nat.pos_of_ne_zero hn) havail
      rw [hrun₁] at hrun
      cases hrun
      refine ⟨h₁, hcontent₁, ?_, rfl⟩
      rw [hposition₁, List.length_take, List.length_drop, h.length_content]
      omega
    · rw [read_eq_outOfRange h (by omega)] at hrun
      cases hrun

/-- A byte is read from the position, if there is one. -/
theorem readFuint8_ok (host : Endian) (h : WellFormed ba) {b : UInt8}
    (hrun : (readFuint8 host).run ba = .ok b ba') :
    WellFormed ba' ∧ ba'.content = ba.content ∧ ba'.position = ba.position + 1 ∧
      ∃ rest, ba.content.drop ba.position = b :: rest := by
  cases hcontent : ba.content.drop ba.position with
  | nil =>
    -- a read of one byte is out of range
    have hlen := congrArg List.length hcontent
    rw [List.length_drop, h.length_content, List.length_nil] at hlen
    rw [readFuint8, run_bind_eq_ok] at hrun
    obtain ⟨_, ba₁, hbyte, -⟩ := hrun
    obtain ⟨_, hread, -⟩ := run_map_eq_ok.mp hbyte
    rw [read_eq_outOfRange h (by omega)] at hread
    cases hread
  | cons b' rest =>
    obtain ⟨ba₁, hrun₁, h₁, hcontent₁, hposition₁, -⟩ := readFuint8_eq host h hcontent
    rw [hrun₁] at hrun
    cases hrun
    exact ⟨h₁, hcontent₁, hposition₁, rest, rfl⟩

/-- The loop does not stop behind a byte with the high bit set, unless it has no rounds left: with
`k` rounds left and such bytes for all but the last of them, it takes `k` bytes. -/
theorem readVarintLoop_ok (host : Endian) (h : WellFormed ba) {shifts : List ℕ} {res r : BitVec w}
    {k : ℕ} (hk : k ≤ shifts.length)
    (hhigh : ∀ b ∈ (ba.content.drop ba.position).take (k - 1), 128 ≤ b.toNat)
    (hrun : (readVarintLoop host shifts res).run ba = .ok r ba') :
    WellFormed ba' ∧ ba'.content = ba.content ∧ ba.position + k ≤ ba'.position := by
  induction shifts generalizing ba res k with
  | nil =>
    -- the loop has no rounds left, and `k` is 0
    cases hrun
    exact ⟨h, rfl, Nat.add_le_add_left hk _⟩
  | cons i shifts ih =>
    rw [readVarintLoop, run_bind_eq_ok] at hrun
    obtain ⟨b, ba₁, hbyte, hrest⟩ := hrun
    obtain ⟨h₁, hcontent₁, hposition₁, rest, hb⟩ := readFuint8_ok host h hbyte
    rw [hb] at hhigh
    split_ifs at hrest with hlast
    · -- the high bit of this byte is clear
      cases hrest
      refine ⟨h₁, hcontent₁, ?_⟩
      have hlt : b.toNat < 128 := hlast
      have hone : k ≤ 1 := by
        by_contra hgt
        obtain ⟨k', hk'⟩ := Nat.exists_eq_add_of_lt (Nat.lt_of_not_le hgt)
        have := hhigh b (by rw [show k - 1 = k' + 1 by omega]; simp)
        omega
      omega
    · -- the loop goes on behind this byte
      have hrest' : ba₁.content.drop ba₁.position = rest := by
        rw [hcontent₁, hposition₁, ← List.drop_drop, hb]
        rfl
      have hhigh' : ∀ c ∈ (ba₁.content.drop ba₁.position).take (k - 1 - 1), 128 ≤ c.toNat := by
        intro c hc
        rw [hrest'] at hc
        refine hhigh c ?_
        cases hpred : k - 1 with
        | zero => simp [hpred] at hc
        | succ m =>
          rw [hpred, Nat.add_sub_cancel] at hc
          exact List.mem_cons_of_mem b hc
      have hk' : k - 1 ≤ shifts.length := by
        rw [List.length_cons] at hk
        omega
      obtain ⟨h₂, hcontent₂, hposition₂⟩ := ih h₁ hk' hhigh' hrest
      exact ⟨h₂, hcontent₂.trans hcontent₁, by omega⟩

/-- Where `head` was stored from position `q` on, bytes with the high bit set and fewer than the
loop has rounds, a loop that starts there or further on ends behind the byte that follows them. -/
theorem readVarintLoop_ahead (host : Endian) (h : WellFormed ba) {shifts : List ℕ}
    {res r : BitVec w} {q : ℕ} {head rest : List UInt8} (hq : q ≤ ba.position)
    (hcontent : ba.content.drop q = head ++ rest) (hhigh : ∀ b ∈ head, 128 ≤ b.toNat)
    (hrun : (readVarintLoop host shifts res).run ba = .ok r ba')
    (hlen : head.length < shifts.length) :
    WellFormed ba' ∧ ba'.content = ba.content ∧ q + head.length < ba'.position := by
  obtain ⟨d, hd⟩ := Nat.exists_eq_add_of_le hq
  -- the bytes of `head` that are left
  have hleft : ∀ b ∈ (ba.content.drop ba.position).take (head.length + 1 - d - 1),
      128 ≤ b.toNat := by
    rw [hd, ← List.drop_drop, hcontent]
    intro b hb
    by_cases hle : d ≤ head.length
    · rw [List.drop_append_of_le_length hle, List.take_append_of_le_length
        (by rw [List.length_drop]; omega)] at hb
      exact hhigh b (List.mem_of_mem_drop (List.mem_of_mem_take hb))
    · rw [show head.length + 1 - d - 1 = 0 by omega, List.take_zero] at hb
      exact absurd hb List.not_mem_nil
  obtain ⟨h', hcontent', hposition'⟩ := readVarintLoop_ok host h (by omega) hleft hrun
  exact ⟨h', hcontent', by omega⟩

theorem readUint32_ahead (host : Endian) (h : WellFormed ba) {q : ℕ} {head rest : List UInt8}
    (hq : q ≤ ba.position) (hcontent : ba.content.drop q = head ++ rest)
    (hhigh : ∀ b ∈ head, 128 ≤ b.toNat) (hlen : head.length < 5) {r : Int32}
    (hrun : (readUint32 host).run ba = .ok r ba') :
    WellFormed ba' ∧ ba'.content = ba.content ∧ q + head.length < ba'.position := by
  obtain ⟨res, ba₁, hloop, hpure⟩ := run_bind_eq_ok.mp hrun
  cases hpure
  exact readVarintLoop_ahead host h hq hcontent hhigh hloop hlen

theorem readUint64_ahead (host : Endian) (h : WellFormed ba) {q : ℕ} {head rest : List UInt8}
    (hq : q ≤ ba.position) (hcontent : ba.content.drop q = head ++ rest)
    (hhigh : ∀ b ∈ head, 128 ≤ b.toNat) (hlen : head.length < 10) {r : Int32}
    (hrun : (readUint64 host).run ba = .ok r ba') :
    WellFormed ba' ∧ ba'.content = ba.content ∧ q + head.length < ba'.position := by
  obtain ⟨res, ba₁, hloop, hpure⟩ := run_bind_eq_ok.mp hrun
  cases hpure
  exact readVarintLoop_ahead host h hq hcontent hhigh hloop hlen

/-- A reader that is not behind the writer when it starts with a value is ahead of the writer when
it returns that value. -/
theorem Vint.read_ahead (host : Endian) (x : Vint) (h : WellFormed ba) {q : ℕ}
    {bs rest : List UInt8} (hstored : x.Stored bs) (hq : q ≤ ba.position)
    (hcontent : ba.content.drop q = bs ++ rest) {result : VintResult}
    (hrun : (x.read host).run ba = .ok result ba') (hback : x.Back result) :
    WellFormed ba' ∧ ba'.content = ba.content ∧ q + bs.length < ba'.position := by
  obtain ⟨head, rfl, hhigh, hlen⟩ := hstored
  rw [List.append_assoc] at hcontent
  cases x with
  | uint32 value =>
    obtain ⟨r, hread, -⟩ := run_map_eq_ok.mp hrun
    rw [tail, List.append_nil]
    exact readUint32_ahead host h hq hcontent hhigh hlen hread
  | int32 value =>
    obtain ⟨r, hread, -⟩ := run_map_eq_ok.mp hrun
    obtain ⟨v, ba₁, hread, hpure⟩ := run_bind_eq_ok.mp hread
    cases hpure
    rw [tail, List.append_nil]
    exact readUint32_ahead host h hq hcontent hhigh hlen hread
  | uint64 value =>
    obtain ⟨r, hread, -⟩ := run_map_eq_ok.mp hrun
    rw [tail, List.append_nil]
    exact readUint64_ahead host h hq hcontent hhigh hlen hread
  | int64 value =>
    obtain ⟨r, hread, -⟩ := run_map_eq_ok.mp hrun
    obtain ⟨v, ba₁, hread, hpure⟩ := run_bind_eq_ok.mp hread
    cases hpure
    rw [tail, List.append_nil]
    exact readUint64_ahead host h hq hcontent hhigh hlen hread
  | string value =>
    obtain ⟨r, hread, rfl⟩ := run_map_eq_ok.mp hrun
    obtain ⟨len, ba₁, hlength, hread⟩ := run_bind_eq_ok.mp hread
    obtain ⟨h₁, hcontent₁, hposition₁⟩ :=
      readUint64_ahead host h hq hcontent hhigh hlen hlength
    obtain ⟨h₂, hcontent₂, hposition₂, -⟩ := read_ok h₁ hread
    -- the string that comes back has the length of the one that was written
    obtain rfl : r = value := hback
    rw [tail, List.length_append]
    exact ⟨h₂, hcontent₂.trans hcontent₁, by omega⟩

/-- A reader of a sequence of values that was not behind the writer at its beginning is ahead at
its end. -/
theorem mapM_vint_ahead (host : Endian) {values : List Vint} {chunks : List (List UInt8)}
    (hall : List.Forall₂ Vint.Stored values chunks) (h : WellFormed ba) {q : ℕ}
    (hq : q ≤ ba.position) {rest : List UInt8}
    (hcontent : ba.content.drop q = chunks.flatten ++ rest) {results : List VintResult}
    (hrun : (values.mapM (Vint.read host)).run ba = .ok results ba')
    (hback : List.Forall₂ Vint.Back values results) :
    WellFormed ba' ∧ ba'.content = ba.content ∧ q + chunks.flatten.length ≤ ba'.position ∧
      (values ≠ [] → q + chunks.flatten.length < ba'.position) := by
  induction hall generalizing ba q results with
  | nil =>
    cases hrun
    exact ⟨h, rfl, hq, fun hne => absurd rfl hne⟩
  | @cons x bs values chunks hstored hall ih =>
    rw [List.mapM_cons, run_bind_eq_ok] at hrun
    obtain ⟨result, ba₁, hrun₁, hrun⟩ := hrun
    obtain ⟨results', ba₂, hrun₂, hpure⟩ := run_bind_eq_ok.mp hrun
    cases hpure
    obtain ⟨hback₁, hback₂⟩ := List.forall₂_cons.mp hback
    rw [List.flatten_cons, List.append_assoc] at hcontent
    obtain ⟨h₁, hcontent₁, hposition₁⟩ := x.read_ahead host h hstored hq hcontent hrun₁ hback₁
    have hbehind : ba₁.content.drop (q + bs.length) = chunks.flatten ++ rest := by
      rw [hcontent₁, ← List.drop_drop, hcontent, List.drop_left]
    rw [List.flatten_cons, List.length_append]
    by_cases hlast : values = []
    · -- this was the last value
      subst hlast
      cases hall
      cases hrun₂
      exact ⟨h₁, hcontent₁, by simpa using hposition₁.le, fun _ => by simpa using hposition₁⟩
    · obtain ⟨h₂, hcontent₂, -, hahead⟩ := ih h₁ hposition₁.le hbehind hrun₂ hback₂
      have hgt := hahead hlast
      exact ⟨h₂, hcontent₂.trans hcontent₁, by omega, fun _ => by omega⟩

/-! ## The round trip -/

/-- Values do not come back from a fresh array, unless there are none: the reader would have to
leave the content. -/
theorem vintLaw_iff_nil {B : ℕ} (hB : 0 < B) (alloc : ℕ → ℕ → UInt8) (host : Endian)
    (values : List Vint) : VintLaw host (new B alloc) values ↔ values = [] := by
  obtain ⟨chunks, ba₁, hrun₁, h₁, hcontent₁, hall⟩ := forM_vint_eq values (new_appended hB alloc)
  obtain ⟨ba₂, hrun₂, h₂, hcontent₂, hposition₂, hsize₂, -⟩ := rewind_eq h₁.toWellFormed
  have hempty : (new B alloc).content = [] := rfl
  rw [hempty, List.nil_append] at hcontent₁
  have hwrite : (writeVints values).run (new B alloc) = .ok () ba₂ := by
    rw [writeVints, EStateM.run_bind, hrun₁]
    exact hrun₂
  constructor
  · rintro ⟨ba₀, results, ba', hrun, hread, hback, -⟩
    obtain rfl : ba₂ = ba₀ := by
      rw [hwrite] at hrun
      cases hrun
      rfl
    by_contra hne
    have hfront : ba₂.content.drop 0 = chunks.flatten ++ [] := by
      rw [List.drop_zero, hcontent₂, hcontent₁, List.append_nil]
    obtain ⟨h', hcontent', -, hahead⟩ :=
      mapM_vint_ahead host hall h₂ (Nat.zero_le _) hfront hread hback
    -- what was stored is the whole content
    have hlt := hahead hne
    have hle := h'.position_le
    rw [← h'.length_content, hcontent', hcontent₂, hcontent₁] at hle
    omega
  · -- nothing is written, and nothing read
    rintro rfl
    cases hall
    refine ⟨ba₂, [], ba₂, hwrite, rfl, .nil, ?_⟩
    have hsize : ba₂.size = 0 := by
      rw [← h₂.length_content, hcontent₂, hcontent₁]
      rfl
    rw [getPosition, getSize, hposition₂, hsize]

/-- Values written with `writeUint32` and `writeInt32` into a fresh array come back exactly when
there are none. -/
theorem vintLaw32_iff (B : ℕ) (alloc : ℕ → ℕ → UInt8) (host : Endian) (values : List Vint32)
    (hB : 0 < B) : VintLaw host (new B alloc) (values.map Subtype.val) ↔ values = [] := by
  rw [vintLaw_iff_nil hB, List.map_eq_nil_iff]

/-- Two values in nodes of four bytes. -/
theorem vintLaw32_iff_example :
    VintLaw .little (new 4 fun _ _ => 0) [.uint32 300, .int32 (-1)] ↔
      ([⟨.uint32 300, trivial⟩, ⟨.int32 (-1), trivial⟩] : List Vint32) = [] :=
  vintLaw32_iff 4 (fun _ _ => 0) .little [⟨.uint32 300, trivial⟩, ⟨.int32 (-1), trivial⟩]
    (by decide)

/-- `writeUint32(1)` stores nothing that `readUint32` could read. -/
theorem not_vintLaw32_one :
    (Vint.uint32 1).Is32 ∧ ¬ VintLaw .little (new 4 fun _ _ => 0) [.uint32 1] := by
  refine ⟨trivial, fun hlaw => ?_⟩
  cases (vintLaw_iff_nil (by decide) _ _ _).mp hlaw

/-- Values written with `writeUint64`, `writeInt64` and `writeStringVint` into a fresh array come
back exactly when there are none. -/
theorem vintLaw64_iff (B : ℕ) (alloc : ℕ → ℕ → UInt8) (host : Endian) (values : List Vint64)
    (hB : 0 < B) : VintLaw host (new B alloc) (values.map Subtype.val) ↔ values = [] := by
  rw [vintLaw_iff_nil hB, List.map_eq_nil_iff]

/-- A number that needs all ten groups and a string, in nodes of three bytes. -/
theorem vintLaw64_iff_example :
    VintLaw .little (new 3 fun _ _ => 0) [.uint64 0xffffffffffffffff, .string [7, 8]] ↔
      ([⟨.uint64 0xffffffffffffffff, trivial⟩, ⟨.string [7, 8], trivial⟩] : List Vint64) = [] :=
  vintLaw64_iff 3 (fun _ _ => 0) .little
    [⟨.uint64 0xffffffffffffffff, trivial⟩, ⟨.string [7, 8], trivial⟩] (by decide)

/-- `writeInt64(2^40)` keeps the lower half of the value only, of which it stores nothing. -/
theorem not_vintLaw64_high :
    (Vint.int64 (2 ^ 40)).Is64 ∧ ¬ VintLaw .little (new 4 fun _ _ => 0) [.int64 (2 ^ 40)] := by
  refine ⟨trivial, fun hlaw => ?_⟩
  cases (vintLaw_iff_nil (by decide) _ _ _).mp hlaw

end Sylar.ByteArray
