import Sylar.ByteArray.Fixed

/-!
# `ByteArray` — string records

Model of `writeStringF16`, `writeStringF32`, `writeStringF64` and of the functions that read such
records: the length as an integer of fixed width, and then the bytes.

`read` looks at the node `m_cur` even when it is asked for no bytes, and `m_cur` is null when the
position sits at the end of the last node. So an empty string can be read back only if there is
room behind its header: more records, or a rest of the last node. `recordLaw_iff` says exactly when
records come back: unless the last string is empty and the base size divides the number of bytes
written.
-/

namespace Sylar.ByteArray

/-! ## Model -/

/-- `ByteArray::writeStringF16(value)`. -/
def writeStringF16 (host : Endian) (value : List UInt8) : Op Unit := do
  writeFuint16 host (UInt16.ofNat value.length)
  write value

/-- `ByteArray::writeStringF32(value)`. -/
def writeStringF32 (host : Endian) (value : List UInt8) : Op Unit := do
  writeFuint32 host (UInt32.ofNat value.length)
  write value

/-- `ByteArray::writeStringF64(value)`. -/
def writeStringF64 (host : Endian) (value : List UInt8) : Op Unit := do
  writeFuint64 host (UInt64.ofNat value.length)
  write value

/-- `ByteArray::readStringF16()`. -/
def readStringF16 (host : Endian) : Op (List UInt8) := do
  let len ← readFuint16 host
  read len.toNat

/-- `ByteArray::readStringF32()`. -/
def readStringF32 (host : Endian) : Op (List UInt8) := do
  let len ← readFuint32 host
  read len.toNat

/-- `ByteArray::readStringF64()`. -/
def readStringF64 (host : Endian) : Op (List UInt8) := do
  let len ← readFuint64 host
  read len.toNat

/-- The kinds of string records. -/
inductive StringKind
  | F16
  | F32
  | F64
  deriving DecidableEq, Repr

namespace StringKind

/-- The function that writes a record of this kind. -/
def write (host : Endian) : StringKind → List UInt8 → Op Unit
  | F16 => writeStringF16 host
  | F32 => writeStringF32 host
  | F64 => writeStringF64 host

/-- The function that reads a record of this kind. -/
def read (host : Endian) : StringKind → Op (List UInt8)
  | F16 => readStringF16 host
  | F32 => readStringF32 host
  | F64 => readStringF64 host

/-- The header for a string of this length. -/
def header (k : StringKind) (len : ℕ) : Fixed :=
  match k with
  | F16 => .fuint16 (UInt16.ofNat len)
  | F32 => .fuint32 (UInt32.ofNat len)
  | F64 => .fuint64 (UInt64.ofNat len)

/-- The type of the header. -/
def headerKind : StringKind → Kind
  | F16 => .fuint16
  | F32 => .fuint32
  | F64 => .fuint64

end StringKind

/-- A string with the kind of record it is written as. -/
abbrev StringRecord := StringKind × List UInt8

namespace StringRecord

/-- The length of the string fits the header. -/
def Fits (r : StringRecord) : Prop := r.2.length < 256 ^ r.1.headerKind.width

instance (r : StringRecord) : Decidable r.Fits := inferInstanceAs (Decidable (_ < _))

/-- The bytes of a record. -/
def encode (e : Endian) (r : StringRecord) : List UInt8 := (r.1.header r.2.length).encode e ++ r.2

end StringRecord

/-- The number of bytes of records. -/
def recordsSize (records : List StringRecord) : ℕ :=
  (records.map fun r => r.1.headerKind.width + r.2.length).sum

/-- A record is written. -/
def writeRecord (host : Endian) (r : StringRecord) : Op Unit := r.1.write host r.2

/-- The records are written one after another, and the position goes back to `0`. -/
def writeRecords (host : Endian) (records : List StringRecord) : Op Unit := do
  forM records (writeRecord host)
  setPosition 0

/-- Records of these kinds are read one after another. -/
def readRecords (host : Endian) (kinds : List StringKind) : Op (List (List UInt8)) :=
  kinds.mapM fun k => k.read host

/-- Records that are written into `ba` and read back from the beginning come out as the same
strings, and the position ends at the end. -/
def RecordLaw (host : Endian) (ba : ByteArray) (records : List StringRecord) : Prop :=
  ∃ ba₀ ba', (writeRecords host records).run ba = .ok () ba₀ ∧
    (readRecords host (records.map Prod.fst)).run ba₀ = .ok (records.map Prod.snd) ba' ∧
    ba'.getPosition = ba'.getSize

/-! ## Headers -/

namespace StringKind

variable {ba ba' : ByteArray}

theorem header_kind (k : StringKind) (len : ℕ) : (k.header len).kind = k.headerKind := by
  cases k <;> rfl

/-- A header holds a length that fits. -/
theorem header_bits {r : StringRecord} (h : r.Fits) :
    (r.1.header r.2.length).bits = r.2.length := by
  obtain ⟨k, s⟩ := r
  cases k
  · exact UInt16.toNat_ofNat_of_lt' h
  · exact UInt32.toNat_ofNat_of_lt' h
  · exact UInt64.toNat_ofNat_of_lt' h

theorem write_def (host : Endian) (k : StringKind) (s : List UInt8) :
    k.write host s = ((k.header s.length).write host >>= fun _ => ByteArray.write s) := by
  cases k <;> rfl

/-- All three functions read a header and then as many bytes as it says. -/
theorem read_def (host : Endian) (k : StringKind) :
    k.read host = k.headerKind.read host >>= fun f => ByteArray.read f.bits := by
  cases k <;> simp [read, readStringF16, readStringF32, readStringF64, headerKind, Kind.read,
    Fixed.bits]

end StringKind

@[simp]
theorem StringRecord.length_encode (e : Endian) (r : StringRecord) :
    (r.encode e).length = r.1.headerKind.width + r.2.length := by
  rw [encode, List.length_append, Fixed.length_encode, StringKind.header_kind]

variable {ba ba' : ByteArray}

/-! ## Writing -/

/-- A writer at the end of the content appends its records. -/
theorem forM_writeRecord_eq (host : Endian) (h : Appended ba) (records : List StringRecord) :
    ∃ ba', (forM records (writeRecord host)).run ba = .ok () ba' ∧ Appended ba' ∧
      ba'.content = ba.content ++ records.flatMap (StringRecord.encode ba.endian) ∧
      ba'.size = ba.size + recordsSize records ∧ ba'.baseSize = ba.baseSize ∧
      ba'.endian = ba.endian := by
  induction records generalizing ba with
  | nil => exact ⟨ba, rfl, h, by simp, by simp [recordsSize], rfl, rfl⟩
  | cons r records ih =>
    -- a record is two writes
    obtain ⟨ba₁, hrun₁, h₁, hcontent₁, hsize₁, hbase₁, hendian₁⟩ :=
      append_eq h ((r.1.header r.2.length).encode ba.endian)
    obtain ⟨ba₂, hrun₂, h₂, hcontent₂, hsize₂, hbase₂, hendian₂⟩ := append_eq h₁ r.2
    obtain ⟨ba₃, hrun₃, h₃, hcontent₃, hsize₃, hbase₃, hendian₃⟩ := ih h₂
    refine ⟨ba₃, ?_, h₃, ?_, ?_, by omega, by rw [hendian₃, hendian₂, hendian₁]⟩
    · have hfirst : (writeRecord host r).run ba = .ok () ba₂ := by
        rw [writeRecord, StringKind.write_def, EStateM.run_bind, Fixed.write_run, hrun₁]
        exact hrun₂
      rw [List.forM_cons, EStateM.run_bind, hfirst]
      exact hrun₃
    · rw [hcontent₃, hcontent₂, hcontent₁, hendian₂, hendian₁, List.flatMap_cons,
        StringRecord.encode]
      simp only [List.append_assoc]
    · rw [Fixed.length_encode, StringKind.header_kind] at hsize₁
      rw [recordsSize, List.map_cons, List.sum_cons, ← recordsSize]
      omega

/-! ## Reading -/

/-- A read of no bytes needs a node at the position. -/
theorem read_zero (h : WellFormed ba) :
    (read 0).run ba = if ba.position < ba.capacity then .ok [] ba else .error .nullNode ba := by
  have hnull := h.cur_eq_length_iff
  have hcur := h.cur_le
  have hle : ba.position ≤ ba.capacity := h.position_le.trans h.size_le
  have hnot : ¬ 0 > ba.getReadSize := Nat.not_lt_zero _
  simp only [EStateM.run, read, hnot, if_false]
  split_ifs with hlt
  · -- the loop is not entered
    obtain ⟨node, rest, hchain⟩ : ∃ node rest, ba.nodes.drop ba.cur = node :: rest :=
      List.exists_cons_of_ne_nil (by rw [ne_eq, List.drop_eq_nil_iff]; omega)
    simp [hchain, readLoop, pure, Except.pure]
  · rw [List.drop_eq_nil_of_le (by omega)]
    rfl

/-- A record in front of the reader is read back if there is a node behind its header for the
string, empty or not. -/
theorem readRecord_eq (host : Endian) (h : WellFormed ba) {r : StringRecord} (hfits : r.Fits)
    {rest : List UInt8} (hcontent : ba.content.drop ba.position = r.encode ba.endian ++ rest)
    (hroom : r.2 ≠ [] ∨ rest ≠ [] ∨ ba.size < ba.capacity) :
    ∃ ba', (r.1.read host).run ba = .ok r.2 ba' ∧ WellFormed ba' ∧
      ba'.content.drop ba'.position = rest ∧ ba'.size = ba.size ∧ ba'.capacity = ba.capacity ∧
      ba'.endian = ba.endian := by
  have hhead : (ba.content.drop ba.position).take (r.1.header r.2.length).kind.width =
      (r.1.header r.2.length).encode ba.endian := by
    rw [hcontent, StringRecord.encode, List.append_assoc, ← Fixed.length_encode ba.endian,
      List.take_left]
  obtain ⟨ba₁, hrun₁, h₁, hcontent₁, hposition₁, hsize₁, hendian₁, hcapacity₁⟩ :=
    Kind.read_eq host h _ hhead
  -- the string and what follows it are left
  have hleft : ba₁.content.drop ba₁.position = r.2 ++ rest := by
    rw [hcontent₁, hposition₁, ← List.drop_drop, hcontent, StringRecord.encode, List.append_assoc,
      ← Fixed.length_encode ba.endian, List.drop_left]
  have hlen : ba₁.size - ba₁.position = r.2.length + rest.length := by
    rw [← h₁.length_content, ← List.length_drop, hleft, List.length_append]
  have hposle := h₁.position_le
  have hrun : (r.1.read host).run ba = (read r.2.length).run ba₁ := by
    rw [StringKind.header_kind] at hrun₁
    rw [StringKind.read_def, EStateM.run_bind, hrun₁]
    simp only [StringKind.header_bits hfits]
  by_cases hempty : r.2 = []
  · -- nothing is copied, but the node at the position is looked at
    rw [hempty, List.nil_append] at hleft
    rw [hempty, List.length_nil] at hlen hrun
    have hlt : ba₁.position < ba₁.capacity := by
      have hcap := h₁.size_le
      rcases hroom with hne | hne | hlt
      · exact absurd hempty hne
      · have := List.length_pos_iff.mpr hne
        omega
      · omega
    refine ⟨ba₁, ?_, h₁, hleft, hsize₁, hcapacity₁, hendian₁⟩
    rw [hrun, read_zero h₁, if_pos hlt, hempty]
  · have hpos : 0 < r.2.length := List.length_pos_iff.mpr hempty
    obtain ⟨ba₂, hrun₂, h₂, hcontent₂, hposition₂, hsize₂, -⟩ :=
      ByteArray.read_eq h₁ hpos (by omega)
    obtain ⟨hendian₂, -, -, hcapacity₂⟩ := read_frame hrun₂
    refine ⟨ba₂, ?_, h₂, ?_, by omega, by omega, hendian₂.trans hendian₁⟩
    · rw [hrun, hrun₂, hleft, List.take_left]
    · rw [hcontent₂, hposition₂, ← List.drop_drop, hleft, List.drop_left]

/-- The last string is empty. -/
def EndsEmpty (records : List StringRecord) : Prop := ∃ k, records.getLast? = some (k, [])

/-- Records in front of the reader are read back if there is a node behind the last header. -/
theorem readRecords_eq (host : Endian) (h : WellFormed ba) {records : List StringRecord}
    (hfits : ∀ r ∈ records, r.Fits) {rest : List UInt8}
    (hcontent : ba.content.drop ba.position =
      records.flatMap (StringRecord.encode ba.endian) ++ rest)
    (hroom : ¬ EndsEmpty records ∨ rest ≠ [] ∨ ba.size < ba.capacity) :
    ∃ ba', (readRecords host (records.map Prod.fst)).run ba = .ok (records.map Prod.snd) ba' ∧
      WellFormed ba' ∧ ba'.content.drop ba'.position = rest ∧ ba'.size = ba.size ∧
      ba'.capacity = ba.capacity ∧ ba'.endian = ba.endian := by
  induction records generalizing ba with
  | nil => exact ⟨ba, rfl, h, hcontent, rfl, rfl, rfl⟩
  | cons r records ih =>
    rw [List.flatMap_cons, List.append_assoc] at hcontent
    -- behind a record that is not the last one there is the header of the next
    have hroom₁ : r.2 ≠ [] ∨ records.flatMap (StringRecord.encode ba.endian) ++ rest ≠ [] ∨
        ba.size < ba.capacity := by
      rcases hroom with hlast | hrest
      · cases records with
        | nil => exact Or.inl fun hempty => hlast ⟨r.1, by rw [← hempty]; rfl⟩
        | cons r' records =>
          right
          left
          have hwidth := r'.1.headerKind.width_pos
          have hlen : 0 < (r'.encode ba.endian).length := by
            rw [StringRecord.length_encode]
            omega
          simp [List.length_pos_iff.mp hlen]
      · exact Or.inr (hrest.imp_left fun hne => by simp [hne])
    obtain ⟨ba₁, hrun₁, h₁, hcontent₁, hsize₁, hcapacity₁, hendian₁⟩ :=
      readRecord_eq host h (hfits r (by simp)) hcontent hroom₁
    have hroom₂ : ¬ EndsEmpty records ∨ rest ≠ [] ∨ ba₁.size < ba₁.capacity := by
      rw [hsize₁, hcapacity₁]
      refine hroom.imp_left fun hlast hempty => hlast ?_
      obtain ⟨k, hk⟩ := hempty
      exact ⟨k, by rw [List.getLast?_cons, hk]; rfl⟩
    obtain ⟨ba₂, hrun₂, h₂, hcontent₂, hsize₂, hcapacity₂, hendian₂⟩ :=
      ih h₁ (fun r' hr' => hfits r' (by simp [hr'])) (by rw [hcontent₁, hendian₁]) hroom₂
    refine ⟨ba₂, ?_, h₂, hcontent₂, by omega, by omega, hendian₂.trans hendian₁⟩
    rw [readRecords, List.map_cons, List.mapM_cons, EStateM.run_bind, hrun₁]
    rw [readRecords] at hrun₂
    simp only [EStateM.run_bind, hrun₂]
    rfl

/-- An empty string whose header ends the last node is not read back: a null node is
dereferenced. -/
theorem readRecord_null (host : Endian) (h : WellFormed ba) (k : StringKind)
    (hcontent : ba.content.drop ba.position = StringRecord.encode ba.endian (k, []))
    (hfull : ba.size = ba.capacity) :
    ∃ ba', (k.read host).run ba = .error .nullNode ba' := by
  have hfits : StringRecord.Fits (k, []) := Nat.pow_pos (by decide)
  have hhead : (ba.content.drop ba.position).take (k.header 0).kind.width =
      (k.header 0).encode ba.endian := by
    rw [hcontent, StringRecord.encode, List.append_nil, ← Fixed.length_encode ba.endian]
    exact List.take_length
  obtain ⟨ba₁, hrun₁, h₁, hcontent₁, hposition₁, hsize₁, -, hcapacity₁⟩ :=
    Kind.read_eq host h _ hhead
  -- the header was all that was left
  have hlen := congrArg List.length hcontent
  rw [List.length_drop, h.length_content, StringRecord.length_encode] at hlen
  dsimp only [List.length_nil] at hlen
  rw [StringKind.header_kind] at hrun₁ hposition₁
  refine ⟨ba₁, ?_⟩
  have hbits : (k.header 0).bits = 0 := StringKind.header_bits hfits
  rw [StringKind.read_def, EStateM.run_bind, hrun₁]
  simp only [hbits]
  rw [read_zero h₁, if_neg (by omega)]

/-- Writing records into a fresh array and rewinding leaves the reader in front of them, and the
last node is full exactly when the base size divides their size. -/
theorem writeRecords_eq {B : ℕ} (hB : 0 < B) (alloc : ℕ → ℕ → UInt8) (host : Endian)
    (records : List StringRecord) :
    ∃ ba, (writeRecords host records).run (new B alloc) = .ok () ba ∧ WellFormed ba ∧
      ba.content.drop ba.position = records.flatMap (StringRecord.encode ba.endian) ∧
      (0 < recordsSize records → (ba.capacity = ba.size ↔ B ∣ recordsSize records)) := by
  obtain ⟨ba₁, hrun₁, h₁, hcontent₁, hsize₁, hbase₁, hendian₁⟩ :=
    forM_writeRecord_eq host (new_appended hB alloc) records
  have hempty : (new B alloc).content = [] := rfl
  have hzero : (new B alloc).size = 0 := rfl
  rw [hempty, List.nil_append] at hcontent₁
  rw [hzero, Nat.zero_add] at hsize₁
  obtain ⟨ba₂, hrun₂, h₂, hcontent₂, hposition₂, hsize₂, hcapacity₂, hendian₂, -⟩ :=
    rewind_eq h₁.toWellFormed
  refine ⟨ba₂, ?_, h₂, ?_, fun hpos => ?_⟩
  · rw [writeRecords, EStateM.run_bind, hrun₁]
    exact hrun₂
  · rw [hposition₂, List.drop_zero, hcontent₂, hcontent₁, hendian₂, hendian₁]
  · have hiff := h₁.capacity_eq_size_iff (by omega)
    rw [hbase₁, hsize₁] at hiff
    rw [hcapacity₂, hsize₂, hsize₁]
    exact hiff

theorem recordsSize_pos {records : List StringRecord} (h : EndsEmpty records) :
    0 < recordsSize records := by
  obtain ⟨k, hk⟩ := h
  obtain ⟨init, rfl⟩ := List.getLast?_eq_some_iff.mp hk
  have hwidth := k.headerKind.width_pos
  simp only [recordsSize, List.map_append, List.sum_append, List.map_cons, List.sum_cons]
  omega

/-- Records come back if the last string is not empty or does not end the last node. -/
theorem recordLaw_of_room {B : ℕ} (hB : 0 < B) (alloc : ℕ → ℕ → UInt8) (host : Endian)
    {records : List StringRecord} (hfits : ∀ r ∈ records, r.Fits)
    (hcond : ¬ (EndsEmpty records ∧ B ∣ recordsSize records)) :
    RecordLaw host (new B alloc) records := by
  obtain ⟨ba₁, hrun₁, h₁, hfront, hfull⟩ := writeRecords_eq hB alloc host records
  have hroom : ¬ EndsEmpty records ∨ ([] : List UInt8) ≠ [] ∨ ba₁.size < ba₁.capacity := by
    by_cases hlast : EndsEmpty records
    · have hsize := h₁.size_le
      have hne : ba₁.capacity ≠ ba₁.size := fun heq =>
        hcond ⟨hlast, (hfull (recordsSize_pos hlast)).mp heq⟩
      exact Or.inr (Or.inr (by omega))
    · exact Or.inl hlast
  rw [← List.append_nil (records.flatMap _)] at hfront
  obtain ⟨ba₂, hrun₂, h₂, hcontent₂, -⟩ := readRecords_eq host h₁ hfits hfront hroom
  refine ⟨ba₁, ba₂, hrun₁, hrun₂, ?_⟩
  have hlen := congrArg List.length hcontent₂
  rw [List.length_drop, h₂.length_content, List.length_nil] at hlen
  have hle := h₂.position_le
  rw [getPosition, getSize]
  omega

/-- They do not come back if the last string is empty and its header ends the last node. -/
theorem not_recordLaw_of_full {B : ℕ} (hB : 0 < B) (alloc : ℕ → ℕ → UInt8) (host : Endian)
    {records : List StringRecord} (hfits : ∀ r ∈ records, r.Fits) (hlast : EndsEmpty records)
    (hdvd : B ∣ recordsSize records) : ¬ RecordLaw host (new B alloc) records := by
  rintro ⟨ba₀, ba', hrun, hread, -⟩
  obtain ⟨ba₁, hrun₁, h₁, hfront, hfull⟩ := writeRecords_eq hB alloc host records
  obtain rfl : ba₁ = ba₀ := by
    rw [hrun₁] at hrun
    cases hrun
    rfl
  have hcap := (hfull (recordsSize_pos hlast)).mpr hdvd
  -- everything before the last record is read, and then the last header
  obtain ⟨k, hk⟩ := hlast
  obtain ⟨init, rfl⟩ := List.getLast?_eq_some_iff.mp hk
  have htail : StringRecord.encode ba₁.endian (k, []) ≠ [] := by
    rw [← List.length_pos_iff, StringRecord.length_encode]
    exact Nat.add_pos_left k.headerKind.width_pos _
  have hinit : ∀ r ∈ init, r.Fits := fun r hr => hfits r (by simp [hr])
  rw [List.flatMap_append, List.flatMap_singleton] at hfront
  obtain ⟨ba₂, hrun₂, h₂, hcontent₂, hsize₂, hcapacity₂, hendian₂⟩ :=
    readRecords_eq host h₁ hinit hfront (Or.inr (Or.inl htail))
  obtain ⟨ba₃, hrun₃⟩ := readRecord_null host h₂ k (by rw [hcontent₂, hendian₂]) (by omega)
  rw [readRecords, List.map_append, List.mapM_append, EStateM.run_bind] at hread
  rw [readRecords] at hrun₂
  simp only [hrun₂, List.map_cons, List.map_nil, List.mapM_cons, EStateM.run_bind, hrun₃] at hread
  cases hread

/-- String records on a fresh array, whose lengths fit their headers, come back exactly when the
last string is not empty or the base size does not divide the number of bytes written. -/
theorem recordLaw_iff (B : ℕ) (alloc : ℕ → ℕ → UInt8) (host : Endian)
    (records : List StringRecord) (hB : 0 < B) (hfits : ∀ r ∈ records, r.Fits) :
    RecordLaw host (new B alloc) records ↔ ¬ (EndsEmpty records ∧ B ∣ recordsSize records) :=
  ⟨fun hlaw hcond => not_recordLaw_of_full hB alloc host hfits hcond.1 hcond.2 hlaw,
    recordLaw_of_room hB alloc host hfits⟩

/-- An empty string between two others in three-byte nodes. -/
theorem recordLaw_iff_example :
    RecordLaw .little (new 3 fun _ _ => 0) [(.F16, [7]), (.F32, []), (.F16, [8, 9])] ↔
      ¬ (EndsEmpty [(.F16, [7]), (.F32, []), (.F16, [8, 9])] ∧
        3 ∣ recordsSize [(.F16, [7]), (.F32, []), (.F16, [8, 9])]) :=
  recordLaw_iff 3 (fun _ _ => 0) .little _ (by decide) (by decide)

/-- An empty string alone in two-byte nodes does not come back: its header fills the node. -/
theorem not_recordLaw_empty :
    (∀ r ∈ [(StringKind.F16, [])], StringRecord.Fits r) ∧
      ¬ RecordLaw .little (new 2 fun _ _ => 0) [(.F16, [])] := by
  have hfits : ∀ r ∈ [(StringKind.F16, [])], StringRecord.Fits r := by decide
  exact ⟨hfits, not_recordLaw_of_full (by decide) _ _ hfits ⟨.F16, rfl⟩ (by decide)⟩

end Sylar.ByteArray
