import Sylar.ByteArray.Strings

/-!
# `ByteArray` — incomplete string records

A string record is consumed by two reads, of the header and of the string. Each of them checks that
enough bytes are left before it takes any, but nothing takes the header back when the second check
fails: a record whose string has not arrived yet loses its header. `incompleteLaw_iff` says that
this is the only way in which the reader of an incomplete record moves.

`buff.resize(len)` stands between the two reads and throws another exception for a length that it
does not accept. Which lengths it accepts is the parameter `resize`.
-/

namespace Sylar.ByteArray

variable {ba ba' : ByteArray} {resize : ℕ → Prop} {k : StringKind}

/-- The call throws `std::out_of_range` in the state `ba'`: one of the two reads does, and
`buff.resize(len)` has not thrown before the second one. -/
structure Throws (resize : ℕ → Prop) (host : Endian) (k : StringKind) (ba ba' : ByteArray) :
    Prop where
  run : (k.read host).run ba = .error .outOfRange ba'
  resized : ∀ len ba₁, (k.headerKind.read host).run ba = .ok len ba₁ → resize len.bits

/-- A call that throws `std::out_of_range` leaves the position, the size and the content as they
were. -/
def IncompleteLaw (resize : ℕ → Prop) (host : Endian) (k : StringKind) (ba : ByteArray) : Prop :=
  ∀ ba', Throws resize host k ba ba' →
    ba'.getPosition = ba.getPosition ∧ ba'.getSize = ba.getSize ∧ ba'.content = ba.content

/-- The header at the position is completely available. -/
def HeaderComplete (k : StringKind) (ba : ByteArray) : Prop :=
  ba.position + k.headerKind.width ≤ ba.size

/-- The length that the header at the position announces. -/
def announced (k : StringKind) (ba : ByteArray) : ℕ :=
  ba.endian.ofMemory ((ba.content.drop ba.position).take k.headerKind.width)

/-- The header and as many bytes as it announces are completely available. -/
def RecordComplete (k : StringKind) (ba : ByteArray) : Prop :=
  ba.position + k.headerKind.width + announced k ba ≤ ba.size

instance (k : StringKind) (ba : ByteArray) : Decidable (HeaderComplete k ba) :=
  inferInstanceAs (Decidable (_ ≤ _))

instance (k : StringKind) (ba : ByteArray) : Decidable (RecordComplete k ba) :=
  inferInstanceAs (Decidable (_ ≤ _))

/-! ## The header -/

/-- Every number below `256 ^ width` is the bits of a value of the header's type. -/
theorem StringKind.exists_header (k : StringKind) {x : ℕ} (hx : x < 256 ^ k.headerKind.width) :
    ∃ f : Fixed, f.kind = k.headerKind ∧ f.bits = x := by
  refine ⟨k.header x, k.header_kind x, ?_⟩
  cases k
  · exact UInt16.toNat_ofNat_of_lt' hx
  · exact UInt32.toNat_ofNat_of_lt' hx
  · exact UInt64.toNat_ofNat_of_lt' hx

/-- The bytes of the header, when all of them are there. -/
theorem WellFormed.length_header (h : WellFormed ba) (hhead : HeaderComplete k ba) :
    ((ba.content.drop ba.position).take k.headerKind.width).length = k.headerKind.width := by
  rw [HeaderComplete] at hhead
  rw [List.length_take, List.length_drop, h.length_content]
  omega

/-- A complete header is read, and the position moves behind it. -/
theorem header_eq (host : Endian) (h : WellFormed ba) (hhead : HeaderComplete k ba) :
    ∃ f ba₁, (k.headerKind.read host).run ba = .ok f ba₁ ∧ f.bits = announced k ba ∧
      WellFormed ba₁ ∧ ba₁.content = ba.content ∧
      ba₁.position = ba.position + k.headerKind.width ∧ ba₁.size = ba.size := by
  have hlen := h.length_header hhead
  have hlt : announced k ba < 256 ^ k.headerKind.width := by
    have := ba.endian.ofMemory_lt ((ba.content.drop ba.position).take k.headerKind.width)
    rwa [hlen] at this
  obtain ⟨f, hkind, hbits⟩ := k.exists_header hlt
  -- the bytes at the position are the encoding of the length that they announce
  have hcontent : (ba.content.drop ba.position).take f.kind.width = f.encode ba.endian := by
    rw [Fixed.encode_eq, hkind, hbits, announced, Endian.memory_ofMemory _ hlen]
  obtain ⟨ba₁, hrun, h₁, hsame, hposition, hsize, -, -⟩ := Kind.read_eq host h f hcontent
  rw [hkind] at hrun hposition
  exact ⟨f, ba₁, hrun, hbits, h₁, hsame, hposition, hsize⟩

/-- An incomplete header is refused, and nothing moves. -/
theorem header_eq_outOfRange (host : Endian) (h : WellFormed ba) (hhead : ¬ HeaderComplete k ba) :
    (k.headerKind.read host).run ba = .error .outOfRange ba := by
  have hread : (read k.headerKind.width).run ba = .error .outOfRange ba :=
    read_eq_outOfRange h (Nat.lt_of_not_le hhead)
  have htemplate : (readTemplate host k.headerKind.width).run ba = .error .outOfRange ba := by
    rw [readTemplate, EStateM.run_bind, hread]
  have hload : (k.headerKind.load host).run ba = .error .outOfRange ba := by
    cases k <;> exact htemplate
  rw [Kind.read_def]
  change EStateM.map _ _ ba = _
  rw [EStateM.map, show k.headerKind.load host ba = _ from hload]

/-! ## The record -/

/-- A record without a complete header is left alone. -/
theorem record_eq_of_not_header (host : Endian) (h : WellFormed ba)
    (hhead : ¬ HeaderComplete k ba) : (k.read host).run ba = .error .outOfRange ba := by
  rw [StringKind.read_def, EStateM.run_bind, header_eq_outOfRange host h hhead]

/-- A record with a complete header and an incomplete string loses the header. -/
theorem record_eq_of_header (host : Endian) (h : WellFormed ba) (hhead : HeaderComplete k ba)
    (hrecord : ¬ RecordComplete k ba) :
    ∃ ba₁, (k.read host).run ba = .error .outOfRange ba₁ ∧
      ba₁.position = ba.position + k.headerKind.width := by
  obtain ⟨f, ba₁, hrun, hbits, h₁, -, hposition, hsize⟩ := header_eq host h hhead
  have hshort : ba₁.size < ba₁.position + f.bits := by
    rw [RecordComplete] at hrecord
    omega
  refine ⟨ba₁, ?_, hposition⟩
  rw [StringKind.read_def, EStateM.run_bind, hrun]
  exact read_eq_outOfRange h₁ hshort

/-- The reader of a complete record does not throw `std::out_of_range`. -/
theorem record_of_complete (host : Endian) (h : WellFormed ba) (hrecord : RecordComplete k ba)
    (hrun : (k.read host).run ba = .error .outOfRange ba') : False := by
  have hhead : HeaderComplete k ba := (Nat.le_add_right _ _).trans hrecord
  obtain ⟨f, ba₁, hhdr, hbits, h₁, -, hposition, hsize⟩ := header_eq host h hhead
  rw [StringKind.read_def, EStateM.run_bind, hhdr] at hrun
  rw [RecordComplete] at hrecord
  by_cases hzero : f.bits = 0
  · -- no bytes are asked for; at the worst a null node is looked at
    simp only [hzero, read_zero h₁] at hrun
    split_ifs at hrun
    cases hrun
  · obtain ⟨ba₂, hrun₂, -⟩ :=
      ByteArray.read_eq h₁ (Nat.pos_of_ne_zero hzero) (n := f.bits) (by omega)
    simp only [hrun₂] at hrun
    cases hrun

/-- A call that throws `std::out_of_range` leaves the reader where it was exactly when it is not
the string alone that is incomplete: its header is incomplete too, or the record is complete (and
nothing is thrown), or the announced length is one that `resize` refuses with another exception. -/
theorem incompleteLaw_iff (resize : ℕ → Prop) (host : Endian) (k : StringKind) (ba : ByteArray)
    (h : WellFormed ba) :
    IncompleteLaw resize host k ba ↔
      ¬ (HeaderComplete k ba ∧ ¬ RecordComplete k ba ∧ resize (announced k ba)) := by
  constructor
  · rintro hlaw ⟨hhead, hrecord, hresize⟩
    obtain ⟨ba₁, hrun, hposition⟩ := record_eq_of_header host h hhead hrecord
    obtain ⟨f, ba₂, hhdr, hbits, -⟩ := header_eq host h hhead
    have hthrows : Throws resize host k ba ba₁ := by
      refine ⟨hrun, fun len ba₃ hlen => ?_⟩
      rw [hhdr] at hlen
      cases hlen
      rwa [hbits]
    -- the header is gone
    have hsame := (hlaw ba₁ hthrows).1
    have hwidth := k.headerKind.width_pos
    rw [getPosition, getPosition] at hsame
    omega
  · intro hcond ba' hthrows
    by_cases hhead : HeaderComplete k ba
    · exfalso
      by_cases hrecord : RecordComplete k ba
      · exact record_of_complete host h hrecord hthrows.run
      · obtain ⟨f, ba₁, hhdr, hbits, -⟩ := header_eq host h hhead
        apply hcond
        refine ⟨hhead, hrecord, ?_⟩
        rw [← hbits]
        exact hthrows.resized f ba₁ hhdr
    · have hrun := hthrows.run
      rw [record_eq_of_not_header host h hhead] at hrun
      cases hrun
      exact ⟨rfl, rfl, rfl⟩

/-- Two bytes of a four-byte header, behind a string that has been read. -/
theorem incompleteLaw_iff_example :
    let ba : ByteArray := { new 4 (fun _ _ => 0) with
      position := 1, size := 3, nodes := [⟨4, [7, 0, 0, 9], rfl⟩] }
    IncompleteLaw (fun _ => True) .little .F32 ba ↔
      ¬ (HeaderComplete .F32 ba ∧ ¬ RecordComplete .F32 ba ∧ True) :=
  incompleteLaw_iff (fun _ => True) .little .F32 _ (by decide)

/-- A header that announces five bytes, of which two have arrived: the call throws with the position
behind the header, and the next call takes the first bytes of the string for a header. -/
theorem not_incompleteLaw_split :
    let ba : ByteArray := { new 4 (fun _ _ => 0) with
      size := 4, nodes := [⟨4, [0, 5, 65, 66], rfl⟩] }
    WellFormed ba ∧
      (∃ ba', Throws (fun _ => True) .little .F16 ba ba' ∧ ba'.getPosition = 2) ∧
      ¬ IncompleteLaw (fun _ => True) .little .F16 ba := by
  intro ba
  have hwf : WellFormed ba := by decide
  obtain ⟨ba', hrun, hposition⟩ :=
    record_eq_of_header (k := .F16) .little hwf (by decide) (by decide)
  have hthrows : Throws (fun _ => True) .little .F16 ba ba' := ⟨hrun, fun _ _ _ => trivial⟩
  refine ⟨hwf, ⟨ba', hthrows, hposition⟩, fun hlaw => ?_⟩
  have hmoved : ba'.position = 0 := (hlaw ba' hthrows).1
  rw [hposition] at hmoved
  cases hmoved

end Sylar.ByteArray
