import Sylar.ByteArray.Fixed
import Sylar.ByteArray.ReadBuffers
import Sylar.Foundation.Cursor

/-!
# `ByteArray` — the array as a string with a cursor

`Buffer` says what a `ByteArray` is for: a string of bytes with a cursor and a selected byte order.
Its user writes and reads bytes and integers of fixed width, moves the cursor, empties it, and looks
at what is left to read, as a string or through buffers for scattered output.

The chunk list does not show as long as the user is `Disciplined`: writes are made at the end only,
reads ask for at least one byte, and the cursor is moved to the beginning or before the end.
`buffer_refinement` says that then, for every base size and whatever the memory held, the array
gives the same responses as the buffer in all runs of requests, and that none of them ends in a null
pointer or behind a node.
-/

namespace Sylar.ByteArray

open Slice Transition

/-! ## Requests -/

/-- What a user may ask for. -/
inductive Request
  | write (buf : List UInt8)
  | writeFixed (f : Fixed)
  | read (n : ℕ)
  | readFixed (k : Kind)
  | setPosition (v : ℕ)
  | setEndian (flag : Bool)
  | clear
  | toString
  | getReadBuffers (len : ℕ)

/-- What comes back. -/
inductive Response
  | done
  | bytes (bs : List UInt8)
  | value (f : Fixed)
  | outOfRange

/-- The operation for a request. Buffers for scattered output stand for their bytes. -/
def ask (host : Endian) : Request → Op Response
  | .write buf => do
    write buf
    return .done
  | .writeFixed f => do
    f.write host
    return .done
  | .read n => return .bytes (← read n)
  | .readFixed k => return .value (← k.read host)
  | .setPosition v => do
    setPosition v
    return .done
  | .setEndian flag => do
    setEndian flag
    return .done
  | .clear => do
    clear
    return .done
  | .toString => return .bytes (← toString)
  | .getReadBuffers len => do
    let (buffers, _) ← getReadBuffers [] len
    let ba ← get
    return .bytes (buffers.flatMap (Iovec.contents ba.nodes))

/-- The response with the array behind the request, unless it ends in undefined behaviour. -/
def respond (host : Endian) (q : Request) (ba : ByteArray) : Option (Response × ByteArray) :=
  match (ask host q).run ba with
  | .ok r ba' => some (r, ba')
  | .error .outOfRange ba' => some (.outOfRange, ba')
  | .error _ _ => none

/-- Requests at `position` of a content of `size` bytes that do not show the chunk list. -/
def Disciplined (size position : ℕ) : Request → Prop
  | .write buf => buf = [] ∨ position = size
  | .writeFixed _ => position = size
  | .read n => 0 < n
  | .setPosition v => v = 0 ∨ v < size
  | _ => True

instance (size position : ℕ) : (q : Request) → Decidable (Disciplined size position q)
  | .write buf => inferInstanceAs (Decidable (buf = [] ∨ position = size))
  | .writeFixed _ => inferInstanceAs (Decidable (position = size))
  | .read n => inferInstanceAs (Decidable (0 < n))
  | .setPosition v => inferInstanceAs (Decidable (v = 0 ∨ v < size))
  | .readFixed _ | .setEndian _ | .clear | .toString | .getReadBuffers _ =>
    inferInstanceAs (Decidable True)

/-- A disciplined request with its response. -/
def ArrayStep (host : Endian) (ba : ByteArray) (x : Request × Response) (ba' : ByteArray) : Prop :=
  Disciplined ba.size ba.position x.1 ∧ respond host x.1 ba = some (x.2, ba')

/-! ## The buffer -/

/-- A string with a cursor, and the selected byte order. -/
structure Buffer where
  cursor : Cursor UInt8
  endian : Endian

namespace Buffer

/-- The empty buffer. -/
def new : Buffer := ⟨.new, .big⟩

/-- Take `n` bytes, if so many are left. -/
def take (b : Buffer) (n : ℕ) (response : List UInt8 → Response) : Response × Buffer :=
  if h : b.cursor.position + n ≤ b.cursor.content.length then
    (response (b.cursor.rest.take n), { b with cursor := b.cursor.advance n h })
  else (.outOfRange, b)

/-- The response to a request with the buffer behind it. There is nothing behind the end. -/
def respond (b : Buffer) : Request → Option (Response × Buffer)
  | .write buf => some (.done, { b with cursor := b.cursor.write buf })
  | .writeFixed f => some (.done, { b with cursor := b.cursor.write (f.encode b.endian) })
  | .read n => some (b.take n .bytes)
  | .readFixed k =>
    some (b.take k.width fun bs => .value (k.ofBits (b.endian.ofMemory bs)))
  | .setPosition v =>
    if h : v ≤ b.cursor.content.length then some (.done, { b with cursor := b.cursor.seek v h })
    else none
  | .setEndian flag => some (.done, { b with endian := if flag then .little else .big })
  | .clear => some (.done, { b with cursor := .new })
  | .toString => some (.bytes b.cursor.rest, b)
  | .getReadBuffers len => some (.bytes (b.cursor.rest.take len), b)

/-- A disciplined request with its response. -/
def Step (b : Buffer) (x : Request × Response) (b' : Buffer) : Prop :=
  Disciplined b.cursor.content.length b.cursor.position x.1 ∧ b.respond x.1 = some (x.2, b')

end Buffer

/-! ## The array behaves as the buffer -/

/-- The array holds what the buffer says. -/
structure Represents (ba : ByteArray) (b : Buffer) : Prop where
  wf : WellFormed ba
  content : b.cursor.content = ba.content
  position : b.cursor.position = ba.position
  endian : b.endian = ba.endian

variable {host : Endian} {ba ba' : ByteArray} {b : Buffer} {q : Request}

/-- A new array represents the empty buffer. -/
theorem new_represents {B : ℕ} (hB : 0 < B) (alloc : ℕ → ℕ → UInt8) :
    Represents (new B alloc) .new where
  wf := new_wellFormed hB alloc
  content := rfl
  position := rfl
  endian := rfl

/-- The buffer is as long as the size says. -/
theorem Represents.length (h : Represents ba b) : b.cursor.content.length = ba.size := by
  rw [h.content, h.wf.length_content]

/-- Behind the cursor is what is behind the position. -/
theorem Represents.rest (h : Represents ba b) :
    b.cursor.rest = ba.content.drop ba.position := by
  rw [Cursor.rest, h.content, h.position]

namespace Kind

variable {k : Kind}

/-- A cast to a type is of this type. -/
theorem kind_ofBits (k : Kind) (x : ℕ) : (k.ofBits x).kind = k := by
  cases k <;> rfl

/-- The bits come back from the value. -/
theorem bits_ofBits {x : ℕ} (hx : x < 256 ^ k.width) : (k.ofBits x).bits = x := by
  cases k <;> simp only [width] at hx <;> simp [ofBits, Fixed.bits] <;> omega

/-- Any bytes of the right number are the encoding of a value. -/
theorem encode_ofBits (e : Endian) {bs : List UInt8} (h : bs.length = k.width) :
    (k.ofBits (e.ofMemory bs)).encode e = bs := by
  have hlt := e.ofMemory_lt bs
  rw [h] at hlt
  rw [Fixed.encode_eq, kind_ofBits, bits_ofBits hlt, e.memory_ofMemory h]

/-- A value that is not complete is refused, and nothing moves. -/
theorem read_eq_outOfRange (host : Endian) (h : WellFormed ba)
    (hn : ba.size < ba.position + k.width) : (k.read host).run ba = .error .outOfRange ba := by
  have hread : (ByteArray.read k.width).run ba = .error .outOfRange ba :=
    ByteArray.read_eq_outOfRange h hn
  have htemplate : (readTemplate host k.width).run ba = .error .outOfRange ba := by
    rw [readTemplate, EStateM.run_bind, hread]
  have hbyte : k.width = 1 → (readByte host).run ba = .error .outOfRange ba := by
    intro hone
    rw [hone] at hread
    change EStateM.map _ _ ba = _
    rw [EStateM.map, show ByteArray.read 1 ba = _ from hread]
  have hload : (k.load host).run ba = .error .outOfRange ba := by
    cases k with
    | fint8 | fuint8 => exact hbyte rfl
    | _ => exact htemplate
  rw [read_def]
  change EStateM.map _ _ ba = _
  rw [EStateM.map, show k.load host ba = _ from hload]

end Kind

namespace Represents

/-- A write at the end appends. -/
theorem write (h : Represents ba b) (buf : List UInt8) (hfits : buf = [] ∨ ba.position = ba.size) :
    ∃ ba', (ByteArray.write buf).run ba = .ok () ba' ∧
      Represents ba' { b with cursor := b.cursor.write buf } := by
  obtain ⟨ba', hrun, hwf, hcontent, hposition, -⟩ := write_eq h.wf buf (hfits.imp_right Or.inr)
  refine ⟨ba', hrun, hwf, ?_, ?_, ?_⟩
  · show overwrite b.cursor.content b.cursor.position buf = _
    rw [hcontent, h.content, h.position]
  · show b.cursor.position + buf.length = _
    rw [hposition, h.position]
  · show b.endian = _
    by_cases hbuf : buf = []
    · subst hbuf
      cases hrun
      exact h.endian
    · rw [(write_frame hbuf hrun).1, h.endian]

/-- What the array looks like when the position has moved on. -/
theorem advance (h : Represents ba b) {n : ℕ} (havail : ba.position + n ≤ ba.size)
    (hwf : WellFormed ba') (hcontent : ba'.content = ba.content)
    (hposition : ba'.position = ba.position + n) (hendian : ba'.endian = ba.endian) :
    ∃ hle, Represents ba' { b with cursor := b.cursor.advance n hle } := by
  refine ⟨by rw [h.length, h.position]; exact havail, hwf, ?_, ?_, ?_⟩
  · exact h.content.trans hcontent.symm
  · exact (congrArg (· + n) h.position).trans hposition.symm
  · exact h.endian.trans hendian.symm

/-- `read` takes bytes from the buffer. -/
theorem read (host : Endian) (h : Represents ba b) {n : ℕ} (hn : 0 < n) :
    ∃ ba', respond host (.read n) ba = some ((b.take n .bytes).1, ba') ∧
      Represents ba' (b.take n .bytes).2 := by
  by_cases havail : ba.position + n ≤ ba.size
  · obtain ⟨ba', hrun, hwf, hcontent, hposition, -⟩ := ByteArray.read_eq h.wf hn havail
    obtain ⟨hle, hrep⟩ := h.advance havail hwf hcontent hposition (read_frame hrun).1
    refine ⟨ba', ?_, ?_⟩
    · simp only [respond, ask, EStateM.run_bind, hrun, EStateM.run_pure, Buffer.take, dif_pos hle,
        h.rest]
    · rwa [Buffer.take, dif_pos hle]
  · have hnot : ¬ b.cursor.position + n ≤ b.cursor.content.length := by
      rwa [h.length, h.position]
    have hrun := ByteArray.read_eq_outOfRange h.wf (Nat.lt_of_not_le havail)
    refine ⟨ba, ?_, ?_⟩
    · simp only [respond, ask, EStateM.run_bind, hrun, Buffer.take, dif_neg hnot]
    · rwa [Buffer.take, dif_neg hnot]

/-- A reader takes the bytes of its type. -/
theorem readFixed (host : Endian) (h : Represents ba b) (k : Kind) :
    ∃ ba', respond host (.readFixed k) ba =
        some ((b.take k.width fun bs => .value (k.ofBits (b.endian.ofMemory bs))).1, ba') ∧
      Represents ba' (b.take k.width fun bs => .value (k.ofBits (b.endian.ofMemory bs))).2 := by
  by_cases havail : ba.position + k.width ≤ ba.size
  · have hlen : ((ba.content.drop ba.position).take k.width).length = k.width := by
      rw [List.length_take, List.length_drop, h.wf.length_content]
      omega
    have hencode := Kind.encode_ofBits ba.endian hlen
    set f := k.ofBits (ba.endian.ofMemory ((ba.content.drop ba.position).take k.width)) with hf
    have hkind : f.kind = k := Kind.kind_ofBits k _
    obtain ⟨ba', hrun, hwf, hcontent, hposition, -, hendian, -⟩ :=
      Kind.read_eq host h.wf f (by rw [hkind, hencode])
    rw [hkind] at hrun hposition
    obtain ⟨hle, hrep⟩ := h.advance havail hwf hcontent hposition hendian
    refine ⟨ba', ?_, ?_⟩
    · simp only [respond, ask, EStateM.run_bind, hrun, EStateM.run_pure, Buffer.take, dif_pos hle,
        h.rest, h.endian, ← hf]
    · rwa [Buffer.take, dif_pos hle]
  · have hnot : ¬ b.cursor.position + k.width ≤ b.cursor.content.length := by
      rwa [h.length, h.position]
    have hrun := Kind.read_eq_outOfRange host h.wf (Nat.lt_of_not_le havail)
    refine ⟨ba, ?_, ?_⟩
    · simp only [respond, ask, EStateM.run_bind, hrun, Buffer.take, dif_neg hnot]
    · rwa [Buffer.take, dif_neg hnot]

/-- `setPosition` moves the cursor. -/
theorem setPosition (h : Represents ba b) {v : ℕ} (hv : v = 0 ∨ v < ba.size) :
    ∃ ba' hle, (ByteArray.setPosition v).run ba = .ok () ba' ∧
      Represents ba' { b with cursor := b.cursor.seek v hle } := by
  have hsize := h.wf.size_le
  have hroot : 0 < ba.capacity := by
    rw [h.wf.capacity_eq]
    exact Nat.mul_pos (List.length_pos_iff.mpr h.wf.root) h.wf.base_pos
  have hle : v ≤ b.cursor.content.length := by
    rw [h.length]
    omega
  obtain ⟨ba', hrun, hwf, hnodes, hposition, hsize', -⟩ :=
    setPosition_eq h.wf (show v < ba.capacity by omega)
  refine ⟨ba', hle, hrun, hwf, ?_, hposition.symm, ?_⟩
  · show b.cursor.content = _
    rw [h.content, ByteArray.content, ByteArray.content, hnodes, hsize',
      Nat.max_eq_left (show v ≤ ba.size by omega)]
  · show b.endian = _
    rw [(setPosition_frame hrun).1, h.endian]

/-- `clear` empties the buffer. -/
theorem clear (h : Represents ba b) :
    ∃ ba', ByteArray.clear.run ba = .ok () ba' ∧ Represents ba' { b with cursor := .new } := by
  obtain ⟨ba', hrun, hwf, hcontent, hposition, -⟩ := clear_eq h.wf
  have hendian : ba'.endian = ba.endian := by
    cases hrun
    rfl
  exact ⟨ba', hrun, hwf, hcontent.symm, hposition.symm, h.endian.trans hendian.symm⟩

/-- `setEndian` changes the byte order. -/
theorem setEndian (h : Represents ba b) (flag : Bool) :
    ∃ ba', (ByteArray.setEndian flag).run ba = .ok () ba' ∧
      Represents ba' { b with endian := if flag then .little else .big } :=
  ⟨_, rfl, { h.wf with }, h.content, h.position, rfl⟩

/-- The buffers collected stand for the first bytes of what is left to read. -/
theorem getReadBuffers (h : Represents ba b) (len : ℕ) :
    ∃ buffers, (ByteArray.getReadBuffers [] len).run ba = .ok (buffers, min len ba.getReadSize) ba ∧
      buffers.flatMap (Iovec.contents ba.nodes) = b.cursor.rest.take len := by
  have hread := h.wf.getReadSize_eq
  have hle := h.wf.position_le
  have hrest : (ba.content.drop ba.position).take (min len ba.getReadSize) =
      b.cursor.rest.take len := by
    rw [h.rest, ← List.take_take, List.take_of_length_le (i := ba.getReadSize)]
    rw [List.length_drop, h.wf.length_content, hread]
  rw [← hrest]
  simp only [EStateM.run, ByteArray.getReadBuffers, ite_gt_eq_min, List.nil_append]
  by_cases hzero : min len ba.getReadSize = 0
  · simp only [hzero, if_true]
    exact ⟨[], rfl, (describes_nil ba ba.position).contents⟩
  · obtain ⟨added, hloop, hdesc⟩ :=
      iovecLoop_describes h.wf (p := ba.position) (Nat.pos_of_ne_zero hzero) (by omega)
    rw [← h.wf.cur_eq] at hloop
    simp only [hzero, if_false, hloop]
    exact ⟨added, rfl, hdesc.contents⟩

/-- Array and buffer respond alike. -/
theorem respond_eq (h : Represents ba b) (hq : Disciplined ba.size ba.position q) :
    ∃ r ba' b', respond host q ba = some (r, ba') ∧ b.respond q = some (r, b') ∧
      Represents ba' b' := by
  cases q with
  | write buf =>
    obtain ⟨ba', hrun, hrep⟩ := h.write buf hq
    exact ⟨.done, ba', _, by simp only [respond, ask, EStateM.run_bind, hrun, EStateM.run_pure],
      rfl, hrep⟩
  | writeFixed f =>
    obtain ⟨ba', hrun, hrep⟩ := h.write (f.encode b.endian) (Or.inr hq)
    rw [h.endian, ← f.write_run host] at hrun
    exact ⟨.done, ba', _, by simp only [respond, ask, EStateM.run_bind, hrun, EStateM.run_pure],
      rfl, hrep⟩
  | read n =>
    obtain ⟨ba', hrun, hrep⟩ := h.read host hq
    exact ⟨_, ba', _, hrun, rfl, hrep⟩
  | readFixed k =>
    obtain ⟨ba', hrun, hrep⟩ := h.readFixed host k
    exact ⟨_, ba', _, hrun, rfl, hrep⟩
  | setPosition v =>
    obtain ⟨ba', hle, hrun, hrep⟩ := h.setPosition hq
    exact ⟨.done, ba', _, by simp only [respond, ask, EStateM.run_bind, hrun, EStateM.run_pure],
      dif_pos hle, hrep⟩
  | setEndian flag =>
    obtain ⟨ba', hrun, hrep⟩ := h.setEndian flag
    exact ⟨.done, ba', _, by simp only [respond, ask, EStateM.run_bind, hrun, EStateM.run_pure],
      rfl, hrep⟩
  | clear =>
    obtain ⟨ba', hrun, hrep⟩ := h.clear
    exact ⟨.done, ba', _, by simp only [respond, ask, EStateM.run_bind, hrun, EStateM.run_pure],
      rfl, hrep⟩
  | toString =>
    refine ⟨.bytes b.cursor.rest, ba, b, ?_, rfl, h⟩
    simp only [respond, ask, EStateM.run_bind, toString_eq h.wf, EStateM.run_pure, h.rest]
  | getReadBuffers len =>
    obtain ⟨buffers, hrun, hbytes⟩ := h.getReadBuffers len
    refine ⟨.bytes (b.cursor.rest.take len), ba, b, ?_, rfl, h⟩
    simp only [respond, ask, EStateM.run_bind, hrun, EStateM.run_get, EStateM.run_pure, hbytes]

/-- The discipline is the same on both sides. -/
theorem disciplined_iff (h : Represents ba b) :
    Disciplined b.cursor.content.length b.cursor.position q ↔
      Disciplined ba.size ba.position q := by
  rw [h.length, h.position]

end Represents

/-! ## Runs -/

/-- For every base size, and whatever the memory holds, disciplined requests get the same responses
from the array as from the buffer, and leave the same content and position. -/
theorem buffer_refinement {B : ℕ} (hB : 0 < B) (alloc : ℕ → ℕ → UInt8) (host : Endian)
    (xs : List (Request × Response)) :
    (∀ ba, Run (ArrayStep host) (new B alloc) xs ba →
      ∃ b, Run Buffer.Step .new xs b ∧ Represents ba b) ∧
    (∀ b, Run Buffer.Step .new xs b →
      ∃ ba, Run (ArrayStep host) (new B alloc) xs ba ∧ Represents ba b) := by
  refine ⟨fun ba hrun => hrun.simulation (R := Represents) (new_represents hB alloc) ?_,
    fun b hrun => hrun.simulation (R := fun b ba => Represents ba b) (new_represents hB alloc) ?_⟩
  · rintro ba ⟨q, r⟩ ba' b h ⟨hq, hrespond⟩
    obtain ⟨r', ba₁, b', harray, hbuffer, hrep⟩ := h.respond_eq hq
    rw [harray] at hrespond
    cases hrespond
    exact ⟨b', ⟨h.disciplined_iff.mpr hq, hbuffer⟩, hrep⟩
  · rintro b ⟨q, r⟩ b' ba h ⟨hq, hrespond⟩
    have hq' := h.disciplined_iff.mp hq
    obtain ⟨r', ba', b₁, harray, hbuffer, hrep⟩ := h.respond_eq hq'
    rw [hbuffer] at hrespond
    cases hrespond
    exact ⟨ba', ⟨hq', harray⟩, hrep⟩

/-- With nodes of two bytes: an integer and a byte are written, the integer is read, and a read of
two bytes is refused. -/
theorem buffer_refinement_example :
    ∃ (xs : List (Request × Response)) (ba : ByteArray) (b : Buffer), xs.length = 6 ∧
      Run (ArrayStep .little) (new 2 fun _ _ => 0) xs ba ∧ Run Buffer.Step .new xs b ∧
      Represents ba b := by
  have hrun : Run Buffer.Step .new [(.writeFixed (.fuint16 258), .done)] _ :=
    Run.single ⟨by decide, rfl⟩
  have hrun := hrun.snoc (l := (.write [7], .done)) ⟨by decide, rfl⟩
  have hrun := hrun.snoc (l := (.setPosition 0, .done)) ⟨by decide, rfl⟩
  have hrun := hrun.snoc (l := (.readFixed .fuint16, .value (.fuint16 258))) ⟨by decide, rfl⟩
  have hrun := hrun.snoc (l := (.read 2, .outOfRange)) ⟨by decide, rfl⟩
  have hrun := hrun.snoc (l := (.toString, .bytes [7])) ⟨by decide, rfl⟩
  obtain ⟨ba, harray, hrep⟩ :=
    (buffer_refinement (B := 2) (by decide) (fun _ _ => 0) .little _).2 _ hrun
  exact ⟨_, ba, _, rfl, harray, hrun, hrep⟩

/-- So the base size does not show. -/
theorem base_size_invisible {B B' : ℕ} (hB : 0 < B) (hB' : 0 < B') {alloc : ℕ → ℕ → UInt8}
    (alloc' : ℕ → ℕ → UInt8) {xs : List (Request × Response)}
    (hrun : Run (ArrayStep host) (new B alloc) xs ba) :
    ∃ ba', Run (ArrayStep host) (new B' alloc') xs ba' ∧ ba'.content = ba.content ∧
      ba'.position = ba.position := by
  obtain ⟨b, hbuffer, hrep⟩ := (buffer_refinement hB alloc host xs).1 ba hrun
  obtain ⟨ba', harray, hrep'⟩ := (buffer_refinement hB' alloc' host xs).2 b hbuffer
  exact ⟨ba', harray, hrep'.content.symm.trans hrep.content,
    hrep'.position.symm.trans hrep.position⟩

end Sylar.ByteArray
