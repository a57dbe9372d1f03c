import Sylar.ByteArray.WellFormed
import Sylar.Foundation.Run

/-!
# `ByteArray` — writes at an arbitrary position

`OverwriteLaw ba d` says what `write d` should do at position `p = m_position`: replace the bytes
`[p, p + |d|)` of the content by `d`, extending it when the old end is passed, and move the
position to `p + |d|`.

`addCapacity` measures the free space from `m_size` and, when there is none, moves `m_cur` to the
first new node. That is where the position is only if it sits at the end of the content. Hence on
the states reached by calls that respect `WriteFits`, the law holds for all strings of a length
`n > 0` exactly when `CursorFits` does (`overwriteLaw_iff`): there is free space behind the
content, or the position is at its end.
-/

namespace Sylar.ByteArray

open Slice Transition

/-- `write d` overwrites the content at the position. -/
def OverwriteLaw (ba : ByteArray) (d : List UInt8) : Prop :=
  ∃ ba', (write d).run ba = .ok () ba' ∧
    ba'.content = overwrite ba.content ba.position d ∧
    ba'.getPosition = ba.position + d.length ∧
    ba'.getSize = max ba.size (ba.position + d.length)

/-- Calls made by a user of the array. -/
inductive Call
  | write (buf : List UInt8)
  | read (n : ℕ)
  | setPosition (v : ℕ)
  | clear

namespace Call

/-- The operation a call performs, without its result. -/
def run : Call → Op Unit
  | .write buf => ByteArray.write buf
  | .read n => do
    let _ ← ByteArray.read n
    pure ()
  | .setPosition v => ByteArray.setPosition v
  | .clear => ByteArray.clear

/-- Reads ask for at least one byte, positions are set below the capacity. -/
def Allowed (ba : ByteArray) : Call → Prop
  | .read n => 0 < n
  | .setPosition v => v < ba.capacity
  | .write _ | .clear => True

end Call

/-- The state a call leads to: it returns there, or throws `std::out_of_range` there, which the
user catches. The other faults end the run. -/
def Call.next (call : Call) (ba : ByteArray) : Option ByteArray :=
  match call.run.run ba with
  | .ok () ba' => some ba'
  | .error .outOfRange ba' => some ba'
  | .error _ _ => none

/-- One allowed call. -/
def Step (ba : ByteArray) (call : Call) (ba' : ByteArray) : Prop :=
  call.Allowed ba ∧ call.next ba = some ba'

/-- A write of a non-empty string is made only where the cursor fits. -/
def WriteFits (ba : ByteArray) : Call → Prop
  | .write buf => buf = [] ∨ CursorFits ba
  | .read _ | .setPosition _ | .clear => True

variable {ba ba' : ByteArray}

/-- A call that respects `WriteFits` keeps the state well formed. -/
theorem WellFormed.step {call : Call} (h : WellFormed ba)
    (hst : Guarded WriteFits Step ba call ba') : WellFormed ba' := by
  obtain ⟨hfits, hallowed, hnext⟩ := hst
  cases call with
  | write buf =>
    obtain ⟨ba₁, hrun, h₁, -⟩ := write_eq h buf hfits
    simp only [Call.next, Call.run, hrun, Option.some_inj] at hnext
    exact hnext ▸ h₁
  | read n =>
    by_cases havail : ba.position + n ≤ ba.size
    · obtain ⟨ba₁, hrun, h₁, -⟩ := read_eq h hallowed havail
      simp only [Call.next, Call.run, EStateM.run_bind, hrun, EStateM.run_pure,
        Option.some_inj] at hnext
      exact hnext ▸ h₁
    · have hrun := read_eq_outOfRange h (Nat.not_le.mp havail)
      simp only [Call.next, Call.run, EStateM.run_bind, hrun, Option.some_inj] at hnext
      exact hnext ▸ h
  | setPosition v =>
    obtain ⟨ba₁, hrun, h₁, -⟩ := setPosition_eq h hallowed
    simp only [Call.next, Call.run, hrun, Option.some_inj] at hnext
    exact hnext ▸ h₁
  | clear =>
    obtain ⟨ba₁, hrun, h₁, -⟩ := clear_eq h
    simp only [Call.next, Call.run, hrun, Option.some_inj] at hnext
    exact hnext ▸ h₁

/-- Every state reached by calls that respect `WriteFits` is well formed. -/
theorem wellFormed_of_run {B : ℕ} {alloc : ℕ → ℕ → UInt8} {calls : List Call} (hB : 0 < B)
    (hrun : Run (Guarded WriteFits Step) (new B alloc) calls ba) : WellFormed ba :=
  hrun.invariant (new_wellFormed hB alloc) fun _ _ _ h hst => h.step hst

/-- When the array is full, a write of a non-empty string that returns has only touched memory
behind the old nodes: `addCapacity` has moved `m_cur` there. -/
theorem write_of_full (h : WellFormed ba) (hfull : ba.size = ba.capacity) {buf : List UInt8}
    (hbuf : 0 < buf.length) (hrun : (write buf).run ba = .ok () ba') :
    ∃ chain, ba'.nodes = ba.nodes ++ chain ∧ ba.size ≤ ba'.size := by
  have hcap : ba.getCapacity = 0 := by
    rw [h.getCapacity_eq]
    omega
  have hnot : ¬ buf.length ≤ 0 := by omega
  -- `_cap` is `0`: the loop of `write` runs on the added nodes only
  obtain ⟨added, heq, -⟩ := appendNodes_eq ((buf.length - 0 + ba.baseSize - 1) / ba.baseSize) ba
  simp only [EStateM.run, write, hnot, if_false, addCapacity, hbuf.ne', hcap, if_true, heq,
    List.drop_left, List.take_left] at hrun
  cases hloop : writeLoop added ba.nodes.length ba.position (ba.position % ba.baseSize) buf with
  | error fault =>
    rw [hloop] at hrun
    cases hrun
  | ok result =>
    obtain ⟨chain, cur, position⟩ := result
    rw [hloop] at hrun
    cases hrun
    refine ⟨chain, ?_⟩
    split_ifs with hgt
    · -- `m_size` is raised to the position or kept
      exact ⟨rfl, hgt.le⟩
    · exact ⟨rfl, Nat.le_refl _⟩

/-- When the array is full and the position is not at its end, the law fails for some string of
every positive length: the byte at the position stays what it was. -/
theorem exists_not_overwriteLaw (h : WellFormed ba) (hcur : ¬ CursorFits ba) {n : ℕ}
    (hn : 0 < n) : ∃ d : List UInt8, d.length = n ∧ ¬ OverwriteLaw ba d := by
  have hsize := h.size_le
  have hposition := h.position_le
  have hfull : ba.size = ba.capacity := by
    by_contra hne
    exact hcur (Or.inl (by omega))
  have hlt : ba.position < ba.size := by
    by_contra hge
    exact hcur (Or.inr (by omega))
  have hold : ba.position < ba.content.length := by
    rw [h.length_content]
    exact hlt
  -- any byte other than the one at the position will do
  refine ⟨List.replicate n (ba.content[ba.position] + 1), List.length_replicate, ?_⟩
  rintro ⟨ba', hrun, hcontent, -⟩
  obtain ⟨chain, hnodes, hgrown⟩ :=
    write_of_full h hfull (by rw [List.length_replicate]; exact hn) hrun
  -- the old nodes come first and are what they were
  have hkept : ba'.content[ba.position]? = ba.content[ba.position]? := by
    rw [content, content, hnodes, bytes_append, List.getElem?_take_of_lt (by omega),
      List.getElem?_take_of_lt hlt,
      List.getElem?_append_left (by rw [h.length_bytes]; omega)]
  -- the law wants the first byte of the string there
  have hwritten : ba'.content[ba.position]? = some (ba.content[ba.position] + 1) := by
    have hlen : (ba.content.take ba.position).length = ba.position := by
      rw [List.length_take]
      omega
    rw [hcontent, overwrite, List.append_assoc, List.getElem?_append_right (by omega), hlen,
      Nat.sub_self, List.getElem?_append_left (by rw [List.length_replicate]; exact hn),
      List.getElem?_replicate_of_lt hn]
  rw [hkept, List.getElem?_eq_getElem hold, Option.some_inj] at hwritten
  simp at hwritten

/-- In every state reached by calls that respect `WriteFits`, `write` obeys the overwrite law on
all strings of length `n` exactly when `n = 0`, or there is free space behind the content, or the
position is at the end of the content. -/
theorem overwriteLaw_iff (B : ℕ) (alloc : ℕ → ℕ → UInt8) (calls : List Call) (ba : ByteArray)
    (hB : 0 < B) (hrun : Run (Guarded WriteFits Step) (new B alloc) calls ba) (n : ℕ) :
    (∀ d : List UInt8, d.length = n → OverwriteLaw ba d) ↔ n = 0 ∨ CursorFits ba := by
  have h := wellFormed_of_run hB hrun
  constructor
  · intro hlaw
    by_contra hcond
    rw [not_or] at hcond
    obtain ⟨d, hd, hnot⟩ := exists_not_overwriteLaw h hcond.2 (Nat.pos_of_ne_zero hcond.1)
    exact hnot (hlaw d hd)
  · rintro hcond d rfl
    obtain ⟨ba', hrun', -, hcontent, hposition, hsize, -⟩ :=
      write_eq h d (hcond.imp_left List.length_eq_zero_iff.mp)
    exact ⟨ba', hrun', hcontent, hposition, hsize⟩

/-- Three bytes in two-byte nodes leave free space for any write. -/
theorem overwriteLaw_iff_example :
    ∃ ba, Run (Guarded WriteFits Step) (new 2 fun _ _ => 0) [.write [1, 2, 3]] ba ∧
      ((∀ d : List UInt8, d.length = 5 → OverwriteLaw ba d) ↔ 5 = 0 ∨ CursorFits ba) := by
  have hrun : Run (Guarded WriteFits Step) (new 2 fun _ _ => 0) [.write [1, 2, 3]] _ :=
    Run.single ⟨Or.inr (by decide), trivial, rfl⟩
  exact ⟨_, hrun, overwriteLaw_iff 2 (fun _ _ => 0) _ _ (by decide) hrun 5⟩

/-- A full array of one four-byte node. -/
def fullArray (position cur : ℕ) : ByteArray where
  baseSize := 4
  position := position
  capacity := 4
  size := 4
  endian := .big
  nodes := [⟨4, [1, 2, 3, 4], rfl⟩]
  cur := cur
  alloc := fun _ _ => 0

/-- The law fails when a full array is overwritten: with four-byte nodes, after writing four bytes
and returning to position `0`, a one-byte write goes to a new node behind the content. -/
theorem not_overwriteLaw_full :
    Run Step (new 4 fun _ _ => 0) [.write [1, 2, 3, 4], .setPosition 0] (fullArray 0 0) ∧
      ¬ OverwriteLaw (fullArray 0 0) [9] := by
  have hwrite : Step (new 4 fun _ _ => 0) (.write [1, 2, 3, 4]) (fullArray 4 1) :=
    ⟨trivial, rfl⟩
  have hseek : Step (fullArray 4 1) (.setPosition 0) (fullArray 0 0) :=
    ⟨(by decide : 0 < 4), rfl⟩
  refine ⟨(Run.single hwrite).snoc hseek, ?_⟩
  rintro ⟨ba', hrun, hcontent, -⟩
  cases hrun
  revert hcontent
  decide

end Sylar.ByteArray
