import Sylar.ByteArray.Append
import Mathlib.Data.List.SplitLengths

/-!
# `ByteArray` — stream round trip

Byte strings written one after another into a fresh array and read back from position `0` come
out as consecutive slices of their concatenation, however the reads are cut
(`writeThenRead_run`). The two halves are `forM_write_eq`, a writer that appends at the end of the
content, and `mapM_read_eq`, a reader that stays inside it.
-/

namespace Sylar.ByteArray

/-- A writer's calls, a return to the beginning, and a reader's calls. -/
def writeThenRead (writes : List (List UInt8)) (reads : List ℕ) : Op (List (List UInt8)) := do
  forM writes write
  setPosition 0
  reads.mapM read

variable {ba : ByteArray}

/-- Writes at the end of the content append to it. -/
theorem forM_write_eq (h : Appended ba) (writes : List (List UInt8)) :
    ∃ ba', (forM writes write).run ba = .ok () ba' ∧ Appended ba' ∧
      ba'.content = ba.content ++ writes.flatten ∧ ba'.size = ba.size + writes.flatten.length := by
  induction writes generalizing ba with
  | nil => exact ⟨ba, rfl, h, by simp, by simp⟩
  | cons buf writes ih =>
    obtain ⟨ba₁, hrun₁, h₁, hcontent₁, hsize₁, -⟩ := append_eq h buf
    obtain ⟨ba₂, hrun₂, h₂, hcontent₂, hsize₂⟩ := ih h₁
    refine ⟨ba₂, ?_, h₂, ?_, ?_⟩
    · rw [List.forM_cons, EStateM.run_bind, hrun₁]
      exact hrun₂
    · rw [hcontent₂, hcontent₁, List.flatten_cons, List.append_assoc]
    · rw [List.flatten_cons, List.length_append]
      omega

/-- Reads of positive sizes inside the content return consecutive slices of it. -/
theorem mapM_read_eq (h : WellFormed ba) (reads : List ℕ) (hpos : ∀ n ∈ reads, 0 < n)
    (hsum : ba.position + reads.sum ≤ ba.size) :
    ∃ ba', (reads.mapM read).run ba =
        .ok (reads.splitLengths (ba.content.drop ba.position)) ba' ∧ WellFormed ba' ∧
      ba'.position = ba.position + reads.sum ∧ ba'.size = ba.size := by
  induction reads generalizing ba with
  | nil => exact ⟨ba, by simp [pure, EStateM.pure, EStateM.run], h, by simp, rfl⟩
  | cons n reads ih =>
    rw [List.sum_cons] at hsum ⊢
    obtain ⟨ba₁, hrun₁, h₁, hcontent₁, hposition₁, hsize₁, -⟩ :=
      read_eq h (hpos n (by simp)) (by omega)
    -- the first read leaves the content alone, the others start behind it
    obtain ⟨ba₂, hrun₂, h₂, hposition₂, hsize₂⟩ :=
      ih h₁ (fun m hm => hpos m (by simp [hm])) (by omega)
    refine ⟨ba₂, ?_, h₂, by omega, by omega⟩
    rw [List.mapM_cons, EStateM.run_bind, hrun₁]
    simp only [EStateM.run_bind, hrun₂]
    rw [List.splitLengths_cons, List.drop_drop, hcontent₁, hposition₁]
    rfl

/-- Stream round trip: on a fresh array of any base size, reads of positive sizes that do not
exceed what was written return consecutive slices of the concatenated writes, whatever the cuts
between writes, reads and nodes; no call fails. -/
theorem writeThenRead_run (B : ℕ) (alloc : ℕ → ℕ → UInt8) (writes : List (List UInt8))
    (reads : List ℕ) (hB : 0 < B) (hpos : ∀ n ∈ reads, 0 < n)
    (hsum : reads.sum ≤ writes.flatten.length) :
    ∃ ba, (writeThenRead writes reads).run (new B alloc) =
        .ok (reads.splitLengths writes.flatten) ba ∧
      ba.getSize = writes.flatten.length ∧ ba.getPosition = reads.sum := by
  obtain ⟨ba₁, hrun₁, h₁, hcontent₁, hsize₁⟩ := forM_write_eq (new_appended hB alloc) writes
  obtain ⟨ba₂, hrun₂, h₂, hcontent₂, hposition₂, hsize₂, -⟩ := rewind_eq h₁.toWellFormed
  have hempty : (new B alloc).content = [] := rfl
  have hzero : (new B alloc).size = 0 := rfl
  rw [hcontent₁, hempty, List.nil_append] at hcontent₂
  obtain ⟨ba₃, hrun₃, -, hposition₃, hsize₃⟩ := mapM_read_eq h₂ reads hpos (by omega)
  rw [hposition₂, List.drop_zero, hcontent₂] at hrun₃
  refine ⟨ba₃, ?_, ?_, ?_⟩
  · rw [writeThenRead, EStateM.run_bind, hrun₁]
    simp only [EStateM.run_bind, hrun₂, hrun₃]
  · rw [getSize]
    omega
  · rw [getPosition]
    omega

/-- Four bytes written in two strings and read back across the boundary of two-byte nodes. -/
theorem writeThenRead_run_example :
    ∃ ba, (writeThenRead [[1, 2, 3], [], [4]] [1, 3]).run (new 2 fun _ _ => 0) =
        .ok ([1, 3].splitLengths [1, 2, 3, 4]) ba ∧
      ba.getSize = 4 ∧ ba.getPosition = 4 :=
  writeThenRead_run 2 (fun _ _ => 0) [[1, 2, 3], [], [4]] [1, 3] (by decide) (by decide)
    (by decide)

end Sylar.ByteArray
