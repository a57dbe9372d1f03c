import Sylar.ByteArray.WellFormed

/-!
# `ByteArray` — appending and rewinding

A writer that starts on a fresh array is always at the end of the content, so that each `write`
appends (`append_eq`). `Appended` adds to `WellFormed` that there are no more nodes than the content
needs. A reader goes back to the beginning with `setPosition(0)` (`rewind_eq`). Neither changes the
selected byte order.
-/

namespace Sylar.ByteArray

open Slice

variable {ba ba' : ByteArray}

/-! ## What the operations leave alone -/

theorem endian_addCapacity (n : ℕ) (ba : ByteArray) : (addCapacity n ba).endian = ba.endian := by
  obtain ⟨added, heq, -⟩ :=
    appendNodes_eq ((n - ba.getCapacity + ba.baseSize - 1) / ba.baseSize) ba
  simp only [addCapacity, heq]
  split_ifs <;> rfl

/-- A write takes the capacity from `addCapacity` and keeps the byte order. -/
theorem write_frame {buf : List UInt8} (hbuf : buf ≠ []) (h : (write buf).run ba = .ok () ba') :
    ba'.endian = ba.endian ∧ ba'.capacity = (addCapacity buf.length ba).capacity := by
  have hendian := endian_addCapacity buf.length ba
  have hnot : ¬ buf.length ≤ 0 := Nat.not_le.mpr (List.length_pos_iff.mpr hbuf)
  simp only [EStateM.run, write, hnot, if_false] at h
  split at h
  · cases h
  · split_ifs at h <;> cases h <;> exact ⟨hendian, rfl⟩

/-- A read moves the position and `m_cur` only. -/
theorem read_frame {n : ℕ} {buf : List UInt8} (h : (read n).run ba = .ok buf ba') :
    ba'.endian = ba.endian ∧ ba'.nodes = ba.nodes ∧ ba'.baseSize = ba.baseSize ∧
      ba'.capacity = ba.capacity := by
  simp only [EStateM.run, read] at h
  split_ifs at h
  split at h
  · cases h
  · cases h
    exact ⟨rfl, rfl, rfl, rfl⟩

/-- A read that fails changes nothing. -/
theorem read_error {n : ℕ} {fault : Fault} (h : (read n).run ba = .error fault ba') : ba' = ba := by
  simp only [EStateM.run, read] at h
  split_ifs at h
  · cases h
    rfl
  · split at h <;> cases h
    rfl

/-- `setPosition` keeps the nodes. -/
theorem setPosition_frame {v : ℕ} (h : (setPosition v).run ba = .ok () ba') :
    ba'.endian = ba.endian ∧ ba'.nodes = ba.nodes ∧ ba'.baseSize = ba.baseSize ∧
      ba'.capacity = ba.capacity := by
  simp only [EStateM.run, setPosition] at h
  split_ifs at h <;> split at h <;> cases h <;> exact ⟨rfl, rfl, rfl, rfl⟩

/-- So it does when it fails. -/
theorem setPosition_error {v : ℕ} {fault : Fault} (h : (setPosition v).run ba = .error fault ba') :
    ba'.nodes = ba.nodes ∧ ba'.baseSize = ba.baseSize := by
  simp only [EStateM.run, setPosition] at h
  split_ifs at h
  · cases h
    exact ⟨rfl, rfl⟩
  all_goals
    split at h <;> cases h
    exact ⟨rfl, rfl⟩

/-! ## Appending -/

/-- The position is at the end of the content, and the capacity is the first multiple of the base
size that holds the content. -/
structure Appended (ba : ByteArray) : Prop extends WellFormed ba where
  position_eq : ba.position = ba.size
  capacity_tight : ba.capacity = ba.baseSize ∨ ba.capacity < ba.size + ba.baseSize

theorem new_appended {B : ℕ} (hB : 0 < B) (alloc : ℕ → ℕ → UInt8) : Appended (new B alloc) where
  toWellFormed := new_wellFormed hB alloc
  position_eq := rfl
  capacity_tight := Or.inl rfl

/-- Rounding a quotient up exceeds the dividend by less than the divisor. -/
private theorem ceil_mul_lt {B n : ℕ} (hB : 0 < B) (hn : 0 < n) :
    (n + B - 1) / B * B < n + B := by
  have hle := Nat.div_mul_le_self (n + B - 1) B
  omega

/-- `addCapacity n` adds no more nodes than `n` bytes behind the content need. -/
theorem capacity_addCapacity (h : WellFormed ba) {n : ℕ} (hn : 0 < n) :
    (addCapacity n ba).capacity = ba.capacity ∨
      (addCapacity n ba).capacity < ba.size + n + ba.baseSize := by
  have hsize := h.size_le
  have hcap := h.getCapacity_eq
  rw [addCapacity, if_neg hn.ne']
  by_cases hroom : ba.getCapacity ≥ n
  · simp [hroom]
  · simp only [hroom, if_false]
    obtain ⟨added, heq, -⟩ :=
      appendNodes_eq ((n - ba.getCapacity + ba.baseSize - 1) / ba.baseSize) ba
    have hceil := ceil_mul_lt h.base_pos (show 0 < n - ba.getCapacity by omega)
    rw [heq]
    right
    split_ifs <;> dsimp only <;> omega

/-- A write at the end of the content appends to it. -/
theorem append_eq (h : Appended ba) (buf : List UInt8) :
    ∃ ba', (write buf).run ba = .ok () ba' ∧ Appended ba' ∧ ba'.content = ba.content ++ buf ∧
      ba'.size = ba.size + buf.length ∧ ba'.baseSize = ba.baseSize ∧ ba'.endian = ba.endian := by
  have hend := h.position_eq
  by_cases hempty : buf = []
  · subst hempty
    exact ⟨ba, rfl, h, by simp, by simp, rfl, rfl⟩
  · have hpos : 0 < buf.length := List.length_pos_iff.mpr hempty
    obtain ⟨ba', hrun, h', hcontent, hposition, hsize, hbase⟩ :=
      write_eq h.toWellFormed buf (Or.inr (Or.inr hend))
    obtain ⟨hendian, hcapacity⟩ := write_frame hempty hrun
    have hmax : max ba.size (ba.position + buf.length) = ba.position + buf.length :=
      Nat.max_eq_right (by omega)
    refine ⟨ba', hrun, ⟨h', by omega, ?_⟩, ?_, by omega, hbase, hendian⟩
    · -- nodes were added only for bytes that did not fit
      have htight := h.capacity_tight
      rcases capacity_addCapacity h.toWellFormed hpos with hsame | hgrown
      · omega
      · omega
    · rw [hcontent, overwrite, hend, ← h.length_content, List.take_length,
        List.drop_eq_nil_of_le (by omega), List.append_nil]

/-- A multiple of `B` that exceeds `n` by less than `B`, or is `B`, is `n` if that is a multiple
too. -/
theorem eq_iff_dvd_of_tight {B c n : ℕ} (hn : 0 < n) (hc : B ∣ c) (hle : n ≤ c)
    (htight : c = B ∨ c < n + B) : c = n ↔ B ∣ n := by
  refine ⟨fun heq => heq ▸ hc, fun hdvd => ?_⟩
  have hbase := Nat.le_of_dvd hn hdvd
  -- the difference is a multiple of `B` below `B`
  have hzero := Nat.eq_zero_of_dvd_of_lt (Nat.dvd_sub hc hdvd) (by omega)
  omega

theorem WellFormed.dvd_capacity (h : WellFormed ba) : ba.baseSize ∣ ba.capacity :=
  h.capacity_eq ▸ Nat.dvd_mul_left _ _

/-- The content ends the last node exactly when the base size divides its length. -/
theorem Appended.capacity_eq_size_iff (h : Appended ba) (hsize : 0 < ba.size) :
    ba.capacity = ba.size ↔ ba.baseSize ∣ ba.size :=
  eq_iff_dvd_of_tight hsize h.dvd_capacity h.size_le h.capacity_tight

/-! ## Rewinding -/

/-- `setPosition(0)` goes back to the beginning of the content. -/
theorem rewind_eq (h : WellFormed ba) :
    ∃ ba', (setPosition 0).run ba = .ok () ba' ∧ WellFormed ba' ∧ ba'.content = ba.content ∧
      ba'.position = 0 ∧ ba'.size = ba.size ∧ ba'.capacity = ba.capacity ∧
      ba'.endian = ba.endian ∧ ba'.baseSize = ba.baseSize := by
  -- position `0` is below the capacity even if nothing has been written
  have hcap : 0 < ba.capacity := by
    rw [h.capacity_eq]
    exact Nat.mul_pos (List.length_pos_iff.mpr h.root) h.base_pos
  obtain ⟨ba', hrun, h', hnodes, hposition, hsize, hbase⟩ := setPosition_eq h hcap
  obtain ⟨hendian, -, -, hcapacity⟩ := setPosition_frame hrun
  rw [Nat.max_eq_left (Nat.zero_le _)] at hsize
  exact ⟨ba', hrun, h', by rw [content, hnodes, hsize, content], hposition, hsize, hcapacity,
    hendian, hbase⟩

end Sylar.ByteArray
