import Sylar.ByteArray.Buffers

/-!
# `ByteArray` — the read at a given position

`read(buf, size, st) const` takes the offset inside the first node from `st`, but that node is
`m_cur`, whatever `st` is, and its test against `m_size - st` is one of unsigned numbers.

So it reads the memory from `start ba st` on, which is `st` if `st` lies in the node `m_cur`
(`readAt_eq`), or runs off the end of the list (`readAt_null`). The test fails to refuse an offset
behind the content, unless `size` is so large that the sum passes `2 ^ 64`. `readAtLaw_iff` says for
every state and all arguments whether the read does what it should.
-/

namespace Sylar.ByteArray

/-- The read at `st` returns the bytes of the content from there on, if there are as many as asked
for, and throws `std::out_of_range` otherwise. -/
def ReadAtLaw (ba : ByteArray) (n st : ℕ) : Prop :=
  (readAt n st).run ba =
    if st + n ≤ ba.size then .ok ((ba.content.drop st).take n) ba else .error .outOfRange ba

/-- Where the read at `st` starts: at the offset of `st`, in the node `m_cur`. -/
def start (ba : ByteArray) (st : ℕ) : ℕ :=
  ba.position / ba.baseSize * ba.baseSize + st % ba.baseSize

/-- The memory from `start ba st` on holds the same `n` bytes as that from `st` on. -/
def SameBytes (ba : ByteArray) (n st : ℕ) : Prop :=
  ba.start st + n ≤ ba.capacity ∧
    ((bytes ba.nodes).drop (ba.start st)).take n = ((bytes ba.nodes).drop st).take n

instance (ba : ByteArray) (n st : ℕ) : Decidable (SameBytes ba n st) :=
  inferInstanceAs (Decidable (_ ∧ _))

variable {ba : ByteArray} {n st : ℕ}

/-- In the node `m_cur`, the read starts where it should. -/
theorem start_eq (hnode : st / ba.baseSize = ba.position / ba.baseSize) : ba.start st = st := by
  rw [start, ← hnode, Nat.div_add_mod']

/-- A loop that is asked for more bytes than the nodes have meets the null pointer behind them. -/
theorem readLoop_null {B : ℕ} (chain : List Node) (cur position npos size : ℕ)
    (hchain : AllSize B chain) (hnpos : npos < B) (hshort : (bytes chain).length < npos + size) :
    readLoop chain cur position npos size = .error .nullNode := by
  induction chain generalizing cur position npos size with
  | nil => rfl
  | cons node rest ih =>
    obtain ⟨hnode, hrest⟩ := AllSize.cons_iff.mp hchain
    have hdata := node.data_length
    rw [bytes_cons, List.length_append] at hshort
    have hzero : size ≠ 0 := by omega
    have hcap : ¬ node.size - npos ≥ size := by omega
    -- this node is read to its end
    rw [readLoop, if_neg hzero, if_neg hcap, node.load_eq (by omega)]
    simp only [bind, Except.bind]
    rw [ih (cur + 1) (position + (node.size - npos)) 0 (size - (node.size - npos)) hrest (by omega)
      (by omega)]

/-- The nodes from `m_cur` on hold what is behind `start ba st`. -/
theorem WellFormed.bytes_from (h : WellFormed ba) :
    (bytes (ba.nodes.drop ba.cur)).drop (st % ba.baseSize) =
      (bytes ba.nodes).drop (ba.start st) := by
  rw [bytes_drop h.nodes_size h.cur_le, List.drop_drop, h.cur_eq, start]

theorem WellFormed.length_bytes_from (h : WellFormed ba) :
    (bytes (ba.nodes.drop ba.cur)).length =
      ba.capacity - ba.position / ba.baseSize * ba.baseSize := by
  rw [bytes_drop h.nodes_size h.cur_le, List.length_drop, h.length_bytes, h.cur_eq]

/-- Inside the memory, the read returns what is behind `start ba st`. -/
theorem readAt_eq (h : WellFormed ba) (hn : 0 < n) (htest : n ≤ subSize ba.size st)
    (hfit : ba.start st + n ≤ ba.capacity) :
    (readAt n st).run ba = .ok (((bytes ba.nodes).drop (ba.start st)).take n) ba := by
  have hB := h.base_pos
  have hlen := h.length_bytes_from
  rw [start] at hfit
  -- `m_cur` is not null, since there is memory behind its beginning
  have hroot : ba.nodes.drop ba.cur ≠ [] := by
    intro hnil
    rw [hnil, bytes_nil, List.length_nil] at hlen
    omega
  have hloop := readLoop_eq (ba.nodes.drop ba.cur) ba.cur st (st % ba.baseSize) n
    (h.nodes_size.drop _) hroot (Nat.mod_lt _ hB) (by omega)
  have hnot : ¬ n > subSize ba.size st := Nat.not_lt.mpr htest
  simp only [EStateM.run, readAt, hnot, if_false, hloop, h.bytes_from]

/-- Behind it, the read meets a null node. -/
theorem readAt_null (h : WellFormed ba) (hn : 0 < n) (htest : n ≤ subSize ba.size st)
    (hshort : ba.capacity < ba.start st + n) : (readAt n st).run ba = .error .nullNode ba := by
  have hlen := h.length_bytes_from
  rw [start] at hshort
  have hloop := readLoop_null (ba.nodes.drop ba.cur) ba.cur st (st % ba.baseSize) n
    (h.nodes_size.drop _) (Nat.mod_lt _ h.base_pos) (by omega)
  have hnot : ¬ n > subSize ba.size st := Nat.not_lt.mpr htest
  simp only [EStateM.run, readAt, hnot, if_false, hloop]

/-- A read of bytes that are stored is right if it starts in the node `m_cur`, or finds the same
bytes where it does start. -/
theorem readAtLaw_of_le (h : WellFormed ba) (hn : 0 < n) (hle : st + n ≤ ba.size) :
    ReadAtLaw ba n st ↔ st / ba.baseSize = ba.position / ba.baseSize ∨ SameBytes ba n st := by
  have hsize := h.size_le
  have htest : n ≤ subSize ba.size st := by
    rw [subSize_of_le (by omega)]
    omega
  -- the bytes asked for lie inside the content
  have hslice : (ba.content.drop st).take n = ((bytes ba.nodes).drop st).take n := by
    rw [content, List.drop_take, List.take_take, Nat.min_eq_left (by omega)]
  rw [ReadAtLaw, if_pos hle, hslice]
  constructor
  · -- the read either returns what is behind `start ba st` or runs off the list
    intro hrun
    by_cases hfit : ba.start st + n ≤ ba.capacity
    · rw [readAt_eq h hn htest hfit, EStateM.Result.ok.injEq] at hrun
      exact Or.inr ⟨hfit, hrun.1⟩
    · rw [readAt_null h hn htest (by omega)] at hrun
      cases hrun
  · rintro (hnode | ⟨hfit, hsame⟩)
    · rw [readAt_eq h hn htest (by rw [start_eq hnode]; omega), start_eq hnode]
    · rw [readAt_eq h hn htest hfit, hsame]

/-- A read of bytes that are not stored is refused if it starts in the content or wraps around. -/
theorem readAtLaw_of_gt (h : WellFormed ba) (hn : 0 < n) (hgt : ba.size < st + n) :
    ReadAtLaw ba n st ↔ st ≤ ba.size ∨ ba.size + 2 ^ 64 < st + n := by
  -- what the test of the source says
  have htest : n > subSize ba.size st ↔ st ≤ ba.size ∨ ba.size + 2 ^ 64 < st + n := by
    rw [subSize]
    split_ifs <;> omega
  rw [ReadAtLaw, if_neg (by omega), ← htest]
  constructor
  · -- a read that passes the test is not refused later
    intro hrun
    by_contra hpass
    by_cases hfit : ba.start st + n ≤ ba.capacity
    · rw [readAt_eq h hn (by omega) hfit] at hrun
      cases hrun
    · rw [readAt_null h hn (by omega) (by omega)] at hrun
      cases hrun
  · intro hrefused
    simp only [EStateM.run, readAt, hrefused, if_true]

/-- The read of `n` bytes at `st` does what it should exactly when: all the bytes are stored and
`st` lies in the node that holds the position, or the memory at the offset of `st` in that node
happens to hold the same bytes; or not all of them are stored and `st` does not lie behind the
content, or lies so far behind it that the unsigned test still refuses. -/
theorem readAtLaw_iff (ba : ByteArray) (n st : ℕ) (h : WellFormed ba) (hn : 0 < n) :
    ReadAtLaw ba n st ↔
      (st + n ≤ ba.size ∧
        (st / ba.baseSize = ba.position / ba.baseSize ∨ SameBytes ba n st)) ∨
      (ba.size < st + n ∧ (st ≤ ba.size ∨ ba.size + 2 ^ 64 < st + n)) := by
  by_cases hle : st + n ≤ ba.size
  · rw [readAtLaw_of_le h hn hle]
    simp [hle, Nat.not_lt.mpr hle]
  · rw [readAtLaw_of_gt h hn (Nat.lt_of_not_le hle)]
    simp [hle, Nat.lt_of_not_le hle]

/-- Two bytes at the second of three bytes, with the position in the same node. -/
theorem readAtLaw_iff_example :
    let ba : ByteArray := { new 2 (fun _ _ => 0) with
      capacity := 4, size := 3, nodes := [⟨2, [7, 8], rfl⟩, ⟨2, [9, 0], rfl⟩] }
    ReadAtLaw ba 2 1 ↔
      (1 + 2 ≤ ba.size ∧
        (1 / ba.baseSize = ba.position / ba.baseSize ∨ SameBytes ba 2 1)) ∨
      (ba.size < 1 + 2 ∧ (1 ≤ ba.size ∨ ba.size + 2 ^ 64 < 1 + 2)) :=
  readAtLaw_iff _ 2 1 (by decide) (by decide)

/-- The third of three bytes in nodes of two bytes, with the position at the beginning: the first
byte is returned. -/
theorem not_readAtLaw_next :
    let ba : ByteArray := { new 2 (fun _ _ => 0) with
      capacity := 4, size := 3, nodes := [⟨2, [7, 8], rfl⟩, ⟨2, [9, 0], rfl⟩] }
    WellFormed ba ∧ (readAt 1 2).run ba = .ok [7] ba ∧ (ba.content.drop 2).take 1 = [9] ∧
      ¬ ReadAtLaw ba 1 2 := by
  refine ⟨by decide, rfl, rfl, ?_⟩
  intro hlaw
  cases hlaw

end Sylar.ByteArray
