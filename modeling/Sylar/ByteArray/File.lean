import Sylar.ByteArray.Buffers

/-!
# `ByteArray` — files

Model of `writeToFile` and `readFromFile`. A file is the list of its bytes; the streams accept and
return all bytes.

`writeToFile` writes one chunk a node. Its length is the base size, or what is left if that is less,
minus the offset in the node: right if the position is at the beginning of a node, or at least as
many bytes are left as a node holds. Otherwise the offset is taken off what is left, and the loop
runs into a negative length or off the end of the list (`writeToFileLoop_error`). The offset is an
`int`, which does not hold those from `2 ^ 31` on. `fileLaw_iff` says exactly which states are
written as they should be. What is written can always be read back (`readBack_eq`).

Sizes of type `int64_t` are integers: they count allocated memory. The offset `diff` is taken
modulo `2 ^ 32`.
-/

namespace Sylar.ByteArray

/-! ## Model -/

/-- Ways in which `writeToFile` does not return. -/
inductive FileFault
  | negative (len : ℤ)
  | node (fault : Fault)
  deriving DecidableEq, Repr

/-- `ofs.write(data + diff, len)`; the result is what the file receives. -/
def Node.dump (node : Node) (diff len : ℤ) : Except FileFault (List UInt8) :=
  if len < 0 then .error (.negative len)
  else if diff < 0 then .error (.node .overrun)
  else (node.load diff.toNat len.toNat).mapError .node

/-- The loop of `writeToFile` on an array of base size `B`. The list holds the nodes from `cur`
on. -/
def writeToFileLoop (B : ℕ) : List Node → ℤ → ℕ → Except FileFault (List UInt8)
  | [], read_size, _ => if read_size > 0 then .error (.node .nullNode) else .ok []
  | node :: rest, read_size, pos =>
    if read_size > 0 then do
      -- `int diff = pos % m_baseSize`
      let diff := (Int32.ofNat (pos % B)).toInt
      let len := (if read_size > B then (B : ℤ) else read_size) - diff
      let data ← node.dump diff len
      let file ← writeToFileLoop B rest (read_size - len) (pos + len.toNat)
      return data ++ file
    else .ok []

/-- `ByteArray::writeToFile(name)`; the result is what the file holds, or `none` if it could not be
opened. -/
def writeToFile (opened : Bool) (ba : ByteArray) : Except FileFault (Option (List UInt8)) :=
  if ¬ opened then .ok none
  else some <$> writeToFileLoop ba.baseSize (ba.nodes.drop ba.cur) ba.getReadSize ba.position

/-- The loop of `readFromFile`, for as many rounds as given, when the stream has `rest` to return;
`none` if it goes on after these. The stream is at its end when a read finds fewer bytes than it
asks for. -/
def readFromFileLoop : ℕ → List UInt8 → Op (Option Unit)
  | 0, _ => pure none
  | rounds + 1, rest => do
    let ba ← get
    write (rest.take ba.baseSize)
    -- `ifs.eof()`
    if rest.length < ba.baseSize then return some ()
    else readFromFileLoop rounds (rest.drop ba.baseSize)

/-- `ByteArray::readFromFile(name)` on a file with this content, or on one that cannot be opened;
`none` if the loop goes on after the rounds given. -/
def readFromFile (rounds : ℕ) : Option (List UInt8) → Op (Option Bool)
  | none => pure (some false)
  | some file => do
    let done ← readFromFileLoop rounds file
    return done.map fun _ => true

/-- A file is read into an array and looked at from the beginning. -/
def readBack (rounds : ℕ) (file : List UInt8) : Op (Option (List UInt8)) := do
  let done ← readFromFile rounds (some file)
  if done = some true then
    setPosition 0
    let str ← toString
    return some str
  else return none

/-- `writeToFile` leaves in the file what `toString` returns, and this comes out of a fresh array
of any base size that the file is read into. -/
def FileLaw (ba : ByteArray) : Prop :=
  ∃ file, writeToFile true ba = .ok (some file) ∧ toString.run ba = .ok file ba ∧
    ∀ (B : ℕ) (alloc : ℕ → ℕ → UInt8), 0 < B →
      ∃ rounds ba', (readBack rounds file).run (new B alloc) = .ok (some file) ba'

/-- Nothing is left to read, or the position is at the beginning of a node, or its offset there is
an `int` and at least as many bytes are left as a node holds. -/
def Aligned (ba : ByteArray) : Prop :=
  ba.position = ba.size ∨ ba.position % ba.baseSize = 0 ∨
    ba.position % ba.baseSize < 2 ^ 31 ∧ ba.baseSize ≤ ba.size - ba.position

instance (ba : ByteArray) : Decidable (Aligned ba) :=
  inferInstanceAs (Decidable (_ ∨ _ ∨ _))

/-! ## Reading a file -/

variable {ba : ByteArray}

/-- Enough rounds append the file to the content. -/
theorem readFromFileLoop_eq (h : Appended ba) (rounds : ℕ) (rest : List UInt8)
    (hrounds : rest.length < rounds * ba.baseSize) :
    ∃ ba', (readFromFileLoop rounds rest).run ba = .ok (some ()) ba' ∧ Appended ba' ∧
      ba'.content = ba.content ++ rest := by
  induction rounds generalizing ba rest with
  | zero => simp at hrounds
  | succ rounds ih =>
    obtain ⟨ba₁, hrun₁, h₁, hcontent₁, -, hbase₁, -⟩ := append_eq h (rest.take ba.baseSize)
    rw [Nat.succ_mul] at hrounds
    by_cases hlast : rest.length < ba.baseSize
    · refine ⟨ba₁, ?_, h₁, by rw [hcontent₁, List.take_of_length_le hlast.le]⟩
      simp only [readFromFileLoop, EStateM.run_bind, EStateM.run_get, hrun₁, hlast, if_true,
        EStateM.run_pure]
    · -- a whole chunk, which leaves the stream before its end
      obtain ⟨ba₂, hrun₂, h₂, hcontent₂⟩ := ih h₁ (rest.drop ba.baseSize)
        (by rw [List.length_drop, hbase₁]; omega)
      refine ⟨ba₂, ?_, h₂, ?_⟩
      · simp only [readFromFileLoop, EStateM.run_bind, EStateM.run_get, hrun₁, hlast, if_false,
          hrun₂]
      · rw [hcontent₂, hcontent₁, List.append_assoc, List.take_append_drop]

/-- A file that is read into a fresh array of any base size comes out of it. -/
theorem readBack_eq (file : List UInt8) {B : ℕ} (alloc : ℕ → ℕ → UInt8) (hB : 0 < B) :
    ∃ rounds ba', (readBack rounds file).run (new B alloc) = .ok (some file) ba' := by
  have hrounds : file.length < (file.length + 1) * B := by
    have := Nat.mul_le_mul_left (file.length + 1) hB
    omega
  obtain ⟨ba₁, hrun₁, h₁, hcontent₁⟩ :=
    readFromFileLoop_eq (new_appended hB alloc) (file.length + 1) file hrounds
  obtain ⟨ba₂, hrun₂, h₂, hcontent₂, hposition₂, -⟩ := rewind_eq h₁.toWellFormed
  have hempty : (new B alloc).content = [] := rfl
  refine ⟨file.length + 1, ba₂, ?_⟩
  simp only [readBack, readFromFile, EStateM.run_bind, hrun₁, EStateM.run_pure, Option.map_some,
    if_true, hrun₂, toString_eq h₂]
  rw [hposition₂, List.drop_zero, hcontent₂, hcontent₁, hempty, List.nil_append]

/-! ## Writing a file -/

theorem writeToFile_eq_ok {file : List UInt8} : writeToFile true ba = .ok (some file) ↔
    writeToFileLoop ba.baseSize (ba.nodes.drop ba.cur) ba.getReadSize ba.position = .ok file := by
  rw [writeToFile, if_neg (by decide)]
  cases writeToFileLoop ba.baseSize (ba.nodes.drop ba.cur) ba.getReadSize ba.position with
  | error fault => exact ⟨fun h => (by cases h), fun h => (by cases h)⟩
  | ok file' => exact ⟨fun h => (by cases h; rfl), fun h => (by cases h; rfl)⟩

theorem toInt_diff {n : ℕ} (h : n < 2 ^ 31) : (Int32.ofNat n).toInt = n := by
  rw [Int32.toInt_ofNat']
  exact Int.bmod_eq_of_le (by simp only [Int32.size]; omega) (by simp only [Int32.size]; omega)

/-- An offset that is no `int` becomes negative, or loses its upper bits. -/
theorem toInt_diff_lt {n : ℕ} (h : 2 ^ 31 ≤ n) :
    (Int32.ofNat n).toInt < n ∧ (n < 2 ^ 32 → (Int32.ofNat n).toInt < 0) := by
  rw [Int32.toInt_ofNat', Int.bmod_def]
  simp only [Int32.size]
  split_ifs <;> omega

theorem Node.dump_eq (node : Node) {diff len : ℕ} (h : diff + len ≤ node.size) :
    node.dump diff len = .ok ((node.data.drop diff).take len) := by
  rw [Node.dump, if_neg (by omega), if_neg (by omega), Int.toNat_natCast, Int.toNat_natCast,
    node.load_eq h]
  rfl

/-- One round of the loop. -/
theorem writeToFileLoop_cons {B : ℕ} {node : Node} {rest : List Node} {left pos : ℕ}
    (hleft : 0 < left) {diff : ℤ} (hdiff : (Int32.ofNat (pos % B)).toInt = diff) :
    writeToFileLoop B (node :: rest) left pos = (do
      let data ← node.dump diff (((min left B : ℕ) : ℤ) - diff)
      let file ← writeToFileLoop B rest (left - (((min left B : ℕ) : ℤ) - diff))
        (pos + (((min left B : ℕ) : ℤ) - diff).toNat)
      return data ++ file) := by
  have hmin : (if (left : ℤ) > B then (B : ℤ) else left) = ((min left B : ℕ) : ℤ) := by
    split_ifs <;> omega
  rw [writeToFileLoop, if_pos (by omega), hdiff, hmin]

/-- With nothing left, nothing is written. -/
theorem writeToFileLoop_zero (B : ℕ) (chain : List Node) (pos : ℕ) :
    writeToFileLoop B chain 0 pos = .ok [] := by
  cases chain <;> rw [writeToFileLoop, if_neg (by omega)]

/-- The loop writes what is left, from a position that is at the beginning of a node, or whose
offset is an `int` while as many bytes are left as a node holds. -/
theorem writeToFileLoop_eq {B : ℕ} (chain : List Node) (left pos : ℕ) (hchain : AllSize B chain)
    (hB : 0 < B) (hfit : left = 0 ∨ pos % B + left ≤ (bytes chain).length)
    (haligned : left = 0 ∨ pos % B = 0 ∨ pos % B < 2 ^ 31 ∧ B ≤ left) :
    writeToFileLoop B chain left pos = .ok (((bytes chain).drop (pos % B)).take left) := by
  induction chain generalizing left pos with
  | nil =>
    obtain rfl : left = 0 := by
      simp only [bytes_nil, List.length_nil] at hfit
      omega
    rw [List.take_zero]
    exact writeToFileLoop_zero B [] pos
  | cons node rest ih =>
    obtain ⟨hnode, hrest⟩ := AllSize.cons_iff.mp hchain
    have hdata := node.data_length
    have hlt := Nat.mod_lt pos hB
    by_cases hzero : left = 0
    · rw [hzero, List.take_zero]
      exact writeToFileLoop_zero B _ pos
    · -- the chunk ends with the node or with what is left
      obtain ⟨len, hlen⟩ : ∃ len, min left B = pos % B + len := Nat.exists_eq_add_of_le (by omega)
      have hfit' := hfit.resolve_left hzero
      rw [bytes_cons, List.length_append] at hfit'
      have hcut : ((min left B : ℕ) : ℤ) - ((pos % B : ℕ) : ℤ) = (len : ℤ) := by omega
      have hleft : (left : ℤ) - (len : ℤ) = ((left - len : ℕ) : ℤ) := by omega
      -- either the chunk ends with the node, or nothing is left behind it
      have hend : pos % B + len = B ∨ left = len := by omega
      have hstart : left = len ∨ (pos + len) % B = 0 := by
        refine hend.symm.imp_right fun hfull => ?_
        rw [← Nat.mod_add_mod, hfull, Nat.mod_self]
      have hloop := ih (left - len) (pos + len) hrest (by omega) (by omega)
      rw [writeToFileLoop_cons (Nat.pos_of_ne_zero hzero) (toInt_diff (by omega)), hcut, hleft,
        Int.toNat_natCast, node.dump_eq (by omega), hloop]
      simp only [bind, Except.bind, pure, Except.pure]
      rw [bytes_cons, List.drop_append_of_le_length (by omega)]
      rcases hend with hfull | hall
      · -- the two parts meet at the boundary between the nodes
        have hmod : (pos + len) % B = 0 := by rw [← Nat.mod_add_mod, hfull, Nat.mod_self]
        have hlast : (node.data.drop (pos % B)).length = len := by
          rw [List.length_drop]
          omega
        have hwhole : ∀ k, len ≤ k → (node.data.drop (pos % B)).take k = node.data.drop (pos % B) :=
          fun k hk => List.take_of_length_le (by omega)
        rw [hmod, List.drop_zero, List.take_append, hlast, hwhole len (Nat.le_refl _),
          hwhole left (by omega)]
      · rw [hall, Nat.sub_self, List.take_zero, List.append_nil,
          List.take_append_of_le_length (by rw [List.length_drop]; omega)]

/-- A state that is aligned is written as it should be. -/
theorem fileLaw_of_aligned (h : WellFormed ba) (haligned : Aligned ba) : FileLaw ba := by
  have hle := h.position_le
  have hsize := h.size_le
  have hoff := Nat.div_add_mod' ba.position ba.baseSize
  have hdrop := bytes_drop h.nodes_size h.cur_le
  have hlen : (bytes (ba.nodes.drop ba.cur)).length =
      ba.capacity - ba.position / ba.baseSize * ba.baseSize := by
    rw [hdrop, List.length_drop, h.length_bytes, h.cur_eq]
  have hloop := writeToFileLoop_eq (ba.nodes.drop ba.cur) (ba.size - ba.position) ba.position
    (h.nodes_size.drop _) h.base_pos (by omega) (by rw [Aligned] at haligned; omega)
  -- the bytes behind the position, up to the end of the content
  have hslice : ((bytes (ba.nodes.drop ba.cur)).drop (ba.position % ba.baseSize)).take
      (ba.size - ba.position) = ba.content.drop ba.position := by
    rw [hdrop, List.drop_drop, h.cur_eq, hoff, content, List.drop_take]
  rw [hslice] at hloop
  exact ⟨ba.content.drop ba.position, writeToFile_eq_ok.mpr (by rw [h.getReadSize_eq, hloop]),
    toString_eq h, fun B alloc hB => readBack_eq _ alloc hB⟩

/-- Where less is left than a node holds, and the position is not at the beginning of a node, the
loop does not return. Nor does it where the offset becomes a negative `int`. -/
theorem writeToFileLoop_error {B : ℕ} (chain : List Node) (left pos : ℕ) (hchain : AllSize B chain)
    (hB : 0 < B) (hint : B ≤ 2 ^ 32) (hleft : 0 < left) (hoff : 0 < pos % B)
    (hbad : 2 ^ 31 ≤ pos % B ∨ left < B) :
    ∃ fault, writeToFileLoop B chain left pos = .error fault := by
  induction chain generalizing left pos with
  | nil => exact ⟨_, by rw [writeToFileLoop, if_pos (by omega)]⟩
  | cons node rest ih =>
    obtain ⟨hnode, hrest⟩ := AllSize.cons_iff.mp hchain
    have hlt := Nat.mod_lt pos hB
    by_cases hsmall : pos % B < 2 ^ 31
    · have hmin : min left B = left := by omega
      rw [writeToFileLoop_cons hleft (toInt_diff hsmall), hmin]
      by_cases hneg : left < pos % B
      · -- less is left than the offset, and the length is negative
        exact ⟨_, by rw [Node.dump, if_pos (by omega)]; rfl⟩
      · -- what is left and the offset change places
        obtain ⟨len, hlen⟩ := Nat.exists_eq_add_of_le (Nat.not_lt.mp hneg)
        have hnext : (pos + len) % B = left := by
          rw [← Nat.mod_add_mod, ← hlen, Nat.mod_eq_of_lt (by omega)]
        obtain ⟨fault, hloop⟩ := ih (pos % B) (pos + len) hrest hoff (by omega) (by omega)
        have hcut : (left : ℤ) - ((pos % B : ℕ) : ℤ) = (len : ℤ) := by omega
        have hleft' : (left : ℤ) - (len : ℤ) = ((pos % B : ℕ) : ℤ) := by omega
        rw [hcut, hleft', Int.toNat_natCast, node.dump_eq (by omega), hloop]
        exact ⟨fault, rfl⟩
    · -- `data + diff` lies before the node
      have hdiff := (toInt_diff_lt (Nat.not_lt.mp hsmall)).2 (by omega)
      rw [writeToFileLoop_cons hleft rfl, Node.dump, if_neg (by omega), if_pos hdiff]
      exact ⟨_, rfl⟩

/-! ## Offsets that are no `int` -/

/-- An array with the same sizes and the same position. -/
structure SameShape (ba ba' : ByteArray) : Prop where
  baseSize : ba'.baseSize = ba.baseSize
  position : ba'.position = ba.position
  size : ba'.size = ba.size
  capacity : ba'.capacity = ba.capacity

theorem Node.dump_ok {node : Node} {diff len : ℤ} {data : List UInt8}
    (h : node.dump diff len = .ok data) :
    0 ≤ diff ∧ 0 ≤ len ∧ data = (node.data.drop diff.toNat).take len.toNat := by
  rw [Node.dump, Node.load] at h
  split_ifs at h with hlen hdiff hfit
  · cases h
    exact ⟨by omega, by omega, rfl⟩
  · cases h

/-- A loop over nodes of zeros writes zeros. -/
theorem writeToFileLoop_zeros {B : ℕ} (chain : List Node) (read_size : ℤ) (pos : ℕ)
    (hzero : ∀ node ∈ chain, ∀ b ∈ node.data, b = 0) {file : List UInt8}
    (hloop : writeToFileLoop B chain read_size pos = .ok file) : ∀ b ∈ file, b = 0 := by
  induction chain generalizing read_size pos file with
  | nil =>
    rw [writeToFileLoop] at hloop
    split_ifs at hloop
    cases hloop
    simp
  | cons node rest ih =>
    rw [List.forall_mem_cons] at hzero
    rw [writeToFileLoop] at hloop
    by_cases hread : read_size > 0
    · rw [if_pos hread] at hloop
      obtain ⟨data, hdata, hloop⟩ := bind_eq_ok.mp hloop
      obtain ⟨file', hloop', hret⟩ := bind_eq_ok.mp hloop
      cases hret
      intro b hb
      rcases List.mem_append.mp hb with hb | hb
      · rw [(Node.dump_ok hdata).2.2] at hb
        exact hzero.1 b (List.mem_of_mem_drop (List.mem_of_mem_take hb))
      · exact ih _ _ hzero.2 hloop' b hb
    · rw [if_neg hread] at hloop
      cases hloop
      simp

/-- A node of zeros with a `1` at offset `m`. -/
def markedNode (B m : ℕ) : Node := Node.new (fun j => if j = m then 1 else 0) B

/-- An array of the same shape whose memory is zero, except for offset `m` of the node `m_cur`. -/
def mark (ba : ByteArray) (m : ℕ) : ByteArray :=
  { ba with nodes :=
      List.replicate ba.cur (Node.new (fun _ => 0) ba.baseSize) ++ markedNode ba.baseSize m ::
        List.replicate (ba.nodes.length - ba.cur - 1) (Node.new (fun _ => 0) ba.baseSize) }

theorem getElem?_markedNode {B m j : ℕ} (hj : j < B) :
    (markedNode B m).data[j]? = some (if j = m then 1 else 0) := by
  simp [markedNode, Node.new, hj]

theorem mark_wellFormed (h : WellFormed ba) (hcur : ba.cur < ba.nodes.length) (m : ℕ) :
    WellFormed (mark ba m) where
  base_pos := h.base_pos
  root := by simp [mark]
  nodes_size := by
    intro node hnode
    simp only [mark, List.mem_append, List.mem_cons, List.mem_replicate] at hnode
    rcases hnode with ⟨-, rfl⟩ | rfl | ⟨-, rfl⟩ <;> rfl
  capacity_eq := by
    have hlen : (mark ba m).nodes.length = ba.nodes.length := by
      simp only [mark, List.length_append, List.length_cons, List.length_replicate]
      omega
    rw [hlen]
    exact h.capacity_eq
  position_le := h.position_le
  size_le := h.size_le
  cur_eq := h.cur_eq

/-- The mark in the content, counted from the position. -/
theorem getElem?_mark (h : WellFormed ba) {m : ℕ}
    (hm : m < ba.baseSize) (hoff : ba.position % ba.baseSize ≤ m)
    (hin : ba.position + (m - ba.position % ba.baseSize) < ba.size) :
    ((mark ba m).content.drop ba.position)[m - ba.position % ba.baseSize]? = some 1 := by
  have hpos := Nat.div_add_mod' ba.position ba.baseSize
  have hfront : (bytes (List.replicate ba.cur (Node.new (fun _ => 0) ba.baseSize))).length =
      ba.position / ba.baseSize * ba.baseSize := by
    rw [length_bytes (B := ba.baseSize)
      (fun node hnode => by rw [(List.mem_replicate.mp hnode).2]; rfl), List.length_replicate,
      h.cur_eq]
  have hlen : (markedNode ba.baseSize m).data.length = ba.baseSize :=
    (markedNode ba.baseSize m).data_length
  have hlt : ba.position + (m - ba.position % ba.baseSize) < (mark ba m).size := hin
  rw [List.getElem?_drop, content, List.getElem?_take_of_lt hlt, mark, bytes_append, bytes_cons,
    List.getElem?_append_right (by omega), hfront, List.getElem?_append_left (by omega),
    show ba.position + (m - ba.position % ba.baseSize) -
      ba.position / ba.baseSize * ba.baseSize = m by omega, getElem?_markedNode hm, if_pos rfl]

/-- The file gets no `1` where the content has the mark, if what is written of the node `m_cur`
starts at another offset or ends in front of the mark. -/
theorem not_fileLaw_mark (h : WellFormed ba) (hcur : ba.cur < ba.nodes.length) {m : ℕ}
    (hm : m < ba.baseSize) (hoff : ba.position % ba.baseSize ≤ m)
    (hin : ba.position + (m - ba.position % ba.baseSize) < ba.size)
    (hbad : (Int32.ofNat (ba.position % ba.baseSize)).toInt ≠ (ba.position % ba.baseSize : ℕ) ∨
      min (ba.size - ba.position) ba.baseSize ≤ m) : ¬ FileLaw (mark ba m) := by
  rintro ⟨file, hwrite, hstr, -⟩
  have hwf := mark_wellFormed h hcur m
  rw [toString_eq hwf, EStateM.Result.ok.injEq] at hstr
  have hone : file[m - ba.position % ba.baseSize]? = some 1 :=
    hstr.1 ▸ getElem?_mark h hm hoff hin
  -- the chunk of the node `m_cur`, and what the other nodes yield
  have hleft : 0 < ba.size - ba.position := by omega
  have hchain : (mark ba m).nodes.drop ba.cur = markedNode ba.baseSize m ::
      List.replicate (ba.nodes.length - ba.cur - 1) (Node.new (fun _ => 0) ba.baseSize) :=
    List.drop_left' List.length_replicate
  have hsize : (mark ba m).getReadSize = ba.size - ba.position := hwf.getReadSize_eq
  have hloop := writeToFile_eq_ok.mp hwrite
  rw [hsize, show (mark ba m).cur = ba.cur from rfl, hchain] at hloop
  change writeToFileLoop ba.baseSize _ ((ba.size - ba.position : ℕ) : ℤ) ba.position = _ at hloop
  rw [writeToFileLoop_cons hleft rfl] at hloop
  obtain ⟨data, hdata, hloop⟩ := bind_eq_ok.mp hloop
  obtain ⟨file', hloop', hret⟩ := bind_eq_ok.mp hloop
  cases hret
  obtain ⟨hdiff, hlen, hdata⟩ := Node.dump_ok hdata
  by_cases hchunk : m - ba.position % ba.baseSize < data.length
  · -- the mark is in this chunk, which therefore starts at the offset of the position
    rw [List.getElem?_append_left hchunk] at hone
    have hsize : (markedNode ba.baseSize m).data.length = ba.baseSize :=
      (markedNode ba.baseSize m).data_length
    rw [hdata, List.length_take, List.length_drop, hsize] at hchunk
    rw [hdata, List.getElem?_take_of_lt (by omega), List.getElem?_drop,
      getElem?_markedNode (by omega)] at hone
    split_ifs at hone with hat
    · omega
    · cases hone
  · -- it comes from another node, where there is none
    rw [List.getElem?_append_right (Nat.not_lt.mp hchunk)] at hone
    have hzero := writeToFileLoop_zeros _ _ _ (fun node hnode b hb => by
      rw [(List.mem_replicate.mp hnode).2] at hb
      simp only [Node.new, List.mem_map] at hb
      exact hb.elim fun _ hj => hj.2.symm) hloop' 1 (List.mem_of_getElem? hone)
    cases hzero

/-- A state that is not aligned has the shape of one that is not written as it should be. -/
theorem exists_not_fileLaw (h : WellFormed ba) (hbad : ¬ Aligned ba) :
    ∃ ba', SameShape ba ba' ∧ WellFormed ba' ∧ ¬ FileLaw ba' := by
  have hle := h.position_le
  have hsize := h.size_le
  have hlt := Nat.mod_lt ba.position h.base_pos
  rw [Aligned] at hbad
  have hcur : ba.cur < ba.nodes.length := by
    have hne : ba.cur ≠ ba.nodes.length := by
      rw [ne_eq, h.cur_eq_length_iff]
      omega
    have := h.cur_le
    omega
  -- the mark is the byte at the position, or the first one that belongs to the second chunk
  by_cases hint : ba.position % ba.baseSize < 2 ^ 31
  · by_cases hneg : ba.size - ba.position < ba.position % ba.baseSize
    · refine ⟨mark ba (ba.position % ba.baseSize), ⟨rfl, rfl, rfl, rfl⟩,
        mark_wellFormed h hcur _, not_fileLaw_mark h hcur hlt (Nat.le_refl _) (by omega)
        (Or.inr (by omega))⟩
    · exact ⟨mark ba (ba.size - ba.position), ⟨rfl, rfl, rfl, rfl⟩, mark_wellFormed h hcur _,
        not_fileLaw_mark h hcur (by omega) (by omega) (by omega) (Or.inr (by omega))⟩
  · exact ⟨mark ba (ba.position % ba.baseSize), ⟨rfl, rfl, rfl, rfl⟩, mark_wellFormed h hcur _,
      not_fileLaw_mark h hcur hlt (Nat.le_refl _) (by omega)
        (Or.inl (toInt_diff_lt (Nat.not_lt.mp hint)).1.ne)⟩

theorem SameShape.aligned {ba' : ByteArray} (hshape : SameShape ba ba') :
    Aligned ba' ↔ Aligned ba := by
  rw [Aligned, Aligned, hshape.baseSize, hshape.position, hshape.size]

/-- With nodes of at most 4 GiB, no state that is not aligned is written as it should be. -/
theorem aligned_of_fileLaw (h : WellFormed ba) (hint : ba.baseSize ≤ 2 ^ 32)
    (hlaw : FileLaw ba) : Aligned ba := by
  have hle := h.position_le
  by_contra hbad
  rw [Aligned] at hbad
  obtain ⟨file, hwrite, -⟩ := hlaw
  have hloop := writeToFile_eq_ok.mp hwrite
  obtain ⟨fault, herror⟩ := writeToFileLoop_error (ba.nodes.drop ba.cur) (ba.size - ba.position)
    ba.position (h.nodes_size.drop _) h.base_pos hint (by omega) (by omega) (by omega)
  rw [h.getReadSize_eq, herror] at hloop
  cases hloop

/-- Arrays of a given shape are written as they should be, whatever they hold, exactly when the
shape is aligned. If the nodes are of at most 4 GiB, this is so of every single array. -/
theorem fileLaw_iff (ba : ByteArray) (h : WellFormed ba) :
    ((∀ ba', SameShape ba ba' → WellFormed ba' → FileLaw ba') ↔ Aligned ba) ∧
      (ba.baseSize ≤ 2 ^ 32 → (FileLaw ba ↔ Aligned ba)) := by
  refine ⟨⟨fun hall => ?_, fun haligned ba' hshape h' => ?_⟩,
    fun hint => ⟨aligned_of_fileLaw h hint, fileLaw_of_aligned h⟩⟩
  · by_contra hbad
    obtain ⟨ba', hshape, h', hlaw⟩ := exists_not_fileLaw h hbad
    exact hlaw (hall ba' hshape h')
  · exact fileLaw_of_aligned h' (hshape.aligned.mpr haligned)

/-- Three bytes from the second one on, in nodes of two bytes. -/
theorem fileLaw_iff_example :
    let ba : ByteArray := { new 2 (fun _ _ => 0) with
      capacity := 4, size := 4, position := 1, nodes := [⟨2, [7, 8], rfl⟩, ⟨2, [9, 5], rfl⟩] }
    ((∀ ba', SameShape ba ba' → WellFormed ba' → FileLaw ba') ↔ Aligned ba) ∧
      (ba.baseSize ≤ 2 ^ 32 → (FileLaw ba ↔ Aligned ba)) :=
  fileLaw_iff _ (by decide)

/-- The third of three bytes in a node of four bytes: the length of the chunk is negative. -/
theorem not_fileLaw_third :
    let ba : ByteArray := { new 4 (fun _ _ => 0) with
      size := 3, position := 2, nodes := [⟨4, [7, 8, 9, 0], rfl⟩] }
    WellFormed ba ∧ writeToFile true ba = .error (.negative (-1)) ∧ ¬ FileLaw ba := by
  have hwrite : writeToFile true { new 4 (fun _ _ => 0) with
      size := 3, position := 2, nodes := [⟨4, [7, 8, 9, 0], rfl⟩] } =
      .error (.negative (-1)) := rfl
  refine ⟨by decide, hwrite, ?_⟩
  rintro ⟨file, hfile, -⟩
  rw [hwrite] at hfile
  cases hfile

end Sylar.ByteArray
