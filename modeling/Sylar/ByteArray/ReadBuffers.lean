import Sylar.ByteArray.Buffers

/-!
# `ByteArray` — buffers for scattered output

Model of the two overloads of `getReadBuffers`. Both cut `len` down to `getReadSize()` and then
collect buffers node by node, the first one from `m_cur` on and the second one from the node that
holds its argument `position` on.

`Describes ba p n iovs` says what buffers should be: each of them a non-empty part of one node that
ends inside the content, and all together the `n` bytes of the content from `p` on. The first
overload describes what `toString` returns, or a beginning of it (`getReadBuffers_eq`). The second
one cuts at the number of bytes behind `m_position`, where those behind `position` are meant
(`readBuffersLaw_iff`).
-/

namespace Sylar.ByteArray

/-! ## Model -/

/-- `ByteArray::getReadBuffers(buffers, len)`; the result is what becomes of `buffers`, and the
value returned. -/
def getReadBuffers (buffers : List Iovec) (len : ℕ) : Op (List Iovec × ℕ) := fun ba =>
  let len := if len > ba.getReadSize then ba.getReadSize else len
  if len = 0 then .ok (buffers, 0) ba
  else
    match iovecLoop (ba.nodes.drop ba.cur) ba.cur (ba.position % ba.baseSize) len with
    | .error fault => .error fault ba
    | .ok added => .ok (buffers ++ added, len) ba

/-- `ByteArray::getReadBuffers(buffers, len, position)`, which walks `count` nodes from `m_root`
to where it starts. -/
def getReadBuffersAt (buffers : List Iovec) (len position : ℕ) : Op (List Iovec × ℕ) := fun ba =>
  let len := if len > ba.getReadSize then ba.getReadSize else len
  if len = 0 then .ok (buffers, 0) ba
  else
    let count := position / ba.baseSize
    match iovecLoop (ba.nodes.drop count) count (position % ba.baseSize) len with
    | .error fault => .error fault ba
    | .ok added => .ok (buffers ++ added, len) ba

/-- The bytes that a buffer stands for. -/
def Iovec.contents (nodes : List Node) (iov : Iovec) : List UInt8 :=
  match nodes[iov.node]? with
  | none => []
  | some node => (node.data.drop iov.offset).take iov.iov_len

/-- The buffers are for the `n` bytes of the content from position `p` on. -/
structure Describes (ba : ByteArray) (p n : ℕ) (iovs : List Iovec) : Prop where
  nonempty : ∀ iov ∈ iovs, 0 < iov.iov_len
  inside : ∀ iov ∈ iovs, ∃ node, ba.nodes[iov.node]? = some node ∧
    iov.offset + iov.iov_len ≤ node.size
  exposed : ∀ iov ∈ iovs, iov.node * ba.baseSize + iov.offset + iov.iov_len ≤ ba.size
  contents : iovs.flatMap (Iovec.contents ba.nodes) = (ba.content.drop p).take n

/-- `getReadBuffers(buffers, len, position)` appends buffers for the content from `position` on, up
to `len` bytes of it, and returns their number. -/
def ReadBuffersLaw (ba : ByteArray) (buffers : List Iovec) (len position : ℕ) : Prop :=
  ∃ added, (getReadBuffersAt buffers len position).run ba =
      .ok (buffers ++ added, min len (ba.size - position)) ba ∧
    Describes ba position (min len (ba.size - position)) added

/-! ## Buffers as parts of the content -/

variable {ba : ByteArray}

/-- A part of a node is a part of the memory. -/
theorem contents_node {B : ℕ} {nodes : List Node} (hnodes : AllSize B nodes) {iov : Iovec}
    (hnode : iov.node < nodes.length) (hfit : iov.offset + iov.iov_len ≤ B) :
    iov.contents nodes = ((bytes nodes).drop (iov.node * B + iov.offset)).take iov.iov_len := by
  have hget : nodes[iov.node]? = some nodes[iov.node] := List.getElem?_eq_getElem hnode
  have hlen : nodes[iov.node].data.length = B := by
    rw [nodes[iov.node].data_length]
    exact hnodes _ (List.getElem_mem hnode)
  have hdrop : (bytes nodes).drop (iov.node * B) =
      nodes[iov.node].data ++ bytes (nodes.drop (iov.node + 1)) := by
    rw [← bytes_drop hnodes hnode.le, ← List.getElem_cons_drop (h := hnode), bytes_cons]
  rw [Iovec.contents, hget, ← List.drop_drop, hdrop, List.drop_append_of_le_length (by omega),
    List.take_append_of_le_length (by rw [List.length_drop]; omega)]

/-- Contiguous buffers stand for a slice of the memory. -/
theorem contents_contiguous {B : ℕ} {nodes : List Node} (hnodes : AllSize B nodes)
    (iovs : List Iovec) (p : ℕ) (hcont : Contiguous B nodes.length p iovs) :
    iovs.flatMap (Iovec.contents nodes) =
      ((bytes nodes).drop p).take (iovs.map Iovec.iov_len).sum := by
  induction iovs generalizing p with
  | nil => simp
  | cons iov iovs ih =>
    obtain ⟨hnode, hfit, hstart, hrest⟩ := hcont
    rw [List.flatMap_cons, ih _ hrest, contents_node hnodes hnode hfit, hstart, List.map_cons,
      List.sum_cons, List.take_add, List.drop_drop]

/-- They end where their lengths add up to. -/
theorem contiguous_le {B count : ℕ} (iovs : List Iovec) (p : ℕ)
    (hcont : Contiguous B count p iovs) :
    ∀ iov ∈ iovs, iov.node * B + iov.offset + iov.iov_len ≤ p + (iovs.map Iovec.iov_len).sum := by
  induction iovs generalizing p with
  | nil => simp
  | cons iov iovs ih =>
    obtain ⟨-, -, hstart, hrest⟩ := hcont
    rw [List.map_cons, List.sum_cons, List.forall_mem_cons]
    refine ⟨by omega, fun iov' hmem => ?_⟩
    have hle := ih _ hrest iov' hmem
    omega

/-- The nodes of contiguous buffers exist, and the buffers do not leave them. -/
theorem contiguous_inside {B : ℕ} {nodes : List Node} (hnodes : AllSize B nodes)
    (iovs : List Iovec) (p : ℕ) (hcont : Contiguous B nodes.length p iovs) :
    ∀ iov ∈ iovs, ∃ node, nodes[iov.node]? = some node ∧
      iov.offset + iov.iov_len ≤ node.size := by
  induction iovs generalizing p with
  | nil => simp
  | cons iov iovs ih =>
    obtain ⟨hnode, hfit, -, hrest⟩ := hcont
    refine List.forall_mem_cons.mpr ⟨⟨_, List.getElem?_eq_getElem hnode, ?_⟩, ih _ hrest⟩
    rwa [hnodes _ (List.getElem_mem hnode)]

/-- The loop returns no empty buffer. -/
theorem iovecLoop_pos {B : ℕ} (chain : List Node) (cur npos len : ℕ) (hchain : AllSize B chain)
    (hnpos : npos < B) {iovs : List Iovec} (hloop : iovecLoop chain cur npos len = .ok iovs) :
    ∀ iov ∈ iovs, 0 < iov.iov_len := by
  induction chain generalizing cur npos len iovs with
  | nil => cases hloop
  | cons node rest ih =>
    obtain ⟨hnode, hrest⟩ := AllSize.cons_iff.mp hchain
    rw [iovecLoop] at hloop
    split_ifs at hloop with hzero hcap
    · cases hloop
      simp
    · -- the last buffer, of what is left of `len`
      cases hloop
      rw [List.forall_mem_singleton]
      dsimp only
      omega
    · -- a buffer up to the end of the node, which `npos` lies before
      obtain ⟨iovs', hloop', hret⟩ := bind_eq_ok.mp hloop
      cases hret
      refine List.forall_mem_cons.mpr ⟨?_, ih _ _ _ hrest (by omega) hloop'⟩
      dsimp only
      omega

/-- On a well-formed state, the loop that starts at the node holding position `p` returns buffers
for the content from `p` on. -/
theorem iovecLoop_describes (h : WellFormed ba) {p n : ℕ} (hn : 0 < n) (hfit : p + n ≤ ba.size) :
    ∃ added, iovecLoop (ba.nodes.drop (p / ba.baseSize)) (p / ba.baseSize) (p % ba.baseSize) n =
        .ok added ∧ Describes ba p n added := by
  have hB := h.base_pos
  have hsize := h.size_le
  have hbytes := h.length_bytes
  have hoff := Nat.div_add_mod' p ba.baseSize
  have hcur : p / ba.baseSize ≤ ba.nodes.length := by
    refine Nat.div_le_of_le_mul ?_
    rw [Nat.mul_comm, ← h.capacity_eq]
    omega
  have hdrop := bytes_drop h.nodes_size hcur
  have hcount : p / ba.baseSize + (ba.nodes.drop (p / ba.baseSize)).length = ba.nodes.length := by
    rw [List.length_drop]
    omega
  obtain ⟨added, hloop, hcont, hsum⟩ :=
    iovecLoop_eq (ba.nodes.drop (p / ba.baseSize)) (p / ba.baseSize) (p % ba.baseSize) n
      (h.nodes_size.drop _) hcount (Nat.mod_lt _ hB) hn (by rw [hdrop, List.length_drop]; omega)
  rw [hoff] at hcont
  refine ⟨added, hloop, ?_⟩
  exact {
    nonempty := iovecLoop_pos _ _ _ _ (h.nodes_size.drop _) (Nat.mod_lt _ hB) hloop
    inside := contiguous_inside h.nodes_size added p hcont
    exposed := fun iov hmem => by
      have hle := contiguous_le added p hcont iov hmem
      omega
    contents := by
      -- the slice lies inside the content
      rw [contents_contiguous h.nodes_size added p hcont, hsum, content, List.drop_take,
        List.take_take, Nat.min_eq_left (by omega)] }

/-- No bytes are described by no buffers. -/
theorem describes_nil (ba : ByteArray) (p : ℕ) : Describes ba p 0 [] where
  nonempty := by simp
  inside := by simp
  exposed := by simp
  contents := by simp

/-- Cutting `len` down as `getReadBuffers` does takes the minimum. -/
theorem ite_gt_eq_min (len n : ℕ) : (if len > n then n else len) = min len n := by
  split_ifs <;> omega

/-! ## The two overloads -/

/-- `getReadBuffers(buffers, len)` agrees with `toString`: whatever the position and the length, it
appends non-empty buffers inside the nodes that stand for the first bytes of that string, as many
as asked for or all, and returns their number. The array stays as it is. -/
theorem getReadBuffers_eq (ba : ByteArray) (buffers : List Iovec) (len : ℕ) (h : WellFormed ba) :
    ∃ added str, (getReadBuffers buffers len).run ba =
        .ok (buffers ++ added, min len ba.getReadSize) ba ∧
      toString.run ba = .ok str ba ∧ (∀ iov ∈ added, 0 < iov.iov_len) ∧
      (∀ iov ∈ added, ∃ node, ba.nodes[iov.node]? = some node ∧
        iov.offset + iov.iov_len ≤ node.size) ∧
      added.flatMap (Iovec.contents ba.nodes) = str.take (min len ba.getReadSize) := by
  have hsize := h.getReadSize_eq
  have hle := h.position_le
  simp only [EStateM.run, getReadBuffers, ite_gt_eq_min]
  by_cases hzero : min len ba.getReadSize = 0
  · -- the function returns before it looks at `m_cur`, which may be null
    have hnone := describes_nil ba ba.position
    simp only [hzero, if_true]
    exact ⟨[], _, by rw [List.append_nil], toString_eq h, hnone.nonempty, hnone.inside,
      hnone.contents⟩
  · obtain ⟨added, hloop, hdesc⟩ :=
      iovecLoop_describes h (p := ba.position) (Nat.pos_of_ne_zero hzero) (by omega)
    rw [← h.cur_eq] at hloop
    simp only [hzero, if_false, hloop]
    exact ⟨added, _, rfl, toString_eq h, hdesc.nonempty, hdesc.inside, hdesc.contents⟩

/-- Five bytes from the second of three bytes in nodes of two bytes on: the two that are left. -/
theorem getReadBuffers_eq_example :
    let ba : ByteArray := { new 2 (fun _ _ => 0) with
      capacity := 4, size := 3, position := 1, nodes := [⟨2, [7, 8], rfl⟩, ⟨2, [9, 0], rfl⟩] }
    ∃ added str, (getReadBuffers [] 5).run ba = .ok ([] ++ added, min 5 ba.getReadSize) ba ∧
      toString.run ba = .ok str ba ∧ (∀ iov ∈ added, 0 < iov.iov_len) ∧
      (∀ iov ∈ added, ∃ node, ba.nodes[iov.node]? = some node ∧
        iov.offset + iov.iov_len ≤ node.size) ∧
      added.flatMap (Iovec.contents ba.nodes) = str.take (min 5 ba.getReadSize) :=
  getReadBuffers_eq _ [] 5 (by decide)

/-- `getReadBuffers(buffers, len, position)` keeps its law exactly when `position` is `m_position`,
or `len` bytes are left behind both. -/
theorem readBuffersLaw_iff (ba : ByteArray) (buffers : List Iovec) (len position : ℕ)
    (h : WellFormed ba) (hposition : position ≤ ba.size) :
    ReadBuffersLaw ba buffers len position ↔
      position = ba.position ∨ len ≤ ba.size - ba.position ∧ len ≤ ba.size - position := by
  have hsize := h.getReadSize_eq
  have hle := h.position_le
  -- the two numbers of bytes that `len` is cut down to
  have hmin : position = ba.position ∨
      len ≤ ba.size - ba.position ∧ len ≤ ba.size - position ↔
      min len ba.getReadSize = min len (ba.size - position) := by
    rw [hsize]
    omega
  rw [hmin, ReadBuffersLaw]
  simp only [EStateM.run, getReadBuffersAt, ite_gt_eq_min]
  constructor
  · -- the number that is returned is the one of the code
    rintro ⟨added, hrun, -⟩
    by_cases hzero : min len ba.getReadSize = 0
    · simp only [hzero, if_true, EStateM.Result.ok.injEq, Prod.mk.injEq] at hrun
      rw [hzero, hrun.1.2]
    · simp only [hzero, if_false] at hrun
      split at hrun
      · cases hrun
      · simp only [EStateM.Result.ok.injEq, Prod.mk.injEq] at hrun
        exact hrun.1.2
  · -- where the two numbers agree, the walk starts and ends where it should
    intro heq
    rw [heq]
    by_cases hzero : min len (ba.size - position) = 0
    · simp only [hzero, if_true]
      exact ⟨[], by rw [List.append_nil], describes_nil ba position⟩
    · obtain ⟨added, hloop, hdesc⟩ :=
        iovecLoop_describes h (p := position) (Nat.pos_of_ne_zero hzero) (by omega)
      simp only [hzero, if_false, hloop]
      exact ⟨added, rfl, hdesc⟩

/-- One byte from the position behind `m_position`. -/
theorem readBuffersLaw_iff_example :
    let ba : ByteArray := { new 2 (fun _ _ => 0) with
      capacity := 4, size := 3, position := 1, nodes := [⟨2, [7, 8], rfl⟩, ⟨2, [9, 0], rfl⟩] }
    ReadBuffersLaw ba [] 1 2 ↔
      2 = ba.position ∨ 1 ≤ ba.size - ba.position ∧ 1 ≤ ba.size - 2 :=
  readBuffersLaw_iff _ [] 1 2 (by decide) (by decide)

/-- Two bytes are asked for from the third and last one on, when `m_position` is at the beginning:
a byte that is not stored is described, too. -/
theorem not_readBuffersLaw_behind :
    let ba : ByteArray := { new 4 (fun _ _ => 0) with
      size := 3, nodes := [⟨4, [7, 8, 9, 0], rfl⟩] }
    WellFormed ba ∧ 2 ≤ ba.size ∧
      (getReadBuffersAt [] 2 2).run ba = .ok ([⟨0, 2, 2⟩], 2) ba ∧ ¬ ReadBuffersLaw ba [] 2 2 := by
  refine ⟨by decide, by decide, rfl, ?_⟩
  rintro ⟨added, hrun, -⟩
  cases hrun

end Sylar.ByteArray
