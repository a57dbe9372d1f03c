import Sylar.ByteArray.Defs
import Sylar.Foundation.Slice
import Mathlib.Tactic.Ring

/-!
# `ByteArray` — well-formed states and the flat view

`bytes nodes` is the memory of a node list read as one byte string, and `content ba` its first
`m_size` bytes. A state is `WellFormed` when every node has the base size, the capacity counts the
nodes, `m_position ≤ m_size ≤ m_capacity`, and `m_cur` is the node that holds the position: node
number `m_position / m_baseSize`, which is the null pointer exactly when the position sits at the
end of the last node.

Each loop is described once, on the flat view:

* `writeLoop_eq` — the loop of `write` overwrites a slice of the bytes from `m_cur` on;
* `readLoop_eq` — the loop of `read` returns a slice of them;
* `seek_eq` — the loop of `setPosition` stops at node `v / m_baseSize`.

`write_eq`, `read_eq`, `setPosition_eq` and `clear_eq` describe the operations on well-formed
states, with `CursorFits` the condition under which `addCapacity` leaves `m_cur` at the position.
-/

namespace Sylar.ByteArray

open Slice

/-- The memory of a node list, node after node. -/
def bytes (nodes : List Node) : List UInt8 := (nodes.map Node.data).flatten

/-- The bytes stored in the array: the first `m_size` bytes of its memory. -/
def content (ba : ByteArray) : List UInt8 := (bytes ba.nodes).take ba.size

/-- All nodes of the list have size `B`. -/
def AllSize (B : ℕ) (nodes : List Node) : Prop := ∀ node ∈ nodes, node.size = B

/-- `m_position ≤ m_size ≤ m_capacity`, the capacity is that of the node list, and `m_cur` is the
node holding the position. -/
structure WellFormed (ba : ByteArray) : Prop where
  base_pos : 0 < ba.baseSize
  root : ba.nodes ≠ []
  nodes_size : AllSize ba.baseSize ba.nodes
  capacity_eq : ba.capacity = ba.nodes.length * ba.baseSize
  position_le : ba.position ≤ ba.size
  size_le : ba.size ≤ ba.capacity
  cur_eq : ba.cur = ba.position / ba.baseSize

instance (B : ℕ) (nodes : List Node) : Decidable (AllSize B nodes) :=
  inferInstanceAs (Decidable (∀ node ∈ nodes, node.size = B))

instance (ba : ByteArray) : Decidable (WellFormed ba) :=
  decidable_of_iff (0 < ba.baseSize ∧ ba.nodes ≠ [] ∧ AllSize ba.baseSize ba.nodes ∧
      ba.capacity = ba.nodes.length * ba.baseSize ∧ ba.position ≤ ba.size ∧
      ba.size ≤ ba.capacity ∧ ba.cur = ba.position / ba.baseSize)
    ⟨fun ⟨h₁, h₂, h₃, h₄, h₅, h₆, h₇⟩ => ⟨h₁, h₂, h₃, h₄, h₅, h₆, h₇⟩,
      fun h => ⟨h.base_pos, h.root, h.nodes_size, h.capacity_eq, h.position_le, h.size_le,
        h.cur_eq⟩⟩

/-! ## The flat view -/

section Bytes

variable {B : ℕ} {nodes : List Node}

@[simp]
theorem bytes_nil : bytes [] = [] := rfl

@[simp]
theorem bytes_cons (node : Node) (rest : List Node) :
    bytes (node :: rest) = node.data ++ bytes rest := rfl

@[simp]
theorem bytes_append (xs ys : List Node) : bytes (xs ++ ys) = bytes xs ++ bytes ys := by
  simp [bytes]

theorem AllSize.uniform (h : AllSize B nodes) : Uniform B (nodes.map Node.data) := by
  intro c hc
  obtain ⟨node, hnode, rfl⟩ := List.mem_map.mp hc
  rw [node.data_length, h node hnode]

theorem AllSize.drop (h : AllSize B nodes) (k : ℕ) : AllSize B (nodes.drop k) := fun node hnode =>
  h node (List.mem_of_mem_drop hnode)

theorem AllSize.take (h : AllSize B nodes) (k : ℕ) : AllSize B (nodes.take k) := fun node hnode =>
  h node (List.mem_of_mem_take hnode)

theorem AllSize.append {ys : List Node} (h : AllSize B nodes) (h' : AllSize B ys) :
    AllSize B (nodes ++ ys) := fun node hnode =>
  (List.mem_append.mp hnode).elim (h node) (h' node)

theorem AllSize.cons_iff {node : Node} :
    AllSize B (node :: nodes) ↔ node.size = B ∧ AllSize B nodes := by
  simp [AllSize]

theorem length_bytes (h : AllSize B nodes) : (bytes nodes).length = nodes.length * B := by
  rw [bytes, h.uniform.length_flatten, List.length_map]

/-- The nodes from number `k` on hold the bytes from position `k * B` on. -/
theorem bytes_drop (h : AllSize B nodes) {k : ℕ} (hk : k ≤ nodes.length) :
    bytes (nodes.drop k) = (bytes nodes).drop (k * B) := by
  rw [bytes, bytes, List.map_drop, h.uniform.drop_flatten (by simpa using hk)]

theorem length_bytes_take (h : AllSize B nodes) {k : ℕ} (hk : k ≤ nodes.length) :
    (bytes (nodes.take k)).length = k * B := by
  rw [length_bytes (h.take k), List.length_take, Nat.min_eq_left hk]

end Bytes

/-! ## The loops -/

/-- A `memcpy` into a node overwrites a slice of its data. -/
theorem Node.store_eq (node : Node) (npos : ℕ) (buf : List UInt8)
    (h : npos + buf.length ≤ node.size) :
    ∃ node', node.store npos buf = .ok node' ∧ node'.size = node.size ∧
      node'.data = overwrite node.data npos buf := by
  rw [Node.store, dif_pos h]
  exact ⟨_, rfl, rfl, rfl⟩

/-- A `memcpy` out of a node copies a slice of its data. -/
theorem Node.load_eq (node : Node) {npos n : ℕ} (h : npos + n ≤ node.size) :
    node.load npos n = .ok ((node.data.drop npos).take n) := if_pos h

/-- Moving `n` bytes on from offset `npos` of a node of size `B` without passing its end leads to
the next node when the end is reached. -/
private theorem add_div_of_le {B npos n : ℕ} (hB : npos < B) (hle : npos + n ≤ B) :
    (npos + n) / B = if n = B - npos then 1 else 0 := by
  split_ifs with h
  · rw [show npos + n = B by omega, Nat.div_self (by omega)]
  · exact Nat.div_eq_of_lt (by omega)

/-- Moving on past the end of a node of size `B` starts over at the beginning of the next one. -/
private theorem add_div_of_gt {B npos n : ℕ} (hB : npos < B) (hgt : B - npos < n) :
    (npos + n) / B = (0 + (n - (B - npos))) / B + 1 := by
  rw [show npos + n = (0 + (n - (B - npos))) + B by omega, Nat.add_div_right _ (by omega)]

/-- The loop of `write` overwrites the bytes from offset `npos` on and leaves `m_cur` on the node
that holds the position behind them. -/
theorem writeLoop_eq {B : ℕ} (chain : List Node) (cur position npos : ℕ) (buf : List UInt8)
    (hchain : AllSize B chain) (hnpos : npos < B) (hbuf : 0 < buf.length)
    (hfit : npos + buf.length ≤ (bytes chain).length) :
    ∃ chain', writeLoop chain cur position npos buf =
        .ok (chain', cur + (npos + buf.length) / B, position + buf.length) ∧
      AllSize B chain' ∧ chain'.length = chain.length ∧
      bytes chain' = overwrite (bytes chain) npos buf := by
  induction chain generalizing cur position npos buf with
  | nil =>
    -- nothing fits into an empty chain
    simp only [bytes_nil, List.length_nil] at hfit
    omega
  | cons node rest ih =>
    obtain ⟨hnode, hrest⟩ := AllSize.cons_iff.mp hchain
    have hdata := node.data_length
    subst hnode
    by_cases hcap : node.size - npos ≥ buf.length
    · -- the rest of the buffer fits into this node
      have hle : npos + buf.length ≤ node.size := by omega
      obtain ⟨node', hstore, hsize, hdata'⟩ := node.store_eq npos buf hle
      refine ⟨node' :: rest, ?_, AllSize.cons_iff.mpr ⟨hsize, hrest⟩, by simp, ?_⟩
      · have hend : node.size - npos - buf.length = 0 ↔ buf.length = node.size - npos := by omega
        simp only [writeLoop, hcap, if_true, hstore, bind, Except.bind, hend,
          add_div_of_le hnpos hle]
        split_ifs <;> rfl
      · -- the nodes behind this one stay
        rw [bytes_cons, bytes_cons, hdata', overwrite_append_left _ _ _ (by omega)]
    · -- the node is filled up and the loop goes on at the beginning of the next one
      obtain ⟨first, last, hsplit, hfirst⟩ :
          ∃ first last, buf = first ++ last ∧ first.length = node.size - npos :=
        ⟨buf.take (node.size - npos), buf.drop (node.size - npos),
          (List.take_append_drop _ _).symm, by rw [List.length_take]; omega⟩
      subst hsplit
      rw [List.length_append] at hcap hfit
      rw [bytes_cons, List.length_append] at hfit
      obtain ⟨node', hstore, hsize, hdata'⟩ := node.store_eq npos first (by omega)
      obtain ⟨rest', hrun, hall, hlen, hbytes⟩ :=
        ih (cur + 1) (position + first.length) 0 last hrest (by omega) (by omega) (by omega)
      refine ⟨node' :: rest', ?_, AllSize.cons_iff.mpr ⟨hsize, hall⟩, by simp [hlen], ?_⟩
      · have hdiv := add_div_of_gt (n := first.length + last.length) hnpos (by omega)
        have hleft : first.length + last.length - (node.size - npos) = last.length := by omega
        rw [writeLoop, List.length_append, if_neg hcap, ← hfirst, List.take_left, List.drop_left]
        simp only [hstore, hrun, bind, Except.bind, hdiv, hleft]
        rw [Nat.add_right_comm cur, Nat.add_assoc position]
        rfl
      · -- the two parts of the write meet at the boundary between the nodes
        rw [bytes_cons, bytes_cons, hdata', hbytes, overwrite_append_split _ _ _ (by omega)
          (by rw [List.length_append]; omega), hdata, ← hfirst, List.take_left, List.drop_left]

/-- The loop of `read` returns the bytes from offset `npos` on and leaves `m_cur` on the node that
holds the position behind them. -/
theorem readLoop_eq {B : ℕ} (chain : List Node) (cur position npos size : ℕ)
    (hchain : AllSize B chain) (hroot : chain ≠ []) (hnpos : npos < B)
    (hfit : npos + size ≤ (bytes chain).length) :
    readLoop chain cur position npos size =
      .ok (((bytes chain).drop npos).take size, cur + (npos + size) / B, position + size) := by
  induction chain generalizing cur position npos size with
  | nil => exact absurd rfl hroot
  | cons node rest ih =>
    obtain ⟨hnode, hrest⟩ := AllSize.cons_iff.mp hchain
    have hdata := node.data_length
    subst hnode
    by_cases hzero : size = 0
    · subst hzero
      -- `npos < B`, so `m_cur` stays
      simp [readLoop, Nat.div_eq_of_lt hnpos, pure, Except.pure]
    · by_cases hcap : node.size - npos ≥ size
      · -- the rest of the slice lies in this node
        have hle : npos + size ≤ node.size := by omega
        have hslice : ((bytes (node :: rest)).drop npos).take size =
            (node.data.drop npos).take size := by
          rw [bytes_cons, List.drop_append_of_le_length (by omega),
            List.take_append_of_le_length (by rw [List.length_drop]; omega)]
        rw [readLoop, if_neg hzero, if_pos hcap, node.load_eq hle, hslice, add_div_of_le hnpos hle]
        split_ifs <;> rfl
      · -- the node is read to its end and the loop goes on at the beginning of the next one
        rw [bytes_cons, List.length_append] at hfit
        -- `m_cur->size` is read again, of a node that must exist
        have hnext : rest ≠ [] := by
          rintro rfl
          rw [bytes_nil, List.length_nil] at hfit
          omega
        have hslice : ((bytes (node :: rest)).drop npos).take size =
            node.data.drop npos ++ ((bytes rest).drop 0).take (size - (node.size - npos)) := by
          have hlen : (node.data.drop npos).length = node.size - npos := by
            rw [List.length_drop, hdata]
          rw [bytes_cons, List.drop_append_of_le_length (by omega), List.take_append, hlen,
            List.take_of_length_le (by omega), List.drop_zero]
        have hall : (node.data.drop npos).take (node.size - npos) = node.data.drop npos :=
          List.take_of_length_le (by rw [List.length_drop]; omega)
        rw [readLoop, if_neg hzero, if_neg hcap, node.load_eq (by omega), hslice,
          add_div_of_gt hnpos (by omega)]
        simp only [bind, Except.bind, hall]
        rw [ih (cur + 1) (position + (node.size - npos)) 0 (size - (node.size - npos)) hrest hnext
          (by omega) (by omega)]
        have hpos : position + (node.size - npos) + (size - (node.size - npos)) =
            position + size := by omega
        rw [hpos, Nat.add_right_comm cur, Nat.add_assoc cur]
        rfl

/-- The walk of `setPosition` stops at the node that holds position `v`. -/
theorem seek_eq {B : ℕ} (nodes : List Node) (v cur : ℕ) (hnodes : AllSize B nodes)
    (hv : v < nodes.length * B) : seek nodes v cur = .ok (cur + v / B) := by
  induction nodes generalizing v cur with
  | nil => simp at hv
  | cons node rest ih =>
    obtain ⟨hnode, hrest⟩ := AllSize.cons_iff.mp hnodes
    subst hnode
    rw [List.length_cons, Nat.succ_mul] at hv
    rw [seek]
    split_ifs with hge
    · -- were the size `0`, the nodes would hold no position at all
      have hpos : 0 < node.size := by
        by_contra hzero
        rw [Nat.le_zero.mp (Nat.not_lt.mp hzero)] at hv
        omega
      rw [ih _ _ hrest (by omega), Nat.div_eq_sub_div hpos hge]
      congr 1
      omega
    · rw [Nat.div_eq_of_lt (by omega), Nat.add_zero]

/-! ## The operations on well-formed states -/

variable {ba : ByteArray}

/-- `m_cur` is null exactly when the position sits at the end of the last node. -/
theorem WellFormed.cur_eq_length_iff (h : WellFormed ba) :
    ba.cur = ba.nodes.length ↔ ba.position = ba.capacity := by
  have hle : ba.position ≤ ba.nodes.length * ba.baseSize :=
    h.capacity_eq ▸ h.position_le.trans h.size_le
  rw [h.cur_eq, h.capacity_eq]
  constructor
  · intro hdiv
    have := Nat.div_mul_le_self ba.position ba.baseSize
    rw [hdiv] at this
    omega
  · intro hpos
    rw [hpos, Nat.mul_div_cancel _ h.base_pos]

/-- `m_cur` is a node of the list or null. -/
theorem WellFormed.cur_le (h : WellFormed ba) : ba.cur ≤ ba.nodes.length := by
  rw [h.cur_eq]
  refine Nat.div_le_of_le_mul ?_
  rw [Nat.mul_comm, ← h.capacity_eq]
  exact h.position_le.trans h.size_le

theorem WellFormed.length_bytes (h : WellFormed ba) : (bytes ba.nodes).length = ba.capacity := by
  rw [ByteArray.length_bytes h.nodes_size, h.capacity_eq]

theorem WellFormed.length_content (h : WellFormed ba) : (content ba).length = ba.size := by
  rw [content, List.length_take, h.length_bytes, Nat.min_eq_left h.size_le]

theorem WellFormed.getReadSize_eq (h : WellFormed ba) :
    ba.getReadSize = ba.size - ba.position := subSize_of_le h.position_le

theorem WellFormed.getCapacity_eq (h : WellFormed ba) :
    ba.getCapacity = ba.capacity - ba.size := subSize_of_le h.size_le

/-- A freshly constructed array is well formed. -/
theorem new_wellFormed {B : ℕ} (hB : 0 < B) (alloc : ℕ → ℕ → UInt8) :
    WellFormed (new B alloc) where
  base_pos := hB
  root := by simp [new]
  nodes_size := by simp [AllSize, new, Node.new]
  capacity_eq := by simp [new]
  position_le := Nat.le_refl _
  size_le := Nat.zero_le _
  cur_eq := (Nat.zero_div B).symm

/-- The loop of `addCapacity` appends `num` nodes of the base size. -/
theorem appendNodes_eq (num : ℕ) (ba : ByteArray) :
    ∃ added, appendNodes num ba = { ba with
        nodes := ba.nodes ++ added
        capacity := ba.capacity + num * ba.baseSize
        alloc := fun i => ba.alloc (i + num) } ∧
      AllSize ba.baseSize added ∧ added.length = num := by
  induction num generalizing ba with
  | zero => exact ⟨[], by simp [appendNodes], by simp [AllSize], rfl⟩
  | succ num ih =>
    obtain ⟨added, heq, hsize, hlen⟩ := ih { ba with
      nodes := ba.nodes ++ [Node.new (ba.alloc 0) ba.baseSize]
      capacity := ba.capacity + ba.baseSize
      alloc := fun i => ba.alloc (i + 1) }
    -- the loop appends the first node before the others
    refine ⟨Node.new (ba.alloc 0) ba.baseSize :: added, ?_, ?_, by simp [hlen]⟩
    · rw [appendNodes, heq]
      simp only [List.append_assoc, List.singleton_append, ByteArray.mk.injEq, true_and]
      exact ⟨by ring, rfl⟩
    · exact AllSize.cons_iff.mpr ⟨rfl, hsize⟩

/-- Rounding a quotient up covers the dividend. -/
private theorem le_ceil_mul {B : ℕ} (hB : 0 < B) (n : ℕ) : n ≤ (n + B - 1) / B * B := by
  have hdiv := Nat.div_add_mod (n + B - 1) B
  have hmod := Nat.mod_lt (n + B - 1) hB
  rw [Nat.mul_comm] at hdiv
  omega

/-- The state lets `addCapacity` keep `m_cur` at the position: either there is free space behind
the content, so that `m_cur` is not moved, or the position is at the end of the content. -/
def CursorFits (ba : ByteArray) : Prop := ba.size < ba.capacity ∨ ba.position = ba.size

instance (ba : ByteArray) : Decidable (CursorFits ba) :=
  inferInstanceAs (Decidable (_ ∨ _))

/-- The list of nodes has become longer, and `m_cur` is still the node that holds the position. -/
theorem WellFormed.grow (h : WellFormed ba) {ba' : ByteArray} {added : List Node}
    (hadded : AllSize ba.baseSize added) (hbase : ba'.baseSize = ba.baseSize)
    (hnodes : ba'.nodes = ba.nodes ++ added)
    (hcapacity : ba'.capacity = (ba.nodes ++ added).length * ba.baseSize)
    (hposition : ba'.position = ba.position) (hsize : ba'.size = ba.size)
    (hcur : ba'.cur = ba.position / ba.baseSize) : WellFormed ba' where
  base_pos := by
    rw [hbase]
    exact h.base_pos
  root := by simp [hnodes, h.root]
  nodes_size := by
    rw [hnodes, hbase]
    exact h.nodes_size.append hadded
  capacity_eq := by rw [hcapacity, hnodes, hbase]
  position_le := by
    rw [hposition, hsize]
    exact h.position_le
  size_le := by
    rw [hsize, hcapacity, List.length_append, Nat.add_mul, ← h.capacity_eq]
    exact Nat.le_add_right_of_le h.size_le
  cur_eq := by rw [hcur, hposition, hbase]

/-- `addCapacity n` appends nodes until `n` more bytes fit behind the content. -/
theorem addCapacity_eq (h : WellFormed ba) (hcur : CursorFits ba) {n : ℕ} (hn : 0 < n) :
    ∃ added, WellFormed (addCapacity n ba) ∧ (addCapacity n ba).nodes = ba.nodes ++ added ∧
      ba.size + n ≤ (addCapacity n ba).capacity ∧
      (addCapacity n ba).size = ba.size ∧ (addCapacity n ba).position = ba.position ∧
      (addCapacity n ba).baseSize = ba.baseSize := by
  have hsize := h.size_le
  have hcap := h.getCapacity_eq
  rw [addCapacity, if_neg hn.ne']
  by_cases hroom : ba.getCapacity ≥ n
  · -- no node is added
    simp only [hroom, if_true]
    exact ⟨[], h, by simp, by omega, by simp⟩
  · simp only [hroom, if_false]
    obtain ⟨added, heq, hadded, hlen⟩ :=
      appendNodes_eq ((n - ba.getCapacity + ba.baseSize - 1) / ba.baseSize) ba
    have hceil := le_ceil_mul h.base_pos (n - ba.getCapacity)
    rw [heq]
    refine ⟨added, ?_, by split_ifs <;> rfl, by split_ifs <;> dsimp only <;> omega,
      by split_ifs <;> rfl, by split_ifs <;> rfl, by split_ifs <;> rfl⟩
    -- the counter and the list grow by the same number of nodes
    have hgrown : ba.capacity +
        (n - ba.getCapacity + ba.baseSize - 1) / ba.baseSize * ba.baseSize =
        (ba.nodes ++ added).length * ba.baseSize := by
      rw [List.length_append, Nat.add_mul, hlen, h.capacity_eq]
    split_ifs with hfull
    · -- no free space: `m_cur` moves to the first new node, which holds the position
      have hpos : ba.position = ba.nodes.length * ba.baseSize := by
        have := h.capacity_eq
        rcases hcur with hlt | hend <;> omega
      have hfirst : ba.nodes.length = ba.position / ba.baseSize := by
        rw [hpos, Nat.mul_div_cancel _ h.base_pos]
      exact h.grow hadded rfl rfl hgrown rfl rfl hfirst
    · -- free space: `m_cur` stays where it is
      exact h.grow hadded rfl rfl hgrown rfl rfl h.cur_eq

/-- With room for `buf` behind the position, the loop of `write` puts it over the memory there, and
leaves the array well formed. -/
theorem WellFormed.writeLoop_eq (h : WellFormed ba) {buf : List UInt8} (hpos : 0 < buf.length)
    (hroom : ba.position + buf.length ≤ ba.capacity) :
    ∃ chain, writeLoop (ba.nodes.drop ba.cur) ba.cur ba.position (ba.position % ba.baseSize) buf =
        .ok (chain, (ba.position + buf.length) / ba.baseSize, ba.position + buf.length) ∧
      bytes (ba.nodes.take ba.cur ++ chain) = overwrite (bytes ba.nodes) ba.position buf ∧
      WellFormed { ba with
        nodes := ba.nodes.take ba.cur ++ chain
        cur := (ba.position + buf.length) / ba.baseSize
        position := ba.position + buf.length
        size := max ba.size (ba.position + buf.length) } := by
  have hB := h.base_pos
  have hbytes := h.length_bytes
  have hsize := h.size_le
  -- the memory splits at the beginning of the node `m_cur`
  have hdrop : bytes (ba.nodes.drop ba.cur) = (bytes ba.nodes).drop (ba.cur * ba.baseSize) :=
    bytes_drop h.nodes_size h.cur_le
  have htake := length_bytes_take h.nodes_size h.cur_le
  have hoff : ba.position = ba.cur * ba.baseSize + ba.position % ba.baseSize := by
    rw [h.cur_eq, Nat.div_add_mod']
  have hsplit : bytes ba.nodes =
      bytes (ba.nodes.take ba.cur) ++ bytes (ba.nodes.drop ba.cur) := by
    rw [← bytes_append, List.take_append_drop]
  obtain ⟨chain, hrun, hall, hlen, hchain⟩ :=
    ByteArray.writeLoop_eq (ba.nodes.drop ba.cur) ba.cur ba.position
      (ba.position % ba.baseSize) buf (h.nodes_size.drop _) (Nat.mod_lt _ hB) hpos
      (by rw [hdrop, List.length_drop]; omega)
  have hcurEnd : ba.cur + (ba.position % ba.baseSize + buf.length) / ba.baseSize =
      (ba.position + buf.length) / ba.baseSize := by
    conv_rhs =>
      rw [hoff, Nat.add_assoc, Nat.add_comm (ba.cur * _), Nat.add_mul_div_right _ _ hB]
    rw [Nat.add_comm]
  rw [hcurEnd] at hrun
  -- the loop writes at offset `m_position % m_baseSize` of the part from `m_cur` on
  have hnew : bytes (ba.nodes.take ba.cur ++ chain) =
      overwrite (bytes ba.nodes) ba.position buf := by
    rw [bytes_append, hchain, hsplit]
    conv_rhs => rw [hoff, ← htake, overwrite_append_right]
  have hcount : (ba.nodes.take ba.cur ++ chain).length = ba.nodes.length := by
    have := h.cur_le
    simp only [List.length_append, List.length_take, hlen, List.length_drop]
    omega
  refine ⟨chain, hrun, hnew, ?_⟩
  exact {
    base_pos := hB
    root := by
      rw [← List.length_pos_iff, hcount]
      exact List.length_pos_iff.mpr h.root
    nodes_size := (h.nodes_size.take _).append hall
    capacity_eq := by
      rw [hcount]
      exact h.capacity_eq
    position_le := Nat.le_max_right _ _
    size_le := Nat.max_le.mpr ⟨hsize, hroom⟩
    cur_eq := rfl }

/-- On a well-formed state whose cursor fits, `write` overwrites the content at the position,
extending it when the end is passed, and moves the position behind the bytes written. -/
theorem write_eq (h : WellFormed ba) (buf : List UInt8) (hcur : buf = [] ∨ CursorFits ba) :
    ∃ ba', (write buf).run ba = .ok () ba' ∧ WellFormed ba' ∧
      ba'.content = overwrite ba.content ba.position buf ∧
      ba'.position = ba.position + buf.length ∧
      ba'.size = max ba.size (ba.position + buf.length) ∧ ba'.baseSize = ba.baseSize := by
  have hposle := h.position_le
  by_cases hempty : buf = []
  · subst hempty
    exact ⟨ba, rfl, h, by simp, rfl, by simp [h.position_le], rfl⟩
  · have hpos : 0 < buf.length := List.length_pos_iff.mpr hempty
    obtain ⟨added, hwf, hnodes, hroom, hsize, hposition, hbase⟩ :=
      addCapacity_eq h (hcur.resolve_left hempty) hpos
    set grown := addCapacity buf.length ba with hgrown
    have hbytes := hwf.length_bytes
    obtain ⟨chain, hrun, hnew, hwritten⟩ := hwf.writeLoop_eq hpos (by omega)
    -- the new nodes lie behind the old content, so that only the write itself extends it
    have hcontent : (overwrite (bytes grown.nodes) grown.position buf).take
        (max grown.size (grown.position + buf.length)) =
        overwrite ba.content ba.position buf := by
      rw [take_overwrite _ _ hwf.position_le (by omega) (by omega), hsize, hposition, content,
        hnodes, bytes_append,
        List.take_append_of_le_length (by rw [h.length_bytes]; exact h.size_le)]
    refine ⟨_, ?_, hwritten, ?_, ?_, ?_, hbase⟩
    · have hnot : ¬ buf.length ≤ 0 := by omega
      simp only [EStateM.run, write, hnot, if_false, ← hgrown, hrun]
      split_ifs with hgt
      · rw [Nat.max_eq_right (by omega)]
      · rw [Nat.max_eq_left (by omega)]
    · rw [content, hnew, hcontent]
    · rw [hposition]
    · rw [hsize, hposition]

/-- On a well-formed state, `read` of at least one available byte returns the slice of the
content at the position and moves the position behind it. -/
theorem read_eq (h : WellFormed ba) {n : ℕ} (hn : 0 < n) (havail : ba.position + n ≤ ba.size) :
    ∃ ba', (read n).run ba = .ok ((ba.content.drop ba.position).take n) ba' ∧ WellFormed ba' ∧
      ba'.content = ba.content ∧ ba'.position = ba.position + n ∧ ba'.size = ba.size ∧
      ba'.baseSize = ba.baseSize := by
  have hsize := h.size_le
  have hB := h.base_pos
  have hbytes := h.length_bytes
  have hoff : ba.position = ba.cur * ba.baseSize + ba.position % ba.baseSize := by
    rw [h.cur_eq, Nat.div_add_mod']
  have hdrop : bytes (ba.nodes.drop ba.cur) = (bytes ba.nodes).drop (ba.cur * ba.baseSize) :=
    bytes_drop h.nodes_size h.cur_le
  -- there is a byte left to read, so the position is not at the end of the last node
  have hnonnull : ba.nodes.drop ba.cur ≠ [] := by
    have hne : ba.cur ≠ ba.nodes.length := by
      rw [ne_eq, h.cur_eq_length_iff]
      omega
    have := h.cur_le
    rw [ne_eq, List.drop_eq_nil_iff]
    omega
  have hrun := readLoop_eq (ba.nodes.drop ba.cur) ba.cur ba.position
    (ba.position % ba.baseSize) n (h.nodes_size.drop _) hnonnull (Nat.mod_lt _ hB)
    (by rw [hdrop, List.length_drop]; omega)
  -- the slice lies inside the content
  have hslice : ((bytes (ba.nodes.drop ba.cur)).drop (ba.position % ba.baseSize)).take n =
      (ba.content.drop ba.position).take n := by
    rw [hdrop, List.drop_drop, ← hoff, content, List.drop_take, List.take_take,
      Nat.min_eq_left (by omega)]
  have hcurEnd : ba.cur + (ba.position % ba.baseSize + n) / ba.baseSize =
      (ba.position + n) / ba.baseSize := by
    conv_rhs => rw [hoff, Nat.add_assoc, Nat.add_comm (ba.cur * _), Nat.add_mul_div_right _ _ hB]
    rw [Nat.add_comm]
  refine ⟨{ ba with
    cur := ba.cur + (ba.position % ba.baseSize + n) / ba.baseSize
    position := ba.position + n }, ?_, ?_, rfl, rfl, rfl, rfl⟩
  · have hnot : ¬ n > ba.getReadSize := by
      rw [h.getReadSize_eq]
      omega
    simp only [EStateM.run, read, hnot, if_false, hrun, hslice]
  · exact { h with position_le := havail, cur_eq := hcurEnd }

/-- `read` of more bytes than are available throws and changes nothing. -/
theorem read_eq_outOfRange (h : WellFormed ba) {n : ℕ} (hn : ba.size < ba.position + n) :
    (read n).run ba = .error .outOfRange ba := by
  have hposition := h.position_le
  have hgt : n > ba.getReadSize := by
    rw [h.getReadSize_eq]
    omega
  simp only [EStateM.run, read, hgt, if_true]

/-- On a well-formed state, `setPosition` to a position inside the capacity moves the position
there, extending the content when it lies behind it. -/
theorem setPosition_eq (h : WellFormed ba) {v : ℕ} (hv : v < ba.capacity) :
    ∃ ba', (setPosition v).run ba = .ok () ba' ∧ WellFormed ba' ∧ ba'.nodes = ba.nodes ∧
      ba'.position = v ∧ ba'.size = max ba.size v ∧ ba'.baseSize = ba.baseSize := by
  have hsize := h.size_le
  have hseek := seek_eq ba.nodes v 0 h.nodes_size (h.capacity_eq ▸ hv)
  have hnot : ¬ v > ba.capacity := by omega
  refine ⟨{ ba with position := v, size := max ba.size v, cur := v / ba.baseSize }, ?_, ?_, rfl,
    rfl, rfl, rfl⟩
  · simp only [EStateM.run, setPosition, hnot, if_false]
    split_ifs with hgt
    · simp only [hseek, Nat.zero_add, Nat.max_eq_right hgt.le]
    · simp only [hseek, Nat.zero_add, Nat.max_eq_left (Nat.not_lt.mp hgt)]
  · exact { h with
      position_le := Nat.le_max_right _ _
      size_le := by dsimp only; omega
      cur_eq := rfl }

/-- `clear` empties the array and keeps its root node. -/
theorem clear_eq (h : WellFormed ba) :
    ∃ ba', clear.run ba = .ok () ba' ∧ WellFormed ba' ∧ ba'.content = [] ∧ ba'.position = 0 ∧
      ba'.size = 0 ∧ ba'.baseSize = ba.baseSize := by
  have hroot := List.length_pos_iff.mpr h.root
  have hone : (ba.nodes.take 1).length = 1 := by
    rw [List.length_take]
    omega
  refine ⟨_, rfl, ?_, rfl, rfl, rfl, rfl⟩
  exact {
    base_pos := h.base_pos
    root := by
      rw [← List.length_pos_iff, hone]
      exact Nat.one_pos
    nodes_size := h.nodes_size.take 1
    capacity_eq := by
      dsimp only
      rw [hone, Nat.one_mul]
    position_le := Nat.le_refl _
    size_le := Nat.zero_le _
    cur_eq := (Nat.zero_div _).symm }

end Sylar.ByteArray
