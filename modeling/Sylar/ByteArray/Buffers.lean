import Sylar.ByteArray.Append
import Sylar.ByteArray.Overwrite

/-!
# `ByteArray` — buffers for scattered input

Model of `getWriteBuffers`, of the read at a given position, of `toString`, and of the loop of
`EchoServer::handleClient`, which lets the kernel store what it receives directly in the nodes.

An `iovec` is a node together with an offset and a length. `Contiguous` says that buffers cover
the memory of the nodes without a gap; `iovecLoop_eq` shows it of those that the loop of
`getWriteBuffers` returns, and `fillNodes_eq` what a writer does who fills such buffers in order.

`setPosition` accepts the capacity itself as a position, and then runs off the end of the list. So
what was received comes out of `toString` unless it fills the last node (`receiveLaw_iff`).
-/

namespace Sylar.ByteArray

open Slice Transition

/-! ## Model -/

/-- The fields of `struct iovec`: the pointer `iov_base` is a node of the list with an offset. -/
structure Iovec where
  node : ℕ
  offset : ℕ
  iov_len : ℕ
  deriving DecidableEq, Repr

/-- The loop that collects buffers. The list holds the nodes from `cur` on, whose head is
dereferenced before the loop is entered. -/
def iovecLoop : List Node → ℕ → ℕ → ℕ → Except Fault (List Iovec)
  | [], _, _, _ => .error .nullNode
  | node :: rest, cur, npos, len =>
    let ncap := node.size - npos
    if len = 0 then return []
    else if ncap ≥ len then return [⟨cur, npos, len⟩]
    else do
      let buffers ← iovecLoop rest (cur + 1) 0 (len - ncap)
      return ⟨cur, npos, ncap⟩ :: buffers

/-- `ByteArray::getWriteBuffers(buffers, len)`; the result is what becomes of `buffers`, and the
value returned. -/
def getWriteBuffers (buffers : List Iovec) (len : ℕ) : Op (List Iovec × ℕ) := fun ba =>
  if len = 0 then .ok (buffers, 0) ba
  else
    let ba := addCapacity len ba
    match iovecLoop (ba.nodes.drop ba.cur) ba.cur (ba.position % ba.baseSize) len with
    | .error fault => .error fault ba
    | .ok added => .ok (buffers ++ added, len) ba

/-- `ByteArray::read(buf, size, st)`, which walks from `m_cur` as `read` does, with variables of
its own. -/
def readAt (size st : ℕ) : Op (List UInt8) := fun ba =>
  if size > subSize ba.size st then .error .outOfRange ba
  else
    match readLoop (ba.nodes.drop ba.cur) ba.cur st (st % ba.baseSize) size with
    | .error fault => .error fault ba
    | .ok (buf, _, _) => .ok buf ba

/-- `ByteArray::toString()`. -/
def toString : Op (List UInt8) := fun ba =>
  let size := ba.getReadSize
  if size = 0 then .ok [] ba else readAt size ba.position ba

/-- Bytes stored in the first places that buffers describe, in order. -/
def fillNodes : List Iovec → List UInt8 → List Node → Except Fault (List Node)
  | [], _, nodes => .ok nodes
  | iov :: iovs, bs, nodes =>
    match nodes[iov.node]? with
    | none => .error .nullNode
    | some node => do
      let node ← node.store iov.offset (bs.take iov.iov_len)
      fillNodes iovs (bs.drop iov.iov_len) (nodes.set iov.node node)

/-- `recv` on the buffers, when it stores these bytes. -/
def recv (buffers : List Iovec) (received : List UInt8) : Op Unit := fun ba =>
  match fillNodes buffers received ba.nodes with
  | .error fault => .error fault ba
  | .ok nodes => .ok () { ba with nodes := nodes }

/-- One iteration of the loop of `EchoServer::handleClient` with buffers for `len` bytes, when
`recv` stores `received`; the result is the string that is printed. -/
def receive (len : ℕ) (received : List UInt8) : Op (List UInt8) := do
  clear
  let (buffers, _) ← getWriteBuffers [] len
  recv buffers received
  let ba ← get
  setPosition (ba.getPosition + received.length)
  setPosition 0
  toString

/-- What was received comes out of `toString`. -/
def ReceiveLaw (ba : ByteArray) (len : ℕ) (received : List UInt8) : Prop :=
  ∃ ba', (receive len received).run ba = .ok received ba'

/-! ## Buffers as parts of the memory -/

/-- The buffers cover the memory of `count` nodes of size `B` from position `p` on, without a
gap. -/
def Contiguous (B count : ℕ) : ℕ → List Iovec → Prop
  | _, [] => True
  | p, iov :: iovs => iov.node < count ∧ iov.offset + iov.iov_len ≤ B ∧
      iov.node * B + iov.offset = p ∧ Contiguous B count (p + iov.iov_len) iovs

/-- The loop over the nodes from `cur` on returns buffers of `len` bytes from offset `npos` on. -/
theorem iovecLoop_eq {B count : ℕ} (chain : List Node) (cur npos len : ℕ)
    (hchain : AllSize B chain) (hcount : cur + chain.length = count) (hnpos : npos < B)
    (hlen : 0 < len) (hfit : npos + len ≤ (bytes chain).length) :
    ∃ iovs, iovecLoop chain cur npos len = .ok iovs ∧
      Contiguous B count (cur * B + npos) iovs ∧ (iovs.map Iovec.iov_len).sum = len := by
  induction chain generalizing cur npos len with
  | nil =>
    simp only [bytes_nil, List.length_nil] at hfit
    omega
  | cons node rest ih =>
    obtain ⟨hnode, hrest⟩ := AllSize.cons_iff.mp hchain
    have hdata := node.data_length
    rw [List.length_cons] at hcount
    rw [iovecLoop, hnode]
    by_cases hcap : B - npos ≥ len
    · simp only [hlen.ne', hcap, if_true, if_false]
      exact ⟨_, rfl, ⟨by dsimp only; omega, by dsimp only; omega, rfl, trivial⟩, by simp⟩
    · -- the rest of this node, and then the next ones from their beginning
      rw [bytes_cons, List.length_append] at hfit
      obtain ⟨iovs, hloop, hcont, hsum⟩ :=
        ih (cur + 1) 0 (len - (B - npos)) hrest (by omega) (by omega) (by omega) (by omega)
      simp only [hlen.ne', hcap, if_false, hloop]
      refine ⟨_, rfl, ⟨by dsimp only; omega, by dsimp only; omega, rfl, ?_⟩, ?_⟩
      · have hnext : (cur + 1) * B + 0 = cur * B + npos + (B - npos) := by
          rw [Nat.succ_mul]
          omega
        rwa [hnext] at hcont
      · rw [List.map_cons, List.sum_cons, hsum]
        dsimp only
        omega

/-- Storing bytes in one node overwrites a part of the memory. -/
theorem bytes_set {B : ℕ} {nodes : List Node} (hnodes : AllSize B nodes) {i npos : ℕ} {node : Node}
    (hi : nodes[i]? = some node) {bs : List UInt8} {node' : Node}
    (hdata : node'.data = overwrite node.data npos bs) (hfit : npos + bs.length ≤ B) :
    bytes (nodes.set i node') = overwrite (bytes nodes) (i * B + npos) bs := by
  obtain ⟨hlt, hget⟩ := List.getElem?_eq_some_iff.mp hi
  have hsplit : nodes = nodes.take i ++ node :: nodes.drop (i + 1) := by
    rw [← hget, List.getElem_cons_drop, List.take_append_drop]
  have hset : nodes.set i node' = nodes.take i ++ node' :: nodes.drop (i + 1) := by
    rw [List.set_eq_take_append_cons_drop, if_pos hlt]
  have hlen : node.data.length = B := by
    rw [node.data_length]
    exact hnodes node (List.mem_of_getElem? hi)
  have htake := length_bytes_take hnodes hlt.le
  calc bytes (nodes.set i node')
      = bytes (nodes.take i) ++ (overwrite node.data npos bs ++ bytes (nodes.drop (i + 1))) := by
        rw [hset, bytes_append, bytes_cons, hdata]
    _ = overwrite (bytes (nodes.take i) ++ (node.data ++ bytes (nodes.drop (i + 1))))
          (i * B + npos) bs := by
        rw [← overwrite_append_left _ _ _ (by omega), ← htake, overwrite_append_right]
    _ = overwrite (bytes nodes) (i * B + npos) bs := by
        conv_rhs => rw [hsplit, bytes_append, bytes_cons]

/-- Filling contiguous buffers in order overwrites the memory from their beginning on. -/
theorem fillNodes_eq {B : ℕ} (iovs : List Iovec) (bs : List UInt8) (nodes : List Node) (p : ℕ)
    (hnodes : AllSize B nodes) (hcont : Contiguous B nodes.length p iovs)
    (hbs : bs.length ≤ (iovs.map Iovec.iov_len).sum) :
    ∃ nodes', fillNodes iovs bs nodes = .ok nodes' ∧ AllSize B nodes' ∧
      nodes'.length = nodes.length ∧ bytes nodes' = overwrite (bytes nodes) p bs := by
  induction iovs generalizing bs nodes p with
  | nil =>
    obtain rfl : bs = [] := List.length_eq_zero_iff.mp (Nat.le_zero.mp hbs)
    exact ⟨nodes, rfl, hnodes, rfl, (overwrite_nil _ _).symm⟩
  | cons iov iovs ih =>
    obtain ⟨hnode, hfit, hstart, hrest⟩ := hcont
    rw [List.map_cons, List.sum_cons] at hbs
    have hi : nodes[iov.node]? = some nodes[iov.node] := List.getElem?_eq_getElem hnode
    have hsize : nodes[iov.node].size = B := hnodes _ (List.getElem_mem hnode)
    have htake : (bs.take iov.iov_len).length ≤ iov.iov_len := List.length_take_le _ _
    obtain ⟨node', hstore, hsize', hdata⟩ :=
      nodes[iov.node].store_eq iov.offset (bs.take iov.iov_len) (by omega)
    have hset := bytes_set hnodes hi hdata (by omega)
    have hall : AllSize B (nodes.set iov.node node') := by
      intro node hmem
      rcases List.mem_or_eq_of_mem_set hmem with hmem | rfl
      · exact hnodes node hmem
      · omega
    obtain ⟨nodes', hrun, hall', hlen', hbytes⟩ :=
      ih (bs.drop iov.iov_len) (nodes.set iov.node node') (p + iov.iov_len) hall
        (by rwa [List.length_set]) (by rw [List.length_drop]; omega)
    refine ⟨nodes', ?_, hall', by rw [hlen', List.length_set], ?_⟩
    · simp only [fillNodes, hi, hstore, bind, Except.bind, hrun]
    · rw [hbytes, hset, hstart]
      by_cases hlong : iov.iov_len ≤ bs.length
      · -- the two writes are one behind the other
        have hlen : (bs.take iov.iov_len).length = iov.iov_len := by
          rw [List.length_take, Nat.min_eq_left hlong]
        have hp : p ≤ (bytes nodes).length := by
          have hle : (iov.node + 1) * B ≤ nodes.length * B := Nat.mul_le_mul_right B hnode
          rw [Nat.succ_mul] at hle
          rw [length_bytes hnodes]
          omega
        conv_rhs => rw [← List.take_append_drop iov.iov_len bs]
        rw [← overwrite_overwrite _ _ _ hp, hlen]
      · rw [List.drop_eq_nil_of_le (by omega), overwrite_nil, List.take_of_length_le (by omega)]

/-! ## The operations -/

/-- The array has a root node of the base size, which is not `0`. No operation changes this:
`rooted_of_run`, `receive_eq`. -/
structure Rooted (ba : ByteArray) : Prop where
  base_pos : 0 < ba.baseSize
  root : ∃ root rest, ba.nodes = root :: rest ∧ root.size = ba.baseSize

variable {ba ba' : ByteArray}

theorem new_rooted {B : ℕ} (hB : 0 < B) (alloc : ℕ → ℕ → UInt8) : Rooted (new B alloc) where
  base_pos := hB
  root := ⟨_, [], rfl, rfl⟩

theorem WellFormed.rooted (h : WellFormed ba) : Rooted ba where
  base_pos := h.base_pos
  root := by
    obtain ⟨root, rest, hnodes⟩ := List.exists_cons_of_ne_nil h.root
    exact ⟨root, rest, hnodes, h.nodes_size root (by simp [hnodes])⟩

theorem bind_eq_ok {ε α β : Type} {x : Except ε α} {f : α → Except ε β} {b : β} :
    (x >>= f) = .ok b ↔ ∃ a, x = .ok a ∧ f a = .ok b := by
  cases x with
  | error fault => exact ⟨fun h => (by cases h), fun ⟨a, ha, _⟩ => (by cases ha)⟩
  | ok a => exact ⟨fun h => ⟨a, rfl, h⟩, fun ⟨a', ha, h⟩ => (by cases ha; exact h)⟩

theorem Node.size_store {node node' : Node} {npos : ℕ} {buf : List UInt8}
    (h : node.store npos buf = .ok node') : node'.size = node.size := by
  rw [Node.store] at h
  split_ifs at h
  cases h
  rfl

/-- The loop of `write` keeps the sizes of the nodes. -/
theorem writeLoop_sizes {chain chain' : List Node} {cur position npos cur' position' : ℕ}
    {buf : List UInt8}
    (h : writeLoop chain cur position npos buf = .ok (chain', cur', position')) :
    chain'.map Node.size = chain.map Node.size := by
  induction chain generalizing chain' cur position npos buf cur' position' with
  | nil => cases h
  | cons node rest ih =>
    rw [writeLoop] at h
    by_cases hcap : node.size - npos ≥ buf.length
    · simp only [hcap, if_true] at h
      obtain ⟨node', hstore, hret⟩ := bind_eq_ok.mp h
      cases hret
      rw [List.map_cons, List.map_cons, Node.size_store hstore]
    · simp only [hcap, if_false] at h
      obtain ⟨node', hstore, hret⟩ := bind_eq_ok.mp h
      obtain ⟨result, hloop, hret⟩ := bind_eq_ok.mp hret
      cases hret
      rw [List.map_cons, List.map_cons, Node.size_store hstore, ih hloop]

theorem rooted_iff : Rooted ba ↔
    0 < ba.baseSize ∧ (ba.nodes.map Node.size).head? = some ba.baseSize := by
  constructor
  · rintro ⟨hbase, root, rest, hnodes, hroot⟩
    exact ⟨hbase, by rw [hnodes, List.map_cons, List.head?_cons, hroot]⟩
  · rintro ⟨hbase, hhead⟩
    cases hnodes : ba.nodes with
    | nil =>
      rw [hnodes] at hhead
      cases hhead
    | cons root rest =>
      rw [hnodes, List.map_cons, List.head?_cons, Option.some_inj] at hhead
      exact ⟨hbase, root, rest, hnodes, hhead⟩

/-- `clear` leaves an empty array of one node. -/
theorem clear_appended (h : Rooted ba) :
    ∃ ba', clear.run ba = .ok () ba' ∧ Appended ba' ∧ ba'.position = 0 ∧ ba'.size = 0 ∧
      ba'.capacity = ba.baseSize ∧ ba'.baseSize = ba.baseSize := by
  obtain ⟨root, rest, hnodes, hroot⟩ := h.root
  have hone : ba.nodes.take 1 = [root] := by rw [hnodes, List.take_succ_cons, List.take_zero]
  refine ⟨_, rfl, ?_, rfl, rfl, rfl, rfl⟩
  exact {
    base_pos := h.base_pos
    root := by simp [hone]
    nodes_size := by simp [hone, AllSize, hroot]
    capacity_eq := by simp [hone]
    position_le := Nat.le_refl _
    size_le := Nat.zero_le _
    cur_eq := (Nat.zero_div _).symm
    position_eq := rfl
    capacity_tight := Or.inl rfl }

theorem Rooted.of_kept (h : Rooted ba)
    (hkept : ba'.nodes = ba.nodes ∧ ba'.baseSize = ba.baseSize) : Rooted ba' :=
  ⟨hkept.2 ▸ h.base_pos, by rw [hkept.1, hkept.2]; exact h.root⟩

/-- `addCapacity` appends nodes. -/
theorem Rooted.addCapacity (h : Rooted ba) (n : ℕ) : Rooted (addCapacity n ba) := by
  obtain ⟨hbase, hroot⟩ := rooted_iff.mp h
  obtain ⟨added, heq, -⟩ :=
    appendNodes_eq ((n - ba.getCapacity + ba.baseSize - 1) / ba.baseSize) ba
  have hgrown : ((ba.nodes ++ added).map Node.size).head? = some ba.baseSize := by
    rw [List.map_append, List.head?_append, hroot]
    rfl
  refine rooted_iff.mpr ?_
  simp only [ByteArray.addCapacity, heq]
  split_ifs
  · exact ⟨hbase, hroot⟩
  · exact ⟨hbase, hroot⟩
  · exact ⟨hbase, hgrown⟩
  · exact ⟨hbase, hgrown⟩

/-- No call changes the size of the root node. -/
theorem Rooted.step {call : Call} (h : Rooted ba) (hst : Step ba call ba') : Rooted ba' := by
  obtain ⟨-, hnext⟩ := hst
  cases call with
  | write buf =>
    have hgrown := h.addCapacity buf.length
    simp only [Call.next, Call.run, EStateM.run, write] at hnext
    set grown := ByteArray.addCapacity buf.length ba
    by_cases hempty : buf.length ≤ 0
    · simp only [hempty, if_true, Option.some_inj] at hnext
      exact hnext ▸ h
    · simp only [hempty, if_false] at hnext
      cases hloop : writeLoop (grown.nodes.drop grown.cur) grown.cur grown.position
          (grown.position % grown.baseSize) buf with
      | error fault =>
        -- thrown or not, the state is the grown one
        simp only [hloop] at hnext
        cases fault <;> simp only [Option.some_inj, reduceCtorEq] at hnext
        exact hnext ▸ hgrown
      | ok result =>
        obtain ⟨chain, cur, position⟩ := result
        obtain ⟨hbase, hroot⟩ := rooted_iff.mp hgrown
        -- the loop keeps the sizes
        have hsizes : (grown.nodes.take grown.cur ++ chain).map Node.size =
            grown.nodes.map Node.size := by
          rw [List.map_append, writeLoop_sizes hloop, ← List.map_append, List.take_append_drop]
        simp only [hloop, Option.some_inj] at hnext
        rw [rooted_iff, ← hnext]
        split_ifs <;> exact ⟨hbase, by rw [hsizes, hroot]⟩
  | read n =>
    refine h.of_kept ?_
    simp only [Call.next, Call.run, EStateM.run_bind] at hnext
    cases hrun : (read n).run ba with
    | error fault ba₁ =>
      obtain rfl := read_error hrun
      rw [hrun] at hnext
      cases fault <;> cases hnext
      exact ⟨rfl, rfl⟩
    | ok buf ba₁ =>
      obtain ⟨-, hnodes, hbase, -⟩ := read_frame hrun
      simp only [hrun, EStateM.run_pure, Option.some_inj] at hnext
      exact hnext ▸ ⟨hnodes, hbase⟩
  | setPosition v =>
    refine h.of_kept ?_
    simp only [Call.next, Call.run] at hnext
    cases hrun : (setPosition v).run ba with
    | error fault ba₁ =>
      have hkept := setPosition_error hrun
      rw [hrun] at hnext
      cases fault <;> cases hnext
      exact hkept
    | ok _ ba₁ =>
      obtain ⟨-, hnodes, hbase, -⟩ := setPosition_frame hrun
      simp only [hrun, Option.some_inj] at hnext
      exact hnext ▸ ⟨hnodes, hbase⟩
  | clear =>
    obtain ⟨ba₁, hrun, h₁, -⟩ := clear_appended h
    simp only [Call.next, Call.run, hrun, Option.some_inj] at hnext
    exact hnext ▸ h₁.toWellFormed.rooted

/-- Every state reached by calls has a root node of the base size. -/
theorem rooted_of_run {B : ℕ} {alloc : ℕ → ℕ → UInt8} {calls : List Call} (hB : 0 < B)
    (hrun : Run Step (new B alloc) calls ba) : Rooted ba :=
  hrun.invariant (new_rooted hB alloc) fun _ _ _ h hst => h.step hst

/-- On an empty array, `getWriteBuffers` returns buffers for the first `len` bytes of the memory,
and leaves no more nodes than these need. -/
theorem getWriteBuffers_eq (h : Appended ba) (hempty : ba.size = 0) {len : ℕ} (hlen : 0 < len) :
    ∃ iovs ba', (getWriteBuffers [] len).run ba = .ok (iovs, len) ba' ∧ WellFormed ba' ∧
      Contiguous ba'.baseSize ba'.nodes.length 0 iovs ∧ (iovs.map Iovec.iov_len).sum = len ∧
      ba'.position = 0 ∧ ba'.size = 0 ∧ ba'.baseSize = ba.baseSize ∧ len ≤ ba'.capacity ∧
      (ba'.capacity = ba.baseSize ∨ ba'.capacity < len + ba.baseSize) := by
  obtain ⟨added, hwf, hnodes, hroom, hsize, hposition, hbase⟩ :=
    addCapacity_eq h.toWellFormed (Or.inr h.position_eq) hlen
  have hcapacity := capacity_addCapacity h.toWellFormed hlen
  have htight := h.capacity_tight
  have hend := h.position_eq
  set grown := addCapacity len ba with hgrown
  -- the position is at the beginning, and so is `m_cur`
  have hzero : grown.position = 0 := by omega
  have hcur : grown.cur = 0 := by rw [hwf.cur_eq, hzero, Nat.zero_div]
  obtain ⟨iovs, hloop, hcont, hsum⟩ :=
    iovecLoop_eq grown.nodes 0 0 len hwf.nodes_size
      (Nat.zero_add _) hwf.base_pos hlen (by rw [hwf.length_bytes]; omega)
  rw [Nat.zero_mul, Nat.zero_add] at hcont
  refine ⟨iovs, grown, ?_, hwf, hcont, hsum, hzero, by omega, hbase, by omega, by omega⟩
  simp only [EStateM.run, getWriteBuffers, hlen.ne', if_false, ← hgrown, hcur, hzero,
    Nat.zero_mod, List.drop_zero, hloop, List.nil_append]

/-- `recv` on buffers for the first bytes of the memory stores there what is received. -/
theorem recv_eq (h : WellFormed ba) {iovs : List Iovec} {received : List UInt8}
    (hcont : Contiguous ba.baseSize ba.nodes.length 0 iovs)
    (hle : received.length ≤ (iovs.map Iovec.iov_len).sum) :
    ∃ ba', (recv iovs received).run ba = .ok () ba' ∧ WellFormed ba' ∧
      bytes ba'.nodes = overwrite (bytes ba.nodes) 0 received ∧ ba'.position = ba.position ∧
      ba'.size = ba.size ∧ ba'.capacity = ba.capacity ∧ ba'.baseSize = ba.baseSize := by
  obtain ⟨nodes', hrun, hall, hlen, hbytes⟩ :=
    fillNodes_eq iovs received ba.nodes 0 h.nodes_size hcont hle
  refine ⟨{ ba with nodes := nodes' }, ?_, ?_, hbytes, rfl, rfl, rfl, rfl⟩
  · simp only [EStateM.run, recv, hrun]
  · exact { h with
      root := by
        rw [← List.length_pos_iff, hlen]
        exact List.length_pos_iff.mpr h.root
      nodes_size := hall
      capacity_eq := by
        dsimp only
        rw [hlen, h.capacity_eq] }

/-- Where `read` returns, so does the read at the position, with the same bytes. -/
theorem readAt_of_read {n : ℕ} {buf : List UInt8} (h : (read n).run ba = .ok buf ba') :
    (readAt n ba.position).run ba = .ok buf ba := by
  simp only [EStateM.run, read, getReadSize] at h
  simp only [EStateM.run, readAt]
  by_cases hgt : n > subSize ba.size ba.position
  · simp only [hgt, if_true] at h
    cases h
  · simp only [hgt, if_false] at h ⊢
    cases hloop : readLoop (ba.nodes.drop ba.cur) ba.cur ba.position
        (ba.position % ba.baseSize) n with
    | error fault =>
      rw [hloop] at h
      cases h
    | ok result =>
      rw [hloop] at h
      cases h
      rfl

/-- `toString` returns what is left to read. -/
theorem toString_eq (h : WellFormed ba) :
    toString.run ba = .ok (ba.content.drop ba.position) ba := by
  have hsize := h.getReadSize_eq
  have hlen := h.length_content
  have hle := h.position_le
  simp only [EStateM.run, toString]
  split_ifs with hzero
  · rw [List.drop_eq_nil_of_le (by omega)]
  · obtain ⟨ba', hrun, -⟩ := read_eq h (n := ba.getReadSize) (by omega) (by omega)
    have hall : (ba.content.drop ba.position).take ba.getReadSize =
        ba.content.drop ba.position :=
      List.take_of_length_le (by rw [List.length_drop]; omega)
    rw [hall] at hrun
    exact readAt_of_read hrun

/-- Behind the last node the loop of `setPosition` meets the null pointer. -/
theorem seek_null {B : ℕ} (nodes : List Node) (cur : ℕ) (hnodes : AllSize B nodes) :
    seek nodes (nodes.length * B) cur = .error .nullNode := by
  induction nodes generalizing cur with
  | nil => rfl
  | cons node rest ih =>
    obtain ⟨hnode, hrest⟩ := AllSize.cons_iff.mp hnodes
    rw [List.length_cons, Nat.succ_mul, seek, hnode, if_pos (Nat.le_add_left _ _),
      Nat.add_sub_cancel, ih _ hrest]

/-- `setPosition` to the capacity runs off the end of the list. -/
theorem setPosition_capacity (h : WellFormed ba) :
    ∃ ba', (setPosition ba.capacity).run ba = .error .nullNode ba' := by
  have hseek := seek_null ba.nodes 0 h.nodes_size
  rw [← h.capacity_eq] at hseek
  simp only [EStateM.run, setPosition, gt_iff_lt, Nat.lt_irrefl, if_false]
  split_ifs
  · exact ⟨_, by rw [hseek]⟩
  · exact ⟨_, by rw [hseek]⟩

/-! ## The receive path -/

/-- `receive` up to the moment when the kernel has stored what was received: it is at the
beginning of the memory, and the nodes are those that the buffers need. -/
theorem receive_stored (h : Rooted ba) {len : ℕ} {received : List UInt8} (hlen : 0 < len)
    (hle : received.length ≤ len) :
    ∃ ba', (receive len received).run ba = (do
        setPosition received.length
        setPosition 0
        toString).run ba' ∧ WellFormed ba' ∧ ba'.size = 0 ∧ ba'.baseSize = ba.baseSize ∧
      (bytes ba'.nodes).take received.length = received ∧ len ≤ ba'.capacity ∧
      (ba'.capacity = len ↔ ba.baseSize ∣ len) := by
  obtain ⟨ba₁, hrun₁, h₁, hposition₁, hsize₁, hcapacity₁, hbase₁⟩ := clear_appended h
  obtain ⟨iovs, ba₂, hrun₂, h₂, hcont, hsum, hposition₂, hsize₂, hbase₂, hroom₂, htight₂⟩ :=
    getWriteBuffers_eq h₁ hsize₁ hlen
  have hfit : received.length ≤ (iovs.map Iovec.iov_len).sum := by omega
  obtain ⟨ba₃, hrun₃, h₃, hbytes₃, hposition₃, hsize₃, hcapacity₃, hbase₃⟩ :=
    recv_eq h₂ hcont hfit
  have hdvd := h₃.dvd_capacity
  rw [hbase₃, hbase₂, hbase₁] at hdvd
  refine ⟨ba₃, ?_, h₃, by omega, by rw [hbase₃, hbase₂, hbase₁], ?_, by omega,
    eq_iff_dvd_of_tight hlen hdvd (by omega) (by omega)⟩
  · simp only [receive, EStateM.run_bind, hrun₁, hrun₂, hrun₃, EStateM.run_get, getPosition,
      hposition₃, hposition₂, Nat.zero_add]
  · rw [hbytes₃, overwrite, List.take_zero, List.nil_append, List.take_left]

/-- What was received fills the buffers and their last node. -/
def FillsNode (B len : ℕ) (received : List UInt8) : Prop := received.length = len ∧ B ∣ len

/-- What was received comes out of `toString`, unless it fills the last node. -/
theorem receive_eq (h : Rooted ba) {len : ℕ} {received : List UInt8} (hpos : 0 < received.length)
    (hle : received.length ≤ len) (hcond : ¬ FillsNode ba.baseSize len received) :
    ∃ ba', (receive len received).run ba = .ok received ba' ∧ Rooted ba' ∧
      ba'.baseSize = ba.baseSize := by
  obtain ⟨ba₁, hrun₁, h₁, hsize₁, hbase₁, hbytes₁, hroom₁, hfull₁⟩ :=
    receive_stored h (by omega) hle
  have hlt : received.length < ba₁.capacity := by
    by_contra hge
    have hcap : ba₁.capacity = len := by omega
    exact hcond ⟨by omega, hfull₁.mp hcap⟩
  obtain ⟨ba₂, hrun₂, h₂, hnodes₂, hposition₂, hsize₂, hbase₂⟩ := setPosition_eq h₁ hlt
  obtain ⟨ba₃, hrun₃, h₃, hcontent₃, hposition₃, -, -, -, hbase₃⟩ := rewind_eq h₂
  have hcontent : ba₃.content = received := by
    rw [hcontent₃, content, hnodes₂, hsize₂, hsize₁, Nat.max_eq_right (Nat.zero_le _), hbytes₁]
  refine ⟨ba₃, ?_, h₃.rooted, by omega⟩
  rw [hrun₁]
  simp only [EStateM.run_bind, hrun₂, hrun₃, toString_eq h₃]
  rw [hposition₃, List.drop_zero, hcontent]

/-- Otherwise a null node is dereferenced: the position is the capacity. -/
theorem receive_null (h : Rooted ba) {len : ℕ} {received : List UInt8}
    (hpos : 0 < received.length) (hcond : FillsNode ba.baseSize len received) :
    ∃ ba', (receive len received).run ba = .error .nullNode ba' := by
  obtain ⟨hlen, hdvd⟩ := hcond
  obtain ⟨ba₁, hrun₁, h₁, -, -, -, -, hfull₁⟩ := receive_stored h (hlen ▸ hpos) hlen.le
  obtain ⟨ba₂, hrun₂⟩ := setPosition_capacity h₁
  rw [hfull₁.mpr hdvd, ← hlen] at hrun₂
  exact ⟨ba₂, by rw [hrun₁, EStateM.run_bind, hrun₂]⟩

/-- What was received, at least one byte and at most `len`, comes out of `toString` exactly when it
is shorter than `len` or the base size does not divide `len`. -/
theorem receiveLaw_iff (ba : ByteArray) (len : ℕ) (received : List UInt8) (h : Rooted ba)
    (hpos : 0 < received.length) (hle : received.length ≤ len) :
    ReceiveLaw ba len received ↔ ¬ (received.length = len ∧ ba.baseSize ∣ len) := by
  constructor
  · rintro ⟨ba', hrun⟩ hcond
    obtain ⟨ba₁, hrun₁⟩ := receive_null h hpos hcond
    rw [hrun₁] at hrun
    cases hrun
  · intro hcond
    obtain ⟨ba', hrun, -⟩ := receive_eq h hpos hle hcond
    exact ⟨ba', hrun⟩

/-- Sixteen bytes are expected and three arrive, in nodes of four bytes. -/
theorem receiveLaw_iff_example :
    ReceiveLaw (new 4 fun _ _ => 0) 16 [1, 2, 3] ↔ ¬ ([1, 2, 3].length = 16 ∧ 4 ∣ 16) :=
  receiveLaw_iff (new 4 fun _ _ => 0) 16 [1, 2, 3] (new_rooted (by decide) _) (by decide)
    (by decide)

/-- Four bytes that fill a node of four bytes do not come out. -/
theorem not_receiveLaw_full : ¬ ReceiveLaw (new 4 fun _ _ => 0) 4 [1, 2, 3, 4] := by
  rintro ⟨ba', hrun⟩
  cases hrun

/-! ## The server's loop -/

/-- The loop of `EchoServer::handleClient` for as long as something is received; the result is what
is printed. -/
def handleClient (len : ℕ) : List (List UInt8) → Op (List (List UInt8))
  | [] => pure []
  | received :: messages => do
    let str ← receive len received
    let strs ← handleClient len messages
    return str :: strs

/-- The server prints what it receives exactly when no message fills the last node. -/
theorem handleClient_iff (h : Rooted ba) (len : ℕ) (messages : List (List UInt8))
    (hmessages : ∀ received ∈ messages, 0 < received.length ∧ received.length ≤ len) :
    (∃ ba', (handleClient len messages).run ba = .ok messages ba') ↔
      ∀ received ∈ messages, ¬ FillsNode ba.baseSize len received := by
  induction messages generalizing ba with
  | nil => exact ⟨fun _ _ hmem => absurd hmem List.not_mem_nil, fun _ => ⟨ba, rfl⟩⟩
  | cons received messages ih =>
    obtain ⟨hpos, hle⟩ := hmessages received (by simp)
    rw [List.forall_mem_cons]
    by_cases hcond : FillsNode ba.baseSize len received
    · -- the loop ends here
      obtain ⟨ba₁, hrun₁⟩ := receive_null h hpos hcond
      refine ⟨fun ⟨ba', hrun⟩ => ?_, fun hall => absurd hcond hall.1⟩
      rw [handleClient, EStateM.run_bind, hrun₁] at hrun
      cases hrun
    · obtain ⟨ba₁, hrun₁, h₁, hbase₁⟩ := receive_eq h hpos hle hcond
      have ih₁ := ih h₁ fun m hm => hmessages m (by simp [hm])
      rw [hbase₁] at ih₁
      rw [← ih₁, handleClient, EStateM.run_bind, hrun₁]
      simp only [hcond, not_false_eq_true, true_and, EStateM.run_bind]
      constructor
      · rintro ⟨ba', hrun⟩
        split at hrun
        · next strs ba₂ hrest =>
          cases hrun
          exact ⟨_, hrest⟩
        · cases hrun
      · rintro ⟨ba', hrest⟩
        exact ⟨ba', by rw [hrest]; rfl⟩

end Sylar.ByteArray
