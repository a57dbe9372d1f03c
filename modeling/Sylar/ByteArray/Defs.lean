import Sylar.Foundation.Size
import Mathlib.Data.List.Basic

/-!
# `ByteArray` — chunk list, cursor and stream operations

Model of `socket/bytearray.{h,cpp}`. The bytes live in a singly linked list of nodes that are all
allocated with `m_baseSize` bytes; `m_cur` points to the node that holds `m_position`.

Representation:

* the list that starts at `m_root` is `nodes`; it is never empty in the source;
* the pointer `m_cur` is the number `cur` of `next` steps from `m_root`, so that `nodes.length`
  stands for the null pointer behind the last node;
* `new char[s]` returns memory with arbitrary contents: `alloc i` is what the `i`-th of the
  allocations still to come will find in its block;
* an operation is a state transformer that may fail, keeping the state it failed in. A thrown
  `std::out_of_range` is `Fault.outOfRange`; `Fault.nullNode` (dereference of a null `Node*`) and
  `Fault.overrun` (`memcpy` past the end of a node) are undefined behaviour in the source.

Sizes are natural numbers, with `size_t` differences (`subSize`). The quotient that `addCapacity`
rounds up in floating point is rounded up exactly.
-/

namespace Sylar

namespace ByteArray

/-- A node of the chunk list: `size` bytes at `data`. The `next` pointer is the node's place in
the list. -/
structure Node where
  size : ℕ
  data : List UInt8
  data_length : data.length = size

/-- Byte orders selectable with `setEndian`. -/
inductive Endian
  | little
  | big
  deriving DecidableEq, Repr

/-- Ways in which an operation does not return. -/
inductive Fault
  | nullNode
  | overrun
  | outOfRange
  deriving DecidableEq, Repr

namespace Node

/-- `new Node(s)`: a node of `s` uninitialised bytes. -/
def new (fill : ℕ → UInt8) (s : ℕ) : Node where
  size := s
  data := (List.range s).map fill
  data_length := by simp

/-- `memcpy(data + npos, buf, |buf|)`. -/
def store (node : Node) (npos : ℕ) (buf : List UInt8) : Except Fault Node :=
  if h : npos + buf.length ≤ node.size then
    .ok {
      size := node.size
      data := node.data.take npos ++ buf ++ node.data.drop (npos + buf.length)
      data_length := by
        have := node.data_length
        simp only [List.length_append, List.length_take, List.length_drop]
        omega }
  else .error .overrun

/-- `memcpy(buf, data + npos, n)`. -/
def load (node : Node) (npos n : ℕ) : Except Fault (List UInt8) :=
  if npos + n ≤ node.size then .ok ((node.data.drop npos).take n) else .error .overrun

end Node

end ByteArray

/-- The fields of `ByteArray`. -/
structure ByteArray where
  baseSize : ℕ
  position : ℕ
  capacity : ℕ
  size : ℕ
  endian : ByteArray.Endian
  nodes : List ByteArray.Node
  cur : ℕ
  /-- Contents found by the allocations still to come. -/
  alloc : ℕ → ℕ → UInt8

namespace ByteArray

/-- Operations on a `ByteArray`. -/
abbrev Op := EStateM Fault ByteArray

/-- `ByteArray::ByteArray(base_size)`. -/
def new (base_size : ℕ) (alloc : ℕ → ℕ → UInt8) : ByteArray where
  baseSize := base_size
  position := 0
  capacity := base_size
  size := 0
  endian := .big
  nodes := [Node.new (alloc 0) base_size]
  cur := 0
  alloc := fun i => alloc (i + 1)

def getPosition (ba : ByteArray) : ℕ := ba.position

def getBaseSize (ba : ByteArray) : ℕ := ba.baseSize

def getReadSize (ba : ByteArray) : ℕ := subSize ba.size ba.position

def getSize (ba : ByteArray) : ℕ := ba.size

/-- The free space behind the content, `m_capacity - m_size`. -/
def getCapacity (ba : ByteArray) : ℕ := subSize ba.capacity ba.size

def isLittleEndian (ba : ByteArray) : Bool := ba.endian = .little

def setEndian (flag : Bool) : Op Unit := fun ba =>
  .ok () { ba with endian := if flag then .little else .big }

/-- The loop of `addCapacity` that appends `num` nodes to the tail of the list. -/
def appendNodes : ℕ → ByteArray → ByteArray
  | 0, ba => ba
  | num + 1, ba =>
    appendNodes num { ba with
      nodes := ba.nodes ++ [Node.new (ba.alloc 0) ba.baseSize]
      capacity := ba.capacity + ba.baseSize
      alloc := fun i => ba.alloc (i + 1) }

/-- `ByteArray::addCapacity`. The pointer `first` to the first new node is the list's old length,
which is also the null pointer that stays in `first` when no node is added. -/
def addCapacity (size : ℕ) (ba : ByteArray) : ByteArray :=
  if size = 0 then ba
  else
    let cap := ba.getCapacity
    if cap ≥ size then ba
    else
      let num := (size - cap + ba.baseSize - 1) / ba.baseSize
      let first := ba.nodes.length
      let ba := appendNodes num ba
      -- the source takes `_cap == 0` for an array that consists of its root
      if cap = 0 then { ba with cur := first } else ba

/-- The loop of `write`. The list holds the nodes from `m_cur` on; the result is their new
contents with the final values of `m_cur` and `m_position`. -/
def writeLoop : List Node → ℕ → ℕ → ℕ → List UInt8 → Except Fault (List Node × ℕ × ℕ)
  | [], _, _, _, _ => .error .nullNode
  | node :: rest, cur, position, npos, buf =>
    let ncap := node.size - npos
    if ncap ≥ buf.length then do
      -- the buffer ends in this node; at the node's end `m_cur` moves on, possibly to null
      let node ← node.store npos buf
      let cur := if ncap - buf.length = 0 then cur + 1 else cur
      return (node :: rest, cur, position + buf.length)
    else do
      -- the node is filled up
      let node ← node.store npos (buf.take ncap)
      let (rest, cur, position) ← writeLoop rest (cur + 1) (position + ncap) 0 (buf.drop ncap)
      return (node :: rest, cur, position)

/-- `ByteArray::write`. -/
def write (buf : List UInt8) : Op Unit := fun ba =>
  if buf.length ≤ 0 then .ok () ba
  else
    let ba := addCapacity buf.length ba
    let npos := ba.position % ba.baseSize
    match writeLoop (ba.nodes.drop ba.cur) ba.cur ba.position npos buf with
    | .error fault => .error fault ba
    | .ok (chain, cur, position) =>
      let ba := { ba with nodes := ba.nodes.take ba.cur ++ chain, cur := cur, position := position }
      -- the content grows with the position
      .ok () (if ba.position > ba.size then { ba with size := ba.position } else ba)

/-- The loop of `read`. The list holds the nodes from `m_cur` on, whose head is dereferenced
before the loop is entered; the result is the bytes copied with the final values of `m_cur` and
`m_position`. -/
def readLoop : List Node → ℕ → ℕ → ℕ → ℕ → Except Fault (List UInt8 × ℕ × ℕ)
  | [], _, _, _, _ => .error .nullNode
  | node :: rest, cur, position, npos, size =>
    let ncap := node.size - npos
    if size = 0 then return ([], cur, position)
    else if ncap ≥ size then do
      -- as in `write`, `m_cur` does not stay at the end of a node
      let buf ← node.load npos size
      let cur := if size = ncap then cur + 1 else cur
      return (buf, cur, position + size)
    else do
      let buf ← node.load npos ncap
      let (buf', cur, position) ← readLoop rest (cur + 1) (position + ncap) 0 (size - ncap)
      return (buf ++ buf', cur, position)

/-- `ByteArray::read(buf, size)`; the result is what it stores at `buf`. -/
def read (size : ℕ) : Op (List UInt8) := fun ba =>
  if size > ba.getReadSize then .error .outOfRange ba
  else
    let npos := ba.position % ba.baseSize
    match readLoop (ba.nodes.drop ba.cur) ba.cur ba.position npos size with
    | .error fault => .error fault ba
    | .ok (buf, cur, position) => .ok buf { ba with cur := cur, position := position }

/-- The loop of `setPosition` that walks from `m_root` to the node holding position `v`. -/
def seek : List Node → ℕ → ℕ → Except Fault ℕ
  | [], _, _ => .error .nullNode
  | node :: rest, v, cur => if v ≥ node.size then seek rest (v - node.size) (cur + 1) else .ok cur

/-- `ByteArray::setPosition`. -/
def setPosition (v : ℕ) : Op Unit := fun ba =>
  if v > ba.capacity then .error .outOfRange ba
  else
    let ba := { ba with position := v }
    -- a position behind the content extends it by whatever the memory holds
    let ba := if ba.position > ba.size then { ba with size := ba.position } else ba
    match seek ba.nodes v 0 with
    | .error fault => .error fault ba
    | .ok cur => .ok () { ba with cur := cur }

/-- `ByteArray::clear`, which keeps the root node only. -/
def clear : Op Unit := fun ba =>
  .ok () { ba with
    position := 0
    size := 0
    capacity := ba.baseSize
    nodes := ba.nodes.take 1
    cur := 0 }

end ByteArray

end Sylar
