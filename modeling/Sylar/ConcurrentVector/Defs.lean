import Mathlib.Algebra.Group.Nat.Defs
import Mathlib.Data.Int.Notation
import Mathlib.Data.List.Basic

/-!
# `ConcurrentVector` — fields and operations

Model of `util/ConcurrentVector.h`. The elements are in `m_vector`, and the accesses to it are
serialised by the mutexes in `m_mtx`: which one, is up to the hash of an index. The module
introduces:

* `ConcurrentVector` — the fields, where `none` in `m_mtx` is a null pointer, and a mutex that
  exists has a state in `M`;
* `count`, `check_mtx`, `stripe` and `mutex` — the steps that the functions are made of;
* `push_back`, `emplace_back`, `set` and `get` (`operator[]`) — the functions on a thread that is
  alone, so that locking a mutex that exists succeeds.

`std::hash<int>` is an argument `hashFunc`. Sizes are natural numbers; what is counted is memory
already allocated, but the product in `check_mtx` wraps around. The constructor is taken with
`granu > 0`, as it asserts, and with memory for what it reserves.
-/

namespace Sylar

/-- The fields of `ConcurrentVector<ItemType>`. -/
structure ConcurrentVector (ItemType M : Type) where
  m_size : ℕ
  m_granu : ℕ
  m_mtx_size : ℕ
  m_vector : List ItemType
  m_mtx : List (Option M)

namespace ConcurrentVector

/-- Ways in which a function does not return: the exception `std::out_of_range` with its text, or
undefined behaviour, which is the dereference of a null pointer in `m_mtx` or the access to an
element behind the last one of `m_vector`. -/
inductive Fault
  | outOfRange (what : String)
  | nullMutex
  | noElement
  deriving DecidableEq, Repr

variable {ItemType M : Type}

/-- The number of mutexes that the constructor makes. -/
def initialStripes (size granu : ℕ) : ℕ := if size / granu > 8 then size / granu else 8

/-- `ConcurrentVector(size, granu)`, which reserves memory for the elements but makes none. A new
mutex is in the state `unlocked`. -/
def new (unlocked : M) (size granu : ℕ) : ConcurrentVector ItemType M where
  m_size := size
  m_granu := granu
  m_mtx_size := initialStripes size granu
  m_vector := []
  m_mtx := List.replicate (initialStripes size granu) (some unlocked)

/-- `size()`. -/
def size (vec : ConcurrentVector ItemType M) : ℕ := vec.m_size

/-- `m_size.fetch_add(1)`. -/
def count (vec : ConcurrentVector ItemType M) : ConcurrentVector ItemType M :=
  { vec with m_size := vec.m_size + 1 }

/-- `check_mtx()`: the pointer that it appends is null. -/
def check_mtx (vec : ConcurrentVector ItemType M) : ConcurrentVector ItemType M :=
  let load := vec.m_mtx_size * vec.m_granu % 2 ^ 64
  if vec.m_size > load then
    { vec with m_mtx := vec.m_mtx ++ [none], m_mtx_size := vec.m_mtx_size + 1 }
  else vec

/-- `hashFunc(x)`, where `x` is converted to `int`. -/
def hash (hashFunc : ℤ → ℕ) (x : ℕ) : ℕ := hashFunc (Int.bmod x (2 ^ 32))

/-- `hashFunc(x) % m_mtx_size`. -/
def stripe (hashFunc : ℤ → ℕ) (vec : ConcurrentVector ItemType M) (x : ℕ) : ℕ :=
  hash hashFunc x % vec.m_mtx_size

/-- `*m_mtx[mtx_idx]`, if there is such a mutex. -/
def mutex (vec : ConcurrentVector ItemType M) (mtx_idx : ℕ) : Option M := vec.m_mtx[mtx_idx]?.join

/-- Functions of a vector. -/
abbrev Op (ItemType M : Type) := EStateM Fault (ConcurrentVector ItemType M)

/-- The common body of `push_back` and `emplace_back`. -/
def append (hashFunc : ℤ → ℕ) (val : ItemType) : Op ItemType M Unit := fun vec =>
  let vec := vec.count.check_mtx
  match vec.mutex (vec.stripe hashFunc vec.m_size) with
  | none => .error .nullMutex vec
  | some _ => .ok () { vec with m_vector := vec.m_vector ++ [val] }

/-- `push_back(val)`. -/
def push_back (hashFunc : ℤ → ℕ) (val : ItemType) : Op ItemType M Unit := append hashFunc val

/-- `emplace_back(val)`. -/
def emplace_back (hashFunc : ℤ → ℕ) (val : ItemType) : Op ItemType M Unit := append hashFunc val

/-- The common beginning of `operator[]` and `set`: the check of the index, whose exception has the
text `what`, and the lock, in front of the access. -/
def access {α : Type} (hashFunc : ℤ → ℕ) (index : ℕ) (what : String) (body : Op ItemType M α) :
    Op ItemType M α := fun vec =>
  if index ≥ vec.m_size then .error (.outOfRange what) vec
  else
    match vec.mutex (vec.stripe hashFunc index) with
    | none => .error .nullMutex vec
    | some _ => body vec

/-- The text of the exception of `operator[]`. -/
def indexText (index : ℕ) : String :=
  "ConcurrentVector[" ++ toString index ++ "] indexout of range"

/-- `operator[](index)`. -/
def get (hashFunc : ℤ → ℕ) (index : ℕ) : Op ItemType M ItemType :=
  access hashFunc index (indexText index) fun vec =>
    match vec.m_vector[index]? with
    | none => .error .noElement vec
    | some val => .ok val vec

/-- The text of the exception of `set`, where `to_string` is `std::to_string` for an element. -/
def setText (to_string : ItemType → String) (index : ℕ) (val : ItemType) : String :=
  "ConcurrentVector::set(" ++ toString index ++ "," ++ to_string val ++ ") index out of range"

/-- `set(index, val)`. -/
def set (hashFunc : ℤ → ℕ) (to_string : ItemType → String) (index : ℕ) (val : ItemType) :
    Op ItemType M Unit :=
  access hashFunc index (setText to_string index val) fun vec =>
    if index < vec.m_vector.length then
      .ok () { vec with m_vector := vec.m_vector.set index val }
    else .error .noElement vec

/-! ## The steps -/

section Steps

variable {vec : ConcurrentVector ItemType M}

/-- `check_mtx` leaves the size as it is. -/
@[simp]
theorem check_mtx_m_size : vec.check_mtx.m_size = vec.m_size := by
  rw [check_mtx]
  split <;> rfl

/-- It leaves the granularity as it is. -/
@[simp]
theorem check_mtx_m_granu : vec.check_mtx.m_granu = vec.m_granu := by
  rw [check_mtx]
  split <;> rfl

/-- It leaves the elements as they are. -/
@[simp]
theorem check_mtx_m_vector : vec.check_mtx.m_vector = vec.m_vector := by
  rw [check_mtx]
  split <;> rfl

/-- Mutexes that exist stay where they are. -/
theorem mutex_check_mtx {mtx_idx : ℕ} {mtx : M} (h : vec.mutex mtx_idx = some mtx) :
    vec.check_mtx.mutex mtx_idx = some mtx := by
  have hat : vec.m_mtx[mtx_idx]? = some (some mtx) := Option.join_eq_some_iff.1 h
  rw [check_mtx]
  split
  · rw [mutex, List.getElem?_append_left (List.getElem?_eq_some_iff.1 hat).1, hat]
    rfl
  · exact h

/-- The table of mutexes grows with the number of elements, if there are few mutexes for it. -/
theorem check_mtx_of_le (h : vec.m_size ≤ vec.m_mtx_size * vec.m_granu % 2 ^ 64) :
    vec.check_mtx = vec :=
  if_neg (Nat.not_lt.2 h)

/-- It adds a null mutex when the mutexes do not reach. -/
theorem check_mtx_of_lt (h : vec.m_mtx_size * vec.m_granu % 2 ^ 64 < vec.m_size) :
    vec.check_mtx =
      { vec with m_mtx := vec.m_mtx ++ [none], m_mtx_size := vec.m_mtx_size + 1 } :=
  if_pos h

end Steps

end ConcurrentVector

end Sylar
