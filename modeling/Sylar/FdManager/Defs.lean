import Mathlib.Algebra.Group.Nat.Defs
import Mathlib.Data.List.Basic
import Mathlib.Order.Lattice

/-!
# `FdManager` — the contexts of file descriptors

Model of `socket/fdManager.{h,cpp}`. `get` is cut into its two locked sections (`getShared`,
`getExclusive`), each of which is one step for other threads.

Representation:

* a file descriptor is a natural number; `get(-1)` returns a null pointer and changes nothing;
* contexts live on a heap `ctxs`, in the order in which they were created. A pointer is an index
  into it, and the null pointer in a slot of `m_datas` is `none`;
* the casts of `m_datas.size()` to `int` wrap (`intSize`).
-/

namespace Sylar

/-- The fields of `FdCtx`. -/
structure FdCtx where
  isInit : Bool
  isSocket : Bool
  sysNonblock : Bool
  userNonblock : Bool
  isClosed : Bool
  fd : ℕ
  recvTimeout : UInt64
  sendTimeout : UInt64
  deriving DecidableEq, Repr

/-- `FdManager::m_datas`, and the contexts that its pointers point to. -/
structure FdManager where
  datas : List (Option ℕ)
  ctxs : List FdCtx
  valid : ∀ p, some p ∈ datas → p < ctxs.length

/-- `(int)size` for a `size_t`. -/
def intSize (size : ℕ) : ℤ := (BitVec.ofNat 32 size).toInt

/-- A size below `2^31` survives the cast to `int`. -/
theorem intSize_eq {size : ℕ} (h : size < 2 ^ 31) : intSize size = size := by
  rw [intSize, BitVec.toInt_ofNat']
  exact Int.bmod_eq_of_le (by omega) (by omega)

/-- A size is not below what its conversion makes of it. -/
theorem intSize_le (size : ℕ) : intSize size ≤ size := by
  have hmod := Nat.mod_le size (2 ^ 32)
  rw [intSize, BitVec.toInt_eq_toNat_cond, BitVec.toNat_ofNat]
  split <;> omega

/-- `std::vector::resize(n)` for a vector of pointers. -/
def resize (n : ℕ) (datas : List (Option ℕ)) : List (Option ℕ) :=
  datas.take n ++ List.replicate (n - datas.length) none

/-- `resize` sets the length. -/
@[simp]
theorem length_resize (n : ℕ) (datas : List (Option ℕ)) : (resize n datas).length = n := by
  rw [resize, List.length_append, List.length_take, List.length_replicate]
  omega

/-- It adds no contexts. -/
theorem mem_of_mem_resize {n : ℕ} {datas : List (Option ℕ)} {p : ℕ}
    (h : some p ∈ resize n datas) : some p ∈ datas := by
  obtain h | h := List.mem_append.1 h
  · exact List.mem_of_mem_take h
  · cases List.eq_of_mem_replicate h

/-- A slot keeps its pointer as long as it exists. -/
theorem getElem?_resize_join {n fd : ℕ} (datas : List (Option ℕ)) (h : fd < n) :
    (resize n datas)[fd]?.join = datas[fd]?.join := by
  by_cases hfd : fd < datas.length
  · rw [resize, List.getElem?_append_left (by rw [List.length_take]; omega), List.getElem?_take,
      if_pos h]
  · rw [resize, List.getElem?_append_right (by rw [List.length_take]; omega),
      List.getElem?_eq_none (by omega : datas.length ≤ fd), List.getElem?_replicate]
    split <;> rfl

namespace FdCtx

/-- `FdCtx::setUserNonblock(v)`. -/
def setUserNonblock (ctx : FdCtx) (v : Bool) : FdCtx := { ctx with userNonblock := v }

/-- The option names of `setTimeout`. -/
inductive Timeout
  | SO_RCVTIMEO
  | SO_SNDTIMEO
  deriving DecidableEq, Repr

/-- `FdCtx::setTimeout(type, v)`. -/
def setTimeout (ctx : FdCtx) (type : Timeout) (v : UInt64) : FdCtx :=
  match type with
  | .SO_RCVTIMEO => { ctx with recvTimeout := v }
  | .SO_SNDTIMEO => { ctx with sendTimeout := v }

/-- `FdCtx::getTimeout(type)`. -/
def getTimeout (ctx : FdCtx) (type : Timeout) : UInt64 :=
  if type = .SO_RCVTIMEO then ctx.recvTimeout else ctx.sendTimeout

end FdCtx

namespace FdManager

/-- `FdManager::FdManager()`. -/
def new : FdManager where
  datas := List.replicate 64 none
  ctxs := []
  valid := fun p h => by simpa using List.eq_of_mem_replicate h

/-- `m_datas[fd]`. -/
def slot (m : FdManager) (fd : ℕ) : Option ℕ := m.datas[fd]?.join

/-- The first section of `get(fd, auto_create)`: the pointer it returns, unless it goes on to the
second section. -/
def getShared (m : FdManager) (fd : ℕ) (auto_create : Bool) : Option (Option ℕ) :=
  -- `(int)m_datas.size() <= fd`
  if intSize m.datas.length ≤ fd then
    if auto_create = false then some none else none
  else if (m.slot fd).isSome || !auto_create then some (m.slot fd)
  else none

/-- `m_datas` with a slot for `fd`, in the second section. -/
def grown (m : FdManager) (fd : ℕ) : List (Option ℕ) :=
  if intSize m.datas.length ≤ fd then resize (fd * 3 / 2) m.datas else m.datas

/-- The second section of `get(fd, auto_create)`, which returns the new context `ctx` and stores
it, or writes behind the end of `m_datas`. -/
def getExclusive (m : FdManager) (fd : ℕ) (ctx : FdCtx) : Option (ℕ × FdManager) :=
  if fd < (m.grown fd).length then
    some (m.ctxs.length,
      { datas := (m.grown fd).set fd (some m.ctxs.length)
        ctxs := m.ctxs ++ [ctx]
        valid := by
          intro p hp
          rw [List.length_append]
          obtain hp | hp := List.mem_or_eq_of_mem_set hp
          · have hold : some p ∈ m.datas := by
              rw [grown] at hp
              split at hp
              · exact mem_of_mem_resize hp
              · exact hp
            exact Nat.lt_add_right _ (m.valid p hold)
          · rw [Option.some_inj.1 hp]
            exact Nat.lt_add_one _ })
  else none

/-- The context that a call `get(fd)` finds. -/
def lookup (m : FdManager) (fd : ℕ) : Option (ℕ × FdCtx) :=
  (m.getShared fd false).join.bind fun p => m.ctxs[p]?.map (p, ·)

/-- `FdManager::del(fd)`. -/
def del (m : FdManager) (fd : ℕ) : FdManager where
  datas := if intSize m.datas.length ≤ fd then m.datas else m.datas.set fd none
  ctxs := m.ctxs
  valid := by
    intro p hp
    split at hp
    · exact m.valid p hp
    · obtain hp | hp := List.mem_or_eq_of_mem_set hp
      · exact m.valid p hp
      · cases hp

/-- A call through a pointer. -/
def modify (m : FdManager) (p : ℕ) (f : FdCtx → FdCtx) : FdManager where
  datas := m.datas
  ctxs := m.ctxs.modify p f
  valid := by
    rw [List.length_modify]
    exact m.valid

/-! ## The slots after a call -/

/-- What the first section returns is in the slot. -/
theorem slot_of_getShared {m : FdManager} {fd p : ℕ} {auto_create : Bool}
    (h : m.getShared fd auto_create = some (some p)) : m.slot fd = some p := by
  rw [getShared] at h
  split at h
  · split at h
    · cases h
    · cases h
  · split at h
    · exact Option.some_inj.1 h
    · cases h

/-- A slot points to a context that has been created. -/
theorem slot_lt (m : FdManager) {fd p : ℕ} (h : m.slot fd = some p) : p < m.ctxs.length := by
  refine m.valid p (List.mem_of_getElem? (i := fd) ?_)
  rw [slot] at h
  exact Option.join_eq_some_iff.1 h

/-- What a later call finds after a call through a pointer. -/
theorem lookup_modify (m : FdManager) (fd p : ℕ) (f : FdCtx → FdCtx) :
    (m.modify p f).lookup fd =
      (m.lookup fd).map fun (q, ctx) => (q, if q = p then f ctx else ctx) := by
  change ((m.getShared fd false).join.bind fun q => (m.ctxs.modify p f)[q]?.map (q, ·)) = _
  rw [lookup, Option.map_bind]
  refine congrArg _ (funext fun q => ?_)
  rw [List.getElem?_modify]
  by_cases hq : p = q
  · subst hq
    cases hctx : m.ctxs[p]? <;> simp [hctx]
  · cases hctx : m.ctxs[q]? <;> simp [hctx, hq, Ne.symm hq]

/-- `del` does not change the length of the table. -/
@[simp]
theorem length_del (m : FdManager) (fd : ℕ) : (m.del fd).datas.length = m.datas.length := by
  change (if intSize m.datas.length ≤ fd then m.datas else m.datas.set fd none).length = _
  split
  · rfl
  · exact List.length_set

/-- The second section, when it returns, has had room for the new pointer. -/
theorem getExclusive_datas {m m' : FdManager} {fd p : ℕ} {ctx : FdCtx}
    (h : m.getExclusive fd ctx = some (p, m')) :
    fd < (m.grown fd).length ∧ p = m.ctxs.length ∧ m'.datas = (m.grown fd).set fd (some p) ∧
      m'.ctxs = m.ctxs ++ [ctx] := by
  rw [getExclusive] at h
  split at h
  case isFalse => cases h
  case isTrue hlt =>
    cases h
    exact ⟨hlt, rfl, rfl, rfl⟩

/-- The second section returns a pointer that has not been in use, and stores it. -/
theorem getExclusive_eq_some {m m' : FdManager} {fd p : ℕ} {ctx : FdCtx}
    (h : m.getExclusive fd ctx = some (p, m')) :
    p = m.ctxs.length ∧ m'.slot fd = some p ∧ m'.ctxs = m.ctxs ++ [ctx] := by
  obtain ⟨hlt, hp, hdatas, hctxs⟩ := getExclusive_datas h
  refine ⟨hp, ?_, hctxs⟩
  rw [slot, hdatas, List.getElem?_set_self hlt]
  rfl

/-! ## While the size of the vector fits an `int` -/

variable {m m' : FdManager} (hsize : m.datas.length < 2 ^ 31)

include hsize

/-- The first section returns what is in the slot. -/
theorem getShared_eq (fd : ℕ) (auto_create : Bool) : m.getShared fd auto_create =
    if (m.slot fd).isSome || !auto_create then some (m.slot fd) else none := by
  rw [getShared, intSize_eq hsize]
  split
  case isTrue hfd =>
    -- without a slot there is no pointer
    have hslot : m.slot fd = none := by
      rw [slot, List.getElem?_eq_none (by omega)]
      rfl
    cases auto_create <;> simp [hslot]
  case isFalse => rfl

/-- A call `get(fd)` finds the context in the slot. -/
theorem lookup_eq (fd : ℕ) :
    m.lookup fd = (m.slot fd).bind fun p => m.ctxs[p]?.map (p, ·) := by
  rw [lookup, getShared_eq hsize]
  simp

/-- It finds nothing only in an empty slot. -/
theorem slot_eq_none_of_lookup {fd : ℕ} (h : m.lookup fd = none) : m.slot fd = none := by
  rw [lookup_eq hsize] at h
  cases hp : m.slot fd with
  | none => rfl
  | some p => simp [hp, List.getElem?_eq_getElem (m.slot_lt hp)] at h

/-- The table grows when the descriptor is outside. -/
theorem grown_eq (fd : ℕ) :
    m.grown fd = if m.datas.length ≤ fd then resize (fd * 3 / 2) m.datas else m.datas := by
  rw [grown, intSize_eq hsize]
  simp

/-- The second section leaves the other slots alone. -/
theorem slot_getExclusive {fd p : ℕ} {ctx : FdCtx}
    (h : m.getExclusive fd ctx = some (p, m')) {fd' : ℕ} (hne : fd' ≠ fd) :
    m'.slot fd' = m.slot fd' := by
  obtain ⟨hlt, -, hdatas, -⟩ := getExclusive_datas h
  rw [slot, hdatas, List.getElem?_set_ne (Ne.symm hne), slot, grown_eq hsize]
  rw [grown_eq hsize] at hlt
  split
  case isFalse => rfl
  case isTrue hgrow =>
    -- `fd * 3 / 2` may be less than the size was, but only slots without a pointer are lost
    rw [if_pos hgrow, length_resize] at hlt
    by_cases hfd' : fd' < fd * 3 / 2
    · exact getElem?_resize_join m.datas hfd'
    · rw [List.getElem?_eq_none (by rw [length_resize]; omega),
        List.getElem?_eq_none (by omega : m.datas.length ≤ fd')]

/-- It stays below `2^31` entries. -/
theorem length_getExclusive {fd p : ℕ} {ctx : FdCtx}
    (h : m.getExclusive fd ctx = some (p, m')) (hfd : fd * 3 / 2 < 2 ^ 31) :
    m'.datas.length < 2 ^ 31 := by
  obtain ⟨-, -, hdatas, -⟩ := getExclusive_datas h
  rw [hdatas, List.length_set, grown_eq hsize]
  split
  · rwa [length_resize]
  · exact hsize

/-- `del` empties one slot. -/
theorem slot_del (fd fd' : ℕ) :
    (m.del fd).slot fd' = if fd' = fd then none else m.slot fd' := by
  have hdatas : (m.del fd).datas = m.datas.set fd none := by
    change (if intSize m.datas.length ≤ fd then m.datas else m.datas.set fd none) = _
    rw [intSize_eq hsize]
    split
    case isTrue hfd => exact (List.set_eq_of_length_le (by omega)).symm
    case isFalse => rfl
  rw [slot, slot, hdatas, List.getElem?_set]
  by_cases hfd : fd' = fd
  · subst hfd
    by_cases hlt : fd' < m.datas.length
    · simp [hlt]
    · simp [hlt]
  · simp [hfd, Ne.symm hfd]

end FdManager

end Sylar
