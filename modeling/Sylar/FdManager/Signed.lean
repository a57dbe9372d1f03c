import Sylar.FdManager.Defs
import Sylar.Foundation.Run
import Mathlib.Data.Finset.Basic
import Mathlib.Algebra.Ring.Int.Defs
import Mathlib.Logic.Function.Basic

/-!
# `FdManager` for every `int`

`get` and `del` with the signed descriptors that the hooked functions pass on, on any set of
threads, each call of `get` in its two locked sections. `PartialMap` says what a section of a
partial map does: it stays inside `m_datas`, finds what was created, and changes one entry.
`partial_map_iff` says in which runs all sections do so.

A negative descriptor other than `-1` is compared with the size as it is and then, as an index,
becomes a `size_t` that no vector has room for.
-/

namespace Sylar.FdManager

open Transition

/-- `m_datas[fd]`, or `none` for an access outside `m_datas`. -/
def read (m : FdManager) (fd : Int32) : Option (Option ℕ) :=
  if 0 ≤ fd.toInt then m.datas[fd.toInt.toNat]? else none

/-- How the first section of `get` ends. -/
inductive Ending
  | returns (ctx : Option ℕ)
  /-- The call goes on to the second section. -/
  | continues
  deriving DecidableEq

/-- The first section of `get(fd, auto_create)`, or `none` for an access outside `m_datas`. -/
def getFirst (m : FdManager) (fd : Int32) (auto_create : Bool) : Option Ending :=
  if fd = -1 then some (.returns none)
  else if intSize m.datas.length ≤ fd.toInt then
    if auto_create = false then some (.returns none) else some .continues
  else
    (m.read fd).map fun p => if p.isSome || !auto_create then .returns p else .continues

/-- The second section of `get(fd, auto_create)`, or `none` for an access outside `m_datas`. With a
negative `fd` neither `fd * 1.5` is a size nor `fd` an index. -/
def getSecond (m : FdManager) (fd : Int32) (ctx : FdCtx) : Option (ℕ × FdManager) :=
  if 0 ≤ fd.toInt then m.getExclusive fd.toInt.toNat ctx else none

/-- `del(fd)`, or `none` for an access outside `m_datas`. -/
def delete (m : FdManager) (fd : Int32) : Option FdManager :=
  if intSize m.datas.length ≤ fd.toInt then some m
  else (m.read fd).map fun _ => m.del fd.toInt.toNat

/-- What a call `get(fd)` finds, or `none` for an access outside `m_datas`. -/
def find (m : FdManager) (fd : Int32) : Option Ending := m.getFirst fd false

/-- The manager, the calls between their two sections, and the descriptors created since their last
`del`. Nothing is defined any more after an access outside `m_datas`. -/
structure Signed (T : Type*) where
  manager : FdManager
  creating : T → Option Int32
  created : Finset Int32
  outside : Bool

/-- A section of a call. -/
inductive SignedAction (T : Type*)
  | first (t : T) (fd : Int32) (auto_create : Bool)
  /-- `FdCtx(fd)` initializes the new context as `ctx`. -/
  | second (t : T) (ctx : FdCtx)
  | del (t : T) (fd : Int32)

/-- The size of `m_datas` while it fits an `int`. -/
structure Bounded (m : FdManager) : Prop where
  le_size : 64 ≤ m.datas.length
  size_lt : m.datas.length < 2 ^ 31

/-! ## The sections for a descriptor that is not negative -/

variable {m m' : FdManager} {fd : Int32}

theorem toNat_lt (fd : Int32) : fd.toInt.toNat < 2 ^ 31 := by
  have hlt := fd.toInt_lt
  omega

theorem new_bounded : Bounded new where
  le_size := by
    change 64 ≤ (List.replicate 64 none).length
    rw [List.length_replicate]
  size_lt := by
    change (List.replicate 64 none).length < 2 ^ 31
    rw [List.length_replicate]
    decide

theorem eq_neg_one (hfd : -1 ≤ fd.toInt) (hneg : ¬ 0 ≤ fd.toInt) : fd = -1 := by
  apply Int32.toInt.inj
  change fd.toInt = -1
  omega

theorem find_neg_one (m : FdManager) : m.find (-1) = some (.returns none) := by
  rw [find, getFirst, if_pos rfl]

/-- With a size that an `int` cannot hold, nothing is found. -/
theorem find_of_le_size (hle : 2 ^ 31 ≤ m.datas.length) (hlt : m.datas.length < 2 ^ 32)
    (hfd : 0 ≤ fd.toInt) : m.find fd = some (.returns none) := by
  have hsize : intSize m.datas.length < 0 := by
    rw [intSize, BitVec.toInt_eq_toNat_cond, BitVec.toNat_ofNat]
    split <;> omega
  rw [find, getFirst]
  split
  · rfl
  · rw [if_pos (by omega), if_pos rfl]

namespace Bounded

variable (h : Bounded m)

include h

/-- The first section reads the slot. -/
theorem getFirst_eq (hfd : 0 ≤ fd.toInt) (auto_create : Bool) : m.getFirst fd auto_create =
    some (if (m.slot fd.toInt.toNat).isSome || !auto_create then
      .returns (m.slot fd.toInt.toNat) else .continues) := by
  have hne : fd ≠ -1 := by
    rintro rfl
    exact absurd hfd (by decide)
  rw [getFirst, if_neg hne, intSize_eq h.size_lt]
  split
  case isTrue hlt =>
    -- there is no slot
    have hslot : m.slot fd.toInt.toNat = none := by
      rw [slot, List.getElem?_eq_none (by omega)]
      rfl
    cases auto_create <;> simp only [hslot] <;> rfl
  case isFalse hlt =>
    have hindex : fd.toInt.toNat < m.datas.length := by omega
    have hget : m.datas[fd.toInt.toNat]? = some m.datas[fd.toInt.toNat] :=
      List.getElem?_eq_getElem hindex
    rw [read, if_pos hfd, slot, hget]
    rfl

theorem find_eq (hfd : 0 ≤ fd.toInt) : m.find fd = some (.returns (m.slot fd.toInt.toNat)) := by
  rw [find, h.getFirst_eq hfd]
  simp

/-- A negative descriptor other than `-1` is an access outside `m_datas`. -/
theorem getFirst_eq_none (hfd : fd.toInt < -1) (auto_create : Bool) :
    m.getFirst fd auto_create = none := by
  have hne : fd ≠ -1 := by
    rintro rfl
    exact absurd hfd (by decide)
  have hsize : ¬ intSize m.datas.length ≤ fd.toInt := by
    rw [intSize_eq h.size_lt]
    omega
  rw [getFirst, if_neg hne, if_neg hsize, read, if_neg (by omega)]
  rfl

theorem delete_eq (hfd : 0 ≤ fd.toInt) : m.delete fd = some (m.del fd.toInt.toNat) := by
  rw [delete, intSize_eq h.size_lt]
  split
  case isTrue hle =>
    have hdel : m.del fd.toInt.toNat = m := by
      rw [del]
      simp only [intSize_eq h.size_lt]
      congr
      exact if_pos (by omega)
    rw [hdel]
  case isFalse hlt =>
    rw [read, if_pos hfd, List.getElem?_eq_getElem (by omega)]
    rfl

theorem delete_eq_none (hfd : fd.toInt < 0) : m.delete fd = none := by
  have hsize : ¬ intSize m.datas.length ≤ fd.toInt := by
    rw [intSize_eq h.size_lt]
    omega
  rw [delete, if_neg hsize, read, if_neg (by omega)]
  rfl

theorem del (n : ℕ) : Bounded (m.del n) where
  le_size := by
    rw [length_del]
    exact h.le_size
  size_lt := by
    rw [length_del]
    exact h.size_lt

/-- The second section grows `m_datas` beyond `fd`, so that it has room for the new context. -/
theorem lt_length_grown (n : ℕ) : n < (m.grown n).length := by
  have hsize := h.le_size
  rw [grown_eq h.size_lt]
  split
  case isTrue hle =>
    rw [length_resize]
    omega
  case isFalse hlt => omega

theorem getSecond_eq (hfd : 0 ≤ fd.toInt) (ctx : FdCtx) : ∃ p m',
    m.getSecond fd ctx = some (p, m') ∧ m.getExclusive fd.toInt.toNat ctx = some (p, m') := by
  rw [getSecond, if_pos hfd, getExclusive, if_pos (h.lt_length_grown _)]
  exact ⟨_, _, rfl, rfl⟩

theorem le_length_grown (n : ℕ) : m.datas.length ≤ (m.grown n).length := by
  rw [grown_eq h.size_lt]
  split
  · rw [length_resize]
    omega
  · exact le_rfl

/-- What is found for a negative descriptor does not depend on `m_datas`. -/
theorem find_neg (h' : Bounded m') (hfd : ¬ 0 ≤ fd.toInt) : m'.find fd = m.find fd := by
  by_cases hone : fd = -1
  · rw [hone, find_neg_one, find_neg_one]
  · have hlt : fd.toInt < -1 := by
      rw [← Int32.toInt_inj, show (-1 : Int32).toInt = -1 from rfl] at hone
      omega
    rw [find, find, h.getFirst_eq_none hlt, h'.getFirst_eq_none hlt]

/-- After the second section, only the created descriptor is found otherwise. -/
theorem find_getExclusive {p : ℕ} {ctx : FdCtx} (hfd : 0 ≤ fd.toInt)
    (hget : m.getExclusive fd.toInt.toNat ctx = some (p, m')) (h' : Bounded m') (fd' : Int32) :
    m'.find fd' = if fd' = fd then some (.returns (some p)) else m.find fd' := by
  by_cases hfd' : 0 ≤ fd'.toInt
  · rw [h'.find_eq hfd', h.find_eq hfd']
    split
    case isTrue heq =>
      subst heq
      rw [(getExclusive_eq_some hget).2.1]
    case isFalse hne =>
      -- another descriptor has another slot
      rw [slot_getExclusive h.size_lt hget]
      intro heq
      apply hne
      apply Int32.toInt.inj
      omega
  · rw [h.find_neg h' hfd', if_neg (by rintro rfl; exact hfd' hfd)]

theorem find_del (hfd : 0 ≤ fd.toInt) (fd' : Int32) :
    (m.del fd.toInt.toNat).find fd' = if fd' = fd then some (.returns none) else m.find fd' := by
  by_cases hfd' : 0 ≤ fd'.toInt
  · rw [(h.del _).find_eq hfd', h.find_eq hfd', slot_del h.size_lt]
    by_cases heq : fd' = fd
    · rw [if_pos heq, if_pos (congrArg _ (congrArg _ heq))]
    · rw [if_neg heq, if_neg]
      intro hslot
      apply heq
      apply Int32.toInt.inj
      omega
  · rw [h.find_neg (h.del _) hfd', if_neg (by rintro rfl; exact hfd' hfd)]

end Bounded

/-! ## Runs -/

namespace Signed

variable {T : Type*}

/-- A new manager. -/
def start : Signed T where
  manager := new
  creating := fun _ => none
  created := ∅
  outside := false

/-- The state after a section of a call, if the thread is at that section. -/
def step [DecidableEq T] (s : Signed T) (a : SignedAction T) : Option (Signed T) :=
  if s.outside then none
  else
    match a with
    | .first t fd auto_create =>
      if (s.creating t).isSome then none
      else
        match s.manager.getFirst fd auto_create with
        | none => some { s with outside := true }
        | some (.returns _) => some s
        | some .continues => some { s with creating := Function.update s.creating t (some fd) }
    | .second t ctx =>
      (s.creating t).map fun fd =>
        match s.manager.getSecond fd ctx with
        | none => { s with outside := true }
        | some (_, m) =>
          { s with
            manager := m
            creating := Function.update s.creating t none
            created := insert fd s.created }
    | .del t fd =>
      if (s.creating t).isSome then none
      else
        match s.manager.delete fd with
        | none => some { s with outside := true }
        | some m => some { s with manager := m, created := s.created.erase fd }

/-- What one section of a partial map does: it stays inside `m_datas`; a call without creation
returns null exactly for a descriptor that is not created; creating one makes `m_datas` larger than
it and changes what is found for it alone, and so does `del`. -/
def PartialMap (s : Signed T) (a : SignedAction T) (s' : Signed T) : Prop :=
  s'.outside = false ∧
    match a with
    | .first _ fd auto_create => auto_create = false →
        ∃ p, s.manager.getFirst fd auto_create = some (.returns p) ∧ (p = none ↔ fd ∉ s.created)
    | .second t _ => ∀ fd, s.creating t = some fd →
        fd.toInt < s'.manager.datas.length ∧ ∃ p : ℕ, ∀ fd',
          s'.manager.find fd' = if fd' = fd then some (.returns (some p)) else s.manager.find fd'
    | .del _ fd => ∀ fd',
        s'.manager.find fd' = if fd' = fd then some (.returns none) else s.manager.find fd'

/-- `get` is called for `-1` or a descriptor that is not negative, `del` for one that is not
negative, and where `m_datas` has to grow, an `int` can hold the new size. -/
def InRange (s : Signed T) : SignedAction T → Prop
  | .first _ fd _ => -1 ≤ fd.toInt
  | .second t _ => ∀ fd, s.creating t = some fd →
      s.manager.datas.length ≤ fd.toInt → fd.toInt * 3 / 2 < 2 ^ 31
  | .del _ fd => 0 ≤ fd.toInt

/-- For a descriptor that is not negative, null is found exactly if it is not created. -/
structure Inv (s : Signed T) : Prop where
  inside : s.outside = false
  bounded : Bounded s.manager
  creating : ∀ t fd, s.creating t = some fd → 0 ≤ fd.toInt
  created : ∀ fd ∈ s.created, 0 ≤ fd.toInt
  find : ∀ fd : Int32, 0 ≤ fd.toInt → (s.manager.find fd = some (.returns none) ↔ fd ∉ s.created)

theorem start_inv : Inv (start : Signed T) where
  inside := rfl
  bounded := new_bounded
  creating := fun _ _ h => by cases h
  created := fun _ h => absurd h (Finset.notMem_empty _)
  find := by
    intro fd hfd
    refine iff_of_true ((new_bounded.find_eq hfd).trans ?_) (Finset.notMem_empty fd)
    rw [slot, new, List.getElem?_replicate]
    split <;> rfl

variable [DecidableEq T] {s s' : Signed T} {t : T} {fd : Int32}

omit [DecidableEq T] in
/-- The size after the second section. -/
theorem length_second (h : Inv s) (hfd : 0 ≤ fd.toInt) :
    (s.manager.datas.length ≤ fd.toInt → fd.toInt * 3 / 2 < 2 ^ 31) ↔
      (s.manager.grown fd.toInt.toNat).length < 2 ^ 31 := by
  have hlt := h.bounded.size_lt
  rw [grown_eq hlt]
  split
  case isTrue hle =>
    rw [length_resize]
    omega
  case isFalse hgt => exact iff_of_true (fun hle => absurd hle (by omega)) hlt

omit [DecidableEq T] in
/-- A call without creation finds what is created. -/
theorem Inv.find_spec (h : Inv s) (hfd : -1 ≤ fd.toInt) :
    ∃ p, s.manager.find fd = some (.returns p) ∧ (p = none ↔ fd ∉ s.created) := by
  by_cases hneg : 0 ≤ fd.toInt
  · have hfind := h.find fd hneg
    rw [h.bounded.find_eq hneg] at hfind ⊢
    refine ⟨_, rfl, ?_⟩
    rw [← hfind]
    simp
  · -- `-1` is answered without a look at `m_datas`, and never created
    obtain rfl := eq_neg_one hfd hneg
    exact ⟨none, find_neg_one _, iff_of_true rfl fun hmem => hneg (h.created _ hmem)⟩

omit [DecidableEq T] in
/-- A call that creates goes on if it finds nothing for a descriptor that is not negative. -/
theorem Inv.getFirst_true (h : Inv s) (hfd : -1 ≤ fd.toInt) :
    (∃ p, s.manager.getFirst fd true = some (.returns p)) ∨
      (0 ≤ fd.toInt ∧ s.manager.getFirst fd true = some .continues) := by
  by_cases hneg : 0 ≤ fd.toInt
  · rw [h.bounded.getFirst_eq hneg]
    split
    · exact Or.inl ⟨_, rfl⟩
    · exact Or.inr ⟨hneg, rfl⟩
  · exact Or.inl ⟨none, by rw [getFirst, if_pos (eq_neg_one hfd hneg)]⟩

/-- A first section finds what is created, or makes an access outside `m_datas`. -/
theorem first_spec (h : Inv s) {auto_create : Bool}
    (hst : s.step (.first t fd auto_create) = some s') :
    (-1 ≤ fd.toInt → Inv s') ∧ (-1 ≤ fd.toInt ↔ PartialMap s (.first t fd auto_create) s') := by
  rw [step, h.inside, if_neg Bool.false_ne_true] at hst
  split at hst
  · cases hst
  · by_cases hfd : -1 ≤ fd.toInt
    · obtain ⟨p, hp, hnull⟩ := h.find_spec hfd
      cases auto_create with
      | false =>
        rw [show s.manager.getFirst fd false = _ from hp] at hst
        cases hst
        exact ⟨fun _ => h, iff_of_true hfd ⟨h.inside, fun _ => ⟨p, hp, hnull⟩⟩⟩
      | true =>
        obtain ⟨q, hq⟩ | ⟨hneg, hq⟩ := h.getFirst_true hfd
        · rw [hq] at hst
          cases hst
          exact ⟨fun _ => h, iff_of_true hfd ⟨h.inside, fun hfalse => by cases hfalse⟩⟩
        · -- the call is between its sections, and nothing else changes
          rw [hq] at hst
          cases hst
          refine ⟨fun _ => ⟨rfl, h.bounded, ?_, h.created, h.find⟩,
            iff_of_true hfd ⟨rfl, fun hfalse => by cases hfalse⟩⟩
          exact (Function.forall_update_iff s.creating
            (fun _ o => ∀ fd, o = some fd → 0 ≤ fd.toInt)).2
            ⟨fun _ heq => Option.some_inj.1 heq ▸ hneg, fun u _ => h.creating u⟩
    · -- a negative descriptor is an index that no vector has
      rw [h.bounded.getFirst_eq_none (by omega)] at hst
      cases hst
      exact ⟨fun hfd' => absurd hfd' hfd,
        iff_of_false hfd fun hlaw => Bool.false_ne_true hlaw.1.symm⟩

/-- After the second section of a call, the created descriptor is found besides the others. -/
theorem Inv.second (h : Inv s) {ctx : FdCtx} {p : ℕ} {m : FdManager} (hfd : 0 ≤ fd.toInt)
    (hget : s.manager.getExclusive fd.toInt.toNat ctx = some (p, m)) (hbounded : Bounded m) :
    Inv ⟨m, Function.update s.creating t none, insert fd s.created, false⟩ where
  inside := rfl
  bounded := hbounded
  creating := (Function.forall_update_iff s.creating
    (fun _ o => ∀ fd, o = some fd → 0 ≤ fd.toInt)).2
    ⟨fun _ heq => (by cases heq), fun u _ => h.creating u⟩
  created := (Finset.forall_mem_insert ..).2 ⟨hfd, h.created⟩
  find := by
    intro fd' hfd'
    change m.find fd' = _ ↔ _
    rw [h.bounded.find_getExclusive hfd hget hbounded, Finset.mem_insert, not_or]
    by_cases heq : fd' = fd
    · rw [if_pos heq]
      exact iff_of_false (by simp) fun hnot => hnot.1 heq
    · rw [if_neg heq, h.find fd' hfd']
      exact (and_iff_right heq).symm

omit [DecidableEq T] in
/-- A descriptor is found only in a table with a size that an `int` can hold. -/
theorem Inv.length_lt_of_found (h : Inv s) {m : FdManager} {q : ℕ} (hfd : 0 ≤ fd.toInt)
    (hlength : m.datas.length = (s.manager.grown fd.toInt.toNat).length)
    (hfind : m.find fd = some (.returns (some q))) : m.datas.length < 2 ^ 31 := by
  by_contra hsize
  have hsize' : m.datas.length < 2 ^ 32 := by
    have hold := h.bounded.size_lt
    have hfd' := toNat_lt fd
    rw [hlength, grown_eq hold]
    split
    · rw [length_resize]
      omega
    · omega
  rw [find_of_le_size (by omega) hsize' hfd] at hfind
  cases hfind

/-- A second section creates one descriptor, and a size that an `int` cannot hold hides it. -/
theorem second_spec (h : Inv s) {ctx : FdCtx} (hst : s.step (.second t ctx) = some s') :
    (InRange s (.second t ctx) → Inv s') ∧
      (InRange s (.second t ctx) ↔ PartialMap s (.second t ctx) s') := by
  cases hcreating : s.creating t with
  | none =>
    rw [step, h.inside, if_neg Bool.false_ne_true] at hst
    simp only [hcreating] at hst
    cases hst
  | some fd =>
    have hfd := h.creating t fd hcreating
    obtain ⟨p, m, hsecond, hget⟩ := h.bounded.getSecond_eq hfd ctx
    obtain rfl : s' = ⟨m, Function.update s.creating t none, insert fd s.created, false⟩ := by
      rw [step, h.inside, if_neg Bool.false_ne_true] at hst
      simp only [hcreating, Option.map_some, hsecond] at hst
      exact (Option.some_inj.1 hst).symm
    obtain ⟨hlt, -, hdatas, -⟩ := getExclusive_datas hget
    have hlength : m.datas.length = (s.manager.grown fd.toInt.toNat).length := by
      rw [hdatas, List.length_set]
    -- the condition says that the new size fits an `int`
    have hrange : InRange s (.second t ctx) ↔ m.datas.length < 2 ^ 31 := by
      rw [hlength, ← length_second h hfd, InRange, hcreating]
      simp
    have hbounded : m.datas.length < 2 ^ 31 → Bounded m := fun hsize =>
      ⟨h.bounded.le_size.trans (hlength ▸ h.bounded.le_length_grown _), hsize⟩
    rw [hrange]
    refine ⟨fun hsize => h.second hfd hget (hbounded hsize), fun hsize => ⟨rfl, ?_⟩, ?_⟩
    · intro fd'' heq
      rw [hcreating] at heq
      obtain rfl := Option.some_inj.1 heq
      refine ⟨?_, p, h.bounded.find_getExclusive hfd hget (hbounded hsize)⟩
      change fd.toInt < (m.datas.length : ℤ)
      omega
    · rintro ⟨-, hlaw⟩
      obtain ⟨-, q, hfind⟩ := hlaw fd hcreating
      exact h.length_lt_of_found hfd hlength ((hfind fd).trans (if_pos rfl))

/-- `del` makes one descriptor not created, or makes an access outside `m_datas`. -/
theorem del_spec (h : Inv s) (hst : s.step (.del t fd) = some s') :
    (0 ≤ fd.toInt → Inv s') ∧ (0 ≤ fd.toInt ↔ PartialMap s (.del t fd) s') := by
  rw [step, h.inside, if_neg Bool.false_ne_true] at hst
  split at hst
  · cases hst
  · by_cases hfd : 0 ≤ fd.toInt
    · rw [h.bounded.delete_eq hfd] at hst
      cases hst
      have hfind := h.bounded.find_del hfd
      refine ⟨fun _ => ⟨rfl, h.bounded.del _, h.creating, ?_, ?_⟩, iff_of_true hfd ⟨rfl, hfind⟩⟩
      · exact fun fd' hmem => h.created fd' (Finset.mem_of_mem_erase hmem)
      · intro fd' hfd'
        change (s.manager.del _).find fd' = _ ↔ _
        rw [hfind, Finset.mem_erase]
        by_cases heq : fd' = fd
        · rw [if_pos heq]
          exact iff_of_true rfl fun hmem => hmem.1 heq
        · rw [if_neg heq, h.find fd' hfd']
          exact not_congr (and_iff_right heq).symm
    · rw [h.bounded.delete_eq_none (by omega)] at hst
      cases hst
      exact ⟨fun hfd' => absurd hfd' hfd,
        iff_of_false hfd fun hlaw => Bool.false_ne_true hlaw.1.symm⟩

/-- From a new manager, the runs of calls of `get` and `del` all of whose sections are those of a
partial map are those in which every section is in range. -/
theorem partial_map_iff (actions : List (SignedAction T)) (s : Signed T) :
    Run (Guarded InRange (ofFun step)) start actions s ↔
      Run (Lawful PartialMap (ofFun step)) start actions s := by
  apply Run.guarded_iff_lawful start_inv
  · rintro s a s' h hrange hst
    cases a with
    | first t fd auto_create => exact (first_spec h hst).1 hrange
    | second t ctx => exact (second_spec h hst).1 hrange
    | del t fd => exact (del_spec h hst).1 hrange
  · rintro s a s' h hst
    cases a with
    | first t fd auto_create => exact (first_spec h hst).2
    | second t ctx => exact (second_spec h hst).2
    | del t fd => exact (del_spec h hst).2

/-- `get(-2)` reads outside `m_datas`. -/
theorem not_partialMap_negative : ∃ (actions : List (SignedAction Unit)) (s : Signed Unit),
    Run (ofFun step) start actions s ∧ s.outside = true :=
  ⟨[.first () (-2) false], _, Run.of_exec rfl, rfl⟩

end Signed

end Sylar.FdManager
