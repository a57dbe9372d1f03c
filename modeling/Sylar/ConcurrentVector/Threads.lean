import Sylar.ConcurrentVector.Defs
import Sylar.Foundation.Run
import Sylar.Foundation.SharedMutex

/-!
# `ConcurrentVector` — pushes and reads by many threads

`push_back` and `operator[]` on any set of threads, cut into their accesses to the shared fields. An
element is counted before it is appended, and two calls exclude each other only if their indices are
hashed to the same mutex. `AccessLaw` says that who is about to read an element finds it, and that
nobody reads or appends while another thread appends under its lock. `accessLaw_iff` says where it
is broken: when a reader takes its lock for an element that is only counted, or when a lock is taken
beside that of another mutex.

The table of mutexes is read and extended in single steps, as `check_mtx` is one step under its own
mutex, and the operands of `%` are loaded from left to right.
-/

namespace Sylar.ConcurrentVector.Threads

open Locking Transition

/-- Places in the calls between two steps. -/
inductive Pc (ItemType : Type)
  | idle
  /-- In `push_back`, behind `m_size.fetch_add(1)`. -/
  | pushCounted (val : ItemType)
  /-- Behind `check_mtx()`. -/
  | pushChecked (val : ItemType)
  /-- Behind `m_size.load()`, which has been hashed. -/
  | pushHashed (val : ItemType) (hashed : ℕ)
  | pushLock (val : ItemType) (mtx_idx : ℕ)
  | pushAppend (val : ItemType) (mtx_idx : ℕ)
  | pushUnlock (mtx_idx : ℕ)
  /-- In `operator[]`, behind the check of the index. -/
  | getChecked (index : ℕ)
  | getLock (index mtx_idx : ℕ)
  | getRead (index mtx_idx : ℕ)
  | getUnlock (mtx_idx : ℕ)

/-- The vector, whether a thread has dereferenced a null pointer or read behind the last element,
which ends the program, and the place of each thread. -/
structure State (T ItemType : Type) where
  vec : ConcurrentVector ItemType (SharedMutex T)
  crashed : Bool
  pc : T → Pc ItemType

/-- What a thread does next. -/
inductive Action (T ItemType : Type)
  /-- `push_back(val)`: its first step. -/
  | push_back (t : T) (val : ItemType)
  /-- `operator[](index)`: the check of the index. -/
  | get (t : T) (index : ℕ)
  /-- The next step of a call. -/
  | next (t : T)

variable {T ItemType : Type} [DecidableEq T]

/-- A vector of size 0, with no call in progress. -/
def State.start (granu : ℕ) : State T ItemType where
  vec := new .free 0 granu
  crashed := false
  pc := fun _ => .idle

/-- The thread goes on to another place. -/
def State.goto (s : State T ItemType) (t : T) (pc : Pc ItemType) : State T ItemType :=
  { s with pc := Function.update s.pc t pc }

/-- Another state of a mutex. -/
def State.setMutex (s : State T ItemType) (mtx_idx : ℕ) (mtx : SharedMutex T) :
    State T ItemType :=
  { s with vec := { s.vec with m_mtx := s.vec.m_mtx.set mtx_idx (some mtx) } }

/-- `lock(*m_mtx[mtx_idx])`, and on to `pc`. A thread that has to wait takes no step. -/
def State.lock (s : State T ItemType) (t : T) (mtx_idx : ℕ) (mode : Mode) (pc : Pc ItemType) :
    Option (State T ItemType) :=
  match s.vec.mutex mtx_idx with
  | none => some { s with crashed := true }
  | some mtx => (mtx.lock t mode).map fun mtx => (s.setMutex mtx_idx mtx).goto t pc

/-- The end of the call, where the lock is released. -/
def State.unlock (s : State T ItemType) (t : T) (mtx_idx : ℕ) : Option (State T ItemType) :=
  (s.vec.mutex mtx_idx).map fun mtx => (s.setMutex mtx_idx (mtx.unlock t)).goto t .idle

/-- The next step of the call a thread is in. -/
def State.next (hashFunc : ℤ → ℕ) (s : State T ItemType) (t : T) : Option (State T ItemType) :=
  match s.pc t with
  | .idle => none
  | .pushCounted val => some ({ s with vec := s.vec.check_mtx }.goto t (.pushChecked val))
  | .pushChecked val => some (s.goto t (.pushHashed val (hash hashFunc s.vec.m_size)))
  | .pushHashed val hashed => some (s.goto t (.pushLock val (hashed % s.vec.m_mtx_size)))
  | .pushLock val mtx_idx => s.lock t mtx_idx .exclusive (.pushAppend val mtx_idx)
  | .pushAppend val mtx_idx =>
    some ({ s with vec := { s.vec with m_vector := s.vec.m_vector ++ [val] } }.goto t
      (.pushUnlock mtx_idx))
  | .pushUnlock mtx_idx => s.unlock t mtx_idx
  | .getChecked index => some (s.goto t (.getLock index (s.vec.stripe hashFunc index)))
  | .getLock index mtx_idx => s.lock t mtx_idx .shared (.getRead index mtx_idx)
  | .getRead index mtx_idx =>
    match s.vec.m_vector[index]? with
    | none => some { s with crashed := true }
    | some _ => some (s.goto t (.getUnlock mtx_idx))
  | .getUnlock mtx_idx => s.unlock t mtx_idx

/-- The state after an action, if the action is possible. -/
def step (hashFunc : ℤ → ℕ) (s : State T ItemType) (a : Action T ItemType) :
    Option (State T ItemType) :=
  if s.crashed then none
  else
    match a with
    | .push_back t val =>
      match s.pc t with
      | .idle => some ({ s with vec := s.vec.count }.goto t (.pushCounted val))
      | _ => none
    | .get t index =>
      match s.pc t with
      | .idle =>
        -- the exception ends the call
        if index ≥ s.vec.m_size then some s else some (s.goto t (.getChecked index))
      | _ => none
    | .next t => s.next hashFunc t

/-! ## Accesses in progress -/

/-- The next step reads or appends an element. -/
def Pc.Accesses : Pc ItemType → Prop
  | .pushAppend _ _ | .getRead _ _ => True
  | _ => False

/-- The place is between taking a lock and releasing it around an append. -/
def Pc.Appending : Pc ItemType → Prop
  | .pushAppend _ _ | .pushUnlock _ => True
  | _ => False

/-- Who is about to read an element finds it, and nobody reads or appends while another thread
appends under its lock. -/
structure AccessLaw (s : State T ItemType) : Prop where
  exists_element : ∀ t index mtx_idx, s.pc t = .getRead index mtx_idx →
    index < s.vec.m_vector.length
  serial : ∀ t u, u ≠ t → (s.pc t).Accesses → ¬ (s.pc u).Appending

/-- The mutex that a thread holds at a place, and how. -/
def Pc.holds : Pc ItemType → Option (ℕ × Mode)
  | .pushAppend _ mtx_idx | .pushUnlock mtx_idx => some (mtx_idx, .exclusive)
  | .getRead _ mtx_idx | .getUnlock mtx_idx => some (mtx_idx, .shared)
  | _ => none

/-- No other thread is at such a place with another mutex. -/
def State.Apart (s : State T ItemType) (t : T) (mtx_idx : ℕ) (place : Pc ItemType → Prop) : Prop :=
  ∀ u, u ≠ t → place (s.pc u) → ∃ mode, (s.pc u).holds = some (mtx_idx, mode)

/-- A lock is taken for an element that has been appended, and while no conflicting access is in
progress under another mutex. -/
def LocksApart (s : State T ItemType) : Action T ItemType → Prop
  | .next t =>
    match s.pc t with
    | .pushLock _ mtx_idx =>
      s.vec.mutex mtx_idx ≠ none →
        s.Apart t mtx_idx fun pc => pc.Accesses ∨ pc.Appending
    | .getLock index mtx_idx =>
      s.vec.mutex mtx_idx ≠ none →
        index < s.vec.m_vector.length ∧ s.Apart t mtx_idx Pc.Appending
    | _ => True
  | _ => True

/-! ## The steps -/

section Steps

variable {hashFunc : ℤ → ℕ} {s s' : State T ItemType} {t u : T} {pc : Pc ItemType}
variable {mtx_idx : ℕ} {mtx : SharedMutex T} {mode : Mode}

/-- A thread that goes on leaves the vector alone. -/
@[simp]
theorem goto_vec : (s.goto t pc).vec = s.vec := rfl

/-- It is where it has gone. -/
@[simp]
theorem goto_pc_self : (s.goto t pc).pc t = pc := Function.update_self ..

/-- The others stay where they are. -/
theorem goto_pc_of_ne (h : u ≠ t) : (s.goto t pc).pc u = s.pc u := Function.update_of_ne h ..

omit [DecidableEq T] in
/-- A mutex that is set is found again. -/
theorem mutex_setMutex_self (h : s.vec.mutex mtx_idx ≠ none) :
    (s.setMutex mtx_idx mtx).vec.mutex mtx_idx = some mtx := by
  have hlt : mtx_idx < s.vec.m_mtx.length := by
    by_contra hle
    rw [mutex, List.getElem?_eq_none (Nat.not_lt.1 hle)] at h
    exact h rfl
  rw [mutex, State.setMutex, List.getElem?_set_self hlt]
  rfl

omit [DecidableEq T] in
/-- The others stay as they are. -/
theorem mutex_setMutex_ne {other : ℕ} (h : mtx_idx ≠ other) :
    (s.setMutex mtx_idx mtx).vec.mutex other = s.vec.mutex other := by
  rw [mutex, State.setMutex, List.getElem?_set_ne h]
  rfl

omit [DecidableEq T] in
/-- A thread without a lock makes no access. -/
theorem Pc.not_of_holds_none (h : pc.holds = none) : ¬ pc.Accesses ∧ ¬ pc.Appending := by
  cases pc with
  | pushAppend | pushUnlock | getRead | getUnlock => cases h
  | _ => exact ⟨id, id⟩

/-- What a step can do. -/
inductive StepCase (s : State T ItemType) : Action T ItemType → State T ItemType → Prop
  /-- `operator[]` throws. -/
  | throws (t : T) (index : ℕ) : StepCase s (.get t index) s
  /-- Steps outside the locks, which do not lock. -/
  | outside {a : Action T ItemType} (t : T) (vec : ConcurrentVector ItemType (SharedMutex T))
      (pc : Pc ItemType) : LocksApart s a →
      (∀ mtx_idx mtx, s.vec.mutex mtx_idx = some mtx → vec.mutex mtx_idx = some mtx) →
      vec.m_vector = s.vec.m_vector → (s.pc t).holds = none → pc.holds = none →
      StepCase s a ({ s with vec := vec }.goto t pc)
  | pushLock {s' : State T ItemType} (t : T) (val : ItemType) (mtx_idx : ℕ) :
      s.pc t = .pushLock val mtx_idx →
      s.lock t mtx_idx .exclusive (.pushAppend val mtx_idx) = some s' → StepCase s (.next t) s'
  | append (t : T) (val : ItemType) (mtx_idx : ℕ) : s.pc t = .pushAppend val mtx_idx →
      StepCase s (.next t)
        ({ s with vec := { s.vec with m_vector := s.vec.m_vector ++ [val] } }.goto t
          (.pushUnlock mtx_idx))
  | getLock {s' : State T ItemType} (t : T) (index mtx_idx : ℕ) :
      s.pc t = .getLock index mtx_idx →
      s.lock t mtx_idx .shared (.getRead index mtx_idx) = some s' → StepCase s (.next t) s'
  | read (t : T) (index mtx_idx : ℕ) : s.pc t = .getRead index mtx_idx →
      StepCase s (.next t) (s.goto t (.getUnlock mtx_idx))
  | readBehind (t : T) (index mtx_idx : ℕ) : s.pc t = .getRead index mtx_idx →
      StepCase s (.next t) { s with crashed := true }
  | unlock {s' : State T ItemType} (t : T) (mtx_idx : ℕ) (mode : Mode) :
      LocksApart s (.next t) → (s.pc t).holds = some (mtx_idx, mode) →
      s.unlock t mtx_idx = some s' → StepCase s (.next t) s'

/-- The next step of a call in progress. -/
theorem stepCase_next (h : s.next hashFunc t = some s') : StepCase s (.next t) s' := by
  have hkept : ∀ mtx_idx mtx, s.vec.mutex mtx_idx = some mtx → s.vec.mutex mtx_idx = some mtx :=
    fun _ _ => id
  rw [State.next] at h
  cases hpc : s.pc t with
  | idle =>
    rw [hpc] at h
    cases h
  | pushCounted val =>
    rw [hpc] at h
    cases h
    exact .outside t _ _ (by rw [LocksApart, hpc]; trivial) (fun _ _ => mutex_check_mtx)
      check_mtx_m_vector (by rw [hpc]; rfl) rfl
  | pushChecked val =>
    rw [hpc] at h
    cases h
    exact .outside t s.vec _ (by rw [LocksApart, hpc]; trivial) hkept rfl (by rw [hpc]; rfl) rfl
  | pushHashed val hashed =>
    rw [hpc] at h
    cases h
    exact .outside t s.vec _ (by rw [LocksApart, hpc]; trivial) hkept rfl (by rw [hpc]; rfl) rfl
  | pushLock val mtx_idx =>
    rw [hpc] at h
    exact .pushLock t val mtx_idx hpc h
  | pushAppend val mtx_idx =>
    rw [hpc] at h
    cases h
    exact .append t val mtx_idx hpc
  | pushUnlock mtx_idx =>
    rw [hpc] at h
    exact .unlock t mtx_idx .exclusive (by rw [LocksApart, hpc]; trivial) (by rw [hpc]; rfl) h
  | getChecked index =>
    rw [hpc] at h
    cases h
    exact .outside t s.vec _ (by rw [LocksApart, hpc]; trivial) hkept rfl (by rw [hpc]; rfl) rfl
  | getLock index mtx_idx =>
    rw [hpc] at h
    exact .getLock t index mtx_idx hpc h
  | getRead index mtx_idx =>
    rw [hpc] at h
    dsimp only at h
    split at h
    · cases h
      exact .readBehind t index mtx_idx hpc
    · cases h
      exact .read t index mtx_idx hpc
  | getUnlock mtx_idx =>
    rw [hpc] at h
    exact .unlock t mtx_idx .shared (by rw [LocksApart, hpc]; trivial) (by rw [hpc]; rfl) h

/-- `StepCase` lists the steps of `step`. -/
theorem stepCase {a : Action T ItemType} (h : step hashFunc s a = some s') : StepCase s a s' := by
  have hkept : ∀ mtx_idx mtx, s.vec.mutex mtx_idx = some mtx → s.vec.mutex mtx_idx = some mtx :=
    fun _ _ => id
  unfold step at h
  split at h
  · cases h
  · cases a with
    | push_back t val =>
      dsimp only at h
      cases hpc : s.pc t with
      | idle =>
        rw [hpc] at h
        cases h
        exact .outside t _ _ trivial hkept rfl (by rw [hpc]; rfl) rfl
      | _ =>
        rw [hpc] at h
        cases h
    | get t index =>
      dsimp only at h
      cases hpc : s.pc t with
      | idle =>
        rw [hpc] at h
        dsimp only at h
        split at h
        · cases h
          exact .throws t index
        · cases h
          exact .outside t s.vec _ trivial hkept rfl (by rw [hpc]; rfl) rfl
      | _ =>
        rw [hpc] at h
        cases h
    | next t => exact stepCase_next h

/-- What taking a lock leads to. -/
theorem lock_cases (h : s.lock t mtx_idx mode pc = some s') :
    s.vec.mutex mtx_idx = none ∧ s' = { s with crashed := true } ∨
      ∃ mtx mtx', s.vec.mutex mtx_idx = some mtx ∧ Admits mtx.mode t mode ∧
        mtx'.mode = Function.update mtx.mode t (some mode) ∧
        s' = (s.setMutex mtx_idx mtx').goto t pc := by
  rw [State.lock] at h
  cases hmtx : s.vec.mutex mtx_idx with
  | none =>
    rw [hmtx] at h
    exact Or.inl ⟨rfl, (Option.some_inj.1 h).symm⟩
  | some mtx =>
    rw [hmtx] at h
    obtain ⟨mtx', hlock, rfl⟩ := Option.map_eq_some_iff.1 h
    obtain ⟨-, hadmits, hmode⟩ := SharedMutex.lock_eq_some hlock
    exact Or.inr ⟨mtx, mtx', rfl, hadmits, hmode, rfl⟩

end Steps

/-! ## Who holds which mutex -/

/-- Threads hold the mutexes of their places. -/
def Held (s : State T ItemType) : Prop :=
  ∀ t mtx_idx mode, (s.pc t).holds = some (mtx_idx, mode) →
    ∃ mtx, s.vec.mutex mtx_idx = some mtx ∧ mtx.mode t = some mode

section Held

variable {hashFunc : ℤ → ℕ} {s s' : State T ItemType} {t u : T} {pc : Pc ItemType}
variable {mtx_idx : ℕ} {mtx : SharedMutex T} {mode : Mode}

/-- Nobody holds a lock at the start. -/
theorem held_start (granu : ℕ) : Held (State.start granu : State T ItemType) := nofun

/-- Steps that leave the mutexes alone. -/
theorem Held.goto {vec : ConcurrentVector ItemType (SharedMutex T)} (h : Held s)
    (hkept : ∀ mtx_idx mtx, s.vec.mutex mtx_idx = some mtx → vec.mutex mtx_idx = some mtx)
    (hholds : pc.holds = (s.pc t).holds) : Held ({ s with vec := vec }.goto t pc) := by
  intro u mtx_idx mode hu
  have hbefore : (s.pc u).holds = some (mtx_idx, mode) := by
    by_cases hut : u = t
    · subst hut
      rwa [goto_pc_self, hholds] at hu
    · rwa [goto_pc_of_ne hut] at hu
  obtain ⟨mtx, hmtx, hmode⟩ := h u mtx_idx mode hbefore
  exact ⟨mtx, hkept _ _ hmtx, hmode⟩

/-- The mutex of one stripe gets another state, in which the threads at other places hold it as
before. -/
theorem Held.setMutex {mtx' : SharedMutex T} {o : Option Mode} (h : Held s)
    (hmtx : s.vec.mutex mtx_idx = some mtx) (hmode : mtx'.mode = Function.update mtx.mode t o)
    (hholds : pc.holds = o.map fun mode => (mtx_idx, mode)) :
    Held ((s.setMutex mtx_idx mtx').goto t pc) := by
  intro u other mode hu
  have hself : (s.setMutex mtx_idx mtx').vec.mutex mtx_idx = some mtx' :=
    mutex_setMutex_self (hmtx ▸ Option.some_ne_none mtx)
  by_cases hut : u = t
  · subst hut
    rw [goto_pc_self, hholds] at hu
    obtain ⟨mode', rfl, heq⟩ := Option.map_eq_some_iff.1 hu
    cases heq
    exact ⟨mtx', hself, by rw [hmode, Function.update_self]⟩
  · rw [goto_pc_of_ne hut] at hu
    obtain ⟨m, hm, hum⟩ := h u other mode hu
    by_cases hother : mtx_idx = other
    · subst hother
      obtain rfl := Option.some_inj.1 (hmtx.symm.trans hm)
      exact ⟨mtx', hself, by rwa [hmode, Function.update_of_ne hut]⟩
    · exact ⟨m, (mutex_setMutex_ne hother).trans hm, hum⟩

/-- A thread that locks a mutex holds it. -/
theorem Held.lock (h : Held s) (hlock : s.lock t mtx_idx mode pc = some s')
    (hholds : pc.holds = some (mtx_idx, mode)) : Held s' := by
  obtain ⟨-, rfl⟩ | ⟨mtx, mtx', hmtx, -, hmode, rfl⟩ := lock_cases hlock
  · exact h
  · exact h.setMutex hmtx hmode hholds

/-- Threads hold the mutexes of their places after every step. -/
theorem Held.step {a : Action T ItemType} (h : Held s) (hst : StepCase s a s') : Held s' := by
  cases hst with
  | throws t index => exact h
  | outside t vec pc _ hkept hvector hbefore hbehind =>
    exact h.goto hkept (hbehind.trans hbefore.symm)
  | pushLock t val mtx_idx hpc hlock => exact h.lock hlock rfl
  | append t val mtx_idx hpc => exact h.goto (fun _ _ => id) (by rw [hpc]; rfl)
  | getLock t index mtx_idx hpc hlock => exact h.lock hlock rfl
  | read t index mtx_idx hpc => exact h.goto (fun _ _ => id) (by rw [hpc]; rfl)
  | readBehind t index mtx_idx hpc => exact h
  | unlock t mtx_idx mode _ hholds hunlock =>
    obtain ⟨mtx, hmtx, rfl⟩ := Option.map_eq_some_iff.1 hunlock
    exact h.setMutex hmtx (SharedMutex.mode_unlock mtx t) rfl

end Held

/-! ## The law -/

section Law

variable {hashFunc : ℤ → ℕ} {s s' : State T ItemType} {t u : T} {pc : Pc ItemType}
variable {mtx_idx : ℕ} {mtx : SharedMutex T} {mode : Mode}

omit [DecidableEq T] in
/-- The law holds at the start. -/
theorem accessLaw_start (granu : ℕ) :
    AccessLaw (State.start granu : State T ItemType) := ⟨nofun, nofun⟩

/-- What a thread that goes on to another place has to keep to. -/
theorem accessLaw_goto_iff (vec : ConcurrentVector ItemType (SharedMutex T)) (h : AccessLaw s)
    (hvector : s.vec.m_vector.length ≤ vec.m_vector.length) :
    AccessLaw ({ s with vec := vec }.goto t pc) ↔
      (∀ index mtx_idx, pc = .getRead index mtx_idx → index < vec.m_vector.length) ∧
        ∀ u, u ≠ t → (pc.Accesses → ¬ (s.pc u).Appending) ∧
          ((s.pc u).Accesses → ¬ pc.Appending) := by
  constructor
  · intro hlaw
    refine ⟨fun index mtx_idx hpc => hlaw.exists_element t index mtx_idx ?_, fun u hu => ⟨?_, ?_⟩⟩
    · rw [goto_pc_self, hpc]
    · have hserial := hlaw.serial t u hu
      rwa [goto_pc_self, goto_pc_of_ne hu] at hserial
    · have hserial := hlaw.serial u t (Ne.symm hu)
      rwa [goto_pc_self, goto_pc_of_ne hu] at hserial
  · rintro ⟨hexists, hserial⟩
    refine ⟨fun u index mtx_idx hpc => ?_, fun u v hvu => ?_⟩
    · by_cases hu : u = t
      · subst hu
        rw [goto_pc_self] at hpc
        exact hexists index mtx_idx hpc
      · rw [goto_pc_of_ne hu] at hpc
        exact Nat.lt_of_lt_of_le (h.exists_element u index mtx_idx hpc) hvector
    · -- a pair without `t` is where it was
      by_cases hu : u = t
      · subst hu
        rw [goto_pc_self, goto_pc_of_ne hvu]
        exact (hserial v hvu).1
      · rw [goto_pc_of_ne hu]
        by_cases hv : v = t
        · subst hv
          rw [goto_pc_self]
          exact (hserial u hu).2
        · rw [goto_pc_of_ne hv]
          exact h.serial u v hvu

/-- The law depends on the places of the threads only. -/
theorem accessLaw_setMutex_iff (h : AccessLaw s) :
    AccessLaw ((s.setMutex mtx_idx mtx).goto t pc) ↔
      (∀ index mtx_idx, pc = .getRead index mtx_idx → index < s.vec.m_vector.length) ∧
        ∀ u, u ≠ t → (pc.Accesses → ¬ (s.pc u).Appending) ∧
          ((s.pc u).Accesses → ¬ pc.Appending) :=
  accessLaw_goto_iff (s.setMutex mtx_idx mtx).vec h (Nat.le_refl _)

/-- A thread may always go on to a place without an access. -/
theorem AccessLaw.goto (vec : ConcurrentVector ItemType (SharedMutex T)) (h : AccessLaw s)
    (hvector : s.vec.m_vector.length ≤ vec.m_vector.length) (haccesses : ¬ pc.Accesses)
    (happending : ¬ pc.Appending) : AccessLaw ({ s with vec := vec }.goto t pc) := by
  refine (accessLaw_goto_iff vec h hvector).2 ⟨?_, fun u _ => ⟨?_, fun _ => happending⟩⟩
  · rintro index mtx_idx rfl
    exact absurd trivial haccesses
  · exact fun hpc => absurd hpc haccesses

omit [DecidableEq T] in
/-- A thread that appends holds its mutex exclusively. -/
theorem Pc.mode_of_appending (h : pc.Appending) (hholds : pc.holds = some (mtx_idx, mode)) :
    mode = .exclusive := by
  cases pc with
  | pushAppend val mtx_idx' | pushUnlock mtx_idx' => cases hholds; rfl
  | _ => cases h

/-- Who holds the mutex that is taken shares it. -/
theorem Held.compatible (h : Held s) (hmtx : s.vec.mutex mtx_idx = some mtx)
    (hadmits : Admits mtx.mode t mode) {mode' : Mode} (hu : u ≠ t)
    (hholds : (s.pc u).holds = some (mtx_idx, mode')) : mode.Compatible mode' := by
  obtain ⟨m, hm, hmode⟩ := h u mtx_idx mode' hholds
  obtain rfl := Option.some_inj.1 (hmtx.symm.trans hm)
  exact hadmits u hu mode' hmode

/-- The steps that keep the law. -/
theorem locksApart_iff_law {a : Action T ItemType} (hheld : Held s) (h : AccessLaw s)
    (hst : StepCase s a s') : LocksApart s a ↔ AccessLaw s' := by
  cases hst with
  | throws t index => exact iff_of_true trivial h
  | outside t vec pc hapart hkept hvector hbefore hbehind =>
    obtain ⟨haccesses, happending⟩ := Pc.not_of_holds_none hbehind
    have hlength : s.vec.m_vector.length ≤ vec.m_vector.length := Nat.le_of_eq (by rw [hvector])
    exact iff_of_true hapart (AccessLaw.goto vec h hlength haccesses happending)
  | pushLock t val mtx_idx hpc hlock =>
    rw [LocksApart, hpc]
    dsimp only
    obtain ⟨hnull, rfl⟩ | ⟨mtx, mtx', hmtx, hadmits, -, rfl⟩ := lock_cases hlock
    · exact iff_of_true (fun hne => absurd hnull hne) ⟨h.1, h.2⟩
    · rw [accessLaw_setMutex_iff h]
      rw [forall_prop_of_true (hmtx ▸ Option.some_ne_none mtx)]
      constructor
      · intro hapart
        -- who is at work holds this mutex, and then the lock is not taken
        have hidle : ∀ u, u ≠ t → ¬ ((s.pc u).Accesses ∨ (s.pc u).Appending) := by
          intro u hu hplace
          obtain ⟨mode, hholds⟩ := hapart u hu hplace
          cases (hheld.compatible hmtx hadmits hu hholds).1
        exact ⟨nofun, fun u hu => ⟨fun _ happ => hidle u hu (.inr happ),
          fun hacc _ => hidle u hu (.inl hacc)⟩⟩
      · rintro ⟨-, hserial⟩ u hu (hacc | happ)
        · exact absurd trivial ((hserial u hu).2 hacc)
        · exact absurd happ ((hserial u hu).1 trivial)
  | append t val mtx_idx hpc =>
    refine iff_of_true (by rw [LocksApart, hpc]; trivial) ?_
    refine (accessLaw_goto_iff _ h (by simp)).2 ⟨nofun, fun u hu => ⟨nofun, fun hu' _ => ?_⟩⟩
    -- the thread was appending before
    exact h.serial u t (Ne.symm hu) hu' (by rw [hpc]; trivial)
  | getLock t index mtx_idx hpc hlock =>
    rw [LocksApart, hpc]
    dsimp only
    obtain ⟨hnull, rfl⟩ | ⟨mtx, mtx', hmtx, hadmits, -, rfl⟩ := lock_cases hlock
    · exact iff_of_true (fun hne => absurd hnull hne) ⟨h.1, h.2⟩
    · rw [accessLaw_setMutex_iff h]
      rw [forall_prop_of_true (hmtx ▸ Option.some_ne_none mtx)]
      constructor
      · rintro ⟨hlt, hapart⟩
        refine ⟨fun i j heq => ?_, fun u hu => ⟨fun _ happ => ?_, fun _ happ => happ⟩⟩
        · cases heq
          exact hlt
        · -- who appends holds this mutex, and does not share it
          obtain ⟨mode, hholds⟩ := hapart u hu happ
          cases Pc.mode_of_appending happ hholds
          cases (hheld.compatible hmtx hadmits hu hholds).2
      · rintro ⟨hexists, hserial⟩
        exact ⟨hexists index mtx_idx rfl, fun u hu happ =>
          absurd happ ((hserial u hu).1 trivial)⟩
  | read t index mtx_idx hpc =>
    exact iff_of_true (by rw [LocksApart, hpc]; trivial)
      (AccessLaw.goto s.vec h (Nat.le_refl _) id id)
  | readBehind t index mtx_idx hpc =>
    exact iff_of_true (by rw [LocksApart, hpc]; trivial) ⟨h.1, h.2⟩
  | unlock t mtx_idx mode hapart _ hunlock =>
    obtain ⟨mtx, -, rfl⟩ := Option.map_eq_some_iff.1 hunlock
    exact iff_of_true hapart
      (AccessLaw.goto (s.setMutex mtx_idx (mtx.unlock t)).vec h (Nat.le_refl _) id id)

end Law

/-- The law holds in all states of a run exactly if, in the run, a lock is taken only for an element
that has been appended, and while no conflicting access is in progress under another mutex. -/
theorem accessLaw_iff (hashFunc : ℤ → ℕ) (granu : ℕ) (actions : List (Action T ItemType))
    (s : State T ItemType) :
    Run (Guarded LocksApart (ofFun (step hashFunc))) (State.start granu) actions s ↔
      Run (Keeping AccessLaw (ofFun (step hashFunc))) (State.start granu) actions s := by
  apply Run.guarded_iff_keeping (I := Held) (held_start granu) (accessLaw_start granu)
  · intro s a s' hheld hst
    exact hheld.step (stepCase hst)
  · intro s a s' hheld hlaw hst
    exact locksApart_iff_law hheld hlaw (stepCase hst)

/-- One thread has counted an element that is not yet appended, and another one is about to read it,
under a lock of its own. -/
theorem not_accessLaw_counted : ∃ s : State Bool ℕ,
    Run (ofFun (step Int.toNat)) (State.start 16)
      [.push_back true 7, .get false 0, .next false, .next false] s ∧
      s.pc false = .getRead 0 0 ∧ s.vec.m_vector = [] ∧ ¬ AccessLaw s := by
  refine ⟨_, Run.of_exec rfl, rfl, rfl, fun hlaw => ?_⟩
  exact absurd (hlaw.exists_element false 0 0 rfl) (Nat.not_lt_zero 0)

end Sylar.ConcurrentVector.Threads
