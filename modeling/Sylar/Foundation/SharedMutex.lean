import Mathlib.Data.List.Basic
import Mathlib.Logic.Function.Basic

/-!
# Locks for readers and writers

A `SharedMutex` is held by one writer or by any number of readers; held by writers only, it is an
ordinary mutex. Who holds it in which mode is a table `T → Option Mode`, and such a table may also
say how threads use what a lock protects. `Exclusive use` says that a thread that does not share is
alone; it is kept when a thread gives up part of its use (`Exclusive.weaken`), and when a thread
enters whose use is compatible with that of all others (`Exclusive.enter`).
-/

namespace Locking

variable {T : Type*}

/-- How a thread holds a lock, or uses what the lock protects. -/
inductive Mode
  | shared
  | exclusive
  deriving DecidableEq, Repr

/-- Two uses at a time: both must share. -/
def Mode.Compatible (m m' : Mode) : Prop := m = .shared ∧ m' = .shared

instance (m m' : Mode) : Decidable (m.Compatible m') := inferInstanceAs (Decidable (_ ∧ _))

/-- A thread that does not share is alone. -/
def Exclusive (use : T → Option Mode) : Prop :=
  ∀ t u, t ≠ u → ∀ m m', use t = some m → use u = some m' → m.Compatible m'

/-- The use `part` is a part of the use `o`. -/
def Weaker (part o : Option Mode) : Prop :=
  ∀ m, part = some m → o = some m ∨ o = some .exclusive

/-- A use compatible with the uses of all threads but `t`. -/
def Admits (use : T → Option Mode) (t : T) (m : Mode) : Prop :=
  ∀ u, u ≠ t → ∀ m', use u = some m' → m.Compatible m'

/-- Two modes are compatible or not, in either order. -/
theorem Mode.Compatible.symm {m m' : Mode} (h : m.Compatible m') : m'.Compatible m := ⟨h.2, h.1⟩

/-- Not to hold a lock is the weakest. -/
theorem weaker_none (o : Option Mode) : Weaker none o := fun _ h => nomatch h

/-- A mode is as weak as itself. -/
theorem weaker_refl (o : Option Mode) : Weaker o o := fun _ h => Or.inl h

/-- Nothing is stronger than an exclusive lock. -/
theorem weaker_exclusive (o : Option Mode) : Weaker o (some .exclusive) := fun _ _ => Or.inr rfl

namespace Exclusive

variable {use : T → Option Mode} {t : T}

/-- A thread whose use is exclusive is the only one. -/
theorem eq_none (h : Exclusive use) (ht : use t = some .exclusive) {u : T} (hu : u ≠ t) :
    use u = none := by
  cases hm : use u with
  | none => rfl
  | some m => cases (h t u (Ne.symm hu) .exclusive m ht hm).1

variable [DecidableEq T]

/-- A thread may enter where its use is compatible with that of all others. -/
theorem enter (h : Exclusive use) {m : Mode} (hadmits : Admits use t m) :
    Exclusive (Function.update use t (some m)) := by
  intro a b hab ma mb ha hb
  by_cases hat : a = t
  · subst hat
    rw [Function.update_self, Option.some_inj] at ha
    rw [Function.update_of_ne (Ne.symm hab)] at hb
    exact ha ▸ hadmits b (Ne.symm hab) mb hb
  · rw [Function.update_of_ne hat] at ha
    by_cases hbt : b = t
    · subst hbt
      rw [Function.update_self, Option.some_inj] at hb
      exact hb ▸ (hadmits a hat ma ha).symm
    · rw [Function.update_of_ne hbt] at hb
      exact h a b hab ma mb ha hb

/-- A thread may give up any part of its use. -/
theorem weaken (h : Exclusive use) {o : Option Mode} (ho : Weaker o (use t)) :
    Exclusive (Function.update use t o) := by
  cases o with
  | none =>
    intro a b hab ma mb ha hb
    have hat : a ≠ t := by
      rintro rfl
      simp at ha
    have hbt : b ≠ t := by
      rintro rfl
      simp at hb
    rw [Function.update_of_ne hat] at ha
    rw [Function.update_of_ne hbt] at hb
    exact h a b hab ma mb ha hb
  | some m =>
    refine h.enter fun u hu m' hm' => ?_
    obtain hm | hm := ho m rfl
    · exact h t u (Ne.symm hu) m m' hm hm'
    · cases (h t u (Ne.symm hu) .exclusive m' hm hm').1

end Exclusive

/-! ## The lock -/

/-- A lock held by one writer or by readers. -/
structure SharedMutex (T : Type*) where
  writer : Option T
  readers : List T
  nodup : readers.Nodup
  exclusive : writer.isSome → readers = []

namespace SharedMutex

variable [DecidableEq T] {mutex mutex' : SharedMutex T} {t u : T} {m : Mode}

/-- A lock that nobody holds. -/
def free : SharedMutex T where
  writer := none
  readers := []
  nodup := List.nodup_nil
  exclusive := fun _ => rfl

/-- The mode in which a thread holds the lock. -/
def mode (mutex : SharedMutex T) (t : T) : Option Mode :=
  if mutex.writer = some t then some .exclusive
  else if t ∈ mutex.readers then some .shared else none

/-- Take the lock, if those who hold it permit. -/
def lock (mutex : SharedMutex T) (t : T) : Mode → Option (SharedMutex T)
  | .shared =>
    if h : mutex.writer = none ∧ t ∉ mutex.readers then
      some { mutex with
        readers := t :: mutex.readers
        nodup := List.nodup_cons.2 ⟨h.2, mutex.nodup⟩
        exclusive := by simp [h.1] }
    else none
  | .exclusive =>
    if mutex.writer = none ∧ mutex.readers = [] then
      some { writer := some t, readers := [], nodup := List.nodup_nil, exclusive := fun _ => rfl }
    else none

/-- Give up the lock. -/
def unlock (mutex : SharedMutex T) (t : T) : SharedMutex T where
  writer := if mutex.writer = some t then none else mutex.writer
  readers := mutex.readers.erase t
  nodup := mutex.nodup.erase t
  exclusive := by
    intro h
    have hwriter : mutex.writer.isSome := by
      cases hw : mutex.writer with
      | none => simp [hw] at h
      | some _ => rfl
    rw [mutex.exclusive hwriter]
    rfl

/-- What taking the lock requires and changes. -/
theorem lock_eq_some (h : mutex.lock t m = some mutex') :
    mutex.mode t = none ∧ Admits mutex.mode t m ∧
      mutex'.mode = Function.update mutex.mode t (some m) := by
  cases m with
  | shared =>
    rw [lock] at h
    split at h
    case isFalse => cases h
    case isTrue hfree =>
      obtain ⟨hwriter, hreader⟩ := hfree
      cases h
      refine ⟨by simp [mode, hwriter, hreader], fun u _ m' hm' => ?_, ?_⟩
      · -- there is no writer, so who holds the lock reads
        refine ⟨rfl, ?_⟩
        rw [mode, if_neg (by simp [hwriter])] at hm'
        split at hm'
        · exact (Option.some_inj.1 hm').symm
        · cases hm'
      · ext u : 1
        by_cases hu : u = t
        · subst hu
          simp [mode, hwriter]
        · simp [mode, hwriter, hu]
  | exclusive =>
    rw [lock] at h
    split at h
    case isFalse => cases h
    case isTrue hfree =>
      obtain ⟨hwriter, hreaders⟩ := hfree
      have hnone : ∀ u, mutex.mode u = none := fun u => by simp [mode, hwriter, hreaders]
      cases h
      refine ⟨hnone t, fun u _ m' hm' => ?_, ?_⟩
      · rw [hnone u] at hm'
        cases hm'
      · ext u : 1
        by_cases hu : u = t
        · subst hu
          simp [mode]
        · have htu : t ≠ u := Ne.symm hu
          rw [Function.update_of_ne hu, hnone u]
          simp [mode, htu]

/-- A thread that unlocks has no mode, the others keep theirs. -/
theorem mode_unlock (mutex : SharedMutex T) (t : T) :
    (mutex.unlock t).mode = Function.update mutex.mode t none := by
  ext u : 1
  by_cases hu : u = t
  · subst hu
    have hreader : u ∉ mutex.readers.erase u := mutex.nodup.not_mem_erase
    by_cases hw : mutex.writer = some u
    · simp [mode, unlock, hw, hreader]
    · simp [mode, unlock, hw, hreader]
  · have htu : t ≠ u := Ne.symm hu
    by_cases hw : mutex.writer = some t
    · simp [mode, unlock, hw, hu, htu, List.mem_erase_of_ne hu]
    · simp [mode, unlock, hw, hu, List.mem_erase_of_ne hu]

end SharedMutex

end Locking
