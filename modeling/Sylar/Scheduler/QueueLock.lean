import Sylar.Fiber.Defs
import Sylar.Foundation.Run
import Sylar.Foundation.SharedMutex

/-!
# `Scheduler` — the locks of the run queue

`schedule`, the iterations of `run` and `stopping` on any set of threads, cut into taking a lock,
single accesses to `m_fibers`, and releasing the lock. `schedule` works under `m_threads_mtx`, the
other two under `m_fibers_mtx`, and two log lines read the queue under no lock at all: the one of
`stopping`, before it takes the lock, and the one of `run`, after the callback that the scan has
taken came to its end. So the locks serialize calls of one kind only: `QueueLaw` says that nobody
modifies the queue while another thread is in the middle of its accesses, and `queue_law` that it
holds as long as no call begins while a conflicting one is in progress outside its lock.

An iteration of `run` whose callback comes to the log line is in progress up to that line. The
callback runs in between and may call `schedule` and `stopping` itself. What the calls return, and
what `run` does with the fiber it has taken, is left out.
-/

namespace Sylar.Scheduler.QueueLock

open Locking Transition

/-- The two mutexes. -/
inductive Lock
  | threads_mtx
  | fibers_mtx
  deriving DecidableEq, Repr

/-- Places in the calls between two steps. -/
inductive Pc (F C : Type*)
  | idle
  /-- In `schedule` with the lock, these tasks to go, and whether `m_fibers` was accessed. -/
  | scheduling (accessed : Bool) (tasks : List (FiberTask F C))
  /-- In `scheduleNonLock`, behind `m_fibers.empty()`. -/
  | emplacing (task : FiberTask F C) (tasks : List (FiberTask F C))
  /-- In `run` with the lock. -/
  | scanBegin
  /-- `it != m_fibers.end()` is next. -/
  | scanCompare (it : ℕ)
  /-- The tests on `*it` are next. -/
  | scanEntry (it : ℕ)
  /-- `m_fibers.erase(it)` is next; whether the entry is a callback. -/
  | scanErase (it : ℕ) (cb : Bool)
  /-- `it == m_fibers.end()` is next, after a callback was taken or not. -/
  | scanEnd (cb : Bool)
  | scanUnlock
  /-- In `stopping` behind the log line. -/
  | stoppingLock (logged : Bool)
  | stoppingRead (logged : Bool)
  | stoppingUnlock

/-- The queue, the flags that `stopping` tests first, the locks, and the place of each thread. -/
structure State (T F C : Type*) where
  fibers : List (FiberTask F C)
  autoStop : Bool
  running : Bool
  mutex : Lock → SharedMutex T
  pc : T → Pc F C
  /-- The iteration of `run` that the thread is in has yet to read `m_fibers.size()` for its log
  line. Up to there its callback runs, which may be inside a call of its own. -/
  logging : T → Bool

/-- What a thread does next. -/
inductive Action (T F C : Type*)
  /-- `schedule(cb, thread)`, or `schedule(begin, end)`: take the lock. -/
  | schedule (t : T) (tasks : List (FiberTask F C))
  /-- The block in `run`: take the lock. -/
  | run (t : T)
  /-- `stopping()`: the log line, unless the level is too high for it. -/
  | stopping (t : T) (logged : Bool)
  /-- The next step of a call, where a fiber's `m_state` is `EXEC` or not. At the end of the scan,
  `logs` says whether the callback taken will terminate and the level permit the log line. -/
  | next (t : T) (executing logs : Bool)
  /-- The log line of `run` after the callback: `m_fibers.size()`. -/
  | log (t : T)

variable {T F C : Type*} [DecidableEq T]

/-- A queue and the flags, with no call in progress. -/
def State.new (fibers : List (FiberTask F C)) (autoStop running : Bool) : State T F C where
  fibers := fibers
  autoStop := autoStop
  running := running
  mutex := fun _ => .free
  pc := fun _ => .idle
  logging := fun _ => false

/-- The thread goes on to another place. -/
def State.goto (s : State T F C) (t : T) (pc : Pc F C) : State T F C :=
  { s with pc := Function.update s.pc t pc }

/-- The iteration of `run` that the thread is in comes to its log line, or not. -/
def State.setLogging (s : State T F C) (t : T) (logging : Bool) : State T F C :=
  { s with logging := Function.update s.logging t logging }

/-- `std::unique_lock` or `std::lock_guard`. -/
def State.lock (s : State T F C) (t : T) (l : Lock) : Option (State T F C) :=
  ((s.mutex l).lock t .exclusive).map fun mutex =>
    { s with mutex := Function.update s.mutex l mutex }

/-- The end of the block of a lock. -/
def State.unlock (s : State T F C) (t : T) (l : Lock) : State T F C :=
  { s with mutex := Function.update s.mutex l ((s.mutex l).unlock t) }

/-- The next step of the call a thread is in. The thread `t` has the id `tid t`. -/
def State.next (tid : T → ℤ) (s : State T F C) (t : T) (executing logs : Bool) :
    Option (State T F C) :=
  match s.pc t with
  | .idle => none
  | .scheduling _ [] => some ((s.unlock t .threads_mtx).goto t .idle)
  | .scheduling _ (task :: tasks) => some (s.goto t (.emplacing task tasks))
  | .emplacing task tasks =>
    let fibers := if task.nonempty then s.fibers ++ [task] else s.fibers
    some ({ s with fibers := fibers }.goto t (.scheduling true tasks))
  | .scanBegin => some (s.goto t (.scanCompare 0))
  | .scanCompare it =>
    some (s.goto t (if it < s.fibers.length then .scanEntry it else .scanEnd false))
  | .scanEntry it =>
    match s.fibers[it]? with
    | none => none -- the entry is gone
    | some task =>
      if task.thread_id ≠ -1 ∧ task.thread_id ≠ tid t then some (s.goto t (.scanCompare (it + 1)))
      else if task.fiber.isSome && executing then some (s.goto t (.scanCompare (it + 1)))
      else some (s.goto t (.scanErase it task.cb.isSome))
  | .scanErase it cb => some ({ s with fibers := s.fibers.eraseIdx it }.goto t (.scanEnd cb))
  | .scanEnd cb => some ((s.setLogging t (cb && logs)).goto t .scanUnlock)
  | .scanUnlock => some ((s.unlock t .fibers_mtx).goto t .idle)
  | .stoppingLock logged => (s.lock t .fibers_mtx).map (·.goto t (.stoppingRead logged))
  | .stoppingRead _ => some (s.goto t .stoppingUnlock)
  | .stoppingUnlock => some ((s.unlock t .fibers_mtx).goto t .idle)

/-- The state after an action, if the action is possible. -/
def step (tid : T → ℤ) (s : State T F C) : Action T F C → Option (State T F C)
  | .schedule t tasks =>
    match s.pc t with
    | .idle => (s.lock t .threads_mtx).map (·.goto t (.scheduling false tasks))
    | _ => none
  | .run t =>
    match s.pc t with
    | .idle =>
      -- the iteration before comes first to its log line
      if s.logging t then none else (s.lock t .fibers_mtx).map (·.goto t .scanBegin)
    | _ => none
  | .stopping t logged =>
    match s.pc t with
    | .idle => some (s.goto t (.stoppingLock logged))
    | _ => none
  | .next t executing logs => s.next tid t executing logs
  | .log t =>
    match s.pc t with
    | .idle => if s.logging t then some (s.setLogging t false) else none
    | _ => none

/-! ## Accesses in progress -/

/-- `m_autoStop && !m_running`, without which `stopping` does not read the queue under the lock. -/
def State.reads (s : State T F C) : Bool := s.autoStop && !s.running

/-- The next step modifies the queue. -/
def Pc.Modifies : Pc F C → Prop
  | .emplacing task _ => task.nonempty
  | .scanErase _ _ => True
  | _ => False

/-- The place is between the first and the last access of a call. -/
def Pc.Between (reads : Bool) : Pc F C → Prop
  | .scheduling accessed tasks => accessed ∧ tasks ≠ []
  | .emplacing task tasks => task.nonempty ∨ tasks ≠ []
  | .scanCompare _ | .scanEntry _ | .scanErase _ _ | .scanEnd _ => True
  | .stoppingLock logged | .stoppingRead logged => logged ∧ reads
  | _ => False

/-- The thread is between the first and the last access of a call, or of its iteration of `run`. -/
def State.Between (s : State T F C) (t : T) : Prop :=
  (s.pc t).Between s.reads ∨ s.logging t = true

/-- Nobody modifies the queue while another thread is in the middle of its accesses. -/
def QueueLaw (s : State T F C) : Prop :=
  ∀ t u, t ≠ u → (s.pc t).Modifies → ¬ s.Between u

/-- The lock that a thread holds at a place. -/
def Pc.holds : Pc F C → Option Lock
  | .idle | .stoppingLock _ => none
  | .scheduling _ _ | .emplacing _ _ => some .threads_mtx
  | .scanBegin | .scanCompare _ | .scanEntry _ | .scanErase _ _ | .scanEnd _ | .scanUnlock
  | .stoppingRead _ | .stoppingUnlock => some .fibers_mtx

/-- How `schedule` uses the queue for these tasks: an empty task is not enqueued. -/
def tasksMode (tasks : List (FiberTask F C)) : Option Mode :=
  if tasks = [] then none
  else if tasks.any (·.nonempty) then some .exclusive else some .shared

/-- How a call in progress may still use the queue. -/
def Pc.use (reads : Bool) : Pc F C → Option Mode
  | .idle | .scanUnlock | .stoppingUnlock => none
  | .scheduling _ tasks => tasksMode tasks
  | .emplacing task tasks => if task.nonempty then some .exclusive else tasksMode tasks
  | .scanBegin | .scanCompare _ | .scanEntry _ | .scanErase _ _ => some .exclusive
  | .scanEnd _ => some .shared
  | .stoppingLock logged => if logged && reads then some .shared else none
  | .stoppingRead _ => if reads then some .shared else none

/-- The read that an iteration of `run` has yet to make for its log line. -/
def logUse (logging : Bool) : Option Mode := if logging then some .shared else none

/-- How a thread may still use the queue in its call and, behind it, in its iteration of `run`. -/
def State.use (s : State T F C) (t : T) : Option Mode :=
  ((s.pc t).use s.reads).or (logUse (s.logging t))

/-- The use of every thread that the lock, if any, does not keep out is compatible. -/
def State.Apart (s : State T F C) (t : T) (l : Option Lock) (m : Mode) : Prop :=
  ∀ u, u ≠ t → ∀ m', s.use u = some m' → (s.pc u).holds = none ∨ (s.pc u).holds ≠ l →
    m.Compatible m'

/-- A call begins only while no conflicting call is in progress outside its lock. -/
def BeginsApart (s : State T F C) : Action T F C → Prop
  | .schedule t tasks => ∀ m, tasksMode tasks = some m → s.Apart t (some .threads_mtx) m
  | .run t => s.Apart t (some .fibers_mtx) .exclusive
  | .stopping t logged => logged && s.reads → s.Apart t none .shared
  | .next t _ _ =>
    -- a call of `stopping` that has not logged begins with the lock
    match s.pc t with
    | .stoppingLock false => s.reads → s.Apart t (some .fibers_mtx) .shared
    | _ => True
  -- the iteration has begun with its scan
  | .log _ => True

/-! ## The invariant -/

/-- Threads hold the locks of their places, and nobody who may still modify the queue shares it. -/
structure Inv (s : State T F C) : Prop where
  held : ∀ t l, (s.pc t).holds = some l → (s.mutex l).mode t = some .exclusive
  exclusive : Exclusive s.use

theorem tasksMode_cons (task : FiberTask F C) (tasks : List (FiberTask F C)) :
    Weaker (if task.nonempty then some .exclusive else tasksMode tasks)
      (tasksMode (task :: tasks)) := by
  intro m hm
  by_cases htask : task.nonempty
  · exact Or.inr (by simp [tasksMode, htask])
  · rw [if_neg htask, tasksMode] at hm
    split at hm
    · cases hm
    · left
      simpa [tasksMode, htask] using hm

/-- What is given up of the use in a call is given up with the log line still to come. -/
theorem weaker_or_logUse {part o : Option Mode} (h : Weaker part o) (logging : Bool) :
    Weaker (part.or (logUse logging)) (o.or (logUse logging)) := by
  intro m hm
  cases part with
  | some m' =>
    obtain rfl : m' = m := by simpa using hm
    obtain rfl | rfl := h m' rfl
    · exact Or.inl rfl
    · exact Or.inr rfl
  | none =>
    -- what is left is the read of the log line, which either use covers
    cases o with
    | none => exact Or.inl hm
    | some m' =>
      cases logging with
      | false => cases hm
      | true =>
        obtain rfl : Mode.shared = m := by simpa [logUse] using hm
        cases m' with
        | shared => exact Or.inl rfl
        | exclusive => exact Or.inr rfl

/-- Going on changes the use of the thread only. -/
theorem use_goto (s : State T F C) (t : T) (pc : Pc F C) :
    (s.goto t pc).use =
      Function.update s.use t ((pc.use s.reads).or (logUse (s.logging t))) := by
  ext u : 1
  by_cases hu : u = t
  · subst hu
    simp [State.use, State.goto, State.reads]
  · simp [State.use, State.goto, State.reads, hu]

/-- So does that an iteration comes to its log line. -/
theorem use_setLogging (s : State T F C) (t : T) (logging : Bool) :
    (s.setLogging t logging).use =
      Function.update s.use t (((s.pc t).use s.reads).or (logUse logging)) := by
  ext u : 1
  by_cases hu : u = t
  · subst hu
    simp [State.use, State.setLogging, State.reads]
  · simp [State.use, State.setLogging, State.reads, hu]

namespace Inv

variable {s s' : State T F C} {t : T} {pc : Pc F C} {l : Lock}

/-- What a step under the locks as they are has to keep to. -/
theorem goto (h : Inv s) (hholds : pc.holds = none ∨ pc.holds = (s.pc t).holds)
    (huse : Exclusive
      (Function.update s.use t ((pc.use s.reads).or (logUse (s.logging t))))) :
    Inv (s.goto t pc) := by
  refine ⟨fun u k hk => ?_, by rwa [use_goto]⟩
  by_cases hu : u = t
  · subst hu
    have hpc : pc.holds = some k := by simpa [State.goto] using hk
    obtain hnone | hsame := hholds
    · rw [hnone] at hpc
      cases hpc
    · exact h.held u k (hsame.symm.trans hpc)
  · exact h.held u k (by simpa [State.goto, hu] using hk)

/-- Steps that only give up part of the use in the call. -/
theorem goto_weaker (h : Inv s) (hholds : pc.holds = none ∨ pc.holds = (s.pc t).holds)
    (huse : Weaker (pc.use s.reads) ((s.pc t).use s.reads)) : Inv (s.goto t pc) :=
  h.goto hholds (h.exclusive.weaken (weaker_or_logUse huse _))

/-- Within the scan, whose use is exclusive to its end. -/
theorem goto_scan (h : Inv s) (huse : (s.pc t).use s.reads = some .exclusive)
    (hheld : (s.pc t).holds = some .fibers_mtx) (hholds : pc.holds = some .fibers_mtx) :
    Inv (s.goto t pc) := by
  refine h.goto_weaker (Or.inr (by rw [hholds, hheld])) ?_
  rw [huse]
  exact weaker_exclusive _

/-- The read of the log line is over, or comes behind accesses that are not. -/
theorem setLogging (h : Inv s) {logging : Bool}
    (huse : logging = true → (s.pc t).use s.reads ≠ none) : Inv (s.setLogging t logging) := by
  refine ⟨h.held, ?_⟩
  rw [use_setLogging]
  refine h.exclusive.weaken fun m hm => Or.inl ?_
  rw [State.use]
  cases hpc : (s.pc t).use s.reads with
  | some m' => simpa [hpc] using hm
  | none =>
    obtain rfl : logging = false := by simpa [hpc] using huse
    simp [hpc, logUse] at hm

/-- The queue is not part of the invariant. -/
theorem setFibers (h : Inv s) (fibers : List (FiberTask F C)) : Inv { s with fibers := fibers } :=
  ⟨h.held, h.exclusive⟩

/-- Taking a lock. -/
theorem lock (h : Inv s) (hlock : s.lock t l = some s') (hholds : pc.holds = some l)
    (huse : Exclusive
      (Function.update s.use t ((pc.use s.reads).or (logUse (s.logging t))))) :
    Inv (s'.goto t pc) := by
  obtain ⟨mutex, hmutex, rfl⟩ := Option.map_eq_some_iff.1 hlock
  obtain ⟨-, -, hmode⟩ := SharedMutex.lock_eq_some hmutex
  refine ⟨fun u k hk => ?_, by rwa [use_goto]⟩
  by_cases hu : u = t
  · subst hu
    have hkl : l = k := by
      have hpc : pc.holds = some k := by simpa [State.goto] using hk
      exact Option.some_inj.1 (hholds.symm.trans hpc)
    subst hkl
    simp [State.goto, hmode]
  · have hheld := h.held u k (by simpa [State.goto, hu] using hk)
    by_cases hkl : k = l
    · subst hkl
      simpa [State.goto, hmode, hu] using hheld
    · simpa [State.goto, hkl] using hheld

/-- Releasing a lock at the end of a call. -/
theorem unlock (h : Inv s) (t : T) (l : Lock) : Inv ((s.unlock t l).goto t .idle) := by
  refine ⟨fun u k hk => ?_, ?_⟩
  · by_cases hu : u = t
    · subst hu
      simp [State.goto, Pc.holds] at hk
    · have hheld := h.held u k (by simpa [State.goto, State.unlock, hu] using hk)
      by_cases hkl : k = l
      · subst hkl
        simpa [State.goto, State.unlock, SharedMutex.mode_unlock, hu] using hheld
      · simpa [State.goto, State.unlock, hkl] using hheld
  · rw [use_goto]
    exact h.exclusive.weaken (weaker_or_logUse (weaker_none ((s.pc t).use s.reads)) _)

/-- A thread that takes a lock is admitted when the calls outside the lock are compatible. -/
theorem admits (h : Inv s) (hlock : s.lock t l = some s') {m : Mode}
    (hapart : s.Apart t (some l) m) : Admits s.use t m := by
  obtain ⟨mutex, hmutex, -⟩ := Option.map_eq_some_iff.1 hlock
  obtain ⟨-, halone, -⟩ := SharedMutex.lock_eq_some hmutex
  intro u hu m' hm'
  by_cases hl : (s.pc u).holds = some l
  · cases (halone u hu .exclusive (h.held u l hl)).1
  · exact hapart u hu m' hm' (Or.inr hl)

/-- A use in a call that is compatible with that of all others. -/
theorem exclusive_enter (h : Inv s) (hadmits : ∀ m, pc.use s.reads = some m → Admits s.use t m) :
    Exclusive (Function.update s.use t ((pc.use s.reads).or (logUse (s.logging t)))) := by
  cases huse : pc.use s.reads with
  | none => exact h.exclusive.weaken (weaker_or_logUse (weaker_none ((s.pc t).use s.reads)) _)
  | some m => exact h.exclusive.enter (hadmits m huse)

/-- Entering a call with its lock. -/
theorem enter (h : Inv s) (hlock : s.lock t l = some s') (hholds : pc.holds = some l)
    (hapart : ∀ m, pc.use s.reads = some m → s.Apart t (some l) m) : Inv (s'.goto t pc) :=
  h.lock hlock hholds (h.exclusive_enter fun m hm => h.admits hlock (hapart m hm))

end Inv

/-- One step of a call in progress. -/
theorem inv_next {tid : T → ℤ} {s s' : State T F C} {t : T} {executing logs : Bool} (h : Inv s)
    (hapart : BeginsApart s (.next t executing logs))
    (hst : s.next tid t executing logs = some s') : Inv s' := by
  rw [State.next] at hst
  cases hpc : s.pc t with
  | idle => simp [hpc] at hst
  | scheduling accessed tasks =>
    cases tasks with
    | nil =>
      rw [hpc] at hst
      cases hst
      exact h.unlock t .threads_mtx
    | cons task tasks =>
      rw [hpc] at hst
      cases hst
      refine h.goto_weaker (Or.inr (by rw [hpc]; rfl)) ?_
      rw [hpc]
      exact tasksMode_cons task tasks
  | emplacing task tasks =>
    rw [hpc] at hst
    cases hst
    refine (h.setFibers _).goto_weaker (Or.inr (by rw [hpc]; rfl)) ?_
    -- the tasks that are left need no more than all of them
    intro m hm
    by_cases htask : task.nonempty
    · exact Or.inr (by simp [Pc.use, hpc, htask])
    · exact Or.inl (by simpa [Pc.use, hpc, htask] using hm)
  | scanBegin =>
    rw [hpc] at hst
    cases hst
    exact h.goto_scan (by rw [hpc]; rfl) (by rw [hpc]; rfl) rfl
  | scanCompare it =>
    rw [hpc] at hst
    cases hst
    by_cases hit : it < s.fibers.length
    · rw [if_pos hit]
      exact h.goto_scan (by rw [hpc]; rfl) (by rw [hpc]; rfl) rfl
    · rw [if_neg hit]
      exact h.goto_scan (by rw [hpc]; rfl) (by rw [hpc]; rfl) rfl
  | scanEntry it =>
    have hgoto : ∀ pc : Pc F C, pc.holds = some .fibers_mtx → Inv (s.goto t pc) :=
      fun pc hholds => h.goto_scan (by rw [hpc]; rfl) (by rw [hpc]; rfl) hholds
    rw [hpc] at hst
    dsimp only at hst
    split at hst
    · cases hst
    · split at hst
      · cases hst
        exact hgoto _ rfl
      · split at hst
        · cases hst
          exact hgoto _ rfl
        · cases hst
          exact hgoto _ rfl
  | scanErase it cb =>
    rw [hpc] at hst
    cases hst
    exact (h.setFibers _).goto_scan (by rw [hpc]; rfl) (by rw [hpc]; rfl) rfl
  | scanEnd cb =>
    -- the comparison with `end` was the last access, unless the log line is to come
    rw [hpc] at hst
    cases hst
    have hlogging : Inv (s.setLogging t (cb && logs)) :=
      h.setLogging fun _ => by rw [hpc]; exact nofun
    refine hlogging.goto_weaker (Or.inr ?_) (weaker_none _)
    change _ = (s.pc t).holds
    rw [hpc]
    rfl
  | scanUnlock =>
    rw [hpc] at hst
    cases hst
    exact h.unlock t .fibers_mtx
  | stoppingLock logged =>
    rw [hpc] at hst
    obtain ⟨s₁, hlock, rfl⟩ := Option.map_eq_some_iff.1 hst
    cases logged with
    | false =>
      refine h.enter hlock rfl fun m hm => ?_
      simp only [BeginsApart, hpc] at hapart
      cases hreads : s.reads with
      | false => simp [Pc.use, hreads] at hm
      | true =>
        obtain rfl : Mode.shared = m := by simpa [Pc.use, hreads] using hm
        exact hapart hreads
    | true =>
      -- the call has begun with the log line of `stopping`
      refine h.lock hlock rfl (h.exclusive.weaken ?_)
      refine weaker_or_logUse ?_ _
      rw [hpc]
      simpa [Pc.use] using weaker_refl _
  | stoppingRead logged =>
    rw [hpc] at hst
    cases hst
    exact h.goto_weaker (Or.inr (by rw [hpc]; rfl)) (weaker_none _)
  | stoppingUnlock =>
    rw [hpc] at hst
    cases hst
    exact h.unlock t .fibers_mtx

/-- One step, when it begins no call beside a conflicting one. -/
theorem inv_step {tid : T → ℤ} {s s' : State T F C} {a : Action T F C} (h : Inv s)
    (hapart : BeginsApart s a) (hst : step tid s a = some s') : Inv s' := by
  cases a with
  | schedule t tasks =>
    rw [step] at hst
    split at hst
    · obtain ⟨s₁, hlock, rfl⟩ := Option.map_eq_some_iff.1 hst
      exact h.enter hlock rfl hapart
    · cases hst
  | run t =>
    rw [step] at hst
    split at hst
    · split at hst
      · cases hst
      · obtain ⟨s₁, hlock, rfl⟩ := Option.map_eq_some_iff.1 hst
        refine h.enter hlock rfl fun m hm => ?_
        obtain rfl : Mode.exclusive = m := by simpa [Pc.use] using hm
        exact hapart
    · cases hst
  | stopping t logged =>
    rw [step] at hst
    split at hst
    · cases hst
      refine h.goto (Or.inl rfl) (h.exclusive_enter fun m hm => ?_)
      -- no lock keeps others out of the log line
      cases hlogged : logged && s.reads with
      | false => simp [Pc.use, hlogged] at hm
      | true =>
        obtain rfl : Mode.shared = m := by simpa [Pc.use, hlogged] using hm
        intro u hu m' hm'
        refine hapart hlogged u hu m' hm' ?_
        by_cases hholds : (s.pc u).holds = none
        · exact Or.inl hholds
        · exact Or.inr hholds
    · cases hst
  | next t executing logs => exact inv_next h hapart hst
  | log t =>
    rw [step] at hst
    split at hst
    · split at hst
      · cases hst
        exact h.setLogging nofun
      · cases hst
    · cases hst

theorem new_inv (fibers : List (FiberTask F C)) (autoStop running : Bool) :
    Inv (State.new fibers autoStop running : State T F C) :=
  ⟨fun _ _ h => (nomatch h), fun _ _ _ _ _ h _ => (nomatch h)⟩

/-! ## The law -/

omit [DecidableEq T] in
/-- A thread about to modify the queue does not share it. -/
theorem use_of_modifies {s : State T F C} {t : T} (h : (s.pc t).Modifies) :
    s.use t = some .exclusive := by
  rw [State.use]
  cases hpc : s.pc t with
  | emplacing task tasks =>
    rw [hpc] at h
    simp [Pc.use, show task.nonempty = true from h]
  | scanErase it cb => rfl
  | _ =>
    rw [hpc] at h
    cases h

theorem tasksMode_ne_none {tasks : List (FiberTask F C)} (h : tasks ≠ []) :
    tasksMode tasks ≠ none := by
  rw [tasksMode, if_neg h]
  split <;> simp

omit [DecidableEq T] in
/-- A call that is between its accesses has one to come. -/
theorem Pc.use_of_between {pc : Pc F C} {reads : Bool} (h : pc.Between reads) :
    pc.use reads ≠ none := by
  cases pc with
  | scheduling accessed tasks => exact tasksMode_ne_none h.2
  | emplacing task tasks =>
    by_cases htask : task.nonempty
    · simp [Pc.use, htask]
    · simpa [Pc.use, htask] using tasksMode_ne_none (h.resolve_left htask)
  | stoppingLock logged | stoppingRead logged =>
    obtain ⟨hlogged, hreads⟩ := h
    simp [Pc.use, hlogged, hreads]
  | scanCompare it | scanEntry it | scanErase it cb | scanEnd cb => exact nofun
  | idle | scanBegin | scanUnlock | stoppingUnlock => cases h

omit [DecidableEq T] in
/-- So has a thread whose call or iteration of `run` is between its accesses. -/
theorem use_of_between {s : State T F C} {t : T} (h : s.Between t) : s.use t ≠ none := by
  rw [State.use, ne_eq, Option.or_eq_none_iff, not_and_or]
  obtain hpc | hlogging := h
  · exact Or.inl (Pc.use_of_between hpc)
  · exact Or.inr (by rw [hlogging]; exact nofun)

theorem Inv.queueLaw {s : State T F C} (h : Inv s) : QueueLaw s := fun _ _ htu hmodifies hbetween =>
  use_of_between hbetween (h.exclusive.eq_none (use_of_modifies hmodifies) (Ne.symm htu))

/-- In every run whose calls begin apart, the law holds in every state reached. -/
theorem queue_law (tid : T → ℤ) (fibers : List (FiberTask F C)) (autoStop running : Bool)
    {actions : List (Action T F C)} {s : State T F C}
    (hrun : Run (Guarded BeginsApart (ofFun (step tid))) (.new fibers autoStop running) actions s) :
    QueueLaw s := by
  have hinv : Inv s := hrun.invariant (new_inv fibers autoStop running)
    fun _ _ _ h hst => inv_step h hst.1 hst.2
  exact hinv.queueLaw

/-- Two threads in `stopping`, both behind the log line, beside each other. -/
theorem queue_law_example : ∃ s : State Bool ℕ ℕ,
    Run (Guarded BeginsApart (ofFun (step fun _ => 7))) (.new [.ofCb (some 1) (-1)] true false)
      [.stopping true true, .stopping false true] s ∧
      (∀ t, s.Between t) ∧ QueueLaw s := by
  let task : FiberTask ℕ ℕ := .ofCb (some 1) (-1)
  let s₁ : State Bool ℕ ℕ := (State.new [task] true false).goto true (.stoppingLock true)
  let s₂ : State Bool ℕ ℕ := s₁.goto false (.stoppingLock true)
  have hfirst : Guarded BeginsApart (ofFun (step fun _ => 7)) (.new [task] true false)
      (.stopping true true) s₁ := ⟨fun _ _ _ _ h => (nomatch h), rfl⟩
  have hsecond : Guarded BeginsApart (ofFun (step fun _ => 7)) s₁ (.stopping false true) s₂ := by
    refine ⟨fun _ u hu m hm _ => ?_, rfl⟩
    obtain rfl : u = true := by simpa using hu
    exact ⟨rfl, (Option.some_inj.1 hm).symm⟩
  have hrun := (Run.single hfirst).snoc hsecond
  refine ⟨s₂, hrun, ?_, queue_law _ _ _ _ hrun⟩
  rintro (_ | _) <;> exact Or.inl ⟨rfl, rfl⟩

/-- While one thread is in the scan, another appends to the queue. -/
theorem not_queueLaw_scan : ∃ (actions : List (Action Bool ℕ ℕ)) (s : State Bool ℕ ℕ),
    Run (ofFun (step fun _ => 7)) (.new [.ofCb (some 1) (-1)] false true) actions s ∧
      ¬ QueueLaw s := by
  refine ⟨[.run true, .next true false false, .schedule false [.ofCb (some 2) (-1)],
    .next false false false], _, Run.of_exec rfl, fun h => ?_⟩
  exact h false true (by decide) rfl (Or.inl trivial)

end Sylar.Scheduler.QueueLock
