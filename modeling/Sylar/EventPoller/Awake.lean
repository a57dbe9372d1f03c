import Sylar.EventPoller.StopCondition
import Sylar.Foundation.Doorbell
import Sylar.Scheduler.Conservation
import Sylar.Scheduler.Frame
import Sylar.Scheduler.Tickle

/-!
# No lost wake-up

The workers of a poller run the loop of `Scheduler::run`, with `EventPoller::idle` as the body of
their idle fibers: a worker that finds nothing to do calls `tickle`, and then waits in `epoll_wait`
until a descriptor, a timeout, or the other end of `m_tickleFds` wakes it up. `step` puts the loop
of `run`, cut into steps as in `Scheduler.step`, together with the loop of `idle`, the calls of
`schedule` and the pipe.

`never_all_asleep` says that the pipe has an event to report when no worker goes on by itself,
unless the pipe is full and a worker that has been told of it calls `schedule` before it reads.

Representation:

* `place` says where a worker is beside the `Phase` of `run`. A worker may call `schedule` and
  `flushTimer` itself, in the body of a task and in `idle` behind `epoll_wait`, for the callbacks of
  timers and the waiters of other events. It is in that call then (`calling`, `ringing`), and goes
  on with its `Body` when the call has returned;
* a call of `schedule`, of one task or of a range, by somebody else is in `call` with its
  `need_tickle`, from `scheduleBegin` to `scheduleEnd`;
* timers, pending events and clock readings come with the actions that read them, and a worker may
  be woken by something other than the pipe at any time;
* the pipe holds at most `capacity` bytes, and `write` blocks when it is full: only the read end is
  set `O_NONBLOCK`.
-/

namespace Sylar.EventPoller.Loop

open Scheduler Transition

/-- What calls `schedule` or `flushTimer` on a worker. -/
inductive Body
  /-- A fiber that `run` has swapped in. -/
  | task
  /-- `idle`, where `epoll_wait` has reported the pipe and it has not been read. -/
  | told
  /-- `idle` behind `epoll_wait`, with nothing to be read from the pipe. -/
  | handling
  deriving DecidableEq, Repr

/-- Where a worker is, beside the phase of `run`. -/
inductive Place
  /-- Outside `tickle` and `idle`. -/
  | running
  /-- In `tickle`, where `write` is next. -/
  | tickling
  /-- At the head of the loop of `idle`. -/
  | test
  /-- In `epoll_wait`. -/
  | waiting
  /-- Behind `epoll_wait`, which has reported the pipe. The callbacks of timers and the events
  reported in front of the pipe come first. -/
  | told
  /-- In `while(read(m_tickleFds[0], dummy, sizeof(dummy)) > 0)`. -/
  | draining
  /-- Behind `epoll_wait`, with nothing to be read from the pipe. -/
  | handling
  /-- In a call of `schedule`, with its `need_tickle`. -/
  | calling (body : Body) (need_tickle : Bool)
  /-- In the `tickle` of such a call or of `flushTimer`, where `write` is next. -/
  | ringing (body : Body)
  deriving DecidableEq, Repr

/-- Where a call returns to. -/
def Body.place : Body → Place
  | task => .running
  | told => .told
  | handling => .handling

/-- The workers and their queue, the pipe, and the calls of `schedule` by others in progress. -/
structure State (W F C K : Type*) where
  core : Scheduler.State W F C
  pipe : EdgePipe
  place : W → Place
  call : K → Option Bool

/-- What may happen. -/
inductive Action (W F C K Addr Func : Type*)
  /-- A step of `run`, of a task, or of somebody who holds a fiber. If the loop over `m_fibers`
  compares an iterator to a freed node, the result is `dangling`. -/
  | run (a : Scheduler.Action W F C) (dangling : Bool)
  /-- `tickle()`, where a write into a pipe with bytes in it makes it due again or not. -/
  | tickle (w : W) (again : Bool)
  | scheduleBegin (k : K)
  | scheduleNonLock (k : K) (task : FiberTask F C)
  | scheduleEnd (k : K) (again : Bool)
  /-- `stopping(next_timeout)` and `break`. -/
  | leave (w : W) (timers : TimerManager Addr Func) (pendingEventCount : ℕ) (now : UInt64)
  /-- `stopping(next_timeout)` and the call of `epoll_wait`. -/
  | wait (w : W) (timers : TimerManager Addr Func) (pendingEventCount : ℕ) (now : UInt64)
  /-- `epoll_wait` returns, with an event for the pipe or without. -/
  | wake (w : W) (tickled : Bool)
  | read (w : W)
  /-- `raw_ptr->swapOut()`. -/
  | swapOut (w : W)
  /-- A worker calls `schedule`. -/
  | callSchedule (w : W)
  | callNonLock (w : W) (task : FiberTask F C)
  /-- The lock is released. -/
  | callEnd (w : W)
  /-- A worker calls `flushTimer`, for a timer that it adds in front of the others. -/
  | callFlush (w : W)
  /-- `tickle()` in one of these calls, which returns. -/
  | callTickle (w : W) (again : Bool)
  /-- `flushTimer()`, for a timer that somebody else adds in front of the others. -/
  | flushTimer (again : Bool)
  /-- The kernel finds the pipe empty. -/
  | forget

variable {W F C K Addr Func : Type*}

/-- The workers are about to enter the loop, and nothing has been scheduled. -/
def State.new : State W F C K where
  core := .new
  pipe := .empty
  place := fun _ => .running
  call := fun _ => none

variable [DecidableEq W] [DecidableEq F] [DecidableEq K]

/-- The worker goes to another place. -/
def State.goto (s : State W F C K) (w : W) (place : Place) : State W F C K :=
  { s with place := Function.update s.place w place }

/-- `write(m_tickleFds[1], "T", 1)`. -/
def State.write (s : State W F C K) (capacity : ℕ) (again : Bool) : Option (State W F C K) :=
  if s.pipe.bytes < capacity then some { s with pipe := s.pipe.write again } else none

/-- Where a step of `run` leaves its worker. -/
def State.placeAfter (s : State W F C K) (tid : W → ℤ) (dangling : Bool) :
    Scheduler.Action W F C → Place
  | .dequeue w =>
    if (pass s.core.executing (tid w) false s.core.sched.fibers).tickles dangling then .tickling
    else .running
  -- `need_tickle = m_fibers.empty()`
  | .requeue _ => if s.core.sched.fibers.isEmpty then .tickling else .running
  | .idle w => if (s.core.worker w).idle_fiber = .TERM then .running else .test
  | _ => .running

/-- The steps that `run` takes: tasks are scheduled by `scheduleNonLock`, and the idle fiber is left
in `idle`. -/
def ofRun : Scheduler.Action W F C → Bool
  | .schedule _ => false
  | .idleReturn _ _ => false
  | _ => true

/-- What a worker that may call `schedule` is doing. -/
def State.body (s : State W F C K) (w : W) : Option Body :=
  match s.place w with
  | .running =>
    match (s.core.worker w).phase with
    | .inFiber _ => some .task
    | .inCb _ _ => some .task
    | _ => none
  | .told => some .told
  | .handling => some .handling
  | _ => none

/-- A step of a part of the system that the scheduler covers. -/
def State.coreStep (s : State W F C K) (tid : W → ℤ) (a : Scheduler.Action W F C) :
    Option (State W F C K) :=
  (Scheduler.step tid s.core a).map fun core => { s with core := core }

/-- The state after an action, if the action is possible. -/
def step (tid : W → ℤ) (capacity : ℕ) (s : State W F C K) :
    Action W F C K Addr Func → Option (State W F C K)
  | .run a dangling =>
    if ofRun a then
      match a.actor with
      | none => s.coreStep tid a
      | some w =>
        if s.place w = .running then
          (s.coreStep tid a).map fun s' => s'.goto w (s.placeAfter tid dangling a)
        else none
    else none
  | .tickle w again =>
    if s.place w = .tickling then (s.goto w .running).write capacity again else none
  | .scheduleBegin k =>
    match s.call k with
    | none => some { s with call := Function.update s.call k (some false) }
    | some _ => none
  | .scheduleNonLock k task =>
    (s.call k).bind fun need_tickle =>
      let need_tickle := need_tickle || s.core.sched.fibers.isEmpty
      (s.coreStep tid (.schedule task)).map fun s' =>
        { s' with call := Function.update s.call k (some need_tickle) }
  | .scheduleEnd k again =>
    (s.call k).bind fun need_tickle =>
      let s' := { s with call := Function.update s.call k none }
      if need_tickle then s'.write capacity again else some s'
  | .leave w timers pendingEventCount now =>
    if s.place w = .test ∧ idleTest ⟨s.core.sched, timers, pendingEventCount⟩ now = none then
      (s.coreStep tid (.idleReturn w true)).map fun s' => s'.goto w .running
    else none
  | .wait w timers pendingEventCount now =>
    if s.place w = .test ∧ (idleTest ⟨s.core.sched, timers, pendingEventCount⟩ now).isSome then
      some (s.goto w .waiting)
    else none
  | .wake w tickled =>
    if s.place w = .waiting then
      if tickled then
        if s.pipe.Reports then some { s.goto w .told with pipe := s.pipe.clear } else none
      else some (s.goto w .handling)
    else none
  | .read w =>
    if s.place w = .told ∨ s.place w = .draining then
      if s.pipe.bytes = 0 then some (s.goto w .handling) -- `EAGAIN`
      else some { s.goto w .draining with pipe := s.pipe.read 256 }
    else none
  | .swapOut w =>
    if s.place w = .handling then
      (s.coreStep tid (.idleReturn w false)).map fun s' => s'.goto w .running
    else none
  | .callSchedule w => (s.body w).map fun body => s.goto w (.calling body false)
  | .callNonLock w task =>
    match s.place w with
    | .calling body need_tickle =>
      let need_tickle := need_tickle || s.core.sched.fibers.isEmpty
      (s.coreStep tid (.schedule task)).map fun s' => s'.goto w (.calling body need_tickle)
    | _ => none
  | .callEnd w =>
    match s.place w with
    | .calling body need_tickle =>
      some (s.goto w (if need_tickle then .ringing body else body.place))
    | _ => none
  | .callFlush w => (s.body w).map fun body => s.goto w (.ringing body)
  | .callTickle w again =>
    match s.place w with
    | .ringing body => (s.goto w body.place).write capacity again
    | _ => none
  | .flushTimer again => s.write capacity again
  | .forget => if s.pipe.bytes = 0 then some { s with pipe := s.pipe.clear } else none

/-! ## The doorbell -/

/-- The place of a worker that is in a call is that of the body of the call. -/
def Place.outer : Place → Place
  | calling body _ => body.place
  | ringing body => body.place
  | place => place

/-- A worker is at rest from the end of its `tickle` up to the return of `epoll_wait`, and when it
has left `run`. From its being told of the pipe on it counts as reading. -/
def stage (place : Place) (phase : Phase F C) : Stage :=
  match place.outer, phase with
  | .running, .idle => .resting
  | .running, .exited => .resting
  | .test, _ => .resting
  | .waiting, _ => .resting
  | .told, _ => .draining
  | .draining, _ => .draining
  | _, _ => .busy

/-- The pipe, with the workers as those who ring. -/
def State.doorbell (s : State W F C K) : Doorbell W where
  pipe := s.pipe
  stage := fun w => stage (s.place w) (s.core.worker w).phase

omit [DecidableEq F] in
/-- A worker that may have to call `tickle` is busy. -/
theorem stage_ite (c : Prop) [Decidable c] {phase : Phase F C}
    (hphase : stage .running phase = .busy) :
    stage (if c then .tickling else .running) phase = .busy := by
  split_ifs
  · rfl
  · exact hphase

section Steps

variable {tid : W → ℤ} {capacity : ℕ} {s s' : State W F C K} {core : Scheduler.State W F C}
  {b : Scheduler.Action W F C} {a : Action W F C K Addr Func} {w : W}

omit [DecidableEq W] [DecidableEq F] [DecidableEq K] in
/-- The stage of a worker as one who rings. -/
theorem stage_doorbell (s : State W F C K) (w : W) :
    s.doorbell.stage w = stage (s.place w) (s.core.worker w).phase := rfl

omit [DecidableEq F] [DecidableEq K] in
/-- A worker that goes to another place, with a new phase, changes its stage only. -/
theorem doorbell_goto (place : Place) (hcore : ∀ v, v ≠ w → core.worker v = s.core.worker v) :
    (State.goto { s with core := core } w place).doorbell =
      s.doorbell.goto w (stage place (core.worker w).phase) := by
  have hstage : (State.goto { s with core := core } w place).doorbell.stage =
      (s.doorbell.goto w (stage place (core.worker w).phase)).stage := by
    funext v
    by_cases hv : v = w
    · subst hv
      rw [Doorbell.stage_goto_self]
      simp [State.doorbell, State.goto]
    · rw [Doorbell.stage_goto_of_ne hv]
      simp [State.doorbell, State.goto, hv, hcore v hv]
  exact congrArg (Doorbell.mk s.pipe) hstage

omit [DecidableEq F] [DecidableEq K] in
/-- A worker that goes to another place in the same phase. -/
theorem doorbell_goto_self (place : Place) :
    (s.goto w place).doorbell = s.doorbell.goto w (stage place (s.core.worker w).phase) :=
  doorbell_goto place fun _ _ => rfl

/-- A worker of a doorbell goes to the stage where it is. -/
theorem goto_eq_self {d : Doorbell W} {st : Stage} (h : d.stage w = st) : d.goto w st = d := by
  subst h
  rw [Doorbell.goto, Function.update_eq_self]

omit [DecidableEq F] in
/-- A call by a worker does not change its stage. -/
theorem stage_place (body : Body) (phase : Phase F C) :
    stage body.place phase = stage (.ringing body) phase := by
  cases body <;> rfl

omit [DecidableEq F] [DecidableEq K] in
/-- A worker that goes to a place of the same stage. -/
theorem doorbell_stay {place : Place}
    (h : stage place (s.core.worker w).phase = stage (s.place w) (s.core.worker w).phase) :
    Doorbell.Step s.doorbell (s.goto w place).doorbell := by
  rw [doorbell_goto_self, h, ← stage_doorbell, goto_eq_self rfl]
  exact .stay

omit [DecidableEq K] in
/-- A step of `run` wakes its worker, or leaves it at rest. Nobody goes to rest by it: a worker that
finds nothing to take calls `tickle`. -/
theorem stage_run (dangling : Bool) (h : StepCase tid s.core b core) (hb : b.actor = some w)
    (hrun : ofRun b = true) :
    stage (s.placeAfter tid dangling b) (core.worker w).phase = .busy ∨
      stage (s.placeAfter tid dangling b) (core.worker w).phase =
        stage .running (s.core.worker w).phase := by
  cases h with
  | create hfree => cases hb
  | copy hheld => cases hb
  | release hheld => cases hb
  | schedule hheld => cases hb
  | idleReturn hw => cases hrun
  | getThis hcur => exact Or.inr rfl
  | @take v e rest hw hscan =>
    obtain rfl : v = w := Option.some.inj hb
    left
    simp only [Scheduler.State.setWorker, Function.update_self]
    exact stage_ite _ rfl
  | @takeNone v hw hscan =>
    obtain rfl : v = w := Option.some.inj hb
    left
    have htickles : (pass s.core.executing (tid v) false s.core.sched.fibers).tickles dangling =
        true := by
      rw [scan_eq_none, ← ft_pass_eq_none false] at hscan
      exact tickles_iff.mpr (Or.inr (Or.inl hscan))
    rw [State.placeAfter, if_pos htickles]
    rfl
  | @requeueFiber v hw | @requeueCb v thread hw =>
    obtain rfl : v = w := Option.some.inj hb
    left
    simp only [Scheduler.State.setWorker, Function.update_self]
    exact stage_ite _ rfl
  | @exit v hw hidle =>
    obtain rfl : v = w := Option.some.inj hb
    right
    simp [State.placeAfter, stage, Place.outer, Scheduler.State.setWorker, hw, hidle]
  | @idle v hw hidle =>
    obtain rfl : v = w := Option.some.inj hb
    right
    simp [State.placeAfter, stage, Place.outer, Scheduler.State.setWorker, hw, hidle]
  | _ =>
    obtain rfl := Option.some.inj hb
    left
    simp [State.placeAfter, stage, Place.outer, Scheduler.State.setWorker]

omit [DecidableEq K] in
/-- A step of the scheduler changes the scheduler only. -/
theorem coreStep_eq_some :
    s.coreStep tid b = some s' ↔ ∃ core, Scheduler.step tid s.core b = some core ∧
      s' = { s with core := core } := by
  simp [State.coreStep, eq_comm]

omit [DecidableEq W] [DecidableEq F] in
/-- Outside `idle`, a worker is busy, or rests. -/
theorem stage_running (phase : Phase F C) :
    stage .running phase = .busy ∨ stage .running phase = .resting := by
  cases phase <;> simp [stage, Place.outer]

omit [DecidableEq W] [DecidableEq F] [DecidableEq K] in
/-- What calls `schedule` is not in front of `epoll_wait`. -/
theorem stage_body {body : Body} (h : s.body w = some body) :
    stage body.place (s.core.worker w).phase = stage (s.place w) (s.core.worker w).phase := by
  unfold State.body at h
  split at h
  · rename_i hplace
    rw [hplace]
    split at h
    · cases h
      rfl
    · cases h
      rfl
    · cases h
  · rename_i hplace
    cases h
    rw [hplace]
    rfl
  · rename_i hplace
    cases h
    rw [hplace]
    rfl
  · cases h

omit [DecidableEq K] in
/-- A worker that `run` takes a step on. -/
theorem doorbell_run (dangling : Bool) (hw : b.actor = some w) (hrun : ofRun b = true)
    (hplace : s.place w = .running) (hstep : Scheduler.step tid s.core b = some core) :
    Doorbell.Step s.doorbell
      (State.goto { s with core := core } w (s.placeAfter tid dangling b)).doorbell := by
  have hcase := stepCase_of_step hstep
  rw [doorbell_goto _ fun v hv => worker_of_ne hcase (by simp [hw, Ne.symm hv])]
  have hstage : s.doorbell.stage w = stage .running (s.core.worker w).phase := by
    rw [stage_doorbell, hplace]
  rcases stage_run dangling hcase hw hrun with hbusy | hsame
  · rw [hbusy]
    refine .busy w fun hdrain => ?_
    rw [hstage] at hdrain
    rcases stage_running (s.core.worker w).phase with h | h <;> simp [h] at hdrain
  · rw [hsame, goto_eq_self hstage]
    exact .stay

omit [DecidableEq K] in
/-- A worker that comes back from `idle`. -/
theorem doorbell_idleReturn {returns : Bool} (hdrain : s.doorbell.stage w ≠ .draining)
    (hstep : Scheduler.step tid s.core (.idleReturn w returns) = some core) :
    Doorbell.Step s.doorbell (State.goto { s with core := core } w .running).doorbell := by
  have hcase := stepCase_of_step hstep
  rw [doorbell_goto _ fun v hv => worker_of_ne hcase (by simp [Scheduler.Action.actor, Ne.symm hv])]
  cases hcase with
  | idleReturn hw =>
    simp only [Scheduler.State.setWorker, Function.update_self]
    exact .busy w fun h => absurd h hdrain

/-- Every step of the poller is one of the doorbell. -/
theorem doorbell_step (h : step tid capacity s a = some s') :
    Doorbell.Step s.doorbell s'.doorbell := by
  cases a with
  | run b dangling =>
    simp only [step, Option.ite_none_right_eq_some] at h
    obtain ⟨hrun, h⟩ := h
    cases hb : b.actor with
    | none =>
      simp only [hb, coreStep_eq_some] at h
      obtain ⟨core, hcore, rfl⟩ := h
      have hworker := worker_of_actor_none (stepCase_of_step hcore) hb
      simp only [State.doorbell, hworker]
      exact .stay
    | some w =>
      simp only [hb, Option.ite_none_right_eq_some, Option.map_eq_some_iff, coreStep_eq_some] at h
      obtain ⟨hplace, s₁, ⟨core, hcore, rfl⟩, rfl⟩ := h
      exact doorbell_run dangling hb hrun hplace hcore
  | tickle w again =>
    simp only [step, State.write, Option.ite_none_right_eq_some, Option.some.injEq] at h
    obtain ⟨hplace, -, rfl⟩ := h
    have hstage : s.doorbell.stage w = .busy := by rw [stage_doorbell, hplace]; rfl
    -- the worker goes on, or its next step is into `idle` or out of `run`
    show Doorbell.Step s.doorbell
      { (s.goto w .running).doorbell with pipe := s.doorbell.pipe.write again }
    rw [doorbell_goto_self]
    rcases stage_running (s.core.worker w).phase with hnext | hnext
    · rw [hnext, goto_eq_self hstage]
      exact .ring again
    · rw [hnext]
      exact .rest w again hstage
  | scheduleBegin k =>
    simp only [step] at h
    split at h
    · cases h
      exact .stay
    · cases h
  | scheduleNonLock k task =>
    simp only [step, Option.bind_eq_some_iff, Option.map_eq_some_iff, coreStep_eq_some] at h
    obtain ⟨need_tickle, -, s₁, ⟨core, hcore, rfl⟩, rfl⟩ := h
    have hworker := worker_of_actor_none (stepCase_of_step hcore) rfl
    simp only [State.doorbell, hworker]
    exact .stay
  | scheduleEnd k again =>
    simp only [step, Option.bind_eq_some_iff] at h
    obtain ⟨need_tickle, -, h⟩ := h
    cases need_tickle with
    | false =>
      cases h
      exact .stay
    | true =>
      simp only [if_true, State.write, Option.ite_none_right_eq_some, Option.some.injEq] at h
      obtain ⟨-, rfl⟩ := h
      exact .ring again
  | leave w timers pendingEventCount now =>
    simp only [step, Option.ite_none_right_eq_some, Option.map_eq_some_iff, coreStep_eq_some] at h
    obtain ⟨⟨hplace, -⟩, s₁, ⟨core, hcore, rfl⟩, rfl⟩ := h
    refine doorbell_idleReturn ?_ hcore
    simp [stage_doorbell, hplace, stage, Place.outer]
  | wait w timers pendingEventCount now =>
    simp only [step, Option.ite_none_right_eq_some, Option.some.injEq] at h
    obtain ⟨⟨hplace, -⟩, rfl⟩ := h
    rw [doorbell_goto_self, goto_eq_self]
    · exact .stay
    · rw [stage_doorbell, hplace]
      rfl
  | wake w tickled =>
    simp only [step, Option.ite_none_right_eq_some] at h
    obtain ⟨hplace, h⟩ := h
    cases tickled with
    | true =>
      simp only [if_true, Option.ite_none_right_eq_some, Option.some.injEq] at h
      obtain ⟨hreports, rfl⟩ := h
      show Doorbell.Step s.doorbell
        { (s.goto w .told).doorbell with pipe := s.doorbell.pipe.clear }
      rw [doorbell_goto_self]
      exact .report w hreports
    | false =>
      simp only [Bool.false_eq_true, if_false, Option.some.injEq] at h
      subst h
      rw [doorbell_goto_self]
      refine .busy w fun hdrain => ?_
      simp [stage_doorbell, hplace, stage, Place.outer] at hdrain
  | read w =>
    simp only [step, Option.ite_none_right_eq_some] at h
    obtain ⟨hplace, h⟩ := h
    have hstage : s.doorbell.stage w = .draining := by
      rcases hplace with hplace | hplace <;> rw [stage_doorbell, hplace] <;> rfl
    split_ifs at h with hzero
    · cases h
      rw [doorbell_goto_self]
      exact .busy w fun _ => hzero
    · cases h
      show Doorbell.Step s.doorbell
        { (s.goto w .draining).doorbell with pipe := s.doorbell.pipe.read 256 }
      rw [doorbell_goto_self, show stage .draining (s.core.worker w).phase = .draining from rfl,
        goto_eq_self hstage]
      exact .read w 256 hstage
  | swapOut w =>
    simp only [step, Option.ite_none_right_eq_some, Option.map_eq_some_iff, coreStep_eq_some] at h
    obtain ⟨hplace, s₁, ⟨core, hcore, rfl⟩, rfl⟩ := h
    refine doorbell_idleReturn ?_ hcore
    simp [stage_doorbell, hplace, stage, Place.outer]
  | callSchedule w | callFlush w =>
    simp only [step, Option.map_eq_some_iff] at h
    obtain ⟨body, hbody, rfl⟩ := h
    refine doorbell_stay ?_
    rw [← stage_body hbody]
    exact (stage_place body _).symm
  | callNonLock w task =>
    simp only [step] at h
    cases hplace : s.place w with
    | calling body need_tickle =>
      simp only [hplace, Option.map_eq_some_iff, coreStep_eq_some] at h
      obtain ⟨s₁, ⟨core, hcore, rfl⟩, rfl⟩ := h
      have hworker := worker_of_actor_none (stepCase_of_step hcore) rfl
      rw [doorbell_goto _ fun v _ => by rw [hworker], hworker, goto_eq_self]
      · exact .stay
      · rw [stage_doorbell, hplace]
        rfl
    | _ => simp [hplace] at h
  | callEnd w =>
    simp only [step] at h
    cases hplace : s.place w with
    | calling body need_tickle =>
      simp only [hplace, Option.some.injEq] at h
      subst h
      refine doorbell_stay ?_
      rw [hplace]
      split_ifs
      · rfl
      · exact stage_place body _
    | _ => simp [hplace] at h
  | callTickle w again =>
    simp only [step] at h
    cases hplace : s.place w with
    | ringing body =>
      simp only [hplace, State.write, Option.ite_none_right_eq_some, Option.some.injEq] at h
      obtain ⟨-, rfl⟩ := h
      show Doorbell.Step s.doorbell
        { (s.goto w body.place).doorbell with pipe := s.doorbell.pipe.write again }
      rw [doorbell_goto_self, goto_eq_self]
      · exact .ring again
      · rw [stage_doorbell, hplace]
        exact (stage_place body _).symm
    | _ => simp [hplace] at h
  | flushTimer again =>
    simp only [step, State.write, Option.ite_none_right_eq_some, Option.some.injEq] at h
    obtain ⟨-, rfl⟩ := h
    exact .ring again
  | forget =>
    simp only [step, Option.ite_none_right_eq_some, Option.some.injEq] at h
    obtain ⟨hzero, rfl⟩ := h
    exact .forget hzero

end Steps

/-! ## Runs -/

/-- What an action does to the scheduler. -/
def Action.core : Action W F C K Addr Func → List (Scheduler.Action W F C)
  | .run a _ => [a]
  | .scheduleNonLock _ task => [.schedule task]
  | .callNonLock _ task => [.schedule task]
  | .leave w _ _ _ => [.idleReturn w true]
  | .swapOut w => [.idleReturn w false]
  | _ => []

/-- The worker has left `run`, waits in `epoll_wait`, or waits in `write` for room in the pipe, in a
call of `tickle` by `run` or in one of its own. -/
def State.Blocked (s : State W F C K) (capacity : ℕ) (w : W) : Prop :=
  match s.place w with
  | .running => (s.core.worker w).phase = .exited
  | .tickling => capacity ≤ s.pipe.bytes
  | .ringing _ => capacity ≤ s.pipe.bytes
  | .waiting => True
  | _ => False

/-- No worker can go on by itself, and none of them is in a call of `schedule` or `flushTimer` with
the pipe reported to it and not read. -/
def State.Asleep (s : State W F C K) (capacity : ℕ) : Prop :=
  ∀ w, s.Blocked capacity w ∧ s.place w ≠ .ringing .told

/-- What holds in a state `s` of the poller that the actions `as` lead to. -/
structure Awake [Fintype W] (tid : W → ℤ) (capacity : ℕ) (as : List (Action W F C K Addr Func))
    (s : State W F C K) : Prop where
  /-- The run queue is conserved, with the workers asleep or not. -/
  queue : Conservation tid (as.flatMap Action.core) s.core
  /-- If the workers are asleep, `epoll_wait` has an event to return. -/
  reports : s.Asleep capacity → s.pipe.Reports
  /-- And whichever worker waits there, that event wakes it up. -/
  wakes : s.Asleep capacity → ∀ w, s.place w = .waiting →
    ∃ s', step tid capacity s (.wake w true : Action W F C K Addr Func) = some s' ∧
      s'.place w = .told

section Runs

variable {tid : W → ℤ} {capacity : ℕ} {s s' : State W F C K} {a : Action W F C K Addr Func}
  {as : List (Action W F C K Addr Func)}

/-- Every step of the poller is one of the scheduler, or leaves the scheduler alone. -/
theorem core_step (h : step tid capacity s a = some s') :
    Run (ofFun (Scheduler.step tid)) s.core a.core s'.core := by
  cases a with
  | run b dangling =>
    simp only [step, Option.ite_none_right_eq_some] at h
    obtain ⟨-, h⟩ := h
    cases hb : b.actor with
    | none =>
      simp only [hb, coreStep_eq_some] at h
      obtain ⟨core, hcore, rfl⟩ := h
      exact Run.single hcore
    | some w =>
      simp only [hb, Option.ite_none_right_eq_some, Option.map_eq_some_iff, coreStep_eq_some] at h
      obtain ⟨-, s₁, ⟨core, hcore, rfl⟩, rfl⟩ := h
      exact Run.single hcore
  | tickle w again =>
    simp only [step, State.write, Option.ite_none_right_eq_some, Option.some.injEq] at h
    obtain ⟨-, -, rfl⟩ := h
    exact Run.refl
  | scheduleBegin k =>
    simp only [step] at h
    split at h
    · cases h
      exact Run.refl
    · cases h
  | scheduleNonLock k task =>
    simp only [step, Option.bind_eq_some_iff, Option.map_eq_some_iff, coreStep_eq_some] at h
    obtain ⟨need_tickle, -, s₁, ⟨core, hcore, rfl⟩, rfl⟩ := h
    exact Run.single hcore
  | scheduleEnd k again =>
    simp only [step, Option.bind_eq_some_iff] at h
    obtain ⟨need_tickle, -, h⟩ := h
    cases need_tickle with
    | false =>
      cases h
      exact Run.refl
    | true =>
      simp only [if_true, State.write, Option.ite_none_right_eq_some, Option.some.injEq] at h
      obtain ⟨-, rfl⟩ := h
      exact Run.refl
  | leave w timers pendingEventCount now =>
    simp only [step, Option.ite_none_right_eq_some, Option.map_eq_some_iff, coreStep_eq_some] at h
    obtain ⟨-, s₁, ⟨core, hcore, rfl⟩, rfl⟩ := h
    exact Run.single hcore
  | wait w timers pendingEventCount now =>
    simp only [step, Option.ite_none_right_eq_some, Option.some.injEq] at h
    obtain ⟨-, rfl⟩ := h
    exact Run.refl
  | wake w tickled =>
    simp only [step, Option.ite_none_right_eq_some] at h
    obtain ⟨-, h⟩ := h
    split_ifs at h <;> cases h <;> exact Run.refl
  | read w =>
    simp only [step, Option.ite_none_right_eq_some] at h
    obtain ⟨-, h⟩ := h
    split_ifs at h <;> cases h <;> exact Run.refl
  | swapOut w =>
    simp only [step, Option.ite_none_right_eq_some, Option.map_eq_some_iff, coreStep_eq_some] at h
    obtain ⟨-, s₁, ⟨core, hcore, rfl⟩, rfl⟩ := h
    exact Run.single hcore
  | callSchedule w | callFlush w =>
    simp only [step, Option.map_eq_some_iff] at h
    obtain ⟨body, -, rfl⟩ := h
    exact Run.refl
  | callNonLock w task =>
    simp only [step] at h
    cases hplace : s.place w with
    | calling body need_tickle =>
      simp only [hplace, Option.map_eq_some_iff, coreStep_eq_some] at h
      obtain ⟨s₁, ⟨core, hcore, rfl⟩, rfl⟩ := h
      exact Run.single hcore
    | _ => simp [hplace] at h
  | callEnd w =>
    simp only [step] at h
    split at h
    · cases h
      exact Run.refl
    · cases h
  | callTickle w again =>
    simp only [step, State.write] at h
    split at h
    · simp only [Option.ite_none_right_eq_some, Option.some.injEq] at h
      obtain ⟨-, rfl⟩ := h
      exact Run.refl
    · cases h
  | flushTimer again =>
    simp only [step, State.write, Option.ite_none_right_eq_some, Option.some.injEq] at h
    obtain ⟨-, rfl⟩ := h
    exact Run.refl
  | forget =>
    simp only [step, Option.ite_none_right_eq_some, Option.some.injEq] at h
    obtain ⟨-, rfl⟩ := h
    exact Run.refl

/-- The workers of a run ring the doorbell before they rest. -/
theorem doorbell_inv [Nonempty W] (hrun : Run (ofFun (step tid capacity)) State.new as s) :
    s.doorbell.Inv := by
  refine hrun.invariant (I := fun s => s.doorbell.Inv) ?_
    fun s a s' h hstep => h.step (doorbell_step hstep)
  obtain ⟨w⟩ := ‹Nonempty W›
  refine ⟨fun hpos => absurd hpos (Nat.lt_irrefl 0), Or.inr ⟨w, ?_⟩⟩
  show Stage.busy ≠ Stage.resting
  decide

omit [DecidableEq W] [DecidableEq F] [DecidableEq K] in
/-- A worker that is asleep rests, or the pipe is full and it is not the one that reads. -/
theorem stage_of_asleep {w : W} (hblocked : s.Blocked capacity w)
    (htold : s.place w ≠ .ringing .told) :
    s.doorbell.stage w = .resting ∨ s.doorbell.stage w = .busy ∧ capacity ≤ s.pipe.bytes := by
  rw [stage_doorbell]
  unfold State.Blocked at hblocked
  cases hplace : s.place w with
  | running =>
    rw [hplace] at hblocked
    rw [hblocked]
    exact Or.inl rfl
  | waiting => exact Or.inl rfl
  | tickling =>
    rw [hplace] at hblocked
    exact Or.inr ⟨rfl, hblocked⟩
  | ringing body =>
    rw [hplace] at hblocked
    cases body with
    | task =>
      -- behind the call the task goes on, or `run` has ended
      rw [← stage_place]
      exact (stage_running _).symm.imp_right fun h => ⟨h, hblocked⟩
    | told => exact absurd hplace htold
    | handling => exact Or.inr ⟨rfl, hblocked⟩
  | _ => simp [hplace] at hblocked

omit [DecidableEq W] [DecidableEq F] [DecidableEq K] in
/-- With all workers asleep, the pipe has something to report: if one of them is in `tickle`, the
pipe is full and nobody reads, and otherwise all of them rest. -/
theorem reports_of_asleep (hinv : s.doorbell.Inv) (hcap : 0 < capacity)
    (hasleep : s.Asleep capacity) : s.pipe.Reports := by
  have hstage := fun w => stage_of_asleep (hasleep w).1 (hasleep w).2
  by_cases hfull : capacity ≤ s.pipe.bytes
  · refine hinv.reports_of_pos (fun w hdraining => ?_) (hcap.trans_le hfull)
    rcases hstage w with h | ⟨h, -⟩ <;> simp [h] at hdraining
  · exact hinv.reports_of_resting fun w => (hstage w).resolve_right fun h => hfull h.2

/-- In every run, whatever the tasks, timers and events do, the workers never sleep all at once. -/
theorem never_all_asleep [Fintype W] [Nonempty W] (hcap : 0 < capacity)
    (hrun : Run (ofFun (step tid capacity)) State.new as s) : Awake tid capacity as s := by
  have hreports := reports_of_asleep (doorbell_inv hrun) hcap
  refine ⟨run_queue_conservation (hrun.project fun _ _ _ hstep => core_step hstep), hreports,
    fun hasleep w hw => ?_⟩
  refine ⟨{ s.goto w .told with pipe := s.pipe.clear }, ?_, Function.update_self w _ _⟩
  simp [step, hw, hreports hasleep]

/-- Two workers that find nothing to do both wait in `epoll_wait`, with two bytes in the pipe. -/
theorem never_all_asleep_example :
    ∃ (as : List (Action Bool ℕ String Unit ℕ ℕ)) (s : State Bool ℕ String Unit),
      (∀ w, s.place w = .waiting) ∧ s.pipe.bytes = 2 ∧
      Awake (fun w => if w then 2 else 1) 65536 as s := by
  have hexec : exec (step (fun w => if w then 2 else 1) 65536) State.new
      ([.run (.reset true) false, .run (.dequeue true) false, .run (.reset false) false,
        .run (.dequeue false) false, .tickle true false, .tickle false false,
        .run (.idle true) false, .run (.idle false) false, .wait true .new 1 0,
        .wait false .new 1 0] : List (Action Bool ℕ String Unit ℕ ℕ)) =
      some _ := rfl
  refine ⟨_, _, ?_, ?_, never_all_asleep (by decide) (Run.of_exec hexec)⟩
  · intro w
    cases w <;> rfl
  · rfl

/-- A worker that adds a timer between the report of the pipe and its reading of it is blocked by a
full pipe, with nothing to report. -/
example :
    ∃ s : State Unit ℕ String Unit, exec (step (fun _ => 1) 1) State.new
        ([.run (.reset ()) false, .run (.dequeue ()) false, .tickle () false, .run (.idle ()) false,
          .wait () .new 1 0, .wake () true, .callFlush ()] :
            List (Action Unit ℕ String Unit ℕ ℕ)) = some s ∧
      s.Blocked 1 () ∧ ¬ s.pipe.Reports :=
  ⟨_, rfl, Nat.le_refl 1, by decide⟩

end Runs

end Sylar.EventPoller.Loop
