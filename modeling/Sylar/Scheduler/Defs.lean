import Sylar.Fiber.Defs
import Sylar.Foundation.Size
import Mathlib.Logic.Function.Basic

/-!
# `Scheduler` — the run queue and the loop of the workers

Model of `fiber/scheduler.{h,cpp}`: `schedule`, and `run` on any set of workers, each at some
place (`Phase`) of its loop with its local variables (`Worker`).

Representation:

* one step is one access to `m_fibers`, or what a worker does between two of them up to the next
  switch of contexts;
* fibers live on a heap. `held` counts the references to a fiber outside the scheduler: event
  contexts, timers, callers;
* entries of the queue carry a ticket, the number of entries enqueued before. The tickets, the
  lists of all entries enqueued and consumed so far, the list of tasks that ended in `READY` and the
  list of calls to `swapIn` and `reset` are recorded only to state what happens to them;
* assertions do not stop a run, so that what holds of all runs of the model holds of the shorter
  ones of the source.

`tickle` only wakes up threads that wait in `idle`; it is left out, and so is the load counter.
-/

namespace Sylar

/-- A non-empty task in `m_fibers`. -/
structure Entry (F C : Type*) where
  ticket : ℕ
  task : FiberTask F C
  nonempty : task.nonempty = true

/-- The fields of `Scheduler` that `run` and `stopping` use. -/
structure Scheduler (F C : Type*) where
  running : Bool
  autoStop : Bool
  fibers : List (Entry F C)
  activeThreadNum : ℕ

namespace Scheduler

variable {W F C : Type*}

/-- `Scheduler::stopping()`. -/
def stopping (sched : Scheduler F C) : Bool :=
  sched.autoStop && !sched.running && sched.fibers.isEmpty && sched.activeThreadNum = 0

/-- Places in the loop of `run` between two steps. -/
inductive Phase (F C : Type*)
  /-- At the head of the loop. -/
  | loop
  /-- `ft` is empty, `m_fibers_mtx` is next. -/
  | scan
  /-- The entry is in `ft`. -/
  | taken (e : Entry F C)
  /-- In `ft.fiber->swapIn()`. -/
  | inFiber (e : Entry F C)
  /-- In `cb_fiber->swapIn()`, with the local variable `_thread`. -/
  | inCb (e : Entry F C) (thread : ℤ)
  /-- `schedule(ft.fiber, ft.thread_id)` is next. -/
  | readyFiber
  /-- `schedule(cb_fiber, _thread)` is next. -/
  | readyCb (thread : ℤ)
  /-- Nothing was taken. -/
  | idle
  /-- In `idle_fiber->swapIn()`. -/
  | idling
  /-- `run` has returned. -/
  | exited

/-- A worker: its place and its local variables. -/
structure Worker (F C : Type*) where
  phase : Phase F C
  ft : FiberTask F C
  cb_fiber : Option F
  idle_fiber : Fiber.State

/-- A call on a fiber with a stack, with the state it was in. -/
inductive Call
  | swapIn (state : Fiber.State)
  | reset (state : Fiber.State)
  deriving DecidableEq, Repr

/-- A scheduler with its workers, the fibers, and the record of what happened. -/
structure State (W F C : Type*) where
  sched : Scheduler F C
  worker : W → Worker F C
  heap : F → Option (Fiber C)
  held : F → ℕ
  enqueued : List (Entry F C)
  consumed : List (Entry F C)
  readied : List (FiberTask F C)
  calls : List Call

/-- A worker about to enter the loop. -/
def Worker.new : Worker F C where
  phase := .loop
  ft := .empty
  cb_fiber := none
  idle_fiber := .INIT

/-- No task has been scheduled and no fiber created. -/
def State.new : State W F C where
  sched := { running := false, autoStop := false, fibers := [], activeThreadNum := 0 }
  worker := fun _ => .new
  heap := fun _ => none
  held := fun _ => 0
  enqueued := []
  consumed := []
  readied := []
  calls := []

/-! ## The queue -/

/-- `Scheduler::scheduleNonLock(cb, thread)` for the task that it builds. -/
def State.enqueue (s : State W F C) (task : FiberTask F C) : State W F C :=
  if h : task.nonempty = true then
    let e : Entry F C := { ticket := s.enqueued.length, task := task, nonempty := h }
    { s with
      sched := { s.sched with fibers := s.sched.fibers ++ [e] }
      enqueued := s.enqueued ++ [e] }
  else s

/-- `it->fiber && it->fiber->getState() == Fiber::EXEC`. -/
def State.executing (s : State W F C) (task : FiberTask F C) : Bool :=
  match task.fiber.bind s.heap with
  | none => false
  | some fiber => fiber.state = .EXEC

/-- The loop over `m_fibers` on the thread `tid`: the entry taken and the queue without it. -/
def scan (executing : FiberTask F C → Bool) (tid : ℤ) :
    List (Entry F C) → Option (Entry F C × List (Entry F C))
  | [] => none
  | it :: rest =>
    -- pinned to another thread
    if it.task.thread_id ≠ -1 ∧ it.task.thread_id ≠ tid then
      (scan executing tid rest).map fun (ft, rest) => (ft, it :: rest)
    -- running on some thread, judged by `m_state` alone
    else if executing it.task then
      (scan executing tid rest).map fun (ft, rest) => (ft, it :: rest)
    else some (it, rest)

/-! ## Steps -/

/-- A step of the environment or of a worker. -/
inductive Action (W F C : Type*)
  /-- `new Fiber(cb)`, at an unused address. -/
  | create (f : F) (cb : C)
  /-- A holder copies its reference. -/
  | copy (f : F)
  /-- A holder gives up its reference. -/
  | release (f : F)
  /-- The body that a worker runs takes a reference with `Fiber::getThis()`. -/
  | getThis (w : W)
  | schedule (task : FiberTask F C)
  /-- `ft.reset()`. -/
  | reset (w : W)
  | dequeue (w : W)
  /-- Up to `swapIn`; a new fiber for a callback gets the address `fresh`. -/
  | start (w : W) (fresh : F)
  | finish (w : W) (outcome : Fiber.Outcome)
  | requeue (w : W)
  /-- Up to `idle_fiber->swapIn()`, or out of the loop. -/
  | idle (w : W)
  /-- `idle` returns, or yields. -/
  | idleReturn (w : W) (returns : Bool)

variable [DecidableEq W] [DecidableEq F]

/-- Replace the local variables of one worker. -/
def State.setWorker (s : State W F C) (w : W) (worker : Worker F C) : State W F C :=
  { s with worker := Function.update s.worker w worker }

/-- Store a fiber. -/
def State.setFiber (s : State W F C) (f : F) (fiber : Fiber C) : State W F C :=
  { s with heap := Function.update s.heap f (some fiber) }

/-- Store a reference count. -/
def State.setHeld (s : State W F C) (f : F) (count : ℕ) : State W F C :=
  { s with held := Function.update s.held f count }

/-- Record a call. -/
def State.call (s : State W F C) (call : Call) : State W F C :=
  { s with calls := s.calls ++ [call] }

/-- `--m_activeThreadNum`, when the entry has been dealt with. -/
def State.consume (s : State W F C) (e : Entry F C) : State W F C :=
  { s with
    sched := { s.sched with activeThreadNum := subSize s.sched.activeThreadNum 1 }
    consumed := s.consumed ++ [e] }

/-- Record that the fiber `f` of an entry ended in `READY`. -/
def State.ready (s : State W F C) (f : F) (e : Entry F C) : State W F C :=
  { s with readied := s.readied ++ [.ofFiber (some f) e.task.thread_id] }

/-- `else if(ft.cb)`, up to `cb_fiber->swapIn()`, and the stale entry behind it. -/
def State.startCb (s : State W F C) (w : W) (e : Entry F C) (fresh : F) : Option (State W F C) :=
  let wk := s.worker w
  match wk.ft.cb with
  | some cb =>
    match wk.cb_fiber with
    | some f =>
      (s.heap f).map fun fiber =>
        -- the fiber of the callback before is used again
        let fiber' := fiber.reset (some cb)
        (((s.call (.reset fiber.state)).call (.swapIn fiber'.state)).setFiber f
          fiber'.swapIn).setWorker w
          { wk with phase := .inCb e wk.ft.thread_id, ft := .empty }
    | none =>
      match s.heap fresh with
      | some _ => none -- the address is in use
      | none =>
        let fiber := Fiber.new cb
        some (((s.call (.swapIn fiber.state)).setFiber fresh fiber.swapIn).setWorker w
          { wk with phase := .inCb e wk.ft.thread_id, ft := .empty, cb_fiber := some fresh })
  -- stale: `--m_activeThreadNum; continue`
  | none => some ((s.consume e).setWorker w { wk with phase := .loop })

/-- From the end of the scan, with the entry in `ft`, up to the switch of contexts. -/
def State.start (s : State W F C) (w : W) (e : Entry F C) (fresh : F) : Option (State W F C) :=
  let wk := s.worker w
  match wk.ft.fiber.bind fun f => (s.heap f).map (f, ·) with
  | some (f, fiber) =>
    if !fiber.ended then
      some (((s.call (.swapIn fiber.state)).setFiber f fiber.swapIn).setWorker w
        { wk with phase := .inFiber e })
    else s.startCb w e fresh
  | none => s.startCb w e fresh

/-- From the return of `ft.fiber->swapIn()`. -/
def State.finishFiber (s : State W F C) (w : W) (e : Entry F C) (f : F) (fiber : Fiber C) :
    State W F C :=
  let wk := s.worker w
  let s := s.consume e
  if fiber.state = .READY then
    ((s.ready f e).setFiber f fiber).setWorker w { wk with phase := .readyFiber }
  else if !fiber.ended then
    -- the reference stays in `ft` up to the next `ft.reset()`
    (s.setFiber f (fiber.setState .HOLD)).setWorker w { wk with phase := .loop }
  else (s.setFiber f fiber).setWorker w { wk with phase := .loop }

/-- From the return of `cb_fiber->swapIn()`. -/
def State.finishCb (s : State W F C) (w : W) (e : Entry F C) (thread : ℤ) (f : F)
    (fiber : Fiber C) : State W F C :=
  let wk := s.worker w
  let s := s.consume e
  if fiber.state = .READY then
    ((s.ready f e).setFiber f fiber).setWorker w { wk with phase := .readyCb thread }
  else if !fiber.ended then
    (s.setFiber f (fiber.setState .HOLD)).setWorker w
      -- `cb_fiber.reset()`: the fiber is left to those who resume it
      { wk with phase := .loop, cb_fiber := none }
  else
    -- `cb_fiber` keeps the fiber for the next callback
    ((s.call (.reset fiber.state)).setFiber f (fiber.reset none)).setWorker w
      { wk with phase := .loop }

/-- The fiber whose body the worker runs. -/
def Worker.current (wk : Worker F C) : Option F :=
  match wk.phase with
  | .inFiber _ => wk.ft.fiber
  | .inCb _ _ => wk.cb_fiber
  | _ => none

/-- The state after an action, if the action is possible. The thread of worker `w` is `tid w`. -/
def step (tid : W → ℤ) (s : State W F C) : Action W F C → Option (State W F C)
  | .create f cb =>
    match s.heap f with
    | some _ => none
    | none => some ((s.setFiber f (.new cb)).setHeld f 1)
  | .copy f => if 0 < s.held f then some (s.setHeld f (s.held f + 1)) else none
  | .release f => if 0 < s.held f then some (s.setHeld f (s.held f - 1)) else none
  | .getThis w => (s.worker w).current.map fun f => s.setHeld f (s.held f + 1)
  | .schedule task =>
    match task.fiber with
    | none => some (s.enqueue task)
    | some f => if 0 < s.held f then some (s.enqueue task) else none
  | .reset w =>
    let wk := s.worker w
    match wk.phase with
    | .loop => some (s.setWorker w { wk with phase := .scan, ft := .empty })
    | _ => none
  | .dequeue w =>
    let wk := s.worker w
    match wk.phase with
    | .scan =>
      match scan s.executing (tid w) s.sched.fibers with
      | some (ft, fibers) =>
        let sched := { s.sched with
          fibers := fibers, activeThreadNum := s.sched.activeThreadNum + 1 }
        some (({ s with sched := sched } : State W F C).setWorker w
          { wk with phase := .taken ft, ft := ft.task })
      | none => some (s.setWorker w { wk with phase := .idle })
    | _ => none
  | .start w fresh =>
    match (s.worker w).phase with
    | .taken e => s.start w e fresh
    | _ => none
  | .finish w outcome =>
    let wk := s.worker w
    match wk.phase with
    | .inFiber e =>
      match wk.ft.fiber.bind fun f => (s.heap f).map (f, ·) with
      | some (f, fiber) =>
        if fiber.canLeave outcome then some (s.finishFiber w e f (fiber.leave outcome)) else none
      | none => none
    | .inCb e thread =>
      match wk.cb_fiber.bind fun f => (s.heap f).map (f, ·) with
      | some (f, fiber) =>
        if fiber.canLeave outcome then some (s.finishCb w e thread f (fiber.leave outcome))
        else none
      | none => none
    | _ => none
  | .requeue w =>
    let wk := s.worker w
    match wk.phase with
    | .readyFiber =>
      some ((s.enqueue (.ofFiber wk.ft.fiber wk.ft.thread_id)).setWorker w
        { wk with phase := .loop })
    | .readyCb thread =>
      some ((s.enqueue (.ofFiber wk.cb_fiber thread)).setWorker w
        { wk with phase := .loop, cb_fiber := none })
    | _ => none
  | .idle w =>
    let wk := s.worker w
    match wk.phase with
    | .idle =>
      if wk.idle_fiber = .TERM then
        -- `break`, and the local variables are destroyed
        some (s.setWorker w { wk with phase := .exited, ft := .empty, cb_fiber := none })
      else
        some ((s.call (.swapIn wk.idle_fiber)).setWorker w
          { wk with phase := .idling, idle_fiber := .EXEC })
    | _ => none
  | .idleReturn w returns =>
    let wk := s.worker w
    match wk.phase with
    | .idling =>
      some (s.setWorker w { wk with
        phase := .loop, idle_fiber := if returns then .TERM else .HOLD })
    | _ => none

end Scheduler

end Sylar
