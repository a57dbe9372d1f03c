import Sylar.Scheduler.Ledger

/-!
# Handing a fiber over to another worker

A fiber that waits registers a wake-up and calls `yieldToHold`, which first sets `m_state` and then
saves the context; `run` sets `HOLD` once more after `swapIn` has returned. The wake-up may fire on
another thread at any time. Here each of these is a step of its own, for fiber tasks and for
callbacks, which run in the fiber `cb_fiber` of their worker.

* `StepLaw` — a worker swaps a fiber in only after its context has been saved, and sets `HOLD` only
  on a fiber that no other worker is executing;
* `Timely` — a wake-up fires only when its entry cannot bring the fiber to a second worker, for
  instance when the fiber is not in the queue and no worker has it.

Bodies return, throw or call `yieldToHold`; none of them ends in `READY`.
-/

namespace Sylar.Scheduler.Handover

variable {W F C : Type*}

/-- How far the body of a fiber has got that a worker has swapped in. -/
inductive Stage
  /-- The body is running. -/
  | running
  /-- `yieldToHold` has set `m_state = HOLD`, the context is not saved yet. -/
  | holding
  /-- The body has ended and `MainFunc` has set the state, the context is not left yet. -/
  | ended
  /-- `swapIn` has returned, `run` has not looked at the state yet. -/
  | returned
  deriving DecidableEq

/-- Places in the loop of `run`. -/
inductive Phase
  /-- `ft` is empty, `m_fibers_mtx` is next. -/
  | loop
  /-- The entry is in `ft`. -/
  | taken
  /-- From `ft.fiber->swapIn()` on. -/
  | inFiber (stage : Stage)
  /-- From `cb_fiber->swapIn()` on. -/
  | inCb (stage : Stage)
  deriving DecidableEq

/-- A worker: its place and its local variables. -/
structure Worker (F C : Type*) where
  phase : Phase
  ft : FiberTask F C
  cb_fiber : Option F

namespace Worker

/-- A worker about to look for its first entry. -/
def new : Worker F C where
  phase := .loop
  ft := .empty
  cb_fiber := none

/-- The fiber that the worker has swapped in, and how far its body has got. -/
def current (wk : Worker F C) : Option (F × Stage) :=
  match wk.phase with
  | .loop => none
  | .taken => none
  | .inFiber stage => wk.ft.fiber.map (·, stage)
  | .inCb stage => wk.cb_fiber.map (·, stage)

/-- The body that the worker has swapped in gets further. -/
def setStage (wk : Worker F C) (stage : Stage) : Worker F C where
  phase :=
    match wk.phase with
    | .inCb _ => .inCb stage
    | _ => .inFiber stage
  ft := wk.ft
  cb_fiber := wk.cb_fiber

/-- The worker is on the stack of the fiber. -/
def Executing (wk : Worker F C) (f : F) : Prop :=
  ∃ stage, wk.current = some (f, stage) ∧ stage ≠ .returned

/-- The worker has the fiber in `ft`, from dequeuing it to the end of the iteration, or in
`cb_fiber`. -/
def Has (wk : Worker F C) (f : F) : Prop := wk.ft.fiber = some f ∨ wk.cb_fiber = some f

instance [DecidableEq F] (wk : Worker F C) (f : F) : Decidable (wk.Has f) :=
  inferInstanceAs (Decidable (_ ∨ _))

variable {wk : Worker F C} {f : F} {stage : Stage}

/-- Going to another stage leaves `ft` as it is. -/
@[simp] theorem setStage_ft (wk : Worker F C) (stage : Stage) :
    (wk.setStage stage).ft = wk.ft := rfl

/-- It leaves `cb_fiber` as it is. -/
@[simp] theorem setStage_cb_fiber (wk : Worker F C) (stage : Stage) :
    (wk.setStage stage).cb_fiber = wk.cb_fiber := rfl

/-- The fiber of a worker is its task or that of its callbacks. -/
theorem current_eq_some : wk.current = some (f, stage) ↔
    wk.phase = .inFiber stage ∧ wk.ft.fiber = some f ∨
      wk.phase = .inCb stage ∧ wk.cb_fiber = some f := by
  unfold current
  cases wk.phase with
  | loop => simp
  | taken => simp
  | inFiber stage' => simp [and_comm]
  | inCb stage' => simp [and_comm]

/-- It stays the same at another stage. -/
theorem current_setStage (h : wk.current = some (f, stage)) (stage' : Stage) :
    (wk.setStage stage').current = some (f, stage') := by
  rw [current_eq_some] at h ⊢
  rcases h with ⟨hphase, hft⟩ | ⟨hphase, hcbf⟩
  · exact Or.inl ⟨by simp [setStage, hphase], hft⟩
  · exact Or.inr ⟨by simp [setStage, hphase], hcbf⟩

/-- The fiber that a worker has swapped in is one that it has. -/
theorem has_of_current (h : wk.current = some (f, stage)) : wk.Has f :=
  (current_eq_some.mp h).imp And.right And.right

/-- A worker has the fiber that it executes. -/
theorem Executing.has (h : wk.Executing f) : wk.Has f := by
  obtain ⟨stage, hcur, -⟩ := h
  exact has_of_current hcur

/-- A worker executes the fiber that it has swapped in, and no other, until it has left it. -/
theorem executing_iff (h : wk.current = some (f, stage)) {g : F} :
    wk.Executing g ↔ g = f ∧ stage ≠ .returned := by
  simp [Executing, h, eq_comm]

/-- A worker without a fiber executes none. -/
theorem not_executing (h : wk.current = none) : ¬ wk.Executing f := by
  simp [Executing, h]

/-- Nor does it execute a fiber once `swapIn` has returned. -/
theorem not_executing_returned
    (h : wk.phase = .inFiber .returned ∨ wk.phase = .inCb .returned) : ¬ wk.Executing f := by
  rintro ⟨stage, hcur, hne⟩
  rcases current_eq_some.mp hcur with ⟨hphase, -⟩ | ⟨hphase, -⟩
  · rcases h with h | h <;> rw [h] at hphase <;> cases hphase
    exact hne rfl
  · rcases h with h | h <;> rw [h] at hphase <;> cases hphase
    exact hne rfl

end Worker

/-- The workers, the fibers and the queue. `saved f` says that the context of `f` is the one that
`f` left last, and `wakeups f` counts those who will schedule `f` at some time. -/
structure State (W F C : Type*) where
  worker : W → Worker F C
  heap : F → Option (Fiber C)
  saved : F → Bool
  wakeups : F → ℕ
  queue : List (Entry F C)
  next : ℕ

/-- Nothing has run. A fiber that exists has its callback, and the number of times that its creator
and others will schedule it. -/
def State.new (fibers : F → Option (C × ℕ)) : State W F C where
  worker := fun _ => .new
  heap := fun f => (fibers f).map fun (cb, _) => .new cb
  saved := fun _ => true
  wakeups := fun f => ((fibers f).map Prod.snd).getD 0
  queue := []
  next := 0

/-- `it->fiber && it->fiber->getState() == Fiber::EXEC`. -/
def State.executing (s : State W F C) (task : FiberTask F C) : Bool :=
  match task.fiber.bind s.heap with
  | none => false
  | some fiber => fiber.state = .EXEC

/-- `ft` has no fiber that `run` would swap in. -/
def State.Stale (s : State W F C) (w : W) : Prop :=
  ∀ f fiber, (s.worker w).ft.fiber = some f → s.heap f = some fiber → fiber.ended = true

/-- An atomic step. -/
inductive Action (W F C : Type*)
  /-- A wake-up fires, on any thread, and schedules the fiber. -/
  | fire (f : F) (thread : ℤ)
  /-- Somebody schedules a callback. -/
  | schedule (cb : C) (thread : ℤ)
  /-- Under `m_fibers_mtx`. -/
  | dequeue (w : W)
  /-- Set `m_state = EXEC` and load the context, unless the entry is stale; a new fiber for a
  callback gets the address `fresh`. -/
  | start (w : W) (fresh : F)
  /-- The body registers a wake-up: `addEvent`, or a timer. -/
  | register (w : W)
  /-- Set `m_state = HOLD` in `yieldToHold`. -/
  | setHold (w : W)
  /-- The body returns or throws. -/
  | finish (w : W) (outcome : Fiber.Outcome)
  /-- Save the context and leave. -/
  | leave (w : W)
  /-- Set `HOLD` after `swapIn` has returned, unless the fiber has ended. -/
  | settle (w : W)

variable [DecidableEq W] [DecidableEq F]

/-- Replace the local variables of one worker. -/
def State.setWorker (s : State W F C) (w : W) (wk : Worker F C) : State W F C :=
  { s with worker := Function.update s.worker w wk }

/-- Store a fiber. -/
def State.setFiber (s : State W F C) (f : F) (fiber : Fiber C) : State W F C :=
  { s with heap := Function.update s.heap f (some fiber) }

/-- Record whether the context of a fiber is saved. -/
def State.setSaved (s : State W F C) (f : F) (saved : Bool) : State W F C :=
  { s with saved := Function.update s.saved f saved }

/-- Store the number of wake-ups of a fiber. -/
def State.setWakeups (s : State W F C) (f : F) (count : ℕ) : State W F C :=
  { s with wakeups := Function.update s.wakeups f count }

/-- Append an entry. -/
def State.enqueue (s : State W F C) (task : FiberTask F C) (nonempty : task.nonempty = true) :
    State W F C :=
  { s with
    queue := s.queue ++ [{ ticket := s.next, task := task, nonempty := nonempty }]
    next := s.next + 1 }

/-- The steps. Assertions that fail stop the program. -/
inductive Step (tid : W → ℤ) (s : State W F C) : Action W F C → State W F C → Prop
  | fire {f : F} {fiber : Fiber C} (thread : ℤ) (hf : s.heap f = some fiber)
      (hwakeups : 0 < s.wakeups f) :
      Step tid s (.fire f thread)
        ((s.setWakeups f (s.wakeups f - 1)).enqueue (.ofFiber (some f) thread) rfl)
  | schedule (cb : C) (thread : ℤ) :
      Step tid s (.schedule cb thread) (s.enqueue (.ofCb (some cb) thread) rfl)
  | dequeue {w : W} {e : Entry F C} {rest : List (Entry F C)} (hw : (s.worker w).phase = .loop)
      (hscan : scan s.executing (tid w) s.queue = some (e, rest)) :
      Step tid s (.dequeue w) (({ s with queue := rest } : State W F C).setWorker w
        { s.worker w with phase := .taken, ft := e.task })
  -- `swapIn` first asserts that the fiber is not executing
  | startFiber {w : W} {fresh f : F} {fiber : Fiber C} (hw : (s.worker w).phase = .taken)
      (hft : (s.worker w).ft.fiber = some f) (hf : s.heap f = some fiber)
      (hended : fiber.ended = false) (hassert : fiber.state ≠ .EXEC) :
      Step tid s (.start w fresh) (((s.setFiber f fiber.swapIn).setSaved f false).setWorker w
        { s.worker w with phase := .inFiber .running })
  -- `cb_fiber->reset(ft.cb)` asserts that the fiber has ended
  | startCb {w : W} {fresh f : F} {cb : C} {fiber : Fiber C} (hw : (s.worker w).phase = .taken)
      (hstale : s.Stale w) (hcb : (s.worker w).ft.cb = some cb)
      (hcbf : (s.worker w).cb_fiber = some f) (hf : s.heap f = some fiber)
      (hassert : fiber.state.resettable = true) :
      Step tid s (.start w fresh)
        (((s.setFiber f (fiber.reset (some cb)).swapIn).setSaved f false).setWorker w
          { s.worker w with phase := .inCb .running, ft := .empty })
  | startNew {w : W} {fresh : F} {cb : C} (hw : (s.worker w).phase = .taken)
      (hstale : s.Stale w) (hcb : (s.worker w).ft.cb = some cb)
      (hcbf : (s.worker w).cb_fiber = none) (hfree : s.heap fresh = none) :
      Step tid s (.start w fresh)
        ((((s.setFiber fresh (Fiber.new cb).swapIn).setSaved fresh false).setWakeups
          fresh 0).setWorker w { phase := .inCb .running, ft := .empty, cb_fiber := some fresh })
  | stale {w : W} {fresh : F} (hw : (s.worker w).phase = .taken) (hstale : s.Stale w)
      (hcb : (s.worker w).ft.cb = none) :
      Step tid s (.start w fresh) (s.setWorker w { s.worker w with phase := .loop, ft := .empty })
  | register {w : W} {f : F} (hcur : (s.worker w).current = some (f, .running)) :
      Step tid s (.register w) (s.setWakeups f (s.wakeups f + 1))
  -- `yieldToHold` asserts `EXEC`; the context is saved by the next step only
  | setHold {w : W} {f : F} {fiber : Fiber C} (hcur : (s.worker w).current = some (f, .running))
      (hf : s.heap f = some fiber) (hbody : fiber.canLeave .yieldToHold = true)
      (hassert : fiber.state = .EXEC) :
      Step tid s (.setHold w) ((s.setFiber f (fiber.leave .yieldToHold)).setWorker w
        ((s.worker w).setStage .holding))
  | finish {w : W} {f : F} {fiber : Fiber C} {outcome : Fiber.Outcome}
      (hcur : (s.worker w).current = some (f, .running)) (hf : s.heap f = some fiber)
      (hbody : fiber.canLeave outcome = true) (hended : (fiber.leave outcome).ended = true) :
      Step tid s (.finish w outcome) ((s.setFiber f (fiber.leave outcome)).setWorker w
        ((s.worker w).setStage .ended))
  | leave {w : W} {f : F} {stage : Stage} (hcur : (s.worker w).current = some (f, stage))
      (hstage : stage = .holding ∨ stage = .ended) :
      Step tid s (.leave w) ((s.setSaved f true).setWorker w ((s.worker w).setStage .returned))
  -- `run` looks at the state that it finds by now
  | settleFiber {w : W} {f : F} {fiber : Fiber C} (hw : (s.worker w).phase = .inFiber .returned)
      (hft : (s.worker w).ft.fiber = some f) (hf : s.heap f = some fiber)
      (hended : fiber.ended = false) :
      Step tid s (.settle w) ((s.setFiber f (fiber.setState .HOLD)).setWorker w
        { s.worker w with phase := .loop, ft := .empty })
  | settleEnded {w : W} {f : F} {fiber : Fiber C} (hw : (s.worker w).phase = .inFiber .returned)
      (hft : (s.worker w).ft.fiber = some f) (hf : s.heap f = some fiber)
      (hended : fiber.ended = true) :
      Step tid s (.settle w) (s.setWorker w { s.worker w with phase := .loop, ft := .empty })
  | settleCb {w : W} {f : F} {fiber : Fiber C} (hw : (s.worker w).phase = .inCb .returned)
      (hcbf : (s.worker w).cb_fiber = some f) (hf : s.heap f = some fiber)
      (hended : fiber.ended = false) :
      Step tid s (.settle w) ((s.setFiber f (fiber.setState .HOLD)).setWorker w
        { s.worker w with phase := .loop, cb_fiber := none })
  -- `cb_fiber->reset(nullptr)`, for the next callback
  | settleCbEnded {w : W} {f : F} {fiber : Fiber C} (hw : (s.worker w).phase = .inCb .returned)
      (hcbf : (s.worker w).cb_fiber = some f) (hf : s.heap f = some fiber)
      (hended : fiber.ended = true) :
      Step tid s (.settle w) ((s.setFiber f (fiber.reset none)).setWorker w
        { s.worker w with phase := .loop })

/-- A worker swaps a fiber in only after its context has been saved, and sets `HOLD` only on a
fiber that no other worker is executing. -/
def StepLaw (s : State W F C) (a : Action W F C) (s' : State W F C) : Prop :=
  match a with
  | .start w _ => ∀ f stage, (s'.worker w).current = some (f, stage) → s.saved f = true
  | .settle w => ∀ f stage fiber, (s.worker w).current = some (f, stage) →
      s.heap f = some fiber → fiber.ended = false → ∀ w', w' ≠ w → ¬ (s.worker w').Executing f
  | _ => True

/-- The entry is one of the fiber, and the worker may take it. -/
def Offers (tid : W → ℤ) (e : Entry F C) (f : F) (w : W) : Prop :=
  e.task.fiber = some f ∧ MayTake e.task.thread_id (tid w)

/-- The worker has the fiber, or may take it from the queue. -/
def State.Due (tid : W → ℤ) (s : State W F C) (f : F) (w : W) : Prop :=
  (s.worker w).Has f ∨ ∃ e ∈ s.queue, Offers tid e f w

/-- The fiber has ended, and no worker will use it again for a callback. -/
def Dead (s : State W F C) (f : F) : Prop :=
  (∃ fiber, s.heap f = some fiber ∧ fiber.ended = true) ∧ ∀ w, (s.worker w).cb_fiber ≠ some f

/-- A wake-up of a fiber that is not dead fires only when no worker but the one that may take its
entry has the fiber, or may take it from the queue. -/
def Timely (tid : W → ℤ) (s : State W F C) : Action W F C → Prop
  | .fire f thread => ¬ Dead s f → ∀ w w', MayTake thread (tid w) → s.Due tid f w' → w = w'
  | _ => True

end Sylar.Scheduler.Handover
