import Sylar.Scheduler.Defs

/-!
# The steps of the scheduler, case by case

`StepCase` lists what a step can do, one constructor for each path through the code between two
places of a worker, with the conditions under which the path is taken. `stepCase_of_step` shows that
there are no others; the invariants are proved from this list, without unfolding `step`.
-/

namespace Sylar.Scheduler

variable {W F C : Type*}

/-! ## What enqueuing leaves alone -/

/-- What is put into the queue does not touch a worker. -/
@[simp]
theorem worker_enqueue (s : State W F C) (task : FiberTask F C) :
    (s.enqueue task).worker = s.worker := by
  unfold State.enqueue
  split <;> rfl

/-- It does not touch a fiber. -/
@[simp]
theorem heap_enqueue (s : State W F C) (task : FiberTask F C) :
    (s.enqueue task).heap = s.heap := by
  unfold State.enqueue
  split <;> rfl

/-- It does not touch what others hold. -/
@[simp]
theorem held_enqueue (s : State W F C) (task : FiberTask F C) :
    (s.enqueue task).held = s.held := by
  unfold State.enqueue
  split <;> rfl

/-- It calls neither `swapIn` nor `reset`. -/
@[simp]
theorem calls_enqueue (s : State W F C) (task : FiberTask F C) :
    (s.enqueue task).calls = s.calls := by
  unfold State.enqueue
  split <;> rfl

/-! ## The paths -/

variable [DecidableEq W] [DecidableEq F]

/-- The paths of a step. -/
inductive StepCase (tid : W → ℤ) (s : State W F C) : Action W F C → State W F C → Prop
  | create {f : F} {cb : C} (hfree : s.heap f = none) :
      StepCase tid s (.create f cb) ((s.setFiber f (.new cb)).setHeld f 1)
  | copy {f : F} (hheld : 0 < s.held f) :
      StepCase tid s (.copy f) (s.setHeld f (s.held f + 1))
  | release {f : F} (hheld : 0 < s.held f) :
      StepCase tid s (.release f) (s.setHeld f (s.held f - 1))
  | getThis {w : W} {f : F} (hcur : (s.worker w).current = some f) :
      StepCase tid s (.getThis w) (s.setHeld f (s.held f + 1))
  | schedule {task : FiberTask F C} (hheld : ∀ f, task.fiber = some f → 0 < s.held f) :
      StepCase tid s (.schedule task) (s.enqueue task)
  | reset {w : W} (hw : (s.worker w).phase = .loop) :
      StepCase tid s (.reset w)
        (s.setWorker w { s.worker w with phase := .scan, ft := .empty })
  | take {w : W} {e : Entry F C} {rest : List (Entry F C)} (hw : (s.worker w).phase = .scan)
      (hscan : scan s.executing (tid w) s.sched.fibers = some (e, rest)) :
      StepCase tid s (.dequeue w) (({ s with sched := { s.sched with
        fibers := rest
        activeThreadNum := s.sched.activeThreadNum + 1 } } : State W F C).setWorker w
        { s.worker w with phase := .taken e, ft := e.task })
  | takeNone {w : W} (hw : (s.worker w).phase = .scan)
      (hscan : scan s.executing (tid w) s.sched.fibers = none) :
      StepCase tid s (.dequeue w) (s.setWorker w { s.worker w with phase := .idle })
  -- `ft.fiber` is there and has not ended
  | startFiber {w : W} {fresh f : F} {e : Entry F C} {fiber : Fiber C}
      (hw : (s.worker w).phase = .taken e) (hft : (s.worker w).ft.fiber = some f)
      (hf : s.heap f = some fiber) (hended : fiber.ended = false) :
      StepCase tid s (.start w fresh)
        (((s.call (.swapIn fiber.state)).setFiber f fiber.swapIn).setWorker w
          { s.worker w with phase := .inFiber e })
  -- `ft.cb` runs in `cb_fiber`, or in a new fiber if there is none
  | startCb {w : W} {fresh f : F} {e : Entry F C} {cb : C} {fiber : Fiber C}
      (hw : (s.worker w).phase = .taken e) (hcb : (s.worker w).ft.cb = some cb)
      (hcbf : (s.worker w).cb_fiber = some f) (hf : s.heap f = some fiber) :
      StepCase tid s (.start w fresh)
        ((((s.call (.reset fiber.state)).call (.swapIn .INIT)).setFiber f
          (Fiber.swapIn (fiber.reset (some cb)))).setWorker w
          { s.worker w with
            phase := .inCb e (s.worker w).ft.thread_id, ft := .empty, cb_fiber := some f })
  | startNew {w : W} {fresh : F} {e : Entry F C} {cb : C}
      (hw : (s.worker w).phase = .taken e) (hcb : (s.worker w).ft.cb = some cb)
      (hcbf : (s.worker w).cb_fiber = none) (hfree : s.heap fresh = none) :
      StepCase tid s (.start w fresh)
        (((s.call (.swapIn .INIT)).setFiber fresh (Fiber.swapIn (.new cb))).setWorker w
          { s.worker w with
            phase := .inCb e (s.worker w).ft.thread_id, ft := .empty, cb_fiber := some fresh })
  -- `if(isActive) { --m_activeThreadNum; continue; }`
  | stale {w : W} {fresh : F} {e : Entry F C} (hw : (s.worker w).phase = .taken e)
      (hcb : (s.worker w).ft.cb = none)
      (hstale : ∀ f fiber, (s.worker w).ft.fiber = some f → s.heap f = some fiber →
        fiber.ended = true) :
      StepCase tid s (.start w fresh) ((s.consume e).setWorker w { s.worker w with phase := .loop })
  -- `swapIn` has returned, for a fiber of the queue and then for `cb_fiber`
  | fiberReady {w : W} {f : F} {e : Entry F C} {fiber : Fiber C}
      (hw : (s.worker w).phase = .inFiber e) (hft : (s.worker w).ft.fiber = some f)
      (hf : s.heap f = some fiber) (hleave : fiber.canLeave .ready = true) :
      StepCase tid s (.finish w .ready)
        ((((s.consume e).ready f e).setFiber f (fiber.setState .READY)).setWorker w
          { s.worker w with phase := .readyFiber })
  | fiberHold {w : W} {f : F} {e : Entry F C} {fiber : Fiber C}
      (hw : (s.worker w).phase = .inFiber e) (hft : (s.worker w).ft.fiber = some f)
      (hf : s.heap f = some fiber) (hleave : fiber.canLeave .yieldToHold = true) :
      StepCase tid s (.finish w .yieldToHold)
        (((s.consume e).setFiber f (fiber.setState .HOLD)).setWorker w
          { s.worker w with phase := .loop })
  | fiberEnded {w : W} {f : F} {e : Entry F C} {fiber : Fiber C} {outcome : Fiber.Outcome}
      (hw : (s.worker w).phase = .inFiber e) (hft : (s.worker w).ft.fiber = some f)
      (hf : s.heap f = some fiber) (hleave : fiber.canLeave outcome = true)
      (hended : (fiber.leave outcome).ended = true) :
      StepCase tid s (.finish w outcome)
        (((s.consume e).setFiber f (fiber.leave outcome)).setWorker w
          { s.worker w with phase := .loop })
  | cbReady {w : W} {f : F} {e : Entry F C} {thread : ℤ} {fiber : Fiber C}
      (hw : (s.worker w).phase = .inCb e thread) (hcbf : (s.worker w).cb_fiber = some f)
      (hf : s.heap f = some fiber) (hleave : fiber.canLeave .ready = true) :
      StepCase tid s (.finish w .ready)
        ((((s.consume e).ready f e).setFiber f (fiber.setState .READY)).setWorker w
          { s.worker w with phase := .readyCb thread })
  | cbHold {w : W} {f : F} {e : Entry F C} {thread : ℤ} {fiber : Fiber C}
      (hw : (s.worker w).phase = .inCb e thread) (hcbf : (s.worker w).cb_fiber = some f)
      (hf : s.heap f = some fiber) (hleave : fiber.canLeave .yieldToHold = true) :
      StepCase tid s (.finish w .yieldToHold)
        (((s.consume e).setFiber f (fiber.setState .HOLD)).setWorker w
          { s.worker w with phase := .loop, cb_fiber := none })
  | cbEnded {w : W} {f : F} {e : Entry F C} {thread : ℤ} {fiber : Fiber C}
      {outcome : Fiber.Outcome} (hw : (s.worker w).phase = .inCb e thread)
      (hcbf : (s.worker w).cb_fiber = some f) (hf : s.heap f = some fiber)
      (hleave : fiber.canLeave outcome = true) (hended : (fiber.leave outcome).ended = true) :
      StepCase tid s (.finish w outcome)
        ((((s.consume e).call (.reset (fiber.leave outcome).state)).setFiber f
          ((fiber.leave outcome).reset none)).setWorker w { s.worker w with phase := .loop })
  | requeueFiber {w : W} (hw : (s.worker w).phase = .readyFiber) :
      StepCase tid s (.requeue w)
        ((s.enqueue (.ofFiber (s.worker w).ft.fiber (s.worker w).ft.thread_id)).setWorker w
          { s.worker w with phase := .loop })
  | requeueCb {w : W} {thread : ℤ} (hw : (s.worker w).phase = .readyCb thread) :
      StepCase tid s (.requeue w)
        ((s.enqueue (.ofFiber (s.worker w).cb_fiber thread)).setWorker w
          { s.worker w with phase := .loop, cb_fiber := none })
  -- `break`
  | exit {w : W} (hw : (s.worker w).phase = .idle) (hidle : (s.worker w).idle_fiber = .TERM) :
      StepCase tid s (.idle w)
        (s.setWorker w { s.worker w with phase := .exited, ft := .empty, cb_fiber := none })
  | idle {w : W} (hw : (s.worker w).phase = .idle) (hidle : (s.worker w).idle_fiber ≠ .TERM) :
      StepCase tid s (.idle w) ((s.call (.swapIn (s.worker w).idle_fiber)).setWorker w
        { s.worker w with phase := .idling, idle_fiber := .EXEC })
  | idleReturn {w : W} {returns : Bool} (hw : (s.worker w).phase = .idling) :
      StepCase tid s (.idleReturn w returns) (s.setWorker w { s.worker w with
        phase := .loop, idle_fiber := if returns then .TERM else .HOLD })

variable {tid : W → ℤ} {s s' : State W F C} {w : W} {e : Entry F C} {fresh f : F}
  {fiber : Fiber C} {outcome : Fiber.Outcome}

/-- A worker that has taken a callback starts it in its callback fiber, kept or new. -/
theorem stepCase_of_startCb (hw : (s.worker w).phase = .taken e)
    (hstale : ∀ f fiber, (s.worker w).ft.fiber = some f → s.heap f = some fiber →
      fiber.ended = true)
    (h : s.startCb w e fresh = some s') : StepCase tid s (.start w fresh) s' := by
  unfold State.startCb at h
  cases hcb : (s.worker w).ft.cb with
  | none =>
    simp only [hcb] at h
    cases h
    exact .stale hw hcb hstale
  | some cb =>
    simp only [hcb] at h
    cases hcbf : (s.worker w).cb_fiber with
    | none =>
      simp only [hcbf] at h
      cases hfree : s.heap fresh with
      | none =>
        simp only [hfree] at h
        cases h
        exact .startNew hw hcb hcbf hfree
      | some _ =>
        simp only [hfree] at h
        cases h
    | some f =>
      simp only [hcbf] at h
      obtain ⟨fiber, hf, rfl⟩ := Option.map_eq_some_iff.mp h
      exact .startCb hw hcb hcbf hf

/-- A worker swaps in the fiber of the entry, or starts its callback, or drops a stale entry. -/
theorem stepCase_of_start (hw : (s.worker w).phase = .taken e)
    (h : s.start w e fresh = some s') : StepCase tid s (.start w fresh) s' := by
  unfold State.start at h
  dsimp only at h
  split at h
  · rename_i f fiber heq
    obtain ⟨hft, hf⟩ : (s.worker w).ft.fiber = some f ∧ s.heap f = some fiber := by
      simpa [Option.bind_eq_some_iff] using heq
    by_cases hended : fiber.ended = false
    · rw [if_pos (by simp [hended])] at h
      cases h
      exact .startFiber hw hft hf hended
    · -- a fiber that has ended is passed over, for the callback of the entry or as stale
      rw [if_neg (by simpa using hended)] at h
      refine stepCase_of_startCb hw (fun f' fiber' hft' hf' => ?_) h
      rw [hft] at hft'
      cases hft'
      rw [hf] at hf'
      cases hf'
      simpa using hended
  · rename_i heq
    refine stepCase_of_startCb hw (fun f' fiber' hft' hf' => ?_) h
    simp [hft', hf'] at heq

/-- A fiber leaves, and may have to be put into the queue again. -/
theorem stepCase_of_finishFiber (hw : (s.worker w).phase = .inFiber e)
    (hft : (s.worker w).ft.fiber = some f) (hf : s.heap f = some fiber)
    (hleave : fiber.canLeave outcome = true) :
    StepCase tid s (.finish w outcome) (s.finishFiber w e f (fiber.leave outcome)) := by
  cases outcome with
  | returns => exact .fiberEnded hw hft hf hleave rfl
  | throws => exact .fiberEnded hw hft hf hleave rfl
  | yieldToHold =>
    -- `run` stores the state that the body has set
    have hcase : StepCase tid s _ _ := .fiberHold hw hft hf hleave
    exact hcase
  | ready => exact .fiberReady hw hft hf hleave

/-- A callback leaves, and its fiber is kept, handed over to the queue or dropped. -/
theorem stepCase_of_finishCb {thread : ℤ} (hw : (s.worker w).phase = .inCb e thread)
    (hcbf : (s.worker w).cb_fiber = some f) (hf : s.heap f = some fiber)
    (hleave : fiber.canLeave outcome = true) :
    StepCase tid s (.finish w outcome) (s.finishCb w e thread f (fiber.leave outcome)) := by
  cases outcome with
  | returns => exact .cbEnded hw hcbf hf hleave rfl
  | throws => exact .cbEnded hw hcbf hf hleave rfl
  | yieldToHold =>
    have hcase : StepCase tid s _ _ := .cbHold hw hcbf hf hleave
    exact hcase
  | ready => exact .cbReady hw hcbf hf hleave

/-- Every step takes one of the paths. -/
theorem stepCase_of_step {a : Action W F C} (h : step tid s a = some s') : StepCase tid s a s' := by
  cases a with
  | create f cb =>
    cases hfree : s.heap f with
    | none =>
      simp only [step, hfree] at h
      cases h
      exact .create hfree
    | some _ =>
      simp only [step, hfree] at h
      cases h
  | copy f =>
    rw [step, Option.ite_none_right_eq_some] at h
    obtain ⟨hheld, heq⟩ := h
    cases heq
    exact .copy hheld
  | release f =>
    rw [step, Option.ite_none_right_eq_some] at h
    obtain ⟨hheld, heq⟩ := h
    cases heq
    exact .release hheld
  | getThis w =>
    obtain ⟨f, hcur, rfl⟩ := Option.map_eq_some_iff.mp h
    exact .getThis hcur
  | schedule task =>
    cases hf : task.fiber with
    | none =>
      simp only [step, hf] at h
      cases h
      exact .schedule (by simp [hf])
    | some f =>
      -- the pointer in the task is a copy of one that somebody holds
      simp only [step, hf, Option.ite_none_right_eq_some] at h
      obtain ⟨hheld, heq⟩ := h
      cases heq
      exact .schedule (by simpa [hf] using hheld)
  | reset w =>
    cases hw : (s.worker w).phase <;> simp only [step, hw] at h <;> cases h
    exact .reset hw
  | dequeue w =>
    cases hw : (s.worker w).phase <;> simp only [step, hw] at h
    case scan =>
      cases hscan : scan s.executing (tid w) s.sched.fibers with
      | none =>
        simp only [hscan] at h
        cases h
        exact .takeNone hw hscan
      | some r =>
        simp only [hscan] at h
        cases h
        exact .take hw hscan
    all_goals cases h
  | start w fresh =>
    cases hw : (s.worker w).phase <;> simp only [step, hw] at h
    case taken e => exact stepCase_of_start hw h
    all_goals cases h
  | finish w outcome =>
    cases hw : (s.worker w).phase <;> simp only [step, hw] at h
    case inFiber e =>
      split at h
      · rename_i f fiber heq
        obtain ⟨hft, hf⟩ : (s.worker w).ft.fiber = some f ∧ s.heap f = some fiber := by
          simpa [Option.bind_eq_some_iff] using heq
        rw [Option.ite_none_right_eq_some] at h
        obtain ⟨hleave, heq⟩ := h
        cases heq
        exact stepCase_of_finishFiber hw hft hf hleave
      · cases h
    case inCb e thread =>
      split at h
      · rename_i f fiber heq
        obtain ⟨hcbf, hf⟩ : (s.worker w).cb_fiber = some f ∧ s.heap f = some fiber := by
          simpa [Option.bind_eq_some_iff] using heq
        rw [Option.ite_none_right_eq_some] at h
        obtain ⟨hleave, heq⟩ := h
        cases heq
        exact stepCase_of_finishCb hw hcbf hf hleave
      · cases h
    all_goals cases h
  | requeue w =>
    cases hw : (s.worker w).phase <;> simp only [step, hw] at h <;> cases h
    · exact .requeueFiber hw
    · exact .requeueCb hw
  | idle w =>
    cases hw : (s.worker w).phase <;> simp only [step, hw] at h
    case idle =>
      by_cases hidle : (s.worker w).idle_fiber = .TERM
      · rw [if_pos hidle] at h
        cases h
        exact .exit hw hidle
      · rw [if_neg hidle] at h
        cases h
        exact .idle hw hidle
    all_goals cases h
  | idleReturn w returns =>
    cases hw : (s.worker w).phase <;> simp only [step, hw] at h <;> cases h
    exact .idleReturn hw

end Sylar.Scheduler
