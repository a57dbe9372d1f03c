import Sylar.Fiber.Defs
import Sylar.Foundation.Run
import Mathlib.Logic.Function.Basic

/-!
# Switches of contexts

Model of the contexts that `Fiber.Defs` leaves out: the `m_ctx` of the scheduler fiber and of the
fibers with a stack, and the functions of `fiber/fiber.cpp` that switch between them, as `run` and
the bodies of fibers call them on one thread.

Representation:

* a context holds a continuation (`Cont`): where the thread goes on when the context is loaded, with
  the local variables there. `swapcontext` stores the running one and loads another;
* the points of the callbacks are arbitrary values. A program says which switch the code behind a
  point may reach next, and at which point it goes on behind that switch;
* the fiber `none` is the scheduler fiber;
* `run` takes any entry that it may take, so that the order of the queue and the pins do not matter;
* `resume` records where a fiber has to go on. It is used only to state the law;
* assertions do not stop a run.

Idle fibers are left out. `switchLaw_run_iff` says that the contexts are right in a run exactly if
no fiber calls `yieldToReady` in it.
-/

namespace Sylar.Scheduler.Switch

open Transition

/-- Where a thread goes on. -/
inductive Cont (F K : Type*)
  /-- The scheduler fiber, at the head of the loop of `run`. -/
  | loop (cb_fiber : Option F)
  /-- The scheduler fiber, behind `ft.fiber->swapIn()`. -/
  | inFiber (f : F) (thread : ℤ) (cb_fiber : Option F)
  /-- The scheduler fiber, behind `cb_fiber->swapIn()`. -/
  | inCb (f : F) (thread : ℤ)
  /-- A fiber at a point of its callback, or in `MainFunc` before the call of an empty one. -/
  | body (f : F) (point : Option K)
  /-- A fiber behind `raw_ptr->swapOut()` in `MainFunc`. -/
  | ended (f : F)
  deriving DecidableEq, Repr

/-- The fiber that goes on. -/
def Cont.fiber {F K : Type*} : Cont F K → Option F
  | body f _ => some f
  | ended f => some f
  | _ => none

/-- The fiber whose `swapIn` the scheduler fiber has called, with the thread of its task. -/
def Cont.awaits {F K : Type*} : Cont F K → Option (F × ℤ)
  | inFiber f thread _ => some (f, thread)
  | inCb f thread => some (f, thread)
  | _ => none

/-- The next switch of a body. It goes on at the point `next`. -/
inductive Op (K : Type*)
  | yieldToHold (next : K)
  | yieldToReady (next : K)
  /-- The callback returns to `MainFunc`. -/
  | returns
  /-- The callback throws, and `MainFunc` catches the exception. -/
  | throws

/-- The continuation of a fiber behind a switch. -/
def Op.behind {F K : Type*} (f : F) : Op K → Cont F K
  | yieldToHold next => .body f (some next)
  | yieldToReady next => .body f (some next)
  | returns => .ended f
  | throws => .ended f

/-- The state in which a fiber is to leave its body. -/
def Op.state {K : Type*} : Op K → Fiber.State
  | yieldToHold _ => .HOLD
  | yieldToReady _ => .READY
  | returns => .TERM
  | throws => .EXCEPT

/-- The fibers of a scheduler and the thread that runs them. -/
structure State (F K : Type*) where
  fibers : List (FiberTask F K)
  /-- `t_fiber`. -/
  current : Option F
  running : Cont F K
  state : Option F → Fiber.State
  ctx : Option F → Option (Cont F K)
  resume : F → Option (Cont F K)

/-- A step of the thread, or of somebody else. -/
inductive Action (F K : Type*)
  /-- `new Fiber(cb)`, at an unused address. -/
  | create (f : F) (cb : K)
  | schedule (task : FiberTask F K)
  /-- `run` takes the entry at the index `i`. A new fiber for a callback gets the address
  `fresh`. -/
  | take (i : ℕ) (fresh : F)
  /-- `run` goes on behind `swapIn`. -/
  | settle
  /-- The body that runs gets to its next switch. -/
  | call (op : Op K)

namespace State

variable {F K : Type*}

/-- `run` is about to enter its loop, and there are no fibers. -/
def start : State F K where
  fibers := []
  current := none
  running := .loop none
  state := fun _ => .EXEC
  ctx := fun _ => none
  resume := fun _ => none

/-- `getState() == TERM || getState() == EXCEPT`. -/
def ended (s : State F K) (f : F) : Bool :=
  s.state (some f) = .TERM || s.state (some f) = .EXCEPT

/-- `Scheduler::schedule(fiber or cb, thread)` for the task that it builds. -/
def enqueue (s : State F K) (task : FiberTask F K) : State F K :=
  if task.nonempty then { s with fibers := s.fibers ++ [task] } else s

/-- `Fiber::setThis(f)`. -/
def setThis (s : State F K) (f : Option F) : State F K := { s with current := f }

/-- The thread goes on elsewhere on the same stack. -/
def goto (s : State F K) (k : Cont F K) : State F K := { s with running := k }

variable [DecidableEq F]

/-- `f->setState(state)`. -/
def setState (s : State F K) (f : Option F) (state : Fiber.State) : State F K :=
  { s with state := Function.update s.state f state }

/-- Record where a fiber has to go on. -/
def record (s : State F K) (f : F) (k : Cont F K) : State F K :=
  { s with resume := Function.update s.resume f (some k) }

omit [DecidableEq F] in
/-- Setting `t_fiber` leaves the contexts as they are. -/
@[simp]
theorem ctx_setThis (s : State F K) (f : Option F) : (s.setThis f).ctx = s.ctx := rfl

omit [DecidableEq F] in
/-- It leaves `m_state` as it is. -/
@[simp]
theorem state_setThis (s : State F K) (f : Option F) : (s.setThis f).state = s.state := rfl

omit [DecidableEq F] in
/-- It leaves what the fibers do next as it is. -/
@[simp]
theorem resume_setThis (s : State F K) (f : Option F) : (s.setThis f).resume = s.resume := rfl

/-- Setting `m_state` leaves the contexts as they are. -/
@[simp]
theorem ctx_setState (s : State F K) (f : Option F) (state : Fiber.State) :
    (s.setState f state).ctx = s.ctx := rfl

/-- It sets one of them. -/
@[simp]
theorem state_setState (s : State F K) (f : Option F) (state : Fiber.State) :
    (s.setState f state).state = Function.update s.state f state := rfl

/-- It leaves what the fibers do next as it is. -/
@[simp]
theorem resume_setState (s : State F K) (f : Option F) (state : Fiber.State) :
    (s.setState f state).resume = s.resume := rfl

/-- The record leaves the contexts as they are. -/
@[simp]
theorem ctx_record (s : State F K) (f : F) (k : Cont F K) : (s.record f k).ctx = s.ctx := rfl

/-- It leaves `m_state` as it is. -/
@[simp]
theorem state_record (s : State F K) (f : F) (k : Cont F K) :
    (s.record f k).state = s.state := rfl

/-- It is about one fiber. -/
@[simp]
theorem resume_record (s : State F K) (f : F) (k : Cont F K) :
    (s.record f k).resume = Function.update s.resume f (some k) := rfl

/-! ## Switches -/

/-- `makecontext(&m_ctx, &Fiber::MainFunc, 0)`, with the callback and the state that the constructor
and `reset` set. -/
def makecontext (s : State F K) (f : F) (cb : Option K) : State F K :=
  let k := Cont.body f cb
  { s.setState (some f) .INIT with
    ctx := Function.update s.ctx (some f) (some k)
    resume := Function.update s.resume f (some k) }

/-- `swapcontext(&oucp->m_ctx, &ucp->m_ctx)`, with the continuation of the caller. There is no state
if the context to load has never been set. -/
def swapcontext (s : State F K) (oucp ucp : Option F) (behind : Cont F K) : Option (State F K) :=
  let ctx := Function.update s.ctx oucp (some behind)
  (ctx ucp).map fun k => { s with ctx := ctx, running := k }

/-- `f->swapIn()`. -/
def swapIn (s : State F K) (f : Option F) (behind : Cont F K) : Option (State F K) :=
  ((s.setThis f).setState f .EXEC).swapcontext none f behind

/-- `f->swapOut()`. -/
def swapOut (s : State F K) (f : Option F) (behind : Cont F K) : Option (State F K) :=
  (s.setThis none).swapcontext f none behind

/-- `Fiber::yieldToHold()`. -/
def yieldToHold (s : State F K) (behind : Cont F K) : Option (State F K) :=
  let cur := s.current
  (s.setState cur .HOLD).swapOut cur behind

/-- `Fiber::yieldToReady()`. -/
def yieldToReady (s : State F K) (behind : Cont F K) : Option (State F K) :=
  let cur := s.current
  (s.setState cur .READY).swapIn cur behind

/-- `Fiber::MainFunc()` behind its callback, for the fiber that `cur` has been since it began. -/
def leaveMainFunc (s : State F K) (f : F) (state : Fiber.State) : Option (State F K) :=
  (s.setState (some f) state).swapOut (some f) (.ended f)

/-! ## Steps -/

/-- The next switch of the body of a fiber. -/
def call (s : State F K) (f : F) (op : Op K) : Option (State F K) :=
  let s := s.record f (op.behind f)
  match op with
  | .yieldToHold _ => s.yieldToHold (op.behind f)
  | .yieldToReady _ => s.yieldToReady (op.behind f)
  | .returns => s.leaveMainFunc f .TERM
  | .throws => s.leaveMainFunc f .EXCEPT

/-- `run` from the end of its scan, with the entry in `ft`, up to the switch. -/
def take (s : State F K) (cb_fiber : Option F) (ft : FiberTask F K) (fresh : F) :
    Option (State F K) :=
  match ft.fiber.filter fun f => !s.ended f with
  | some f =>
    -- the scan passes over a fiber that is executing
    if s.state (some f) = .EXEC then none
    else s.swapIn (some f) (.inFiber f ft.thread_id cb_fiber)
  | none =>
    match ft.cb with
    | some cb =>
      match cb_fiber with
      -- the fiber of the callback before is used again
      | some f => (s.makecontext f (some cb)).swapIn (some f) (.inCb f ft.thread_id)
      | none =>
        match s.ctx (some fresh) with
        | some _ => none -- the address is in use
        | none => (s.makecontext fresh (some cb)).swapIn (some fresh) (.inCb fresh ft.thread_id)
    | none => some s

/-- `run` behind `ft.fiber->swapIn()`. -/
def settleFiber (s : State F K) (f : F) (thread : ℤ) (cb_fiber : Option F) : State F K :=
  if s.state (some f) = .READY then
    (s.enqueue (.ofFiber (some f) thread)).goto (.loop cb_fiber)
  else if !s.ended f then (s.setState (some f) .HOLD).goto (.loop cb_fiber)
  else s.goto (.loop cb_fiber)

/-- `run` behind `cb_fiber->swapIn()`. -/
def settleCb (s : State F K) (f : F) (thread : ℤ) : State F K :=
  if s.state (some f) = .READY then (s.enqueue (.ofFiber (some f) thread)).goto (.loop none)
  else if !s.ended f then (s.setState (some f) .HOLD).goto (.loop none)
  else (s.makecontext f none).goto (.loop (some f))

/-- The state after an action, if the action is possible. -/
def step (s : State F K) : Action F K → Option (State F K)
  | .create f cb =>
    match s.ctx (some f) with
    | some _ => none
    | none => some (s.makecontext f (some cb))
  | .schedule task => some (s.enqueue task)
  | .take i fresh =>
    match s.running with
    | .loop cb_fiber => s.fibers[i]?.bind fun ft =>
      { s with fibers := s.fibers.eraseIdx i }.take cb_fiber ft fresh
    | _ => none
  | .settle =>
    match s.running with
    | .inFiber f thread cb_fiber => some (s.settleFiber f thread cb_fiber)
    | .inCb f thread => some (s.settleCb f thread)
    | _ => none
  | .call op =>
    match s.running with
    | .body f _ => s.call f op
    | _ => none

/-- The body that runs keeps to the program. An empty callback throws `std::bad_function_call`. -/
def Follows (prog : K → Op K → Prop) (s : State F K) : Action F K → Prop
  | .call op => ∀ f point, s.running = .body f point →
      match point with
      | some p => prog p op
      | none => op = .throws
  | _ => True

/-- The steps of a program. -/
def Step (prog : K → Op K → Prop) : State F K → Action F K → State F K → Prop :=
  Guarded (Follows prog) (ofFun step)

/-! ## The law -/

/-- The context of every fiber with a stack holds the place where it has to go on. While one runs,
that of the scheduler fiber holds the place behind the `swapIn` of this fiber. -/
structure Saved (s : State F K) : Prop where
  fibers : ∀ f, s.ctx (some f) = s.resume f
  scheduler : ∀ f, s.running.fiber = some f →
    ∃ k thread, s.ctx none = some k ∧ k.awaits = some (f, thread)

/-- The contexts are right after the step. A fiber that is swapped in goes on where it has to. A
fiber that gives up the thread has its continuation in its own context, and the scheduler fiber goes
on behind its `swapIn`, with the fiber in the state that it has asked for. A fiber in `READY` is
then enqueued again. -/
def SwitchLaw (s : State F K) (a : Action F K) (s' : State F K) : Prop :=
  s'.Saved ∧
    match a with
    | .take _ _ => ∀ f, s'.running.fiber = some f → s'.resume f = some s'.running
    | .call op => ∀ f, s.running.fiber = some f →
        s'.ctx (some f) = some (op.behind f) ∧ s'.state (some f) = op.state ∧
          ∃ thread, s'.running.awaits = some (f, thread)
    | .settle => ∀ f thread, s.running.awaits = some (f, thread) → s.state (some f) = .READY →
        s'.fibers = s.fibers ++ [.ofFiber (some f) thread]
    | _ => True

/-- The step is no call of `yieldToReady`. -/
def NoReady (_ : State F K) : Action F K → Prop
  | .call (.yieldToReady _) => False
  | _ => True

/-! ## The invariant -/

variable {s s' : State F K} {f : F} {k : Cont F K}

/-- What holds at every place of a run without `yieldToReady`: the contexts are right, `t_fiber` is
the fiber that runs, and only a fiber that has ended has a context behind its end. -/
structure Inv (s : State F K) : Prop where
  saved : s.Saved
  current : s.running.fiber = s.current
  place : ∀ f k, s.ctx (some f) = some k →
    (∃ point, k = .body f point) ∨ k = .ended f ∧ s.ended f = true

omit [DecidableEq F] in
/-- The invariant holds at the start. -/
theorem inv_start : Inv (start : State F K) where
  saved := ⟨fun _ => rfl, fun _ h => by cases h⟩
  current := rfl
  place := fun _ _ h => by cases h

omit [DecidableEq F] in
/-- Putting a task into the queue keeps the invariant. -/
theorem Inv.enqueue (h : Inv s) (task : FiberTask F K) : Inv (s.enqueue task) := by
  unfold State.enqueue
  split
  · exact ⟨⟨h.saved.fibers, h.saved.scheduler⟩, h.current, h.place⟩
  · exact h

omit [DecidableEq F] in
/-- The scheduler fiber moves on. -/
theorem Inv.goto_loop (h : Inv s) (hrun : s.running.fiber = none) (cb_fiber : Option F) :
    Inv (s.goto (.loop cb_fiber)) := by
  refine ⟨⟨h.saved.fibers, fun f hf => ?_⟩, ?_, h.place⟩
  · cases hf
  · show none = s.current
    rw [← h.current, hrun]

/-- A fiber that has not ended changes its state. -/
theorem Inv.setState (h : Inv s) (hended : s.ended f = false) (state : Fiber.State) :
    Inv (s.setState (some f) state) := by
  refine ⟨⟨h.saved.fibers, h.saved.scheduler⟩, h.current, fun g k hg => ?_⟩
  apply (h.place g k hg).imp id
  rintro ⟨hk, hgended⟩
  have hne : g ≠ f := by
    rintro rfl
    rw [hended] at hgended
    cases hgended
  refine ⟨hk, ?_⟩
  rw [← hgended]
  simp [State.ended, hne]

/-- A fiber that is made, or made anew, has to begin with its callback. -/
theorem Inv.makecontext (h : Inv s) (f : F) (cb : Option K) : Inv (s.makecontext f cb) := by
  refine ⟨⟨fun g => ?_, fun g hg => ?_⟩, h.current, fun g k hg => ?_⟩
  · by_cases hgf : g = f
    · subst hgf
      simp [State.makecontext]
    · simpa [State.makecontext, hgf] using h.saved.fibers g
  · obtain ⟨k, thread, hk, hawaits⟩ := h.saved.scheduler g hg
    exact ⟨k, thread, by simpa [State.makecontext] using hk, hawaits⟩
  · by_cases hgf : g = f
    · subst hgf
      refine Or.inl ⟨cb, ?_⟩
      simpa [State.makecontext] using hg.symm
    · have hplace := h.place g k (by simpa [State.makecontext, hgf] using hg)
      simpa [State.makecontext, State.ended, hgf] using hplace

/-! ## Switches keep the invariant -/

omit [DecidableEq F] in
/-- What waits for a fiber is `run`, which is in no fiber itself. -/
theorem fiber_of_awaits {p : F × ℤ} (h : k.awaits = some p) : k.fiber = none := by
  cases k with
  | body _ _ => cases h
  | ended _ => cases h
  | _ => rfl

/-- A fiber that has not ended goes on where it has to. -/
theorem Inv.swapIn (h : Inv s) (hended : s.ended f = false) {thread : ℤ}
    (hawaits : k.awaits = some (f, thread)) (hs : s.swapIn (some f) k = some s') :
    Inv s' ∧ ∀ g, s'.running.fiber = some g → s'.resume g = some s'.running := by
  have hexec := h.setState hended .EXEC
  obtain ⟨k', hk', rfl⟩ := Option.map_eq_some_iff.mp hs
  have hctx : s.ctx (some f) = some k' := by simpa using hk'
  obtain ⟨point, rfl⟩ : ∃ point, k' = .body f point := by
    apply (h.place f k' hctx).elim id
    rintro ⟨-, hended'⟩
    rw [hended] at hended'
    cases hended'
  refine ⟨⟨⟨fun g => ?_, fun g hg => ?_⟩, rfl, fun g k hg => ?_⟩, fun g hg => ?_⟩
  · simpa using h.saved.fibers g
  · obtain rfl := Option.some.inj hg
    exact ⟨k, thread, by simp, hawaits⟩
  · exact hexec.place g k (by simpa using hg)
  · obtain rfl := Option.some.inj hg
    rw [← hctx, h.saved.fibers f]
    rfl

omit [DecidableEq F] in
/-- Only a fiber that is to end has a continuation behind its end. -/
theorem behind_cases (f : F) (op : Op K) :
    (∃ point, (op.behind f : Cont F K) = .body f point) ∨
      (op.behind f : Cont F K) = .ended f ∧ (op.state = .TERM ∨ op.state = .EXCEPT) := by
  cases op with
  | yieldToHold next => exact Or.inl ⟨some next, rfl⟩
  | yieldToReady next => exact Or.inl ⟨some next, rfl⟩
  | returns => exact Or.inr ⟨rfl, Or.inl rfl⟩
  | throws => exact Or.inr ⟨rfl, Or.inr rfl⟩

/-- A fiber that swaps itself out leaves its continuation, and the scheduler fiber goes on behind
the `swapIn`. -/
theorem Inv.leave (h : Inv s) (hrun : s.running.fiber = some f) (op : Op K)
    (hs : ((s.record f (op.behind f)).setState (some f) op.state).swapOut (some f) (op.behind f) =
      some s') :
    Inv s' ∧ s'.ctx (some f) = some (op.behind f) ∧ s'.state (some f) = op.state ∧
      ∃ thread, s'.running.awaits = some (f, thread) := by
  obtain ⟨k, hk, rfl⟩ := Option.map_eq_some_iff.mp hs
  obtain ⟨k', thread, hctx, hawaits⟩ := h.saved.scheduler f hrun
  obtain rfl : k' = k := by simpa [hctx] using hk
  have hfiber := fiber_of_awaits hawaits
  refine ⟨⟨⟨fun g => ?_, fun g hg => ?_⟩, hfiber, fun g k hg => ?_⟩, ?_, ?_, thread, hawaits⟩
  · by_cases hgf : g = f
    · subst hgf
      simp
    · simpa [hgf] using h.saved.fibers g
  · rw [hfiber] at hg
    cases hg
  · by_cases hgf : g = f
    · subst hgf
      obtain rfl : op.behind g = k := by simpa using hg
      simpa [State.ended] using behind_cases g op
    · have hplace := h.place g k (by simpa [hgf] using hg)
      simpa [State.ended, hgf] using hplace
  · simp
  · simp

/-- All calls but `yieldToReady` swap the fiber that runs out. -/
theorem Inv.call_eq (h : Inv s) (hrun : s.running.fiber = some f) {op : Op K}
    (hop : s.NoReady (.call op)) :
    s.call f op = ((s.record f (op.behind f)).setState (some f) op.state).swapOut (some f)
      (op.behind f) := by
  have hcur : s.current = some f := by rw [← h.current, hrun]
  cases op with
  | yieldToHold next =>
    show ((s.record f _).setState s.current .HOLD).swapOut s.current _ = _
    rw [hcur]
    rfl
  | yieldToReady next => cases hop
  | returns => rfl
  | throws => rfl

/-- `yieldToReady` swaps the fiber that runs in, so that it goes on. -/
theorem Inv.call_yieldToReady (h : Inv s) (hrun : s.running.fiber = some f) {next : K}
    (hs : s.call f (.yieldToReady next) = some s') : s'.running.fiber = some f := by
  have hcur : s.current = some f := by rw [← h.current, hrun]
  change ((s.record f _).setState s.current .READY).swapIn s.current _ = some s' at hs
  rw [hcur] at hs
  obtain ⟨k, hk, rfl⟩ := Option.map_eq_some_iff.mp hs
  have hctx : s.ctx (some f) = some k := by simpa using hk
  rcases h.place f k hctx with ⟨point, rfl⟩ | ⟨rfl, -⟩ <;> rfl

/-! ## Steps -/

/-- A fiber with a new context has not ended. -/
theorem ended_makecontext (s : State F K) (f : F) (cb : Option K) :
    (s.makecontext f cb).ended f = false := by
  simp [State.ended, State.makecontext, State.setState]

/-- `run` takes an entry, and resumes the fiber where it stopped. -/
theorem Inv.take (h : Inv s) {cb_fiber : Option F} {ft : FiberTask F K} {fresh : F}
    (hrun : s.running.fiber = none) (hs : s.take cb_fiber ft fresh = some s') :
    Inv s' ∧ ∀ g, s'.running.fiber = some g → s'.resume g = some s'.running := by
  unfold State.take at hs
  split at hs
  · rename_i f hf
    obtain ⟨-, hended⟩ := Option.filter_eq_some_iff.mp hf
    split_ifs at hs
    exact h.swapIn (by simpa using hended) rfl hs
  · split at hs
    · rename_i cb _
      split at hs
      · rename_i f
        exact (h.makecontext f (some cb)).swapIn (ended_makecontext s f _) rfl hs
      · split at hs
        · cases hs
        · exact (h.makecontext fresh (some cb)).swapIn (ended_makecontext s fresh _) rfl hs
    · obtain rfl := Option.some.inj hs
      refine ⟨h, fun g hg => ?_⟩
      rw [hrun] at hg
      cases hg

omit [DecidableEq F] in
/-- A fiber is put at the end of the queue. -/
theorem fibers_enqueue (s : State F K) (f : F) (thread : ℤ) :
    (s.enqueue (.ofFiber (some f) thread)).fibers = s.fibers ++ [.ofFiber (some f) thread] :=
  rfl

omit [DecidableEq F] in
/-- What runs goes on. -/
theorem running_enqueue (s : State F K) (task : FiberTask F K) :
    (s.enqueue task).running = s.running := by
  unfold State.enqueue
  split <;> rfl

/-- Behind `ft.fiber->swapIn()` the invariant is kept. -/
theorem Inv.settleFiber (h : Inv s) (hrun : s.running.fiber = none) (f : F) (thread : ℤ)
    (cb_fiber : Option F) : Inv (s.settleFiber f thread cb_fiber) := by
  unfold State.settleFiber
  split_ifs with hready hended
  · exact (h.enqueue _).goto_loop (by rw [running_enqueue, hrun]) cb_fiber
  · exact (h.setState (by simpa using hended) .HOLD).goto_loop hrun cb_fiber
  · exact h.goto_loop hrun cb_fiber

/-- So it is behind `cb_fiber->swapIn()`. -/
theorem Inv.settleCb (h : Inv s) (hrun : s.running.fiber = none) (f : F) (thread : ℤ) :
    Inv (s.settleCb f thread) := by
  unfold State.settleCb
  split_ifs with hready hended
  · exact (h.enqueue _).goto_loop (by rw [running_enqueue, hrun]) none
  · exact (h.setState (by simpa using hended) .HOLD).goto_loop hrun none
  · exact (h.makecontext f none).goto_loop hrun (some f)

/-- A step keeps the invariant and the law, unless it is a call of `yieldToReady`. -/
theorem Inv.step (h : Inv s) {a : Action F K} (ha : s.NoReady a) (hs : s.step a = some s') :
    Inv s' ∧ SwitchLaw s a s' := by
  cases a with
  | create f cb =>
    simp only [State.step] at hs
    split at hs
    · cases hs
    · obtain rfl := Option.some.inj hs
      have hinv := h.makecontext f (some cb)
      exact ⟨hinv, hinv.saved, trivial⟩
  | schedule task =>
    obtain rfl := Option.some.inj hs
    have hinv := h.enqueue task
    exact ⟨hinv, hinv.saved, trivial⟩
  | take i fresh =>
    simp only [State.step] at hs
    split at hs
    · rename_i cb_fiber hrun
      obtain ⟨ft, -, hs⟩ := Option.bind_eq_some_iff.mp hs
      -- the task leaves the queue before its fiber is swapped in
      have herase : Inv { s with fibers := s.fibers.eraseIdx i } :=
        ⟨⟨h.saved.fibers, h.saved.scheduler⟩, h.current, h.place⟩
      obtain ⟨hinv, hresume⟩ := herase.take (by rw [hrun]; rfl) hs
      exact ⟨hinv, hinv.saved, hresume⟩
    · cases hs
  | settle =>
    simp only [State.step] at hs
    split at hs
    · rename_i f thread cb_fiber hrun
      obtain rfl := Option.some.inj hs
      have hinv := h.settleFiber (by rw [hrun]; rfl) f thread cb_fiber
      refine ⟨hinv, hinv.saved, fun g thread' hawaits hready => ?_⟩
      rw [hrun] at hawaits
      cases hawaits
      rw [State.settleFiber, if_pos hready]
      exact fibers_enqueue s f thread
    · rename_i f thread hrun
      obtain rfl := Option.some.inj hs
      have hinv := h.settleCb (by rw [hrun]; rfl) f thread
      refine ⟨hinv, hinv.saved, fun g thread' hawaits hready => ?_⟩
      rw [hrun] at hawaits
      cases hawaits
      rw [State.settleCb, if_pos hready]
      exact fibers_enqueue s f thread
    · cases hs
  | call op =>
    simp only [State.step] at hs
    split at hs
    · rename_i f point hrun
      have hfiber : s.running.fiber = some f := by rw [hrun]; rfl
      -- every other call swaps the fiber out
      rw [h.call_eq hfiber ha] at hs
      obtain ⟨hinv, hlaw⟩ := h.leave hfiber op hs
      refine ⟨hinv, hinv.saved, fun g hg => ?_⟩
      rw [hfiber] at hg
      cases hg
      exact hlaw
    · cases hs

/-- A call of `yieldToReady` breaks the law: the thread does not leave the fiber. -/
theorem Inv.not_switchLaw (h : Inv s) {next : K}
    (hs : s.step (.call (.yieldToReady next)) = some s') :
    ¬ SwitchLaw s (.call (.yieldToReady next)) s' := by
  simp only [State.step] at hs
  split at hs
  · rename_i f point hrun
    have hfiber : s.running.fiber = some f := by rw [hrun]; rfl
    have hstays := h.call_yieldToReady hfiber hs
    rintro ⟨-, hlaw⟩
    obtain ⟨-, -, thread, hawaits⟩ := hlaw f hfiber
    rw [fiber_of_awaits hawaits] at hstays
    cases hstays
  · cases hs

/-- For every program, all switches of a run are right exactly if no body calls `yieldToReady`. -/
theorem switchLaw_run_iff (prog : K → Op K → Prop) (ls : List (Action F K)) (s : State F K) :
    Run (Guarded NoReady (Step prog)) start ls s ↔
      Run (Lawful SwitchLaw (Step prog)) start ls s := by
  apply Run.guarded_iff_lawful inv_start
  · intro s a s' h ha hstep
    exact (h.step ha hstep.2).1
  · intro s a s' h hstep
    constructor
    · intro ha
      exact (h.step ha hstep.2).2
    · intro hlaw
      cases a with
      | call op =>
        cases op with
        | yieldToReady next => exact absurd hlaw (h.not_switchLaw hstep.2)
        | _ => trivial
      | _ => trivial

/-- A callback that yields with `yieldToReady` at its first point: its continuation ends up in the
context of the scheduler fiber, and it begins anew. -/
theorem switchLaw_counterexample : ∃ s : State ℕ ℕ,
    Run (Step fun point op => point = 0 ∧ op = .yieldToReady 1) start
      [.schedule (.ofCb (some 0) (-1)), .take 0 7, .call (.yieldToReady 1)] s ∧
    s.ctx none = some (.body 7 (some 1)) ∧ s.running = .body 7 (some 0) ∧
    s.state (some 7) = .EXEC ∧
    ¬ Run (Lawful SwitchLaw (Step fun point op => point = 0 ∧ op = .yieldToReady 1)) start
      [.schedule (.ofCb (some 0) (-1)), .take 0 7, .call (.yieldToReady 1)] s := by
  refine ⟨_, Run.cons ⟨trivial, rfl⟩ (Run.cons ⟨trivial, rfl⟩ (Run.single ⟨?_, rfl⟩)), rfl, rfl,
    rfl, fun hrun => ?_⟩
  · intro f point hpoint
    cases hpoint
    exact ⟨rfl, rfl⟩
  · change Run _ start ([_, _] ++ [_]) _ at hrun
    obtain ⟨m, -, -, hsaved, -⟩ := Run.snoc_iff.mp hrun
    obtain ⟨k, thread, hk, hawaits⟩ := hsaved.scheduler 7 rfl
    cases hk
    cases hawaits

end State

end Sylar.Scheduler.Switch
