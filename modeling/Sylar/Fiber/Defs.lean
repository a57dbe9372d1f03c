import Mathlib.Data.Int.Notation

/-!
# Fibers and run-queue entries

Model of `fiber/fiber.{h,cpp}` as the schedulers and the poller use it: the state machine of a
fiber with a stack, and `FiberTask` with its constructors. Fibers are named by arbitrary values and
callbacks are arbitrary values; a null `Fiber::Ptr` and an empty `std::function` are `none`.

The saved context and the stack are left out: `swapIn` returns when the body gives up the thread,
with one of the outcomes of `Fiber.Outcome`.
-/

namespace Sylar

/-- `Fiber::State`. -/
inductive Fiber.State
  | INIT
  | HOLD
  | EXEC
  | TERM
  | READY
  | EXCEPT
  deriving DecidableEq, Repr

/-- The fields of a `Fiber` with a stack. -/
structure Fiber (C : Type*) where
  state : Fiber.State
  cb : Option C
  deriving DecidableEq, Repr

namespace Fiber

variable {C : Type*}

/-- `Fiber::Fiber(cb, stacksize, use_caller)`. -/
def new (cb : C) : Fiber C where
  state := .INIT
  cb := some cb

/-- The assertion of `~Fiber` on a fiber with a stack. -/
def State.destructible (state : State) : Bool := state = .INIT || state = .TERM

/-- The assertion of `Fiber::reset`. -/
def State.resettable (state : State) : Bool :=
  state = .INIT || state = .TERM || state = .EXCEPT

/-- `Fiber::reset(cb)`, when its assertion holds. -/
def reset (_fiber : Fiber C) (cb : Option C) : Fiber C where
  state := .INIT
  cb := cb

/-- `Fiber::swapIn()` up to the switch to the context of the fiber. -/
def swapIn (fiber : Fiber C) : Fiber C := { fiber with state := .EXEC }

/-- `Fiber::setState(state)`. -/
def setState (fiber : Fiber C) (state : State) : Fiber C := { fiber with state := state }

/-- Ways in which the body of a fiber gives up the thread. -/
inductive Outcome
  /-- The callback returns to `MainFunc`. -/
  | returns
  /-- The callback throws, and `MainFunc` catches the exception. -/
  | throws
  | yieldToHold
  /-- The body gives up the thread with the fiber in `READY`, the case that `run` provides for.
  (`Fiber::yieldToReady` sets the state, but then calls `swapIn` on the running fiber.) -/
  | ready
  deriving DecidableEq, Repr

/-- The fiber as the body leaves it. -/
def leave (fiber : Fiber C) : Outcome → Fiber C
  | .returns => { state := .TERM, cb := none }
  | .throws => { fiber with state := .EXCEPT }
  | .yieldToHold => { fiber with state := .HOLD }
  | .ready => { fiber with state := .READY }

/-- The body may end so: an empty callback throws `std::bad_function_call`. -/
def canLeave (fiber : Fiber C) (outcome : Outcome) : Bool :=
  fiber.cb.isSome || outcome = .throws

/-- `getState() == TERM || getState() == EXCEPT`. -/
def ended (fiber : Fiber C) : Bool := fiber.state = .TERM || fiber.state = .EXCEPT

end Fiber

/-- The fields of `FiberTask`. -/
structure FiberTask (F C : Type*) where
  fiber : Option F
  cb : Option C
  thread_id : ℤ
  deriving DecidableEq, Repr

namespace FiberTask

variable {F C : Type*}

/-- `FiberTask::FiberTask()`. -/
def empty : FiberTask F C where
  fiber := none
  cb := none
  thread_id := -1

/-- `FiberTask::FiberTask(Fiber::Ptr, int)`. -/
def ofFiber (fiber : Option F) (thread : ℤ) : FiberTask F C where
  fiber := fiber
  cb := none
  thread_id := thread

/-- `FiberTask::FiberTask(Fiber::Ptr*, int)`, with what it leaves in the pointer it swaps with. -/
def swapFiber (fiber : Option F) (thread : ℤ) : FiberTask F C × Option F :=
  ({ fiber := fiber, cb := none, thread_id := thread }, none)

/-- `FiberTask::FiberTask(std::function<void()>, int)`. -/
def ofCb (cb : Option C) (thread : ℤ) : FiberTask F C where
  fiber := none
  cb := cb
  thread_id := thread

/-- `FiberTask::FiberTask(std::function<void()>*, int)`, with what it leaves in the function it
swaps with. -/
def swapCb (cb : Option C) (thread : ℤ) : FiberTask F C × Option C :=
  ({ fiber := none, cb := cb, thread_id := thread }, none)

/-- `item.cb || item.fiber`, the test of `scheduleNonLock`. -/
def nonempty (item : FiberTask F C) : Bool := item.cb.isSome || item.fiber.isSome

end FiberTask

end Sylar
