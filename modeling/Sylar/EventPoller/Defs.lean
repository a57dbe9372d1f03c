import Sylar.Fiber.Defs
import Sylar.Foundation.Size
import Mathlib.Data.List.Basic

/-!
# `EventPoller` — registration of events on file descriptors

Model of `eventpoller/eventpoller.{h,cpp}`: the contexts of the file descriptors, the operations
that register and remove events, and the dispatch of one reported event in `idle`.

Representation:

* schedulers, fibers and callbacks are arbitrary values; null pointers and empty functions are
  `none`;
* an operation runs atomically under the mutex of the `FdContext`. It returns the run-queue entries
  it hands to `Scheduler::schedule`, together with the scheduler that receives them;
* `interest` is the kernel's interest set: the mask stored for a file descriptor, if it is in the
  set. `epoll_ctl` fails if the operation does not fit the set, and may fail anyway (`granted`);
* a failed assertion and the use of a null pointer are a `Fault`.

The pipe for `tickle` and the lock on `m_fdContexts` are left out.
-/

namespace Sylar

namespace EventPoller

/-- A set of events as a bit mask. -/
abbrev Mask := BitVec 32

/-- The members of `EventPoller::Event` that can be registered. -/
inductive Event
  | READ
  | WRITE
  deriving DecidableEq, Repr

def NONE : Mask := 0x0#32

/-- The value of the enumerator. -/
def Event.mask : Event → Mask
  | READ => 0x1#32
  | WRITE => 0x4#32

def EPOLLIN : Mask := 0x001#32
def EPOLLOUT : Mask := 0x004#32
def EPOLLERR : Mask := 0x008#32
def EPOLLHUP : Mask := 0x010#32
def EPOLLET : Mask := 0x80000000#32

/-- Ways in which an operation does not return. -/
inductive Fault
  | assertion
  | nullScheduler
  /-- `m_mtx`, held exclusively, is locked a second time by its owner. The standard leaves this
  undefined; with libstdc++ and glibc, `lock` throws a `std::system_error` with `EDEADLK`. -/
  | selfDeadlock
  deriving DecidableEq, Repr

/-! ## `epoll_ctl` -/

/-- The operation argument of `epoll_ctl`. -/
inductive CtlOp
  | ADD
  | MOD
  | DEL
  deriving DecidableEq, Repr

/-- The operation fits the interest set: only a file descriptor outside the set can be added, and
only one inside can be modified or deleted. -/
def CtlOp.Legal (op : CtlOp) (interest : Option Mask) : Prop :=
  match op with
  | ADD => interest = none
  | MOD => interest ≠ none
  | DEL => interest ≠ none

/-- The effect of `epoll_ctl` on the interest in one file descriptor, or `none` if it fails. -/
def epoll_ctl (op : CtlOp) (mask : Mask) (interest : Option Mask) (granted : Bool) :
    Option (Option Mask) :=
  match op, interest, granted with
  | .ADD, none, true => some (some mask)
  | .MOD, some _, true => some (some mask)
  | .DEL, some _, true => some none
  | _, _, _ => none

/-! ## Contexts -/

/-- The fields of `FdContext::EventContext`. -/
structure EventContext (S F C : Type*) where
  scheduler : Option S
  fiber : Option F
  cb : Option C
  deriving DecidableEq, Repr

/-- The fields of `FdContext`. -/
structure FdContext (S F C : Type*) where
  read : EventContext S F C
  write : EventContext S F C
  fd : ℕ
  events : Mask
  deriving DecidableEq, Repr

variable {S F C : Type*}

/-- A context with no waiter. -/
def EventContext.new : EventContext S F C where
  scheduler := none
  fiber := none
  cb := none

namespace FdContext

/-- `new FdContext` with its `fd` set by `contextResize`. -/
def new (fd : ℕ) : FdContext S F C where
  read := .new
  write := .new
  fd := fd
  events := NONE

/-- `FdContext::getContext(event)`. -/
def getContext (fd_ctx : FdContext S F C) : Event → EventContext S F C
  | .READ => fd_ctx.read
  | .WRITE => fd_ctx.write

/-- Assignment to the reference that `getContext(event)` returns. -/
def setContext (fd_ctx : FdContext S F C) (ctx : EventContext S F C) : Event → FdContext S F C
  | .READ => { fd_ctx with read := ctx }
  | .WRITE => { fd_ctx with write := ctx }

/-- `FdContext::resetContext(ctx)`. -/
def resetContext (_ctx : EventContext S F C) : EventContext S F C where
  scheduler := none
  fiber := none
  cb := none

end FdContext

/-- Entries handed to schedulers, in order. `scheduleNonLock` drops an empty entry. -/
def schedule (scheduler : S) (item : FiberTask F C) : List (S × FiberTask F C) :=
  if item.nonempty then [(scheduler, item)] else []

/-- `FdContext::triggerEvent(event)`. The callback or the fiber leaves the context through the
constructor of `FiberTask`, which swaps it with an empty one. -/
def FdContext.triggerEvent (fd_ctx : FdContext S F C) (event : Event) :
    Except Fault (FdContext S F C × List (S × FiberTask F C)) :=
  if fd_ctx.events &&& event.mask = 0 then .error .assertion
  else
    let fd_ctx := { fd_ctx with events := fd_ctx.events &&& ~~~event.mask }
    let ctx := fd_ctx.getContext event
    match ctx.scheduler with
    | none => .error .nullScheduler
    | some scheduler =>
      if ctx.cb.isSome then
        let (item, cb) := FiberTask.swapCb ctx.cb (-1)
        .ok (fd_ctx.setContext { ctx with cb := cb, scheduler := none } event,
          schedule scheduler item)
      else
        let (item, fiber) := FiberTask.swapFiber ctx.fiber (-1)
        .ok (fd_ctx.setContext { ctx with fiber := fiber, scheduler := none } event,
          schedule scheduler item)

end EventPoller

open EventPoller

/-- The fields of `EventPoller` that registration uses, and the kernel's interest set. -/
structure EventPoller (S F C : Type*) where
  fdContexts : List (FdContext S F C)
  pendingEventCount : ℕ
  interest : ℕ → Option Mask

namespace EventPoller

variable {S F C : Type*}

/-- A poller whose table of contexts has been resized to `size`. -/
def new (size : ℕ) : EventPoller S F C where
  fdContexts := (List.range size).map FdContext.new
  pendingEventCount := 0
  interest := fun _ => none

/-- Store a context and the counter. -/
def update (ep : EventPoller S F C) (fd : ℕ) (fd_ctx : FdContext S F C) (pending : ℕ) :
    EventPoller S F C :=
  { ep with fdContexts := ep.fdContexts.set fd fd_ctx, pendingEventCount := pending }

/-- Store the kernel's interest in `fd`. -/
def setInterest (ep : EventPoller S F C) (fd : ℕ) (interest : Option Mask) : EventPoller S F C :=
  { ep with interest := fun fd' => if fd' = fd then interest else ep.interest fd' }

/-- What `Scheduler::getThis()` and `Fiber::getThis()` return on the calling thread. -/
structure Caller (S F : Type*) where
  scheduler : Option S
  fiber : F
  state : Fiber.State
  deriving DecidableEq, Repr

/-- The operation that adds an event to a context with these events. -/
def addOp (events : Mask) : CtlOp := if events ≠ NONE then .MOD else .ADD

/-- The operation that leaves these events of a context. -/
def leftOp (left_events : Mask) : CtlOp := if left_events ≠ NONE then .MOD else .DEL

/-- `EventPoller::addEvent(fd, event, cb)`. -/
def addEvent (ep : EventPoller S F C) (fd : ℕ) (event : Event) (cb : Option C) (this : Caller S F)
    (granted : Bool) : Except Fault (ℤ × EventPoller S F C) :=
  match ep.fdContexts[fd]? with
  | none => .error .selfDeadlock -- `contextResize` locks `m_mtx` again
  | some fd_ctx =>
    if fd_ctx.events &&& event.mask ≠ 0 then .error .assertion
    else
      let op := addOp fd_ctx.events
      -- the kernel is asked first: if it refuses, nothing has changed
      match epoll_ctl op (EPOLLET ||| fd_ctx.events ||| event.mask) (ep.interest fd) granted with
      | none => .ok (-1, ep)
      | some interest =>
        let fd_ctx := { fd_ctx with events := fd_ctx.events ||| event.mask }
        let event_ctx := fd_ctx.getContext event
        if event_ctx.scheduler.isSome || event_ctx.fiber.isSome || event_ctx.cb.isSome then
          .error .assertion
        else
          match cb with
          | some cb =>
            let event_ctx := { event_ctx with scheduler := this.scheduler, cb := some cb }
            .ok (0, (ep.update fd (fd_ctx.setContext event_ctx event)
              (ep.pendingEventCount + 1)).setInterest fd interest)
          | none =>
            let event_ctx :=
              { event_ctx with scheduler := this.scheduler, fiber := some this.fiber }
            -- `Assert((event_ctx.fiber->getState() == Fiber::EXEC))`
            if this.state ≠ .EXEC then .error .assertion
            else .ok (0, (ep.update fd (fd_ctx.setContext event_ctx event)
              (ep.pendingEventCount + 1)).setInterest fd interest)

/-- `EventPoller::delEvent(fd, event)`. -/
def delEvent (ep : EventPoller S F C) (fd : ℕ) (event : Event) (granted : Bool) :
    Bool × EventPoller S F C :=
  match ep.fdContexts[fd]? with
  | none => (false, ep)
  | some fd_ctx =>
    if fd_ctx.events &&& event.mask = 0 then (false, ep)
    else
      let new_events := fd_ctx.events &&& ~~~event.mask
      match epoll_ctl (leftOp new_events) (EPOLLET ||| new_events) (ep.interest fd) granted with
      | none => (false, ep)
      | some interest =>
        let fd_ctx := { fd_ctx with events := new_events }
        let event_ctx := FdContext.resetContext (fd_ctx.getContext event)
        (true, (ep.update fd (fd_ctx.setContext event_ctx event)
          (subSize ep.pendingEventCount 1)).setInterest fd interest)

/-- `EventPoller::cancelEvent(fd, event)`. -/
def cancelEvent (ep : EventPoller S F C) (fd : ℕ) (event : Event) (granted : Bool) :
    Except Fault (Bool × List (S × FiberTask F C) × EventPoller S F C) :=
  match ep.fdContexts[fd]? with
  | none => .ok (false, [], ep)
  | some fd_ctx =>
    if fd_ctx.events &&& event.mask = 0 then .ok (false, [], ep)
    else
      let new_events := fd_ctx.events &&& ~~~event.mask
      match epoll_ctl (leftOp new_events) (EPOLLET ||| new_events) (ep.interest fd) granted with
      | none => .ok (false, [], ep)
      | some interest => do
        let (fd_ctx, scheduled) ← fd_ctx.triggerEvent event
        .ok (true, scheduled,
          (ep.update fd fd_ctx (subSize ep.pendingEventCount 1)).setInterest fd interest)

/-- `if(mask & event) { triggerEvent(event); --m_pendingEventCount; }`, as in `cancelAll` and in
`idle`. -/
def triggerIf (mask : Mask) (event : Event) (fd_ctx : FdContext S F C) (pending : ℕ) :
    Except Fault (FdContext S F C × List (S × FiberTask F C) × ℕ) :=
  if mask &&& event.mask = 0 then .ok (fd_ctx, [], pending)
  else do
    let (fd_ctx, scheduled) ← fd_ctx.triggerEvent event
    .ok (fd_ctx, scheduled, subSize pending 1)

/-- `EventPoller::cancelAll(fd)`. -/
def cancelAll (ep : EventPoller S F C) (fd : ℕ) (granted : Bool) :
    Except Fault (Bool × List (S × FiberTask F C) × EventPoller S F C) :=
  match ep.fdContexts[fd]? with
  | none => .ok (false, [], ep)
  | some fd_ctx =>
    if fd_ctx.events = NONE then .ok (false, [], ep)
    else
      -- both events go, whatever is registered
      match epoll_ctl .DEL 0 (ep.interest fd) granted with
      | none => .ok (false, [], ep)
      | some interest => do
        let (fd_ctx, reads, pending) ←
          triggerIf fd_ctx.events .READ fd_ctx ep.pendingEventCount
        let (fd_ctx, writes, pending) ← triggerIf fd_ctx.events .WRITE fd_ctx pending
        -- `Assert((fd_ctx->events == 0))`
        if fd_ctx.events ≠ NONE then .error .assertion
        else .ok (true, reads ++ writes, (ep.update fd fd_ctx pending).setInterest fd interest)

/-! ## Dispatch in `idle` -/

/-- `real_events` in `idle`: the events reported as `event_events` on a context with these events.
An error or a hangup counts as all events of the context. -/
def real_events (event_events events : Mask) : Mask :=
  let event_events :=
    if event_events &&& (EPOLLERR ||| EPOLLHUP) ≠ 0 then
      event_events ||| ((EPOLLIN ||| EPOLLOUT) &&& events)
    else event_events
  (if event_events &&& EPOLLIN ≠ 0 then Event.READ.mask else NONE) |||
    (if event_events &&& EPOLLOUT ≠ 0 then Event.WRITE.mask else NONE)

/-- The body of the loop of `idle` over the reported events, for a report `event_events` on the
context of `fd`. -/
def dispatch (ep : EventPoller S F C) (fd : ℕ) (event_events : Mask) (granted : Bool) :
    Except Fault (List (S × FiberTask F C) × EventPoller S F C) :=
  match ep.fdContexts[fd]? with
  | none => .ok ([], ep) -- no context, so nothing is reported for it
  | some fd_ctx =>
    let real_events := real_events event_events fd_ctx.events
    -- from here on only the reported mask is looked at
    if fd_ctx.events &&& real_events = NONE then .ok ([], ep)
    else
      let left_events := fd_ctx.events &&& ~~~real_events
      match epoll_ctl (leftOp left_events) (EPOLLET ||| left_events) (ep.interest fd_ctx.fd)
        granted with
      | none => .ok ([], ep)
      | some interest => do
        let (fd_ctx, reads, pending) ← triggerIf real_events .READ fd_ctx ep.pendingEventCount
        let (fd_ctx, writes, pending) ← triggerIf real_events .WRITE fd_ctx pending
        .ok (reads ++ writes, (ep.update fd fd_ctx pending).setInterest fd_ctx.fd interest)

end EventPoller

end Sylar
