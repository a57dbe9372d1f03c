import Sylar.EventPoller.ReadLock
import Sylar.EventPoller.Wakeup
import Sylar.Timer.OneShot

/-!
# Waits of a hooked call

`do_io` and `connect_with_timeout` wait in the same way: they add a condition timer if there is a
timeout, register the calling fiber with `addEvent`, yield, and cancel the timer. The wait of the
model runs on one poller, and each callback of an expired timer is executed at once.

Representation:

* `errno` values are positive;
* a timer of the call holds `Callback.timeout`, with the number of the wait that added it; all other
  timers hold `Callback.other`, which has no effect on the call;
* `timer_info` lives as long as the call, and `cancelled` is its only field;
* `Round` is what the rest of the system contributes to one wait: where the timer is allocated, the
  clock, whether `epoll_ctl` is granted in `addEvent`, what wakes the fiber, and how the calls of
  other threads and fibers change the reader count of `m_mtx`. The calls of `epoll_ctl` that remove
  a registered event are granted;
* a call that does not get on is `Stuck`. Since `cancelEvent` releases its hold on `m_mtx` twice,
  the reader count goes down with every timeout, and once it is below -1 no call gets a hold.

`LockedPoller.wait_spec` says how a wait ends that gets its holds, and that it leaves no timer and
no registration behind; `LockedPoller.wait_of_not_admits` that no other wait ends.
-/

namespace Sylar.Hook

open EventPoller TimerManager

/-! ## System calls -/

/-- A value of `errno` after an error. -/
abbrev Errno := { errno : ℕ // errno ≠ 0 }

def EINTR : Errno := ⟨4, by decide⟩
def EBADF : Errno := ⟨9, by decide⟩
def EAGAIN : Errno := ⟨11, by decide⟩
def ETIMEDOUT : Errno := ⟨110, by decide⟩
def EINPROGRESS : Errno := ⟨115, by decide⟩

/-- What a system call returns: `fails errno` is -1, with `errno`. -/
inductive SysResult
  | returns (n : ℕ)
  | fails (errno : Errno)
  deriving DecidableEq, Repr

/-- Ways in which a call does not get on. -/
inductive Stuck
  | fault (fault : EventPoller.Fault)
  /-- `m_mtx.lock_shared()` does not return. -/
  | lock
  /-- The fiber stays on hold, since nothing has scheduled it. -/
  | hold
  deriving DecidableEq, Repr

/-! ## The poller of the calling thread -/

/-- The callback of a timer. -/
inductive Callback
  | timeout (wait : ℕ)
  | other
  deriving DecidableEq, Repr

/-- The registrations and the timers of an `EventPoller`. -/
structure Poller (Addr S F C : Type*) where
  events : EventPoller S F C
  timers : TimerManager Addr Callback

/-- A poller with the count of shared holds that its `m_mtx` keeps. -/
structure LockedPoller (Addr S F C : Type*) extends Poller Addr S F C where
  readers : ℤ

/-- What the waits of a call are for: an event of a descriptor, within `timeout` milliseconds unless
`timeout` is all ones, by a fiber that runs on a thread of `scheduler`. -/
structure Call (S F : Type*) where
  fd : ℕ
  event : Event
  timeout : UInt64
  scheduler : S
  fiber : F

/-- `Scheduler::getThis()` and `Fiber::getThis()`. -/
def Call.this {S F : Type*} (call : Call S F) : Caller S F where
  scheduler := some call.scheduler
  fiber := call.fiber
  state := .EXEC

/-- What wakes a fiber that waits. -/
inductive Wake (Addr : Type*)
  /-- The kernel finds the descriptor in the condition `report`. -/
  | ready (report : Mask)
  /-- The timers are checked at the clock reading `now`. -/
  | expired (now : UInt64) (probe : Addr)
  /-- Another fiber calls `cancelEvent`. -/
  | cancelled
  deriving DecidableEq, Repr

/-- One wait, as far as the call does not decide it. -/
structure Round (Addr : Type*) where
  p : Addr
  now : UInt64
  granted : Bool
  wake : Wake Addr
  /-- By how much others have changed the reader count of `m_mtx` when `addEvent` asks for a hold,
  and by how much more when the fiber, on hold, is about to be woken. -/
  before : ℤ
  meanwhile : ℤ
  deriving DecidableEq, Repr

/-- How a wait ends: `addEvent` has failed, or the fiber goes on with this value of `cancelled`. -/
inductive Waited
  | refused
  | resumed (cancelled : ℕ)
  deriving DecidableEq, Repr

/-- The flag of `timer_info`, the entries scheduled, the registrations, and the reader count, while
callbacks run. -/
structure Firing (S F C : Type*) where
  cancelled : ℕ
  scheduled : List (Waiter S F C)
  events : EventPoller S F C
  readers : ℤ

variable {Addr S F C : Type*}

/-- `cancelEvent` for the event of a call, with its lookup under `m_mtx`. -/
def Call.cancelEvent (call : Call S F) (events : EventPoller S F C) (readers : ℤ) :
    Except Stuck (List (Waiter S F C) × EventPoller S F C × ℤ) :=
  match ReadLock.lookup (call.fd < events.fdContexts.length) readers with
  | none => .error .lock
  | some readers =>
    match events.cancelEvent call.fd call.event true with
    | .error fault => .error (.fault fault)
    | .ok (_, scheduled, events) => .ok (scheduled, events, readers)

/-- A callback of an expired timer. -/
def Call.runCallback (call : Call S F) (st : Firing S F C) (cb : Option Callback) :
    Except Stuck (Firing S F C) :=
  match cb with
  | some (.timeout _) =>
    -- `winfo.lock()` succeeds as long as the call waits
    if st.cancelled ≠ 0 then .ok st
    else do
      let (scheduled, events, readers) ← call.cancelEvent st.events st.readers
      .ok ⟨ETIMEDOUT.1, st.scheduled ++ scheduled, events, readers⟩
  | some .other => .ok st
  | none => .ok st

namespace Poller

variable [LinearOrder Addr]

/-- `if(to != (uint64_t)-1) timer = ep->addConditionTimer(..)`, for the wait with this number. -/
def arm (poller : Poller Addr S F C) (call : Call S F) (wait : ℕ) (p : Addr) (now : UInt64) :
    Poller Addr S F C :=
  if call.timeout ≠ -1 then
    { poller with timers := (poller.timers.addTimer p call.timeout (.timeout wait) false now).2 }
  else poller

/-- `if(timer) timer->cancel()`, and the end of the scope of `timer`. -/
def disarm (poller : Poller Addr S F C) (call : Call S F) (p : Addr) : Poller Addr S F C :=
  if call.timeout ≠ -1 then { poller with timers := (poller.timers.cancel p).2.release p }
  else poller

end Poller

namespace LockedPoller

variable [LinearOrder Addr]

/-- What happens while the fiber is on hold: the entries scheduled, the flag, and the poller. -/
def wakeUp (poller : LockedPoller Addr S F C) (call : Call S F) (cancelled : ℕ)
    (wake : Wake Addr) : Except Stuck (List (Waiter S F C) × ℕ × LockedPoller Addr S F C) :=
  match wake with
  | .ready report =>
    -- `idle` does not lock `m_mtx` for the events that it dispatches
    match poller.events.dispatch call.fd (poller.events.reported call.fd report) true with
    | .error fault => .error (.fault fault)
    | .ok (scheduled, events) =>
      .ok (scheduled, cancelled, ⟨⟨events, poller.timers⟩, poller.readers⟩)
  | .expired now probe =>
    -- all timers that have expired, those of others too
    let (timers, cbs) := poller.timers.listExpiredCb now probe []
    match cbs.foldlM call.runCallback ⟨cancelled, [], poller.events, poller.readers⟩ with
    | .error stuck => .error stuck
    | .ok st => .ok (st.scheduled, st.cancelled, ⟨⟨st.events, timers⟩, st.readers⟩)
  | .cancelled =>
    -- `cancelled` is not set, so that this looks like an event to the call
    match call.cancelEvent poller.events poller.readers with
    | .error stuck => .error stuck
    | .ok (scheduled, events, readers) =>
      .ok (scheduled, cancelled, ⟨⟨events, poller.timers⟩, readers⟩)

/-- `if(timer) timer->cancel()`, which has nothing to do with `m_mtx`. -/
def disarm (poller : LockedPoller Addr S F C) (call : Call S F) (p : Addr) :
    LockedPoller Addr S F C :=
  ⟨poller.toPoller.disarm call p, poller.readers⟩

variable [DecidableEq F]

/-- `Fiber::yieldToHold()`, which returns when an entry with the fiber has been scheduled. -/
def yieldToHold (poller : LockedPoller Addr S F C) (call : Call S F) (cancelled : ℕ)
    (wake : Wake Addr) : Except Stuck (ℕ × LockedPoller Addr S F C) :=
  match poller.wakeUp call cancelled wake with
  | .error stuck => .error stuck
  | .ok (scheduled, cancelled, poller) =>
    if scheduled.any (·.2.fiber = some call.fiber) then .ok (cancelled, poller) else .error .hold

/-- One wait, from `addConditionTimer` to `timer->cancel()`. -/
def wait (poller : LockedPoller Addr S F C) (call : Call S F) (wait cancelled : ℕ)
    (round : Round Addr) : Except Stuck (Waited × LockedPoller Addr S F C) :=
  let armed := poller.toPoller.arm call wait round.p round.now
  -- `addEvent` asks for a hold before it looks at the table
  match ReadLock.addSection (poller.readers + round.before) with
  | none => .error .lock
  | some readers =>
    match armed.events.addEvent call.fd call.event none call.this round.granted with
    | .error fault => .error (.fault fault)
    | .ok (rt, events) =>
      -- nothing is registered, and the fiber does not yield
      if rt ≠ 0 then
        .ok (.refused, LockedPoller.disarm ⟨⟨events, armed.timers⟩, readers⟩ call round.p)
      else
        match yieldToHold ⟨⟨events, armed.timers⟩, readers + round.meanwhile⟩ call cancelled
            round.wake with
        | .error stuck => .error stuck
        | .ok (cancelled, poller) => .ok (.resumed cancelled, poller.disarm call round.p)

end LockedPoller

/-! ## What a wait does -/

/-- No timer of the call is pending. -/
def Quiet (timers : TimerManager Addr Callback) : Prop :=
  ∀ p ∈ timers.timers, ∀ k, timers.callback p ≠ some (.timeout k)

/-- The wake-up of a wait can happen: a report is about the event, and a timeout is that of the
wait's own timer. -/
def Wake.Possible (call : Call S F) (now : UInt64) : Wake Addr → Prop
  | .ready report => Mask.Wakes report call.event
  | .expired now' _ => call.timeout ≠ -1 ∧ now + call.timeout ≤ now'
  | .cancelled => True

/-- The timer of the wait has expired. -/
def Wake.timesOut : Wake Addr → Bool
  | .ready _ => false
  | .expired _ _ => true
  | .cancelled => false

/-- The value of `cancelled` after the wake-up. -/
def Wake.flag (wake : Wake Addr) : ℕ := if wake.timesOut then ETIMEDOUT.1 else 0

/-- The wake-up goes through a `cancelEvent`, which needs a hold on `m_mtx`. -/
def Wake.cancels : Wake Addr → Bool
  | .ready _ => false
  | .expired _ _ => true
  | .cancelled => true

/-- The calls of a wait, begun at this reader count, get their holds on `m_mtx`: `addEvent`, and the
`cancelEvent` that wakes the fiber. -/
def Round.Admits (round : Round Addr) (readers : ℤ) : Prop :=
  -1 ≤ readers + round.before ∧
    (round.granted = true → round.wake.cancels = true →
      -1 ≤ readers + round.before + round.meanwhile)

/-- The reader count that a wait leaves, begun at this one. -/
def Round.leaves (round : Round Addr) (readers : ℤ) : ℤ :=
  if round.granted then
    readers + round.before + round.meanwhile - if round.wake.cancels then 1 else 0
  else readers + round.before

/-- How a wait ends. -/
def Round.ends (round : Round Addr) : Waited :=
  if round.granted then .resumed round.wake.flag else .refused

section Callbacks

variable {call : Call S F} {st : Firing S F C} {cbs : List (Option Callback)}

/-- Callbacks each of which has no effect have none together. -/
theorem foldlM_runCallback (h : ∀ cb ∈ cbs, call.runCallback st cb = .ok st) :
    cbs.foldlM call.runCallback st = .ok st := by
  induction cbs with
  | nil => rfl
  | cons cb cbs ih =>
    rw [List.foldlM_cons, h cb (by simp)]
    exact ih fun cb hcb => h cb (by simp [hcb])

/-- A callback that is not one of the call, or comes after one that has set the flag, has no
effect. -/
theorem runCallback_eq {cb : Option Callback}
    (h : (∀ k, cb ≠ some (.timeout k)) ∨ st.cancelled ≠ 0) : call.runCallback st cb = .ok st := by
  match cb with
  | none => rfl
  | some .other => rfl
  | some (.timeout k) => rw [Call.runCallback, if_pos (h.resolve_left fun hnot => hnot k rfl)]

end Callbacks

/-- What `addEvent` registers is scheduled as the fiber of the call. -/
theorem armedBy_waiter (call : Call S F) :
    (armedBy call.scheduler call.fiber (none : Option C)).waiter =
      [(call.scheduler, .ofFiber (some call.fiber) (-1))] := rfl

/-- `cancelEvent` while the fiber waits: it schedules the fiber, if it gets its hold. -/
theorem cancelEvent_spec {call : Call S F} {events : EventPoller S F C}
    (h : Waits events call.fd call.event (armedBy call.scheduler call.fiber none)) :
    ∃ events', Idle events' call.fd call.event ∧ ∀ readers : ℤ,
      call.cancelEvent events readers =
        if -1 ≤ readers then
          .ok ([(call.scheduler, .ofFiber (some call.fiber) (-1))], events', readers - 1)
        else .error .lock := by
  obtain ⟨events', hcancel, hidle⟩ := h.cancelEvent
  obtain ⟨c, hfd, -⟩ := h.context
  obtain ⟨hlt, -⟩ := List.getElem?_eq_some_iff.1 hfd
  refine ⟨events', hidle, fun readers => ?_⟩
  split_ifs with hle
  · have hlookup : ReadLock.lookup (call.fd < events.fdContexts.length) readers =
        some (readers - 1) := ReadLock.lookup_eq_some.2 ⟨hle, by simp [hlt]⟩
    simp only [Call.cancelEvent, hlookup, hcancel, armedBy_waiter]
  · have hlookup : ReadLock.lookup (call.fd < events.fdContexts.length) readers = none :=
      Option.eq_none_iff_forall_ne_some.2 fun _ heq => hle (ReadLock.lookup_eq_some.1 heq).1
    simp only [Call.cancelEvent, hlookup]

/-- Timers that are gone do not disturb. -/
theorem Quiet.settled [LinearOrder Addr] {m₀ m : TimerManager Addr Callback} (h : Quiet m₀)
    (hm : Settled m₀ m) : Quiet m := by
  intro p hp k
  obtain ⟨hp₀, heq⟩ := hm.pending p hp
  rw [heq]
  exact h p hp₀ k

namespace Poller

variable [LinearOrder Addr] {poller₀ poller : Poller Addr S F C} {call : Call S F} {wait : ℕ}
  {p : Addr} {now : UInt64}

/-- The call can start to wait. -/
structure Ready (poller : Poller Addr S F C) (call : Call S F) : Prop where
  events : Idle poller.events call.fd call.event
  timers : WF poller.timers
  quiet : Quiet poller.timers

/-- The timers of a call that waits, or has been woken: its own one lies at `p`, if it has one. -/
structure Timed (m₀ : TimerManager Addr Callback) (call : Call S F) (p : Addr)
    (m : TimerManager Addr Callback) : Prop where
  without : call.timeout = -1 → m = m₀
  beside : call.timeout ≠ -1 → Beside m₀ p m

/-- The timer of the wait is added beside those that are there. -/
theorem arm_timed (h : WF poller.timers)
    (hp : call.timeout ≠ -1 → poller.timers.heap p = none) (wait : ℕ) (now : UInt64) :
    Timed poller.timers call p (poller.arm call wait p now).timers ∧
      (call.timeout ≠ -1 → (poller.arm call wait p now).timers.heap p =
        some (.new call.timeout (.timeout wait) false now)) := by
  unfold arm
  split_ifs with hto
  · have hspec := addTimer_spec h (hp hto) call.timeout (.timeout wait) false now
    refine ⟨⟨fun hnone => absurd hnone hto, fun _ => addTimer_beside h (hp hto) ..⟩, fun _ => ?_⟩
    rw [hspec.2.1, set_heap_self]
  · exact ⟨⟨fun _ => rfl, fun hnot => absurd hnot hto⟩, fun hnot => absurd hnot hto⟩

/-- It is gone after the wait, whether it has expired or not. -/
theorem disarm_settled {m₀ : TimerManager Addr Callback} (h₀ : WF m₀)
    (h : Timed m₀ call p poller.timers) :
    (poller.disarm call p).events = poller.events ∧
      Settled m₀ (poller.disarm call p).timers := by
  unfold disarm
  split_ifs with hto
  · exact ⟨rfl, (h.beside hto).release⟩
  · rw [h.without (not_not.1 hto)]
    exact ⟨rfl, .refl h₀⟩

/-- The timer does not touch the registrations. -/
@[simp]
theorem arm_events (poller : Poller Addr S F C) (call : Call S F) (wait : ℕ) (p : Addr)
    (now : UInt64) : (poller.arm call wait p now).events = poller.events := by
  unfold arm
  split_ifs <;> rfl

end Poller

namespace LockedPoller

variable [LinearOrder Addr] {poller : LockedPoller Addr S F C} {call : Call S F} {wait : ℕ}
  {p : Addr} {now : UInt64} {wake : Wake Addr} {round : Round Addr}

/-- Of the callbacks of the timers that expire with that of the wait, it alone has an effect: its
`cancelEvent`. -/
theorem expired_eq {m₀ m : TimerManager Addr Callback} {now' : UInt64}
    (hquiet : Quiet m₀) (hm : Beside m₀ p m)
    (hp : m.heap p = some (.new call.timeout (.timeout wait) false now))
    (hdue : now + call.timeout ≤ now') (events : EventPoller S F C) (readers : ℤ) (probe : Addr) :
    (m.listExpiredCb now' probe []).2.foldlM call.runCallback ⟨0, [], events, readers⟩ =
      (call.cancelEvent events readers).map fun (scheduled, events, readers) =>
        ⟨ETIMEDOUT.1, scheduled, events, readers⟩ := by
  obtain ⟨ps, qs, hcbs, hother⟩ := listExpiredCb_delivers hm.wf hp rfl hdue probe
  -- the other timers were pending before the wait
  have hquiet' : ∀ q ∈ ps ++ qs, ∀ k, m.callback q ≠ some (.timeout k) := by
    intro q hq k
    obtain ⟨hne, hmem⟩ := hother q hq
    obtain ⟨hmem₀, heq⟩ := hm.pending q hmem hne
    rw [heq]
    exact hquiet q hmem₀ k
  have hps : ∀ cb ∈ ps.map m.callback, ∀ k, cb ≠ some (.timeout k) := by
    intro cb hcb k
    obtain ⟨q, hq, rfl⟩ := List.mem_map.1 hcb
    exact hquiet' q (List.mem_append_left _ hq) k
  rw [hcbs, List.foldlM_append, foldlM_runCallback fun cb hcb => runCallback_eq (.inl (hps cb hcb))]
  change ((some (Callback.timeout wait) :: qs.map m.callback).foldlM call.runCallback
    ⟨0, [], events, readers⟩) = _
  rw [List.foldlM_cons, Call.runCallback, if_neg (not_not.2 rfl)]
  cases hcancel : call.cancelEvent events readers with
  | error stuck => rfl
  | ok result =>
    obtain ⟨scheduled, events', readers'⟩ := result
    -- the flag is set now
    exact foldlM_runCallback fun cb _ => runCallback_eq (.inr ETIMEDOUT.2)

/-- Whatever wakes a fiber that waits, it is scheduled, and its event is cleared. -/
theorem wakeUp_spec {m₀ : TimerManager Addr Callback} (hquiet : Quiet m₀)
    (hevents : Waits poller.events call.fd call.event (armedBy call.scheduler call.fiber none))
    (htimed : Poller.Timed m₀ call p poller.timers)
    (hp : call.timeout ≠ -1 → poller.timers.heap p =
      some (.new call.timeout (.timeout wait) false now))
    (hwake : wake.Possible call now) (hadmits : wake.cancels = true → -1 ≤ poller.readers) :
    ∃ scheduled poller', poller.wakeUp call 0 wake = .ok (scheduled, wake.flag, poller') ∧
      (call.scheduler, .ofFiber (some call.fiber) (-1)) ∈ scheduled ∧
      Idle poller'.events call.fd call.event ∧ Poller.Timed m₀ call p poller'.timers ∧
      poller'.readers = poller.readers - if wake.cancels then 1 else 0 := by
  obtain ⟨events', hidle, hcancel⟩ := cancelEvent_spec hevents
  cases wake with
  | ready report =>
    obtain ⟨scheduled, events, heq, hsub, hidle⟩ := hevents.dispatch hwake
    refine ⟨scheduled, ⟨⟨events, poller.timers⟩, poller.readers⟩, ?_,
      hsub (by simp [armedBy_waiter]), hidle, htimed, (sub_zero _).symm⟩
    simp only [wakeUp, heq]
    rfl
  | expired now' probe =>
    obtain ⟨hto, hdue⟩ := hwake
    have hrun := expired_eq hquiet (htimed.beside hto) (hp hto) hdue poller.events
      poller.readers probe
    rw [hcancel, if_pos (hadmits rfl)] at hrun
    refine ⟨_, ⟨⟨events', (poller.timers.listExpiredCb now' probe []).1⟩, poller.readers - 1⟩, ?_,
      List.mem_singleton_self _, hidle,
      ⟨fun hnone => absurd hnone hto, fun _ => (htimed.beside hto).listExpiredCb now' probe []⟩,
      rfl⟩
    simp only [wakeUp, hrun]
    rfl
  | cancelled =>
    refine ⟨_, ⟨⟨events', poller.timers⟩, poller.readers - 1⟩, ?_, List.mem_singleton_self _, hidle,
      htimed, rfl⟩
    simp only [wakeUp, hcancel, if_pos (hadmits rfl)]
    rfl

/-- A fiber whose `cancelEvent` does not get its hold is not woken. -/
theorem wakeUp_of_lt {m₀ : TimerManager Addr Callback} (hquiet : Quiet m₀)
    (hevents : Waits poller.events call.fd call.event (armedBy call.scheduler call.fiber none))
    (htimed : Poller.Timed m₀ call p poller.timers)
    (hp : call.timeout ≠ -1 → poller.timers.heap p =
      some (.new call.timeout (.timeout wait) false now))
    (hwake : wake.Possible call now) (hcancels : wake.cancels = true)
    (hlt : ¬ -1 ≤ poller.readers) : poller.wakeUp call 0 wake = .error .lock := by
  obtain ⟨events', -, hcancel⟩ := cancelEvent_spec hevents
  cases wake with
  | ready report => cases hcancels
  | expired now' probe =>
    obtain ⟨hto, hdue⟩ := hwake
    have hrun := expired_eq hquiet (htimed.beside hto) (hp hto) hdue poller.events
      poller.readers probe
    rw [hcancel, if_neg hlt] at hrun
    simp only [wakeUp, hrun]
    rfl
  | cancelled => simp only [wakeUp, hcancel, if_neg hlt]

variable [DecidableEq F]

/-- Outside the table of contexts, `addEvent` does not return. -/
theorem wait_of_length_le (h : poller.events.fdContexts.length ≤ call.fd) (wait cancelled : ℕ)
    (round : Round Addr) : ∃ stuck, poller.wait call wait cancelled round = .error stuck := by
  rw [LockedPoller.wait]
  cases ReadLock.addSection (poller.readers + round.before) with
  | none => exact ⟨_, rfl⟩
  | some readers =>
    refine ⟨.fault .selfDeadlock, ?_⟩
    simp only [Poller.arm_events, addEvent, List.getElem?_eq_none h]

/-- An event that is registered makes `addEvent` fail its assertion. -/
theorem wait_of_hasBit (h : poller.events.HasBit call.fd call.event) (wait cancelled : ℕ)
    (round : Round Addr) : ∃ stuck, poller.wait call wait cancelled round = .error stuck := by
  rw [LockedPoller.wait]
  cases ReadLock.addSection (poller.readers + round.before) with
  | none => exact ⟨_, rfl⟩
  | some readers =>
    refine ⟨.fault .assertion, ?_⟩
    simp only [Poller.arm_events, addEvent_of_hasBit h]

section Start

variable (h : poller.Ready call) (hp : call.timeout ≠ -1 → poller.timers.heap round.p = none)
  (hwake : round.granted = true → round.wake.Possible call round.now)
include h hp hwake

omit hwake in
/-- A wait whose `addEvent` succeeds comes to `yieldToHold`. -/
theorem wait_of_granted (hgranted : round.granted = true)
    (hadd : -1 ≤ poller.readers + round.before) (wait : ℕ) :
    ∃ registered : LockedPoller Addr S F C,
      Waits registered.events call.fd call.event (armedBy call.scheduler call.fiber none) ∧
      Poller.Timed poller.timers call round.p registered.timers ∧
      (call.timeout ≠ -1 → registered.timers.heap round.p =
        some (.new call.timeout (.timeout wait) false round.now)) ∧
      registered.readers = poller.readers + round.before + round.meanwhile ∧
      poller.wait call wait 0 round = match registered.yieldToHold call 0 round.wake with
        | .error stuck => .error stuck
        | .ok (cancelled, poller) => .ok (.resumed cancelled, poller.disarm call round.p) := by
  obtain ⟨htimed, hnew⟩ := Poller.arm_timed h.timers hp wait round.now
  have hthis : call.this.scheduler = some call.scheduler := rfl
  obtain ⟨events, hevents, hwaits⟩ := h.events.addEvent none hthis fun _ => rfl
  refine ⟨⟨⟨events, (poller.toPoller.arm call wait round.p round.now).timers⟩,
    poller.readers + round.before + round.meanwhile⟩, hwaits, htimed, hnew, rfl, ?_⟩
  simp only [LockedPoller.wait, ReadLock.addSection_eq_some.2 ⟨hadd, rfl⟩, Poller.arm_events,
    hgranted, hevents]
  rfl

/-- A wait that gets its holds ends as its round says, and leaves no timer and no registration
behind. -/
theorem wait_spec (hadmits : round.Admits poller.readers) (wait : ℕ) :
    ∃ poller', poller.wait call wait 0 round = .ok (round.ends, poller') ∧
      poller'.Ready call ∧ Settled poller.timers poller'.timers ∧
      poller'.readers = round.leaves poller.readers := by
  obtain ⟨hadd, hcancel⟩ := hadmits
  cases hgranted : round.granted with
  | true =>
    -- the wake-up clears the event, and `timer->cancel()` the timer, unless it has been delivered
    obtain ⟨registered, hwaits, htimed, hnew, hreaders, heq⟩ :=
      wait_of_granted h hp hgranted hadd wait
    have hcancel' : round.wake.cancels = true → -1 ≤ registered.readers := fun hcancels => by
      rw [hreaders]
      exact hcancel hgranted hcancels
    obtain ⟨scheduled, woken, hwoken, hmem, hidle, htimed', hreaders'⟩ :=
      wakeUp_spec h.quiet hwaits htimed hnew (hwake hgranted) hcancel'
    obtain ⟨hevents, hsettled⟩ := Poller.disarm_settled h.timers htimed'
    have hany : scheduled.any (·.2.fiber = some call.fiber) = true :=
      List.any_eq_true.2 ⟨_, hmem, decide_eq_true rfl⟩
    refine ⟨woken.disarm call round.p, ?_,
      ⟨hevents ▸ hidle, hsettled.wf, h.quiet.settled hsettled⟩, hsettled, ?_⟩
    · simp only [heq, yieldToHold, hwoken, hany, if_true, Round.ends, hgranted]
    · rw [Round.leaves, if_pos hgranted, ← hreaders, ← hreaders']
      rfl
  | false =>
    -- `addEvent` has failed, and only the timer is there to be cancelled
    obtain ⟨htimed, -⟩ := Poller.arm_timed h.timers hp wait round.now
    obtain ⟨hevents, hsettled⟩ := Poller.disarm_settled h.timers htimed
    have hidle : Idle ((poller.toPoller.arm call wait round.p round.now).disarm call
        round.p).events call.fd call.event := by
      rw [hevents, Poller.arm_events]
      exact h.events
    refine ⟨LockedPoller.disarm ⟨poller.toPoller.arm call wait round.p round.now,
      poller.readers + round.before⟩ call round.p, ?_,
      ⟨hidle, hsettled.wf, h.quiet.settled hsettled⟩, hsettled, ?_⟩
    · simp only [LockedPoller.wait, ReadLock.addSection_eq_some.2 ⟨hadd, rfl⟩, Poller.arm_events,
        hgranted, h.events.addEvent_refused none call.this, Round.ends]
      rw [if_pos (by decide), ← Poller.arm_events poller.toPoller call wait round.p round.now]
      rfl
    · rw [Round.leaves, hgranted]
      rfl

/-- No other wait ends. -/
theorem wait_of_not_admits (hnot : ¬ round.Admits poller.readers) (wait : ℕ) :
    poller.wait call wait 0 round = .error .lock := by
  by_cases hadd : -1 ≤ poller.readers + round.before
  · -- `addEvent` has got its hold, and `cancelEvent` does not
    simp only [Round.Admits, hadd, true_and, Classical.not_imp] at hnot
    obtain ⟨hgranted, hcancels, hlt⟩ := hnot
    obtain ⟨registered, hwaits, htimed, hnew, hreaders, heq⟩ :=
      wait_of_granted h hp hgranted hadd wait
    rw [← hreaders] at hlt
    have hstuck := wakeUp_of_lt h.quiet hwaits htimed hnew (hwake hgranted) hcancels hlt
    simp only [heq, yieldToHold, hstuck]
  · have hsection : ReadLock.addSection (poller.readers + round.before) = none :=
      Option.eq_none_iff_forall_ne_some.2 fun _ heq => hadd (ReadLock.addSection_eq_some.1 heq).1
    rw [LockedPoller.wait, hsection]

end Start

end LockedPoller

end Sylar.Hook
