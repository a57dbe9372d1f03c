import Sylar.Foundation.Run
import Sylar.Hook.Waits

/-!
# Timeouts of `do_io` in flight

A call of `do_io` is interleaved with everything else that happens to its poller: dispatched events
and other operations on the registrations, timers of others, and `listExpiredCb`, which moves the
callbacks of expired timers into the run queue. A callback is executed later, in three steps: the
test of `timer_info`, the assignment to `cancelled`, and `cancelEvent`. `timer->cancel()` does not
reach a callback that is in the run queue, and all waits of a call share one `timer_info`.

* `TimeoutLaw` — a call that returns because of `cancelled` does so for its latest wait, whose own
  timer had reached its deadline;
* `Fresh` — a callback that sets `cancelled` while the call goes on is that of the wait the call is
  in, and no deadline overflows;
* `timeout_law` — in every run of steps that are `Fresh`, the law holds in every state reached.
-/

namespace Sylar.Hook

open EventPoller TimerManager Transition

/-! ## The system -/

/-- What `do_io` does next. -/
inductive IoPhase
  /-- It calls the wrapped function. -/
  | calling
  /-- It adds the timer, after `EAGAIN`. -/
  | arming
  /-- It calls `addEvent`. -/
  | adding
  /-- It returns from `yieldToHold`. -/
  | waiting
  /-- It cancels the timer, after the wait. -/
  | resumed
  /-- It looks at `cancelled`. -/
  | checking
  /-- It cancels the timer and returns, since `addEvent` has failed. -/
  | refused
  /-- It has returned this result. -/
  | returned (ret : SysResult)
  /-- It has returned -1 with `ETIMEDOUT`, which the callback of this wait had put into
  `cancelled`. -/
  | timedOut (wait : ℕ)
  deriving DecidableEq, Repr

/-- The call has returned. -/
def IoPhase.ended : IoPhase → Bool
  | .returned _ => true
  | .timedOut _ => true
  | _ => false

/-- A call of `do_io` and its poller. -/
structure IoState (Addr S F C : Type*) where
  phase : IoPhase
  /-- The number of the wait the call is in, or will be in next. -/
  wait : ℕ
  /-- `cancelled`: if it is not 0, it is `ETIMEDOUT`, and the callback of this wait has set it. -/
  cancelled : Option ℕ
  timer : Option Addr
  /-- The callbacks of the call in the run queue, those that have tested `timer_info`, and those
  that have set `cancelled`. -/
  queue : List ℕ
  tested : List ℕ
  cancelling : List ℕ
  /-- The fibers that have been scheduled. -/
  ready : List F
  poller : Poller Addr S F C

/-- The steps of the call, of its callbacks, and of others. -/
inductive IoAction
  | call (n : SysResult)
  | arm (wait : ℕ) (now : UInt64)
  | addEvent
  | resume
  | cancel
  | check
  | expire (now : UInt64) (delivered : List ℕ)
  | test (wait : ℕ)
  | set (wait : ℕ)
  | cancelEvent (wait : ℕ)
  | other
  deriving DecidableEq, Repr

/-- The wait that a callback belongs to, if it is one of the call. -/
def Callback.wait : Option Callback → Option ℕ
  | some (.timeout wait) => some wait
  | some .other => none
  | none => none

theorem Callback.wait_eq_some {cb : Option Callback} {k : ℕ} :
    Callback.wait cb = some k ↔ cb = some (.timeout k) := by
  cases cb with
  | none => simp [Callback.wait]
  | some cb => cases cb <;> simp [Callback.wait]

variable {Addr S F C : Type*} [LinearOrder Addr]

/-- An operation of others on the registrations, with the entries it schedules. -/
inductive EventsStep (ep : EventPoller S F C) :
    List (Waiter S F C) → EventPoller S F C → Prop
  | addEvent {fd : ℕ} {event : Event} {cb : Option C} {this : Caller S F} {granted : Bool} {ret : ℤ}
      {ep' : EventPoller S F C} (h : ep.addEvent fd event cb this granted = .ok (ret, ep')) :
      EventsStep ep [] ep'
  | delEvent {fd : ℕ} {event : Event} {granted ret : Bool} {ep' : EventPoller S F C}
      (h : ep.delEvent fd event granted = (ret, ep')) : EventsStep ep [] ep'
  | cancelEvent {fd : ℕ} {event : Event} {granted ret : Bool} {scheduled : List (Waiter S F C)}
      {ep' : EventPoller S F C} (h : ep.cancelEvent fd event granted = .ok (ret, scheduled, ep')) :
      EventsStep ep scheduled ep'
  | cancelAll {fd : ℕ} {granted ret : Bool} {scheduled : List (Waiter S F C)}
      {ep' : EventPoller S F C} (h : ep.cancelAll fd granted = .ok (ret, scheduled, ep')) :
      EventsStep ep scheduled ep'
  | dispatch {fd : ℕ} {event_events : Mask} {granted : Bool} {scheduled : List (Waiter S F C)}
      {ep' : EventPoller S F C} (h : ep.dispatch fd event_events granted = .ok (scheduled, ep')) :
      EventsStep ep scheduled ep'

/-- The timers of others. -/
inductive TimersStep (m : TimerManager Addr Callback) : TimerManager Addr Callback → Prop
  | addTimer {p : Addr} (hfree : m.heap p = none) (ms : UInt64) (recurring : Bool) (now : UInt64) :
      TimersStep m (m.addTimer p ms .other recurring now).2
  | cancel {p : Addr} (hlive : m.Live p) : TimersStep m (m.cancel p).2

namespace IoState

/-- The call starts. -/
def start (poller : Poller Addr S F C) : IoState Addr S F C where
  phase := .calling
  wait := 0
  cancelled := none
  timer := none
  queue := []
  tested := []
  cancelling := []
  ready := []
  poller := poller

/-- `winfo.lock()` succeeds: the call or another callback holds the `timer_info`. -/
def alive (s : IoState Addr S F C) : Bool :=
  !s.phase.ended || !s.tested.isEmpty || !s.cancelling.isEmpty

/-- The registrations after an operation that has scheduled these entries. -/
def setEvents (s : IoState Addr S F C) (scheduled : List (Waiter S F C))
    (events : EventPoller S F C) : IoState Addr S F C :=
  { s with
    ready := s.ready ++ scheduled.filterMap (·.2.fiber)
    poller := { s.poller with events := events } }

/-- Other timers. -/
def setTimers (s : IoState Addr S F C) (timers : TimerManager Addr Callback) :
    IoState Addr S F C :=
  { s with poller := { s.poller with timers := timers } }

end IoState

/-- A step of the call, of one of its callbacks, or of others. -/
inductive IoStep [DecidableEq F] (call : Call S F) (s : IoState Addr S F C) :
    IoAction → IoState Addr S F C → Prop
  | interrupted (h : s.phase = .calling) : IoStep call s (.call (.fails EINTR)) s
  | again (h : s.phase = .calling) :
      IoStep call s (.call (.fails EAGAIN)) { s with phase := .arming }
  | result (h : s.phase = .calling) {n : SysResult} (hintr : n ≠ .fails EINTR)
      (hagain : n ≠ .fails EAGAIN) : IoStep call s (.call n) { s with phase := .returned n }
  | arm (h : s.phase = .arming) {p : Addr} (hfree : s.poller.timers.heap p = none) (now : UInt64) :
      IoStep call s (.arm s.wait now)
        { s with phase := .adding, timer := some p, poller := s.poller.arm call s.wait p now }
  | addEvent (h : s.phase = .adding) {granted : Bool} {events : EventPoller S F C}
      (hadd : s.poller.events.addEvent call.fd call.event none call.this granted =
        .ok (0, events)) :
      IoStep call s .addEvent
        { s with phase := .waiting, poller := { s.poller with events := events } }
  | refused (h : s.phase = .adding) {granted : Bool} {rt : ℤ} {events : EventPoller S F C}
      (hrt : rt ≠ 0) (hadd : s.poller.events.addEvent call.fd call.event none call.this granted =
        .ok (rt, events)) :
      IoStep call s .addEvent
        { s with phase := .refused, poller := { s.poller with events := events } }
  | resume (h : s.phase = .waiting) (hready : call.fiber ∈ s.ready) :
      IoStep call s .resume { s with phase := .resumed, ready := s.ready.erase call.fiber }
  | cancel (h : s.phase = .resumed) {p : Addr} (htimer : s.timer = some p) :
      IoStep call s .cancel
        { s with phase := .checking, timer := none, poller := s.poller.disarm call p }
  | fail (h : s.phase = .refused) {p : Addr} (htimer : s.timer = some p) (errno : Errno) :
      -- `errno` is what `epoll_ctl` has left in it
      IoStep call s .cancel
        { s with
          phase := .returned (.fails errno), timer := none, poller := s.poller.disarm call p }
  | retry (h : s.phase = .checking) (hflag : s.cancelled = none) :
      -- `goto retry`, with the same `tinfo`
      IoStep call s .check { s with phase := .calling, wait := s.wait + 1 }
  | timeOut (h : s.phase = .checking) {k : ℕ} (hflag : s.cancelled = some k) :
      IoStep call s .check { s with phase := .timedOut k }
  | expire {now : UInt64} {probe : Addr} {timers : TimerManager Addr Callback}
      {cbs : List (Option Callback)} {delivered : List ℕ}
      (h : s.poller.timers.listExpiredCb now probe [] = (timers, cbs))
      (hdelivered : delivered = cbs.filterMap Callback.wait) :
      IoStep call s (.expire now delivered)
        { s.setTimers timers with queue := s.queue ++ delivered }
  | test {k : ℕ} (hqueue : k ∈ s.queue) :
      -- `if(!t || t->cancelled) return;`
      IoStep call s (.test k)
        { s with
          queue := s.queue.erase k
          tested := if s.alive && s.cancelled.isNone then k :: s.tested else s.tested }
  | set {k : ℕ} (htested : k ∈ s.tested) :
      -- `t->cancelled = ETIMEDOUT`, which `t` keeps alive until `cancelEvent` is done
      IoStep call s (.set k)
        { s with
          cancelled := some k, tested := s.tested.erase k, cancelling := k :: s.cancelling }
  | cancelEvent {k : ℕ} (hcancelling : k ∈ s.cancelling) {granted ret : Bool}
      {scheduled : List (Waiter S F C)} {events : EventPoller S F C}
      (hcancel : s.poller.events.cancelEvent call.fd call.event granted =
        .ok (ret, scheduled, events)) :
      IoStep call s (.cancelEvent k)
        { s.setEvents scheduled events with cancelling := s.cancelling.erase k }
  | events {scheduled : List (Waiter S F C)} {events : EventPoller S F C}
      (h : EventsStep s.poller.events scheduled events) :
      IoStep call s .other (s.setEvents scheduled events)
  | timers {timers : TimerManager Addr Callback} (h : TimersStep s.poller.timers timers) :
      IoStep call s .other (s.setTimers timers)

/-! ## The law -/

section Law

variable (call : Call S F) (as : List IoAction)

/-- The timer of wait `k` has been added and delivered, and between the two clock readings lies at
least the timeout. -/
def Expired (k : ℕ) : Prop :=
  ∃ now now' delivered, .arm k now ∈ as ∧ .expire now' delivered ∈ as ∧ k ∈ delivered ∧
    now.toNat + call.timeout.toNat ≤ now'.toNat

/-- A call that has returned because `cancelled` was set was in the wait whose callback has set it,
and whose timer had expired. -/
def TimeoutLaw (s : IoState Addr S F C) : Prop :=
  ∀ k, s.phase = .timedOut k → k = s.wait ∧ Expired call as k

/-- A callback that sets `cancelled` while the call goes on is that of the wait the call is in; a
deadline does not exceed 64 bits. -/
def Fresh (s : IoState Addr S F C) : IoAction → Prop
  | .set k => s.phase.ended = false → k = s.wait
  | .arm _ now => call.timeout ≠ -1 → now.toNat + call.timeout.toNat < 2 ^ 64
  | _ => True

end Law

/-! ## What the state knows about the steps so far -/

section Invariant

variable {call : Call S F} {as : List IoAction} {a : IoAction} {s s' : IoState Addr S F C}
  {m : TimerManager Addr Callback} {k : ℕ} {next : UInt64}

/-- A timer of wait `k` with this deadline has been added. -/
def Armed (call : Call S F) (as : List IoAction) (k : ℕ) (next : UInt64) : Prop :=
  ∃ now, .arm k now ∈ as ∧ next = now + call.timeout ∧
    now.toNat + call.timeout.toNat < 2 ^ 64

/-- The timers of the call that have not been delivered or cancelled have been added by it. -/
structure TimersInv (call : Call S F) (as : List IoAction) (m : TimerManager Addr Callback) :
    Prop where
  wf : WF m
  armed : ∀ p t k, m.heap p = some t → t.cb = some (.timeout k) →
    t.recurring = false ∧ Armed call as k t.next

/-- What holds between any two steps: a callback in the run queue, or past the test, has expired,
and while the call goes on, the flag is that of the wait it is in. -/
structure IoInv (call : Call S F) (as : List IoAction) (s : IoState Addr S F C) : Prop where
  timers : TimersInv call as s.poller.timers
  live : ∀ p, call.timeout ≠ -1 → s.timer = some p → s.poller.timers.Live p
  queue : ∀ k ∈ s.queue, Expired call as k
  tested : ∀ k ∈ s.tested, Expired call as k
  cancelled : ∀ k, s.phase.ended = false → s.cancelled = some k → k = s.wait ∧ Expired call as k
  timedOut : TimeoutLaw call as s

theorem Expired.append (h : Expired call as k) (a : IoAction) : Expired call (as ++ [a]) k := by
  obtain ⟨now, now', delivered, harm, hexpire, hk⟩ := h
  exact ⟨now, now', delivered, List.mem_append_left _ harm, List.mem_append_left _ hexpire, hk⟩

theorem Armed.append (h : Armed call as k next) (a : IoAction) :
    Armed call (as ++ [a]) k next := by
  obtain ⟨now, harm, hnext⟩ := h
  exact ⟨now, List.mem_append_left _ harm, hnext⟩

/-! ### Timers -/

namespace TimersInv

theorem append (h : TimersInv call as m) (a : IoAction) : TimersInv call (as ++ [a]) m where
  wf := h.wf
  armed := fun p t k hp hcb => ⟨(h.armed p t k hp hcb).1, (h.armed p t k hp hcb).2.append a⟩

/-- No timer of the call has been added or changed. -/
theorem of_subset {m' : TimerManager Addr Callback} (h : TimersInv call as m) (hwf : WF m')
    (hheap : ∀ p t k, m'.heap p = some t → t.cb = some (.timeout k) → m.heap p = some t) :
    TimersInv call as m' where
  wf := hwf
  armed := fun p t k hp hcb => h.armed p t k (hheap p t k hp hcb) hcb

/-- One timer has been stored. -/
theorem set {m' : TimerManager Addr Callback} {p : Addr} {t : Timer Callback}
    (h : TimersInv call as m) (hwf : WF m') (hheap : m'.heap = (m.set p t).heap)
    (ht : ∀ k, t.cb = some (.timeout k) → t.recurring = false ∧ Armed call as k t.next) :
    TimersInv call as m' where
  wf := hwf
  armed := by
    intro q u k hq hcb
    rw [hheap] at hq
    by_cases hne : q = p
    · rw [hne, set_heap_self] at hq
      obtain rfl := Option.some_inj.1 hq
      exact ht k hcb
    · rw [set_heap_of_ne _ hne] at hq
      exact h.armed q u k hq hcb

theorem arm {poller : Poller Addr S F C} {p : Addr} {now : UInt64}
    (h : TimersInv call as poller.timers) (hp : poller.timers.heap p = none) (wait : ℕ)
    (hnow : call.timeout ≠ -1 → now.toNat + call.timeout.toNat < 2 ^ 64) :
    TimersInv call (as ++ [.arm wait now]) (poller.arm call wait p now).timers ∧
      (call.timeout ≠ -1 → (poller.arm call wait p now).timers.Live p) := by
  unfold Poller.arm
  split_ifs with hto
  · obtain ⟨hwf, hheap, -⟩ := addTimer_spec h.wf hp call.timeout (.timeout wait) false now
    refine ⟨(h.append _).set hwf hheap fun k hcb => ?_,
      fun _ => live_of_heap_set hheap (Or.inl rfl)⟩
    obtain rfl : wait = k := by simpa [Timer.new] using hcb
    exact ⟨rfl, now, by simp, rfl, hnow hto⟩
  · exact ⟨h.append _, fun hnot => absurd hnot hto⟩

theorem disarm {poller : Poller Addr S F C} {p : Addr} (h : TimersInv call as poller.timers)
    (hp : call.timeout ≠ -1 → poller.timers.Live p) :
    TimersInv call as (poller.disarm call p).timers := by
  unfold Poller.disarm
  split_ifs with hto
  · obtain ⟨hwf, hheap, -⟩ := cancel_release h.wf (hp hto)
    refine h.of_subset hwf fun q t k hq _ => ?_
    rw [hheap] at hq
    by_cases hne : q = p
    · rw [hne, Function.update_self] at hq
      cases hq
    · rwa [Function.update_of_ne hne] at hq
  · exact h

/-- `listExpiredCb` delivers callbacks of the call only at or after their deadlines. -/
theorem expire (h : TimersInv call as m) {now : UInt64} {probe : Addr}
    {timers : TimerManager Addr Callback} {cbs : List (Option Callback)}
    (heq : m.listExpiredCb now probe [] = (timers, cbs)) :
    TimersInv call (as ++ [.expire now (cbs.filterMap Callback.wait)]) timers ∧
      (∀ p, m.Live p → timers.Live p) ∧
      ∀ k ∈ cbs.filterMap Callback.wait,
        Expired call (as ++ [.expire now (cbs.filterMap Callback.wait)]) k := by
  obtain ⟨m', hspec, hwf, hheap⟩ := listExpiredCb_spec h.wf now probe []
  obtain ⟨rfl, rfl⟩ := Prod.mk.inj (heq.symm.trans hspec)
  obtain ⟨-, -, hnone⟩ := listExpiredCb_pending h.wf now probe []
  rw [heq] at hnone
  refine ⟨(h.append _).of_subset hwf fun p t k hp hcb => ?_, fun p hp => ?_, fun k hk => ?_⟩
  · rw [hheap] at hp
    split_ifs at hp with hdue
    · -- a one-shot timer has lost its callback
      obtain ⟨t₀, ht₀, rfl⟩ := Option.map_eq_some_iff.1 hp
      unfold Timer.delivered at hcb
      split_ifs at hcb with hrec
      have hone := (h.armed p t₀ k ht₀ hcb).1
      rw [hrec] at hone
      cases hone
    · exact hp
  · rw [Live, Option.isSome_iff_ne_none, Ne, hnone p]
    exact Option.isSome_iff_ne_none.1 hp
  · obtain ⟨cb, hcb, hwait⟩ := List.mem_filterMap.1 hk
    obtain ⟨p, hp, rfl⟩ := List.mem_map.1 hcb
    obtain ⟨-, hdue⟩ := List.mem_filter.1 hp
    cases ht : m.heap p with
    | none => simp [due, ht] at hdue
    | some t =>
      have hcbt : t.cb = some (.timeout k) := by
        rwa [Callback.wait_eq_some, TimerManager.callback, ht, Option.bind_some] at hwait
      obtain ⟨-, now₀, harm, hnext, hsmall⟩ := h.armed p t k ht hcbt
      have hle : now₀ + call.timeout ≤ now := by
        simpa [due, ht, hnext] using hdue
      refine ⟨now₀, now, _, List.mem_append_left _ harm, by simp, hk, ?_⟩
      rw [UInt64.le_iff_toNat_le, UInt64.toNat_add, Nat.mod_eq_of_lt hsmall] at hle
      exact hle

/-- Others add and cancel timers. -/
theorem others {m' : TimerManager Addr Callback} (h : TimersInv call as m)
    (hstep : TimersStep m m') : TimersInv call as m' ∧ ∀ p, m.Live p → m'.Live p := by
  cases hstep with
  | addTimer hfree ms recurring now =>
    obtain ⟨hwf, hheap, -⟩ := addTimer_spec h.wf hfree ms .other recurring now
    refine ⟨h.set hwf hheap fun k hcb => ?_, fun q hq => live_of_heap_set hheap (Or.inr hq)⟩
    cases hcb
  | @cancel p hlive =>
    obtain ⟨t, ht⟩ := Option.isSome_iff_exists.1 hlive
    by_cases hcb : t.cb.isSome = true
    · have hheap : (m.cancel p).2.heap = (m.set p { t with cb := none }).heap := by
        rw [cancel_of_some h.wf ht hcb]
      refine ⟨h.set (cancel_wf h.wf hlive) hheap fun k hk => ?_,
        fun q hq => live_of_heap_set hheap (Or.inr hq)⟩
      cases hk
    · rw [cancel_of_none ht (by simpa using hcb)]
      exact ⟨h, fun _ hq => hq⟩

end TimersInv

/-! ### The call -/

namespace IoInv

theorem append (h : IoInv call as s) (a : IoAction) : IoInv call (as ++ [a]) s where
  timers := h.timers.append a
  live := h.live
  queue := fun k hk => (h.queue k hk).append a
  tested := fun k hk => (h.tested k hk).append a
  cancelled := fun k hrun hk => ⟨(h.cancelled k hrun hk).1, (h.cancelled k hrun hk).2.append a⟩
  timedOut := fun k hk => ⟨(h.timedOut k hk).1, (h.timedOut k hk).2.append a⟩

/-- The call, which has not returned, goes on. -/
theorem advance (h : IoInv call as s) (hrun : s.phase.ended = false) {phase : IoPhase}
    (hphase : ∀ k, phase ≠ .timedOut k) (ready : List F) (events : EventPoller S F C) :
    IoInv call as
      { s with phase := phase, ready := ready, poller := { s.poller with events := events } } where
  timers := h.timers
  live := h.live
  queue := h.queue
  tested := h.tested
  cancelled := fun k _ hk => h.cancelled k hrun hk
  timedOut := fun k hk => absurd hk (hphase k)

theorem setEvents (h : IoInv call as s) (scheduled : List (Waiter S F C))
    (events : EventPoller S F C) : IoInv call as (s.setEvents scheduled events) where
  timers := h.timers
  live := h.live
  queue := h.queue
  tested := h.tested
  cancelled := h.cancelled
  timedOut := h.timedOut

theorem setTimers (h : IoInv call as s) {timers : TimerManager Addr Callback}
    (htimers : TimersInv call as timers) (hlive : ∀ p, s.poller.timers.Live p → timers.Live p) :
    IoInv call as (s.setTimers timers) where
  timers := htimers
  live := fun p hto hp => hlive p (h.live p hto hp)
  queue := h.queue
  tested := h.tested
  cancelled := h.cancelled
  timedOut := h.timedOut

/-- The timer has been cancelled and released. -/
theorem disarm (h : IoInv call as s) {p : Addr} (hp : s.timer = some p) :
    IoInv call as { s with timer := none, poller := s.poller.disarm call p } where
  timers := h.timers.disarm fun hto => h.live p hto hp
  live := fun q _ hq => by cases hq
  queue := h.queue
  tested := h.tested
  cancelled := h.cancelled
  timedOut := h.timedOut

/-- A step in which a callback that sets `cancelled` is that of the wait the call is in. -/
theorem step [DecidableEq F] (h : IoInv call as s) (hfresh : Fresh call s a)
    (hstep : IoStep call s a s') : IoInv call (as ++ [a]) s' := by
  have h' := h.append a
  -- what a phase says about the call
  have hrun : ∀ {phase : IoPhase}, s.phase = phase → phase.ended = false →
      s.phase.ended = false := fun hphase hended => hphase ▸ hended
  cases hstep with
  | interrupted hphase => exact h'
  | again hphase => exact h'.advance (hrun hphase rfl) (by simp) s.ready s.poller.events
  | result hphase hintr hagain =>
    exact h'.advance (hrun hphase rfl) (by simp) s.ready s.poller.events
  | @arm hphase p hfree now =>
    -- the new timer is of the wait the call is in, and its deadline does not wrap
    obtain ⟨htimers, hlive⟩ := h.timers.arm hfree s.wait hfresh
    refine ⟨htimers, fun q hto hq => ?_, h'.queue, h'.tested,
      fun k _ hk => h'.cancelled k (hrun hphase rfl) hk, fun k hk => ?_⟩
    · obtain rfl : p = q := Option.some_inj.1 hq
      exact hlive hto
    · cases hk
  | @addEvent hphase granted events hadd =>
    exact h'.advance (hrun hphase rfl) (by simp) s.ready events
  | @refused hphase granted rt events hrt hadd =>
    exact h'.advance (hrun hphase rfl) (by simp) s.ready events
  | resume hphase hready => exact h'.advance (hrun hphase rfl) (by simp) _ s.poller.events
  | @cancel hphase p htimer =>
    exact (h'.disarm htimer).advance (hrun hphase rfl) (by simp) s.ready
      (s.poller.disarm call p).events
  | @fail hphase p htimer errno =>
    exact (h'.disarm htimer).advance (hrun hphase rfl) (by simp) s.ready
      (s.poller.disarm call p).events
  | retry hphase hflag =>
    refine ⟨h'.timers, h'.live, h'.queue, h'.tested, fun k _ hk => ?_, fun k hk => by cases hk⟩
    -- the call goes on only if the flag is not set
    rw [show s.cancelled = some k from hk] at hflag
    cases hflag
  | @timeOut hphase k hflag =>
    -- here the invariant about the flag becomes the law
    have hwait := h'.cancelled k (hrun hphase rfl) hflag
    refine ⟨h'.timers, h'.live, h'.queue, h'.tested, fun k' hrun => ?_, fun k' hk' => ?_⟩
    · cases hrun
    · cases hk'
      exact hwait
  | @expire now probe timers cbs delivered heq hdelivered =>
    subst hdelivered
    obtain ⟨htimers, hlive, hexpired⟩ := h.timers.expire heq
    have hnext := h'.setTimers htimers hlive
    refine ⟨htimers, hnext.live, fun k hk => ?_, h'.tested, h'.cancelled, h'.timedOut⟩
    rcases List.mem_append.1 hk with hk | hk
    · exact h'.queue k hk
    · exact hexpired k hk
  | @test k hqueue =>
    refine ⟨h'.timers, h'.live, fun k' hk' => h'.queue k' (List.mem_of_mem_erase hk'),
      fun k' hk' => ?_, h'.cancelled, h'.timedOut⟩
    split_ifs at hk'
    · rcases List.mem_cons.1 hk' with rfl | hk'
      · exact h'.queue _ hqueue
      · exact h'.tested k' hk'
    · exact h'.tested k' hk'
  | @set k htested =>
    refine ⟨h'.timers, h'.live, h'.queue, fun k' hk' => h'.tested k' (List.mem_of_mem_erase hk'),
      fun k' hrun hk' => ?_, h'.timedOut⟩
    -- the only step that could bring in the callback of an earlier wait
    obtain rfl : k = k' := Option.some_inj.1 hk'
    exact ⟨hfresh hrun, h'.tested k htested⟩
  | @cancelEvent k hcancelling granted ret scheduled events hcancel =>
    have hnext := h'.setEvents scheduled events
    exact ⟨hnext.timers, hnext.live, hnext.queue, hnext.tested, hnext.cancelled, hnext.timedOut⟩
  | events hev => exact h'.setEvents _ _
  | timers htimers =>
    obtain ⟨hinv, hlive⟩ := h'.timers.others htimers
    exact h'.setTimers hinv hlive

theorem start {poller : Poller Addr S F C} (hwf : WF poller.timers)
    (hnone : ∀ p t k, poller.timers.heap p = some t → t.cb ≠ some (.timeout k)) :
    IoInv call [] (IoState.start poller) where
  timers := ⟨hwf, fun p t k hp hcb => absurd hcb (hnone p t k hp)⟩
  live := fun p _ hp => by cases hp
  queue := fun k hk => by cases hk
  tested := fun k hk => by cases hk
  cancelled := fun k _ hk => by cases hk
  timedOut := fun k hk => by cases hk

end IoInv

end Invariant

/-- In every state that a call reaches, from any poller without timers of the call, by steps in
which no callback of an earlier wait sets `cancelled`, the law holds. -/
theorem timeout_law [DecidableEq F] {call : Call S F} {poller : Poller Addr S F C}
    (hwf : WF poller.timers)
    (hnone : ∀ p t k, poller.timers.heap p = some t → t.cb ≠ some (.timeout k))
    {as : List IoAction} {s : IoState Addr S F C}
    (hrun : Run (Guarded (Fresh call) (IoStep call)) (.start poller) as s) :
    TimeoutLaw call as s := by
  have hinv : IoInv call as s := hrun.history (.start hwf hnone)
    fun _ _ _ _ h hst => h.step hst.1 hst.2
  exact hinv.timedOut

/-! ## Runs -/

/-- A call that gets `EAGAIN` waits. -/
theorem run_waiting [DecidableEq F] (call : Call S F) (s : IoState Addr S F C) (p : Addr)
    (now : UInt64) (hphase : s.phase = .calling) (hidle : Idle s.poller.events call.fd call.event)
    (hp : s.poller.timers.heap p = none)
    (hnow : call.timeout ≠ -1 → now.toNat + call.timeout.toNat < 2 ^ 64) :
    ∃ events, Run (Guarded (Fresh call) (IoStep call)) s
        [.call (.fails EAGAIN), .arm s.wait now, .addEvent]
        { s with
          phase := .waiting, timer := some p
          poller := ⟨events, (s.poller.arm call s.wait p now).timers⟩ } ∧
      Waits events call.fd call.event (armedBy call.scheduler call.fiber none) := by
  have hthis : call.this.scheduler = some call.scheduler := rfl
  obtain ⟨events, hadd, hwaits⟩ := hidle.addEvent none hthis fun _ => rfl
  rw [← Poller.arm_events s.poller call s.wait p now] at hadd
  have hagain : IoStep call s (.call (.fails EAGAIN)) { s with phase := .arming } := .again hphase
  have harm : IoStep call { s with phase := .arming } (.arm s.wait now)
      { s with phase := .adding, timer := some p, poller := s.poller.arm call s.wait p now } :=
    IoStep.arm (s := { s with phase := .arming }) rfl hp now
  have hwait : IoStep call
      { s with phase := .adding, timer := some p, poller := s.poller.arm call s.wait p now }
      .addEvent
      { s with
        phase := .waiting, timer := some p
        poller := ⟨events, (s.poller.arm call s.wait p now).timers⟩ } := .addEvent rfl hadd
  exact ⟨events, .cons ⟨trivial, hagain⟩ (.cons ⟨hnow, harm⟩ (.single ⟨trivial, hwait⟩)), hwaits⟩

/-- Receiving on a socket, with a timeout of one second. -/
def receiving : Call Unit ℕ where
  fd := 5
  event := .READ
  timeout := 1000
  scheduler := ()
  fiber := 7

/-- The timers of the first wait, before and after the expiry of its own. -/
def oneTimer : TimerManager ℕ Callback :=
  (TimerManager.new.addTimer 0 1000 (.timeout 0) false 10).2

def oneExpired : TimerManager ℕ Callback := (oneTimer.listExpiredCb 1010 1 []).1

/-- In the first wait the timer expires, which puts its callback into the run queue. -/
theorem run_expired : ∃ events : EventPoller Unit ℕ Unit,
    Run (Guarded (Fresh receiving) (IoStep receiving)) (.start ⟨.new 32, .new⟩)
      [.call (.fails EAGAIN), .arm 0 10, .addEvent, .expire 1010 [0]]
      ⟨.waiting, 0, none, some 0, [0], [], [], [], ⟨events, oneExpired⟩⟩ ∧
    Waits events receiving.fd receiving.event (armedBy () 7 none) := by
  have hidle : Idle (EventPoller.new 32 : EventPoller Unit ℕ Unit) 5 .READ :=
    (EventPoller.wf_new 32).idle (by simp [EventPoller.new]) (not_hasBit_new 32 5 .READ)
  obtain ⟨events, hrun, hwaits⟩ :=
    run_waiting receiving (.start ⟨.new 32, .new⟩) 0 10 rfl hidle rfl fun _ => by decide
  have hexpired : oneTimer.listExpiredCb 1010 1 [] = (oneExpired, [some (.timeout 0)]) := rfl
  exact ⟨events, hrun.snoc ⟨trivial, .expire hexpired rfl⟩, hwaits⟩

/-- The callback of wait 0 ends wait `k`. -/
theorem run_timedOut {G : IoState ℕ Unit ℕ Unit → IoAction → Prop} (k : ℕ)
    (hG : ∀ s, s.wait = k →
      ∀ a ∈ [IoAction.test 0, .set 0, .cancelEvent 0, .resume, .cancel, .check], G s a)
    {events : EventPoller Unit ℕ Unit}
    (hwaits : Waits events receiving.fd receiving.event (armedBy () 7 none))
    (timers : TimerManager ℕ Callback) (ready : List ℕ) : ∃ poller' ready',
    Run (Guarded G (IoStep receiving))
      ⟨.waiting, k, none, some 0, [0], [], [], ready, ⟨events, timers⟩⟩
      [.test 0, .set 0, .cancelEvent 0, .resume, .cancel, .check]
      ⟨.timedOut 0, k, some 0, none, [], [], [], ready', poller'⟩ := by
  obtain ⟨events', hcancel, -⟩ := hwaits.cancelEvent
  have htest : IoStep receiving ⟨.waiting, k, none, some 0, [0], [], [], ready, ⟨events, timers⟩⟩
      (.test 0) _ := .test (List.mem_singleton_self 0)
  have hset : IoStep receiving ⟨.waiting, k, none, some 0, [], [0], [], ready, ⟨events, timers⟩⟩
      (.set 0) _ := .set (List.mem_singleton_self 0)
  have hcancelEvent : IoStep receiving
      ⟨.waiting, k, some 0, some 0, [], [], [0], ready, ⟨events, timers⟩⟩ (.cancelEvent 0) _ :=
    .cancelEvent (List.mem_singleton_self 0) hcancel
  have hresume : IoStep receiving
      ⟨.waiting, k, some 0, some 0, [], [], [], ready ++ [7], ⟨events', timers⟩⟩ .resume _ :=
    .resume rfl (List.mem_append_right ready (List.mem_singleton_self 7))
  have hdisarm : IoStep receiving
      ⟨.resumed, k, some 0, some 0, [], [], [], (ready ++ [7]).erase 7, ⟨events', timers⟩⟩
      .cancel _ := .cancel rfl rfl
  have hcheck : IoStep receiving
      ⟨.checking, k, some 0, none, [], [], [], (ready ++ [7]).erase 7,
        Poller.disarm ⟨events', timers⟩ receiving 0⟩ .check _ := .timeOut rfl rfl
  exact ⟨_, _, .cons ⟨hG _ rfl _ (by simp), htest⟩ (.cons ⟨hG _ rfl _ (by simp), hset⟩
    (.cons ⟨hG _ rfl _ (by simp), hcancelEvent⟩ (.cons ⟨hG _ rfl _ (by simp), hresume⟩
      (.cons ⟨hG _ rfl _ (by simp), hdisarm⟩ (.single ⟨hG _ rfl _ (by simp), hcheck⟩)))))⟩

/-- Nothing is received within the timeout. -/
theorem timeout_law_example : ∃ as s,
    Run (Guarded (Fresh receiving) (IoStep receiving))
      (.start (⟨.new 32, .new⟩ : Poller ℕ Unit ℕ Unit)) as s ∧
    s.phase = .timedOut 0 ∧ TimeoutLaw receiving as s := by
  obtain ⟨events, hrun, hwaits⟩ := run_expired
  have hfresh : ∀ s : IoState ℕ Unit ℕ Unit, s.wait = 0 →
      ∀ a ∈ [IoAction.test 0, .set 0, .cancelEvent 0, .resume, .cancel, .check],
        Fresh receiving s a := by
    intro s hwait a ha
    simp only [List.mem_cons, List.not_mem_nil, or_false] at ha
    rcases ha with rfl | rfl | rfl | rfl | rfl | rfl
    · trivial
    · exact fun _ => hwait.symm
    all_goals trivial
  obtain ⟨poller', ready', hend⟩ := run_timedOut 0 hfresh hwaits oneExpired []
  refine ⟨_, _, hrun.append hend, rfl, timeout_law TimerManager.wf_new ?_ (hrun.append hend)⟩
  intro p t k hp
  cases hp

/-- The timer of the first wait expires just before data arrives. The call is woken by the data,
finds that another reader has taken it, and waits again. Then the callback is executed. -/
theorem not_timeoutLaw_stale : ∃ as s,
    Run (IoStep receiving) (.start (⟨.new 32, .new⟩ : Poller ℕ Unit ℕ Unit)) as s ∧
    s.phase = .timedOut 0 ∧ s.wait = 1 ∧ (∀ now delivered, .expire now delivered ∈ as →
      1 ∉ delivered) ∧ ¬ TimeoutLaw receiving as s := by
  obtain ⟨events, hfirst, hwaits⟩ := run_expired
  obtain ⟨scheduled, events₁, hdispatch, hmem, hidle⟩ :=
    hwaits.dispatch (show Mask.Wakes EPOLLIN receiving.event by decide)
  let fibers := scheduled.filterMap (·.2.fiber)
  have hready : 7 ∈ fibers := List.mem_filterMap.2 ⟨_, hmem (List.mem_singleton_self _), rfl⟩
  have hdata : IoStep receiving
      ⟨.waiting, 0, none, some 0, [0], [], [], [], ⟨events, oneExpired⟩⟩ .other _ :=
    .events (.dispatch hdispatch)
  have hresume : IoStep receiving
      ⟨.waiting, 0, none, some 0, [0], [], [], fibers, ⟨events₁, oneExpired⟩⟩ .resume _ :=
    .resume rfl hready
  have hdisarm : IoStep receiving
      ⟨.resumed, 0, none, some 0, [0], [], [], fibers.erase 7, ⟨events₁, oneExpired⟩⟩ .cancel _ :=
    .cancel rfl rfl
  have hretry : IoStep receiving
      ⟨.checking, 0, none, none, [0], [], [], fibers.erase 7,
        Poller.disarm ⟨events₁, oneExpired⟩ receiving 0⟩ .check _ := .retry rfl rfl
  obtain ⟨events₂, hsecond, hwaits₂⟩ := run_waiting receiving
    ⟨.calling, 1, none, none, [0], [], [], fibers.erase 7,
      Poller.disarm ⟨events₁, oneExpired⟩ receiving 0⟩ 0 1011 rfl hidle rfl fun _ => by decide
  obtain ⟨poller', ready', hend⟩ :=
    @run_timedOut (fun _ _ => True) 1 (fun _ _ _ _ => trivial) _ hwaits₂ _ (fibers.erase 7)
  have hrun := ((hfirst.of_guarded.append (.cons hdata (.cons hresume (.cons hdisarm
    (.single hretry))))).append hsecond.of_guarded).append hend.of_guarded
  refine ⟨_, _, hrun, rfl, rfl, fun now delivered hexpire => ?_, fun hlaw => ?_⟩
  · obtain ⟨-, rfl⟩ : now = 1010 ∧ delivered = [0] := by simpa using hexpire
    decide
  · cases (hlaw 0 rfl).1

end Sylar.Hook
