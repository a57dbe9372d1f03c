import Sylar.Foundation.Run
import Sylar.EventPoller.WellFormed

/-!
# Registration of events

`Step` performs `addEvent`, `delEvent`, `cancelEvent` or `cancelAll` atomically, with `epoll_ctl`
granted or not; `Action` records the arguments, the result, and the waiters that were dropped or
scheduled. In every state that a run reaches from a fresh table, `RegistrationLaw` holds:

* `pending` — `m_pendingEventCount` is the number of bits set in all `events`;
* `armed`, `empty` — a bit is set exactly when its context holds a waiter;
* `interest`, `legal` — the kernel has the same events, so the operation chosen is legal;
* `accounted` — the waiters registered are those still armed, those dropped and those scheduled;
* `refused`, `returns` — an operation refused by `epoll_ctl` changes nothing, and no assertion
  fails.
-/

namespace Sylar

namespace EventPoller

open Transition

variable {S F C : Type*}

/-- An entry together with the scheduler that receives it. -/
abbrev Waiter (S F C : Type*) := S × FiberTask F C

/-- An atomic step with its result. -/
inductive Action (S F C : Type*)
  | addEvent (fd : ℕ) (event : Event) (waiter : Waiter S F C) (ret : ℤ)
  | delEvent (fd : ℕ) (event : Event) (dropped : List (Waiter S F C)) (ret : Bool)
  | cancelEvent (fd : ℕ) (event : Event) (scheduled : List (Waiter S F C)) (ret : Bool)
  | cancelAll (fd : ℕ) (scheduled : List (Waiter S F C)) (ret : Bool)

/-- The waiter that `addEvent` registers: the callback, or else the calling fiber. -/
def waiterOf (s : S) (fiber : F) (cb : Option C) : Waiter S F C :=
  match cb with
  | some cb => (s, .ofCb (some cb) (-1))
  | none => (s, .ofFiber (some fiber) (-1))

/-- The waiter in the context of an event, if there is one. -/
def waiterAt (ep : EventPoller S F C) (fd : ℕ) (event : Event) : List (Waiter S F C) :=
  (ep.fdContexts[fd]?.map fun fd_ctx => (fd_ctx.getContext event).waiter).getD []

/-- `addEvent` is called inside the table, for an event that is not registered, and on a thread
with a scheduler; the other operations on any file descriptor. -/
inductive Step (ep : EventPoller S F C) : Action S F C → EventPoller S F C → Prop
  | addEvent {ep' : EventPoller S F C} {fd : ℕ} {c : FdContext S F C} {event : Event}
      {cb : Option C} {this : Caller S F} {s : S} {granted : Bool} {ret : ℤ}
      (hfd : ep.fdContexts[fd]? = some c) (hnot : ¬ Mask.Has c.events event)
      (hthis : this.scheduler = some s)
      (h : ep.addEvent fd event cb this granted = .ok (ret, ep')) :
      Step ep (.addEvent fd event (waiterOf s this.fiber cb) ret) ep'
  | delEvent {ep' : EventPoller S F C} {fd : ℕ} {event : Event} {granted : Bool} {ret : Bool}
      {dropped : List (Waiter S F C)} (h : ep.delEvent fd event granted = (ret, ep'))
      (hdropped : dropped = if ret then ep.waiterAt fd event else []) :
      Step ep (.delEvent fd event dropped ret) ep'
  | cancelEvent {ep' : EventPoller S F C} {fd : ℕ} {event : Event} {granted : Bool} {ret : Bool}
      {scheduled : List (Waiter S F C)}
      (h : ep.cancelEvent fd event granted = .ok (ret, scheduled, ep')) :
      Step ep (.cancelEvent fd event scheduled ret) ep'
  | cancelAll {ep' : EventPoller S F C} {fd : ℕ} {granted : Bool} {ret : Bool}
      {scheduled : List (Waiter S F C)} (h : ep.cancelAll fd granted = .ok (ret, scheduled, ep')) :
      Step ep (.cancelAll fd scheduled ret) ep'

namespace Action

/-- The waiter of a successful `addEvent`. -/
def registered : Action S F C → Multiset (Waiter S F C)
  | .addEvent _ _ waiter ret => if ret = 0 then {waiter} else 0
  | .delEvent .. => 0
  | .cancelEvent .. => 0
  | .cancelAll .. => 0

/-- The waiter that `delEvent` drops. -/
def dropped : Action S F C → Multiset (Waiter S F C)
  | .addEvent .. => 0
  | .delEvent _ _ dropped _ => dropped
  | .cancelEvent .. => 0
  | .cancelAll .. => 0

/-- The waiters that `cancelEvent` and `cancelAll` schedule. -/
def scheduled : Action S F C → Multiset (Waiter S F C)
  | .addEvent .. => 0
  | .delEvent .. => 0
  | .cancelEvent _ _ scheduled _ => scheduled
  | .cancelAll _ scheduled _ => scheduled

end Action

/-- The registration law in a state `ep` reached by the steps `as`. -/
structure RegistrationLaw (as : List (Action S F C)) (ep : EventPoller S F C) : Prop where
  pending : ep.pendingEventCount = ep.eventCount
  armed : ∀ (fd : ℕ) (c : FdContext S F C), ep.fdContexts[fd]? = some c → ∀ e,
    (Mask.Has c.events e ↔ (c.getContext e).Armed)
  empty : ∀ (fd : ℕ) (c : FdContext S F C), ep.fdContexts[fd]? = some c →
    ∀ e, ¬ Mask.Has c.events e →
    c.getContext e = .new
  interest : ∀ (fd : ℕ) (c : FdContext S F C), ep.fdContexts[fd]? = some c →
    ep.interest fd = interestOf c.events
  legal : ∀ (fd : ℕ) (c : FdContext S F C), ep.fdContexts[fd]? = some c → ∀ e,
    (¬ Mask.Has c.events e → (addOp c.events).Legal (ep.interest fd)) ∧
    (Mask.Has c.events e → (leftOp (c.events &&& ~~~e.mask)).Legal (ep.interest fd)) ∧
    (c.events ≠ NONE → CtlOp.DEL.Legal (ep.interest fd))
  accounted : (as.map Action.registered).sum =
    ep.waiters + (as.map Action.dropped).sum + (as.map Action.scheduled).sum
  refused : ∀ fd e, ep.delEvent fd e false = (false, ep) ∧
    ep.cancelEvent fd e false = .ok (false, [], ep) ∧
    ep.cancelAll fd false = .ok (false, [], ep) ∧
    ∀ c cb this, ep.fdContexts[fd]? = some c → ¬ Mask.Has c.events e →
      ep.addEvent fd e cb this false = .ok (-1, ep)
  returns : ∀ fd e, (∃ r, ep.cancelEvent fd e true = .ok r) ∧ (∃ r, ep.cancelAll fd true = .ok r) ∧
    ∀ c cb (this : Caller S F), ep.fdContexts[fd]? = some c → ¬ Mask.Has c.events e →
      this.scheduler.isSome = true → (cb = none → this.state = .EXEC) →
      ∃ r, ep.addEvent fd e cb this true = .ok r

/-! ## What a step does -/

variable {ep ep' : EventPoller S F C} {a : Action S F C} {as : List (Action S F C)}

/-- A step leaves the state as it is, or it stores one context together with its interest and its
share of the counter, and the waiters it registers are accounted for. -/
theorem step_cases (h : WF ep) (hstep : Step ep a ep') :
    (ep' = ep ∧ a.registered = 0 ∧ a.dropped = 0 ∧ a.scheduled = 0) ∨
    ∃ fd c c' pending, ep.fdContexts[fd]? = some c ∧ c'.WF ∧ c'.fd = fd ∧
      pending + Mask.bits c.events = ep.pendingEventCount + Mask.bits c'.events ∧
      c'.waiters + a.dropped + a.scheduled = c.waiters + a.registered ∧
      ep' = (ep.update fd c' pending).setInterest fd (interestOf c'.events) := by
  cases hstep with
  | @addEvent _ fd c e cb this s granted ret hfd hnot hthis hadd =>
    obtain ⟨hc, hfd', hint⟩ := h.context fd c hfd
    cases granted with
    | false =>
      rw [addEvent_refused hfd hnot] at hadd
      cases hadd
      exact Or.inl ⟨rfl, by simp [Action.registered], rfl, rfl⟩
    | true =>
      -- the call has returned, so its assertion has held
      have hexec : cb = none → this.state = .EXEC := by
        rintro rfl
        by_contra hne
        -- the assertion on the state of the calling fiber fails
        have hset : ¬ c.events &&& e.mask ≠ 0 := hnot
        simp [EventPoller.addEvent, hfd, hint, epoll_ctl_addOp, hc.empty e hnot,
          EventContext.new, hne] at hadd
      rw [h.addEvent_eq hfd hnot cb hthis hexec] at hadd
      cases hadd
      refine Or.inr ⟨fd, c, _, _, hfd, hc.arm (armedBy_armed s this.fiber cb) e,
        by simpa using hfd', ?_, ?_, by rw [FdContext.arm_events]⟩
      · rw [FdContext.arm_events, hc.valid.bits_or hnot]
        omega
      · have hwaiter : ((armedBy s this.fiber cb).waiter : Multiset (Waiter S F C)) =
            {waiterOf s this.fiber cb} := by
          cases cb <;> rfl
        rw [FdContext.waiters_arm hc hnot, hwaiter]
        simp [Action.dropped, Action.scheduled, Action.registered]
  | @delEvent _ fd e granted ret dropped hdel hdropped =>
    subst hdropped
    by_cases hreg : ∃ c, ep.fdContexts[fd]? = some c ∧ Mask.Has c.events e ∧ granted = true
    · obtain ⟨c, hfd, hhas, rfl⟩ := hreg
      obtain ⟨hc, hfd', -⟩ := h.context fd c hfd
      rw [h.delEvent_eq hfd hhas] at hdel
      cases hdel
      refine Or.inr ⟨fd, c, _, _, hfd, hc.clear e, by simpa using hfd', h.pending_clear hfd hhas,
        ?_, rfl⟩
      rw [← c.waiters_clear e]
      simp [Action.dropped, Action.scheduled, Action.registered, waiterAt, hfd]
    · have hnone : ep.delEvent fd e granted = (false, ep) := by
        cases granted with
        | false => exact delEvent_refused ep fd e
        | true => exact delEvent_of_not_has (fun c hfd hhas => hreg ⟨c, hfd, hhas, rfl⟩) true
      rw [hnone] at hdel
      cases hdel
      exact Or.inl ⟨rfl, rfl, rfl, rfl⟩
  | @cancelEvent _ fd e granted ret scheduled hcancel =>
    by_cases hreg : ∃ c, ep.fdContexts[fd]? = some c ∧ Mask.Has c.events e ∧ granted = true
    · obtain ⟨c, hfd, hhas, rfl⟩ := hreg
      obtain ⟨hc, hfd', -⟩ := h.context fd c hfd
      rw [h.cancelEvent_eq hfd hhas] at hcancel
      cases hcancel
      refine Or.inr ⟨fd, c, _, _, hfd, hc.clear e, by simpa using hfd', h.pending_clear hfd hhas,
        ?_, rfl⟩
      rw [← c.waiters_clear e]
      simp [Action.dropped, Action.scheduled, Action.registered]
    · have hnone : ep.cancelEvent fd e granted = .ok (false, [], ep) := by
        cases granted with
        | false => exact cancelEvent_refused ep fd e
        | true => exact cancelEvent_of_not_has (fun c hfd hhas => hreg ⟨c, hfd, hhas, rfl⟩) true
      rw [hnone] at hcancel
      cases hcancel
      exact Or.inl ⟨rfl, rfl, rfl, rfl⟩
  | @cancelAll _ fd granted ret scheduled hcancel =>
    -- both waiters leave their contexts, the one for reading first
    by_cases hreg : ∃ c, ep.fdContexts[fd]? = some c ∧ c.events ≠ NONE ∧ granted = true
    · obtain ⟨c, hfd, hne, rfl⟩ := hreg
      obtain ⟨hc, hfd', -⟩ := h.context fd c hfd
      obtain ⟨pending, heq, hpending⟩ := h.cancelAll_eq hfd hne
      rw [heq] at hcancel
      cases hcancel
      refine Or.inr ⟨fd, c, _, _, hfd, (hc.clear .READ).clear .WRITE, by simpa using hfd',
        hpending, ?_, rfl⟩
      have hread := c.waiters_clear .READ
      have hwrite := (c.clear .READ).waiters_clear .WRITE
      have hsame : (c.clear .READ).getContext .WRITE = c.getContext .WRITE := by
        simp [FdContext.clear]
      rw [← hread, ← hwrite, hsame]
      simp only [Action.dropped, Action.scheduled, Action.registered, ← Multiset.coe_add,
        FdContext.getContext, add_zero]
      ac_rfl
    · have hnone : ep.cancelAll fd granted = .ok (false, [], ep) := by
        cases granted with
        | false => exact cancelAll_refused ep fd
        | true =>
          refine cancelAll_of_none (fun c hfd => ?_) true
          by_contra hne
          exact hreg ⟨c, hfd, hne, rfl⟩
      rw [hnone] at hcancel
      cases hcancel
      exact Or.inl ⟨rfl, rfl, rfl, rfl⟩

/-- Every step keeps the poller well formed and accounts for the waiters. -/
theorem step_wf (h : WF ep) (hstep : Step ep a ep') :
    WF ep' ∧ ep'.waiters + a.dropped + a.scheduled = ep.waiters + a.registered := by
  rcases step_cases h hstep with ⟨rfl, hreg, hdrop, hsched⟩ |
    ⟨fd, c, c', pending, hfd, hc', hfd', hpending, hwaiters, rfl⟩
  · refine ⟨h, ?_⟩
    rw [hreg, hdrop, hsched, add_zero]
  · refine ⟨h.update hfd hc' hfd' hpending, ?_⟩
    have hupdate := waiters_update hfd c' pending (interestOf c'.events)
    refine add_right_cancel (b := c.waiters) ?_
    calc _ = ((ep.update fd c' pending).setInterest fd (interestOf c'.events)).waiters + c.waiters
          + (a.dropped + a.scheduled) := by ac_rfl
      _ = ep.waiters + (c'.waiters + a.dropped + a.scheduled) := by rw [hupdate]; ac_rfl
      _ = ep.waiters + a.registered + c.waiters := by rw [hwaiters]; ac_rfl

/-- In every run the poller stays well formed and accounts for the waiters. -/
theorem run_wf {size : ℕ} (h : Run Step (new size) as ep) :
    WF ep ∧ (as.map Action.registered).sum =
      ep.waiters + (as.map Action.dropped).sum + (as.map Action.scheduled).sum := by
  refine h.history (I := fun as ep => WF ep ∧ (as.map Action.registered).sum =
    ep.waiters + (as.map Action.dropped).sum + (as.map Action.scheduled).sum)
    ⟨wf_new size, ?_⟩ fun as ep a ep' hinv hstep => ?_
  · -- a fresh table holds no waiter
    have hzero : (new size : EventPoller S F C).waiters = 0 := by
      refine List.sum_eq_zero fun w hw => ?_
      obtain ⟨c, hc, rfl⟩ := List.mem_map.mp hw
      obtain ⟨fd, -, rfl⟩ := List.mem_map.mp hc
      rfl
    simp [hzero]
  · obtain ⟨hwf, hsum⟩ := hinv
    obtain ⟨hwf', hstep'⟩ := step_wf hwf hstep
    refine ⟨hwf', ?_⟩
    simp only [List.map_append, List.sum_append, List.map_cons, List.map_nil, List.sum_cons,
      List.sum_nil, add_zero]
    calc _ = ep.waiters + a.registered + (as.map Action.dropped).sum
          + (as.map Action.scheduled).sum := by rw [hsum]; ac_rfl
      _ = _ := by rw [← hstep']; ac_rfl

/-- In every run the registrations obey the registration law. -/
theorem registration_law {size : ℕ} (h : Run Step (new size) as ep) : RegistrationLaw as ep := by
  obtain ⟨hwf, hsum⟩ := run_wf h
  refine ⟨hwf.pending, fun fd c hfd e => ?_, fun fd c hfd => ?_, fun fd c hfd => ?_,
    fun fd c hfd e => ?_, hsum, fun fd e => ?_, fun fd e => ?_⟩
  · obtain ⟨hc, -, -⟩ := hwf.context fd c hfd
    refine ⟨hc.armed e, fun harmed => ?_⟩
    -- an empty context has no scheduler
    by_contra hnot
    rw [hc.empty e hnot] at harmed
    cases harmed.1
  · exact (hwf.context fd c hfd).1.empty
  · exact (hwf.context fd c hfd).2.2
  · obtain ⟨-, -, hint⟩ := hwf.context fd c hfd
    rw [hint]
    refine ⟨fun _ => addOp_legal c.events, fun hhas => leftOp_legal _ hhas, fun hne => ?_⟩
    simp [interestOf, hne, CtlOp.Legal]
  · exact ⟨delEvent_refused ep fd e, cancelEvent_refused ep fd e, cancelAll_refused ep fd,
      fun c cb this hfd hnot => addEvent_refused hfd hnot cb this⟩
  · refine ⟨?_, ?_, fun c cb this hfd hnot hthis hexec => ?_⟩
    · by_cases hreg : ∃ c, ep.fdContexts[fd]? = some c ∧ Mask.Has c.events e
      · obtain ⟨c, hfd, hhas⟩ := hreg
        exact ⟨_, hwf.cancelEvent_eq hfd hhas⟩
      · exact ⟨_, cancelEvent_of_not_has (fun c hfd hhas => hreg ⟨c, hfd, hhas⟩) true⟩
    · by_cases hreg : ∃ c, ep.fdContexts[fd]? = some c ∧ c.events ≠ NONE
      · obtain ⟨c, hfd, hne⟩ := hreg
        obtain ⟨pending, heq, -⟩ := hwf.cancelAll_eq hfd hne
        exact ⟨_, heq⟩
      · refine ⟨_, cancelAll_of_none (fun c hfd => ?_) true⟩
        by_contra hne
        exact hreg ⟨c, hfd, hne⟩
    · obtain ⟨s, hs⟩ := Option.isSome_iff_exists.mp hthis
      exact ⟨_, hwf.addEvent_eq hfd hnot cb hs hexec⟩

/-- A table of two contexts in which a fiber waits for reading on the second one. -/
def oneReader : EventPoller String ℕ String :=
  ((new 2).update 1 ((FdContext.new 1).arm (armedBy "s" 7 none) .READ) 1).setInterest 1
    (interestOf Event.READ.mask)

/-- Moreover a callback waits for writing there. -/
def twoWaiters : EventPoller String ℕ String :=
  (oneReader.update 1 (((FdContext.new 1).arm (armedBy "s" 7 none) .READ).arm
    (armedBy "s" 7 (some "f")) .WRITE) 2).setInterest 1
    (interestOf (Event.READ.mask ||| Event.WRITE.mask))

/-- A fiber waits for reading and a callback for writing; both are cancelled. -/
theorem registration_law_example : ∃ ep : EventPoller String ℕ String,
    RegistrationLaw [.addEvent 1 .READ ("s", .ofFiber (some 7) (-1)) 0,
      .addEvent 1 .WRITE ("s", .ofCb (some "f") (-1)) 0,
      .cancelAll 1 [("s", .ofFiber (some 7) (-1)), ("s", .ofCb (some "f") (-1))] true] ep := by
  let this : Caller String ℕ := ⟨some "s", 7, .EXEC⟩
  have hread : (new 2).addEvent 1 .READ none this true = .ok (0, oneReader) := rfl
  have hwrite : oneReader.addEvent 1 .WRITE (some "f") this true = .ok (0, twoWaiters) := rfl
  have hcancel : twoWaiters.cancelAll 1 true = .ok (true, _, _) := rfl
  have hrun := Run.single (Step.addEvent rfl (by decide) rfl hread)
  have hrun := hrun.snoc (Step.addEvent rfl (by decide) rfl hwrite)
  exact ⟨_, registration_law (hrun.snoc (Step.cancelAll hcancel))⟩

end EventPoller

end Sylar
