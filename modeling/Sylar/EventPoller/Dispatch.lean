import Sylar.EventPoller.Registration

/-!
# Dispatch of reported events

`idle` takes a batch of reports from `epoll_wait` and then handles them one by one, each under the
mutex of its context. In between, other threads may add and remove events, and other threads may
run `idle` themselves. `PollStep` interleaves the operations of `Step` with `epoll_wait` and the
dispatch of a report, for any set of threads.

* `DispatchLaw` — the assertion in `triggerEvent` holds, and the counter is decremented once for
  each bit that is cleared;
* `DispatchFits` — `epoll_ctl` refuses, or of the events reported none is registered any more, or
  all of them still are;
* `dispatchLaw_iff` — in every reachable state the law holds of the next report of a thread exactly
  when the report fits.
-/

namespace Sylar

namespace EventPoller

open Transition

variable {S F C : Type*} {ep ep' : EventPoller S F C} {fd : ℕ} {c : FdContext S F C}

/-! ## One dispatch -/

/-- Dispatching a report calls `triggerEvent` on set bits only, and decrements the counter once for
each of the `cleared` bits, which never takes it below zero. -/
def DispatchLaw (ep : EventPoller S F C) (fd : ℕ) (event_events : Mask) (granted : Bool) : Prop :=
  ∃ scheduled ep' cleared, ep.dispatch fd event_events granted = .ok (scheduled, ep') ∧
    ep'.eventCount + cleared = ep.eventCount ∧
    ep'.pendingEventCount + cleared = ep.pendingEventCount ∧
    ep'.pendingEventCount = ep'.eventCount

/-- Of the events reported, none is registered any more or all of them still are; otherwise
`epoll_ctl` refuses to change the interest set. -/
def DispatchFits (ep : EventPoller S F C) (fd : ℕ) (event_events : Mask) (granted : Bool) : Prop :=
  ∀ c, ep.fdContexts[fd]? = some c →
    granted = false ∨
    (∀ e, Mask.Has (real_events event_events c.events) e → ¬ Mask.Has c.events e) ∨
    ∀ e, Mask.Has (real_events event_events c.events) e → Mask.Has c.events e

theorem real_events_valid (event_events events : Mask) :
    Mask.Valid (real_events event_events events) := by
  unfold real_events
  dsimp only
  split_ifs <;> (unfold Mask.Valid; decide)

theorem Mask.Valid.and_eq_none_iff {m m' : Mask} (h : Mask.Valid m) (h' : Mask.Valid m') :
    m &&& m' = NONE ↔ ∀ e, Mask.Has m' e → ¬ Mask.Has m e := by
  have hboth : (∀ e, Mask.Has m' e → ¬ Mask.Has m e) ↔
      (Mask.Has m' .READ → ¬ Mask.Has m .READ) ∧ (Mask.Has m' .WRITE → ¬ Mask.Has m .WRITE) := by
    refine ⟨fun hall => ⟨hall .READ, hall .WRITE⟩, fun ⟨hread, hwrite⟩ e => ?_⟩
    cases e with
    | READ => exact hread
    | WRITE => exact hwrite
  rw [hboth]
  rcases h with rfl | rfl | rfl | rfl <;> rcases h' with rfl | rfl | rfl | rfl <;> decide

theorem Mask.Valid.diff_read_write {m m' : Mask} (h : Mask.Valid m) (h' : Mask.Valid m') :
    (if Mask.Has m' .WRITE then
      (if Mask.Has m' .READ then m &&& ~~~Event.READ.mask else m) &&& ~~~Event.WRITE.mask
    else if Mask.Has m' .READ then m &&& ~~~Event.READ.mask else m) = m &&& ~~~m' := by
  rcases h with rfl | rfl | rfl | rfl <;> rcases h' with rfl | rfl | rfl | rfl <;> decide

namespace FdContext

variable {e e' : Event} {m : Mask}

theorem clearIf_events (c : FdContext S F C) (m : Mask) (e : Event) :
    (c.clearIf m e).events = if Mask.Has m e then c.events &&& ~~~e.mask else c.events := by
  unfold clearIf
  split_ifs <;> simp

@[simp] theorem clearIf_fd (c : FdContext S F C) (m : Mask) (e : Event) :
    (c.clearIf m e).fd = c.fd := by
  unfold clearIf
  split_ifs <;> simp

/-- Clearing one event leaves the waiter of the other one. -/
theorem getContext_clearIf_of_ne (c : FdContext S F C) (m : Mask) (hne : e' ≠ e) :
    (c.clearIf m e).getContext e' = c.getContext e' := by
  unfold clearIf
  split_ifs
  · simp [clear, hne]
  · rfl

/-- Clearing one event leaves the other one as it is. -/
theorem WF.has_clearIf (hc : WF c) (hne : e' ≠ e) :
    Mask.Has (c.clearIf m e).events e' ↔ Mask.Has c.events e' := by
  rw [clearIf_events]
  split_ifs
  · rw [hc.valid.has_diff]
    exact and_iff_right hne
  · rfl

/-- The assertion of `triggerEvent` fails for an event that is not registered. -/
theorem triggerIf_of_not_has (hm : Mask.Has m e) (hnot : ¬ Mask.Has c.events e) (pending : ℕ) :
    triggerIf m e c pending = .error .assertion := by
  have hset : ¬ m &&& e.mask = 0 := hm
  have hassert : c.events &&& e.mask = 0 := not_not.mp hnot
  rw [triggerIf, if_neg hset, triggerEvent, if_pos hassert]
  rfl

end FdContext

/-- The entry of an event that has been reported. -/
def FdContext.reportedWaiter (c : FdContext S F C) (m : Mask) (e : Event) :
    List (S × FiberTask F C) :=
  if Mask.Has m e then (c.getContext e).waiter else []

/-- If all events reported are still registered, they are cleared and their waiters scheduled. -/
theorem WF.dispatch_reported (h : WF ep) (hfd : ep.fdContexts[fd]? = some c) {event_events : Mask}
    {real : Mask} (hreal : real_events event_events c.events = real)
    (hall : ∀ e, Mask.Has real e → Mask.Has c.events e) (hsome : ¬ c.events &&& real = NONE) :
    ∃ pending, ep.dispatch fd event_events true =
        .ok (c.reportedWaiter real .READ ++ c.reportedWaiter real .WRITE,
          (ep.update fd ((c.clearIf real .READ).clearIf real .WRITE) pending).setInterest fd
            (interestOf ((c.clearIf real .READ).clearIf real .WRITE).events)) ∧
      pending + Mask.bits c.events =
        ep.pendingEventCount + Mask.bits ((c.clearIf real .READ).clearIf real .WRITE).events ∧
      pending ≤ ep.pendingEventCount := by
  obtain ⟨hc, hfd', hint⟩ := h.context fd c hfd
  have hvalid : Mask.Valid real := hreal ▸ real_events_valid _ _
  obtain ⟨pending₁, hread, hpending₁, hle₁⟩ := hc.triggerIf_eq (hall .READ) (h.bits_le hfd)
  have hbits : Mask.bits (c.clearIf real .READ).events ≤ pending₁ := by
    have := h.bits_le hfd
    omega
  have hc₁ := hc.clearIf real .READ
  have hreg : Mask.Has real .WRITE → Mask.Has (c.clearIf real .READ).events .WRITE := fun hm =>
    (hc.has_clearIf (by decide)).mpr (hall .WRITE hm)
  obtain ⟨pending₂, hwrite, hpending₂, hle₂⟩ := hc₁.triggerIf_eq hreg hbits
  have hleft : ((c.clearIf real .READ).clearIf real .WRITE).events = c.events &&& ~~~real := by
    rw [FdContext.clearIf_events, FdContext.clearIf_events]
    exact hc.valid.diff_read_write hvalid
  -- something reported is registered, so the file descriptor is in the interest set
  have hhas : ∃ e, Mask.Has c.events e := by
    by_contra hnone
    rw [hc.valid.and_eq_none_iff hvalid] at hsome
    exact hsome fun e _ he => hnone ⟨e, he⟩
  obtain ⟨e, he⟩ := hhas
  refine ⟨pending₂, ?_, by omega, by omega⟩
  rw [FdContext.getContext_clearIf_of_ne c real (by decide)] at hwrite
  simp only [dispatch, hfd, hreal, if_neg hsome, hfd', hint, epoll_ctl_leftOp _ he, hread, hwrite,
    bind, Except.bind, hleft, FdContext.clearIf_fd, FdContext.reportedWaiter]

/-- The dispatch stores a well-formed context. -/
theorem WF.dispatch_eq (h : WF ep) (hfd : ep.fdContexts[fd]? = some c) (event_events : Mask)
    (hall : ∀ e, Mask.Has (real_events event_events c.events) e → Mask.Has c.events e)
    (hsome : ¬ c.events &&& real_events event_events c.events = NONE) :
    ∃ scheduled c' pending, ep.dispatch fd event_events true =
        .ok (scheduled, (ep.update fd c' pending).setInterest fd (interestOf c'.events)) ∧
      c'.WF ∧ c'.fd = fd ∧
      pending + Mask.bits c.events = ep.pendingEventCount + Mask.bits c'.events ∧
      pending ≤ ep.pendingEventCount := by
  obtain ⟨hc, hfd', -⟩ := h.context fd c hfd
  obtain ⟨pending, heq, hpending, hle⟩ := h.dispatch_reported hfd rfl hall hsome
  exact ⟨_, _, pending, heq, (hc.clearIf _ .READ).clearIf _ .WRITE, by simpa using hfd', hpending,
    hle⟩

/-- If some event reported is still registered and another one is not, the assertion of
`triggerEvent` fails. -/
theorem WF.dispatch_fault (h : WF ep) (hfd : ep.fdContexts[fd]? = some c) {event_events : Mask}
    {e₁ e₂ : Event} (hreal₁ : Mask.Has (real_events event_events c.events) e₁)
    (hhas₁ : Mask.Has c.events e₁) (hreal₂ : Mask.Has (real_events event_events c.events) e₂)
    (hnot₂ : ¬ Mask.Has c.events e₂) : ep.dispatch fd event_events true = .error .assertion := by
  obtain ⟨hc, hfd', hint⟩ := h.context fd c hfd
  set real := real_events event_events c.events with hreal
  have hsome : ¬ c.events &&& real = NONE := by
    rw [hc.valid.and_eq_none_iff (real_events_valid _ _)]
    exact fun hnone => hnone e₁ hreal₁ hhas₁
  have hctl := epoll_ctl_leftOp (c.events &&& ~~~real) hhas₁
  -- `READ` is triggered first, so its assertion fails at once
  have hread : e₂ = .READ → triggerIf real .READ c ep.pendingEventCount = .error .assertion := by
    rintro rfl
    exact FdContext.triggerIf_of_not_has hreal₂ hnot₂ _
  cases e₂ with
  | READ =>
    simp only [dispatch, hfd, ← hreal, if_neg hsome, hfd', hint, hctl, hread rfl, bind, Except.bind]
  | WRITE =>
    -- the read event, which is still registered, has been triggered before
    obtain rfl : e₁ = .READ := by
      cases e₁ with
      | READ => rfl
      | WRITE => exact absurd hhas₁ hnot₂
    obtain ⟨pending, hone, -⟩ := hc.triggerIf_eq (m := real) (fun _ => hhas₁) (h.bits_le hfd)
    have hwrite : triggerIf real .WRITE (c.clearIf real .READ) pending = .error .assertion :=
      FdContext.triggerIf_of_not_has hreal₂ ((hc.has_clearIf (by decide)).not.mpr hnot₂) _
    simp only [dispatch, hfd, ← hreal, if_neg hsome, hfd', hint, hctl, hone, hwrite, bind,
      Except.bind]

/-- A report that fits is dispatched, and leaves the poller well formed. -/
theorem WF.dispatch_ok (h : WF ep) {fd : ℕ} {event_events : Mask} {granted : Bool}
    (hfits : DispatchFits ep fd event_events granted) :
    ∃ scheduled ep', ep.dispatch fd event_events granted = .ok (scheduled, ep') ∧ WF ep' ∧
      ep'.pendingEventCount ≤ ep.pendingEventCount := by
  cases hfd : ep.fdContexts[fd]? with
  | none => exact ⟨[], ep, by simp only [dispatch, hfd], h, le_rfl⟩
  | some c =>
    by_cases hsome : c.events &&& real_events event_events c.events = NONE
    · exact ⟨[], ep, by simp only [dispatch, hfd, if_pos hsome], h, le_rfl⟩
    · have hnotnone := ((h.context fd c hfd).1.valid.and_eq_none_iff
        (real_events_valid event_events c.events)).not.mp hsome
      -- where none is registered any more, the early `continue` has been taken
      rcases hfits c hfd with rfl | hnone | hall
      · exact ⟨[], ep, by simp only [dispatch, hfd, if_neg hsome, epoll_ctl_refused], h, le_rfl⟩
      · exact absurd hnone hnotnone
      · cases granted with
        | false =>
          exact ⟨[], ep, by simp only [dispatch, hfd, if_neg hsome, epoll_ctl_refused], h, le_rfl⟩
        | true =>
          obtain ⟨scheduled, c', pending, hok, hc', hfd', hpending, hle⟩ :=
            h.dispatch_eq hfd event_events hall hsome
          exact ⟨scheduled, _, hok, h.update hfd hc' hfd' hpending, hle⟩

/-- A dispatch that returns had a report that fits. -/
theorem WF.fits_of_ok (h : WF ep) {fd : ℕ} {event_events : Mask} {granted : Bool}
    {r : List (Waiter S F C) × EventPoller S F C}
    (hok : ep.dispatch fd event_events granted = .ok r) :
    DispatchFits ep fd event_events granted := by
  intro c hfd
  by_contra hcond
  simp only [not_or, not_forall, not_not] at hcond
  -- one reported event is registered, which passes the early test, and one is not
  obtain ⟨hgranted, ⟨e₁, hreal₁, hhas₁⟩, e₂, hreal₂, hnot₂⟩ := hcond
  obtain rfl : granted = true := by simpa using hgranted
  rw [h.dispatch_fault hfd hreal₁ hhas₁ hreal₂ hnot₂] at hok
  cases hok

/-! ## Interleavings -/

/-- The poller together with the reports that each thread has yet to handle. -/
structure Poll (T S F C : Type*) where
  ep : EventPoller S F C
  batch : T → List (ℕ × Mask)

variable {T : Type*} [DecidableEq T]

/-- No thread has a report to handle. -/
def Poll.new (size : ℕ) : Poll T S F C where
  ep := .new size
  batch := fun _ => []

/-- Replace the reports of one thread. -/
def Poll.setBatch (p : Poll T S F C) (t : T) (reports : List (ℕ × Mask)) : Poll T S F C :=
  { p with batch := fun t' => if t' = t then reports else p.batch t' }

/-- A step of some thread. -/
inductive PollAction (T S F C : Type*)
  | op (a : Action S F C)
  | epoll_wait (t : T) (reports : List (ℕ × Mask))
  | dispatch (t : T) (scheduled : List (Waiter S F C))

/-- A report may carry any flags besides those of the events; an event reported is registered. -/
def Reportable (ep : EventPoller S F C) (report : ℕ × Mask) : Prop :=
  ∃ c, ep.fdContexts[report.1]? = some c ∧ ∀ e, Mask.Has report.2 e → Mask.Has c.events e

/-- An operation on the registrations by any thread, a return from `epoll_wait` in a thread that
has no more reports to handle, or the dispatch of the next report of a thread. -/
inductive PollStep (p : Poll T S F C) : PollAction T S F C → Poll T S F C → Prop
  | op {a : Action S F C} {ep' : EventPoller S F C} (h : Step p.ep a ep') :
      PollStep p (.op a) { p with ep := ep' }
  | epoll_wait {t : T} {reports : List (ℕ × Mask)} (hdone : p.batch t = [])
      (hreports : ∀ report ∈ reports, Reportable p.ep report) :
      PollStep p (.epoll_wait t reports) (p.setBatch t reports)
  | dispatch {t : T} {fd : ℕ} {event_events : Mask} {rest : List (ℕ × Mask)} {granted : Bool}
      {scheduled : List (Waiter S F C)} {ep' : EventPoller S F C}
      (hbatch : p.batch t = (fd, event_events) :: rest)
      (h : p.ep.dispatch fd event_events granted = .ok (scheduled, ep')) :
      PollStep p (.dispatch t scheduled) { (p.setBatch t rest) with ep := ep' }

theorem poll_step_wf {p p' : Poll T S F C} {a : PollAction T S F C} (h : WF p.ep)
    (hstep : PollStep p a p') : WF p'.ep := by
  cases hstep with
  | op hop => exact (step_wf h hop).1
  | epoll_wait => exact h
  | dispatch hbatch hok =>
    obtain ⟨scheduled, ep', hok', hwf, -⟩ := h.dispatch_ok (h.fits_of_ok hok)
    rw [hok'] at hok
    cases hok
    exact hwf

/-- In every state that a run reaches, the law holds of the dispatch of a report, such as the next
one of a thread, exactly when the report fits. -/
theorem dispatchLaw_iff {size : ℕ} {as : List (PollAction T S F C)} {p : Poll T S F C}
    (hrun : Run PollStep (.new size) as p) (fd : ℕ) (event_events : Mask) (granted : Bool) :
    DispatchLaw p.ep fd event_events granted ↔ DispatchFits p.ep fd event_events granted := by
  have h : WF p.ep := hrun.invariant (wf_new size) fun _ _ _ => poll_step_wf
  refine ⟨fun ⟨_, _, _, hok, _⟩ => h.fits_of_ok hok, fun hfits => ?_⟩
  obtain ⟨scheduled, ep', hok, hwf, hle⟩ := h.dispatch_ok hfits
  refine ⟨scheduled, ep', p.ep.pendingEventCount - ep'.pendingEventCount, hok, ?_, ?_, hwf.pending⟩
  · rw [← hwf.pending, ← h.pending]
    omega
  · omega

/-- Both events of the second context have been reported to the only thread that runs `idle`. -/
def bothReported : Poll Unit String ℕ String :=
  (Poll.setBatch { ep := twoWaiters, batch := fun _ => [] } () [(1, 0x5#32)])

theorem bothReported_run : ∃ as, Run PollStep (.new 2) as bothReported := by
  let this : Caller String ℕ := ⟨some "s", 7, .EXEC⟩
  have hread : (new 2).addEvent 1 .READ none this true = .ok (0, oneReader) := rfl
  have hwrite : oneReader.addEvent 1 .WRITE (some "f") this true = .ok (0, twoWaiters) := rfl
  have hwait : PollStep { ep := twoWaiters, batch := fun _ => [] }
      (.epoll_wait () [(1, 0x5#32)]) bothReported := by
    refine .epoll_wait rfl fun report hmem => ?_
    obtain rfl := List.mem_singleton.mp hmem
    exact ⟨_, rfl, fun e _ => by cases e <;> decide⟩
  have hone : PollStep (.new 2 : Poll Unit String ℕ String) _
      { ep := oneReader, batch := fun _ => [] } := .op (Step.addEvent rfl (by decide) rfl hread)
  have htwo : PollStep ({ ep := oneReader, batch := fun _ => [] } : Poll Unit String ℕ String) _
      { ep := twoWaiters, batch := fun _ => [] } := .op (Step.addEvent rfl (by decide) rfl hwrite)
  exact ⟨_, ((Run.single hone).snoc htwo).snoc hwait⟩

/-- While both events are registered, their report fits. -/
theorem dispatchLaw_iff_example : ∃ as, Run PollStep (.new 2) as bothReported ∧
    (DispatchLaw bothReported.ep 1 0x5#32 true ↔ DispatchFits bothReported.ep 1 0x5#32 true) := by
  obtain ⟨as, hrun⟩ := bothReported_run
  exact ⟨as, hrun, dispatchLaw_iff hrun 1 0x5#32 true⟩

/-- The law fails when another thread deletes the read event between `epoll_wait` and the
dispatch: `triggerEvent(READ)` finds its bit cleared. -/
theorem not_dispatchLaw_deleted : ∃ as p, Run PollStep (.new 2) as p ∧
    p.batch () = [(1, 0x5#32)] ∧
      ¬ DispatchLaw (p : Poll Unit String ℕ String).ep 1 0x5#32 true := by
  obtain ⟨as, hrun⟩ := bothReported_run
  have hdel : bothReported.ep.delEvent 1 .READ true = (true, _) := rfl
  refine ⟨_, _, hrun.snoc (.op (Step.delEvent hdel rfl)), rfl, ?_⟩
  rintro ⟨scheduled, ep', cleared, hok, -⟩
  cases hok

end EventPoller

end Sylar
