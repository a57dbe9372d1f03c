import Sylar.EventPoller.Dispatch
import Sylar.Scheduler.Conservation
import Mathlib.Data.Fintype.Basic

/-!
# From a registered event to the run queue

A waiter registered by `addEvent` is the calling fiber or a callback, together with the scheduler of
the calling thread. `idle`, `cancelEvent` and `cancelAll` trigger it: they take it out of its
context and call `schedule` on that scheduler, one waiter after the other. `Step` composes the steps
of a poller with those of any number of schedulers, where each thread has the waiters that it has
triggered, but not yet scheduled, in its hands.

`event_tasks` says that in every run a registered waiter becomes one entry of the run queue of its
own scheduler, unless `delEvent` drops it: until then it is in its context or in the hands of one
thread.
-/

namespace Sylar.EventPoller

open Transition

variable {T S W F C : Type*}

/-! ## The waiters of a dispatch -/

section Dispatch

variable {ep ep' : EventPoller S F C} {fd : ℕ} {event_events : Mask} {granted : Bool}
  {scheduled : List (Waiter S F C)}

/-- An event that is reported takes its waiter along. -/
theorem FdContext.waiters_clearIf (c : FdContext S F C) (m : Mask) (e : Event) :
    (c.clearIf m e).waiters + (c.reportedWaiter m e : Multiset (Waiter S F C)) = c.waiters := by
  unfold clearIf reportedWaiter
  split_ifs
  · exact c.waiters_clear e
  · rw [Multiset.coe_nil, add_zero]

/-- The waiters that a dispatch schedules are those that leave their contexts. -/
theorem WF.dispatch_waiters (h : WF ep)
    (hok : ep.dispatch fd event_events granted = .ok (scheduled, ep')) :
    ep'.waiters + (scheduled : Multiset (Waiter S F C)) = ep.waiters := by
  have hsame : (.ok ([], ep) : Except Fault (List (Waiter S F C) × EventPoller S F C)) =
      .ok (scheduled, ep') → ep'.waiters + (scheduled : Multiset (Waiter S F C)) = ep.waiters := by
    intro heq
    cases heq
    rw [Multiset.coe_nil, add_zero]
  cases hfd : ep.fdContexts[fd]? with
  | none =>
    simp only [dispatch, hfd] at hok
    exact hsame hok
  | some c =>
    by_cases hsome : c.events &&& real_events event_events c.events = NONE
    · simp only [dispatch, hfd, if_pos hsome] at hok
      exact hsame hok
    · cases granted with
      | false =>
        simp only [dispatch, hfd, if_neg hsome, epoll_ctl_refused] at hok
        exact hsame hok
      | true =>
        have hall := ((h.fits_of_ok hok c hfd).resolve_left (by decide)).resolve_left
          (((h.context fd c hfd).1.valid.and_eq_none_iff (real_events_valid _ _)).not.mp hsome)
        obtain ⟨pending, heq, -⟩ := h.dispatch_reported hfd rfl hall hsome
        rw [heq] at hok
        cases hok
        have hread := c.waiters_clearIf (real_events event_events c.events) .READ
        have hwrite := (c.clearIf (real_events event_events c.events) .READ).waiters_clearIf
          (real_events event_events c.events) .WRITE
        have hkept : (c.clearIf (real_events event_events c.events) .READ).reportedWaiter
            (real_events event_events c.events) .WRITE =
            c.reportedWaiter (real_events event_events c.events) .WRITE := by
          rw [FdContext.reportedWaiter, FdContext.getContext_clearIf_of_ne c _ (by decide),
            FdContext.reportedWaiter]
        rw [hkept] at hwrite
        have hupdate := waiters_update hfd
          ((c.clearIf (real_events event_events c.events) .READ).clearIf
            (real_events event_events c.events) .WRITE) pending
          (interestOf ((c.clearIf (real_events event_events c.events) .READ).clearIf
            (real_events event_events c.events) .WRITE).events)
        refine add_right_cancel (b := c.waiters) ?_
        rw [← Multiset.coe_add, add_right_comm, hupdate, ← hread, ← hwrite]
        ac_rfl

end Dispatch

namespace PollAction

/-- The waiter of a successful `addEvent`. -/
def registered : PollAction T S F C → Multiset (Waiter S F C)
  | .op a => a.registered
  | _ => 0

/-- The waiter that `delEvent` drops. -/
def dropped : PollAction T S F C → Multiset (Waiter S F C)
  | .op a => a.dropped
  | _ => 0

/-- The waiters that an action triggers, in order. -/
def triggered : PollAction T S F C → List (Waiter S F C)
  | .op (.cancelEvent _ _ scheduled _) => scheduled
  | .op (.cancelAll _ scheduled _) => scheduled
  | .dispatch _ scheduled => scheduled
  | _ => []

/-- The thread performs the action. The operations are for any thread. -/
def On (t : T) : PollAction T S F C → Prop
  | .op _ => True
  | .epoll_wait t' _ => t' = t
  | .dispatch t' _ => t' = t

end PollAction

/-- Every step of the poller accounts for the waiters. -/
theorem poll_step_waiters [DecidableEq T] {p p' : Poll T S F C} {a : PollAction T S F C}
    (h : WF p.ep) (hstep : PollStep p a p') :
    p'.ep.waiters + a.dropped + (a.triggered : Multiset (Waiter S F C)) =
      p.ep.waiters + a.registered := by
  cases hstep with
  | @op a ep' hop =>
    have htriggered : ((PollAction.op a : PollAction T S F C).triggered :
        Multiset (Waiter S F C)) = a.scheduled := by
      cases a <;> rfl
    rw [htriggered]
    exact (step_wf h hop).2
  | epoll_wait =>
    simp [PollAction.registered, PollAction.dropped, PollAction.triggered, Poll.setBatch]
  | dispatch hbatch hok =>
    have hwaiters := h.dispatch_waiters hok
    simpa [PollAction.registered, PollAction.dropped, PollAction.triggered] using hwaiters

/-- Nobody registers an empty task. -/
theorem nonempty_of_registered [DecidableEq T] {p p' : Poll T S F C} {a : PollAction T S F C}
    (hstep : PollStep p a p') {waiter : Waiter S F C} (hmem : waiter ∈ a.registered) :
    waiter.2.nonempty = true := by
  cases hstep with
  | op hop =>
    cases hop with
    | @addEvent _ fd c event cb this s granted ret hfd hnot hthis hadd =>
      simp only [PollAction.registered, Action.registered] at hmem
      split_ifs at hmem
      · obtain rfl := Multiset.mem_singleton.mp hmem
        cases cb <;> rfl
      · cases hmem
    | delEvent | cancelEvent | cancelAll => cases hmem
  | epoll_wait | dispatch => cases hmem

namespace EventTasks

/-! ## The composition -/

/-- The poller, the schedulers, and the waiters that each thread has yet to schedule. -/
structure State (T S W F C : Type*) where
  poll : Poll T S F C
  core : S → Scheduler.State W F C
  hands : T → List (Waiter S F C)

/-- What may happen. -/
inductive Action (T S W F C : Type*)
  /-- A step of the poller in the thread `t`. -/
  | poll (t : T) (a : PollAction T S F C)
  /-- `ctx.scheduler->schedule(&ctx.cb)` or `ctx.scheduler->schedule(&ctx.fiber)`. -/
  | schedule (t : T) (waiter : Waiter S F C)
  /-- A step of a scheduler; other tasks may be scheduled at any time. -/
  | core (scheduler : S) (a : Scheduler.Action W F C)

/-- Nothing has happened yet. -/
def State.new (size : ℕ) : State T S W F C where
  poll := .new size
  core := fun _ => .new
  hands := fun _ => []

/-- The tasks of the waiters for one scheduler. -/
def tasksOf [DecidableEq S] (scheduler : S) (waiters : Multiset (Waiter S F C)) :
    Multiset (FiberTask F C) :=
  (waiters.filter fun waiter => waiter.1 = scheduler).map Prod.snd

section Tasks

variable [DecidableEq S] {scheduler : S}

/-- Nobody waiting makes no task. -/
@[simp]
theorem tasksOf_zero (scheduler : S) : tasksOf scheduler (0 : Multiset (Waiter S F C)) = 0 := rfl

/-- Waiters become tasks one by one. -/
theorem tasksOf_add (scheduler : S) (waiters waiters' : Multiset (Waiter S F C)) :
    tasksOf scheduler (waiters + waiters') =
      tasksOf scheduler waiters + tasksOf scheduler waiters' := by
  rw [tasksOf, Multiset.filter_add, Multiset.map_add]
  rfl

/-- A waiter becomes a task of its own scheduler. -/
theorem tasksOf_singleton (scheduler : S) (waiter : Waiter S F C) :
    tasksOf scheduler {waiter} = if waiter.1 = scheduler then {waiter.2} else 0 := by
  rw [tasksOf, Multiset.filter_singleton]
  split_ifs <;> rfl

end Tasks

variable [DecidableEq T] [DecidableEq S] [DecidableEq W] [DecidableEq F]

/-- A thread goes on with the poller when it has scheduled the waiters in its hands. -/
inductive Step (tid : S → W → ℤ) (s : State T S W F C) :
    Action T S W F C → State T S W F C → Prop
  | poll {t : T} {a : PollAction T S F C} {p : Poll T S F C} (hfree : s.hands t = [])
      (hstep : PollStep s.poll a p) (hon : a.On t) :
      Step tid s (.poll t a) { s with
        poll := p
        hands := Function.update s.hands t a.triggered }
  | schedule {t : T} {waiter : Waiter S F C} {rest : List (Waiter S F C)}
      {core : Scheduler.State W F C} (hhands : s.hands t = waiter :: rest)
      (hstep : Scheduler.step (tid waiter.1) (s.core waiter.1) (.schedule waiter.2) = some core) :
      Step tid s (.schedule t waiter) { s with
        core := Function.update s.core waiter.1 core
        hands := Function.update s.hands t rest }
  | core {scheduler : S} {a : Scheduler.Action W F C} {core : Scheduler.State W F C}
      (hstep : Scheduler.step (tid scheduler) (s.core scheduler) a = some core) :
      Step tid s (.core scheduler a) { s with core := Function.update s.core scheduler core }

/-! ## What a run has done -/

/-- What an action does to the poller. -/
def Action.ofPoll : Action T S W F C → List (PollAction T S F C)
  | .poll _ a => [a]
  | _ => []

/-- What an action does to a scheduler. -/
def Action.ofCore (scheduler : S) : Action T S W F C → List (Scheduler.Action W F C)
  | .schedule _ waiter => if waiter.1 = scheduler then [.schedule waiter.2] else []
  | .core scheduler' a => if scheduler' = scheduler then [a] else []
  | _ => []

/-- The tasks that an action gives to a scheduler, other than waiters. -/
def Action.others (scheduler : S) : Action T S W F C → List (FiberTask F C)
  | .core scheduler' a => if scheduler' = scheduler then a.scheduled else []
  | _ => []

/-- The waiters that have been registered. -/
def registered (as : List (Action T S W F C)) : Multiset (Waiter S F C) :=
  ((as.flatMap Action.ofPoll).map PollAction.registered).sum

/-- The waiters that `delEvent` has dropped. -/
def dropped (as : List (Action T S W F C)) : Multiset (Waiter S F C) :=
  ((as.flatMap Action.ofPoll).map PollAction.dropped).sum

/-- The waiters that have been triggered. -/
def triggered (as : List (Action T S W F C)) : List (Waiter S F C) :=
  (as.flatMap Action.ofPoll).flatMap PollAction.triggered

section Actions

omit [DecidableEq T] [DecidableEq S] [DecidableEq W] [DecidableEq F]

/-- What an action registers. -/
theorem registered_append (as : List (Action T S W F C)) (a : Action T S W F C) :
    registered (as ++ [a]) = registered as + (a.ofPoll.map PollAction.registered).sum := by
  simp [registered]

/-- What an action drops. -/
theorem dropped_append (as : List (Action T S W F C)) (a : Action T S W F C) :
    dropped (as ++ [a]) = dropped as + (a.ofPoll.map PollAction.dropped).sum := by
  simp [dropped]

/-- What an action triggers. -/
theorem triggered_append (as : List (Action T S W F C)) (a : Action T S W F C) :
    triggered (as ++ [a]) = triggered as ++ a.ofPoll.flatMap PollAction.triggered := by
  simp [triggered]

end Actions

/-- The laws in a state `s` reached by the actions `as`. -/
structure Laws [Fintype T] [Fintype W] (tid : S → W → ℤ) (as : List (Action T S W F C))
    (s : State T S W F C) : Prop where
  pending : s.poll.ep.pendingEventCount = s.poll.ep.eventCount
  /-- A waiter registered is still in its context, or has been dropped or triggered. -/
  waiters : registered as =
    s.poll.ep.waiters + dropped as + (triggered as : Multiset (Waiter S F C))
  queue : ∀ scheduler,
    Scheduler.Conservation (tid scheduler) (as.flatMap (Action.ofCore scheduler)) (s.core scheduler)
  /-- The tasks enqueued in a scheduler, those that a worker has yet to enqueue again, and its
  waiters in contexts, in the hands of threads, or dropped are the tasks scheduled by others, those
  that ended in `READY`, and one task for each waiter registered. -/
  tasks : ∀ scheduler, ((s.core scheduler).enqueued.map Entry.task : Multiset (FiberTask F C)) +
      ∑ w, ((s.core scheduler).worker w).owed +
      tasksOf scheduler (s.poll.ep.waiters + ∑ t, (s.hands t : Multiset (Waiter S F C)) +
        dropped as) =
    (as.flatMap (Action.others scheduler) : Multiset (FiberTask F C)) +
      ((s.core scheduler).readied : Multiset (FiberTask F C)) +
      tasksOf scheduler (registered as)

/-! ## Runs -/

section Runs

variable {tid : S → W → ℤ} {size : ℕ} {as : List (Action T S W F C)} {a : Action T S W F C}
  {s s' : State T S W F C}

/-- Each scheduler takes its own steps. -/
theorem core_step (scheduler : S) (h : Step tid s a s') :
    Run (ofFun (Scheduler.step (tid scheduler))) (s.core scheduler) (a.ofCore scheduler)
      (s'.core scheduler) := by
  cases h with
  | poll hfree hstep hon => exact Run.refl
  | @schedule t waiter rest core hhands hstep =>
    simp only [Action.ofCore]
    split_ifs with heq
    · subst heq
      rw [Function.update_self]
      exact Run.single hstep
    · rw [Function.update_of_ne (Ne.symm heq)]
      exact Run.refl
  | @core scheduler' b core hstep =>
    simp only [Action.ofCore]
    split_ifs with heq
    · subst heq
      rw [Function.update_self]
      exact Run.single hstep
    · rw [Function.update_of_ne (Ne.symm heq)]
      exact Run.refl

variable [Fintype T]

/-- What the threads have in their hands. -/
structure Inv (as : List (Action T S W F C)) (s : State T S W F C) : Prop where
  wf : WF s.poll.ep
  armed : ∀ waiter ∈ s.poll.ep.waiters, waiter.2.nonempty = true
  filled : ∀ t, ∀ waiter ∈ s.hands t, waiter.2.nonempty = true
  waiters : registered as =
    s.poll.ep.waiters + dropped as + (triggered as : Multiset (Waiter S F C))
  hands : ∀ scheduler, (((as.flatMap (Action.ofCore scheduler)).flatMap
      Scheduler.Action.scheduled : List (FiberTask F C)) : Multiset (FiberTask F C)) +
      tasksOf scheduler (∑ t, (s.hands t : Multiset (Waiter S F C))) =
    (as.flatMap (Action.others scheduler) : Multiset (FiberTask F C)) +
      tasksOf scheduler (triggered as : Multiset (Waiter S F C))

omit [DecidableEq T] [DecidableEq W] [DecidableEq F] in
/-- The invariant holds at the start. -/
theorem inv_new (size : ℕ) : Inv ([] : List (Action T S W F C)) (State.new size) := by
  -- a fresh table holds no waiter
  have hzero : (EventPoller.new size : EventPoller S F C).waiters = 0 := by
    refine List.sum_eq_zero fun w hw => ?_
    obtain ⟨c, hc, rfl⟩ := List.mem_map.mp hw
    obtain ⟨fd, -, rfl⟩ := List.mem_map.mp hc
    rfl
  refine ⟨wf_new size, fun waiter hmem => ?_, fun t waiter hmem => ?_, ?_, fun scheduler => ?_⟩
  · rw [State.new, Poll.new, hzero] at hmem
    cases hmem
  · cases hmem
  · rw [State.new, Poll.new, hzero]
    rfl
  · simp [State.new, triggered]

/-- Every step keeps the invariant. -/
theorem Inv.step (h : Inv as s) (hstep : Step tid s a s') : Inv (as ++ [a]) s' := by
  cases hstep with
  | @poll t a p hfree hstep hon =>
    have hwf := poll_step_wf h.wf hstep
    have hsum := poll_step_waiters h.wf hstep
    have hfilled : ∀ waiter ∈ p.ep.waiters + a.dropped + (a.triggered : Multiset (Waiter S F C)),
        waiter.2.nonempty = true := by
      intro waiter hmem
      rw [hsum, Multiset.mem_add] at hmem
      rcases hmem with hmem | hmem
      · exact h.armed waiter hmem
      · exact nonempty_of_registered hstep hmem
    refine ⟨hwf, fun waiter hmem => hfilled waiter ?_, fun u waiter hmem => ?_, ?_,
      fun scheduler => ?_⟩
    · rw [add_assoc]
      exact Multiset.mem_add.mpr (Or.inl hmem)
    · replace hmem : waiter ∈ Function.update s.hands t a.triggered u := hmem
      by_cases hu : u = t
      · subst hu
        rw [Function.update_self] at hmem
        exact hfilled waiter (Multiset.mem_add.mpr (Or.inr hmem))
      · rw [Function.update_of_ne hu] at hmem
        exact h.filled u waiter hmem
    · rw [registered_append, dropped_append, triggered_append, h.waiters]
      simp only [Action.ofPoll, List.map_cons, List.map_nil, List.sum_cons, List.sum_nil,
        List.flatMap_singleton, add_zero, ← Multiset.coe_add]
      calc _ = s.poll.ep.waiters + a.registered + dropped as + triggered as := by ac_rfl
        _ = _ := by rw [← hsum]; ac_rfl
    · -- the hands of the thread were empty, and hold the waiters triggered
      have hhands := Table.sum_update (Multiset.ofList (α := Waiter S F C)) s.hands t a.triggered
      rw [hfree, Multiset.coe_nil, add_zero] at hhands
      rw [triggered_append]
      simp only [List.flatMap_append, List.flatMap_singleton, Action.ofCore, Action.others,
        Action.ofPoll, List.append_nil, ← Multiset.coe_add]
      rw [hhands, tasksOf_add, ← add_assoc, h.hands, tasksOf_add, add_assoc]
  | @schedule t waiter rest core hhands hstep =>
    have hwaiter := h.filled t waiter (by rw [hhands]; exact List.mem_cons_self)
    refine ⟨h.wf, h.armed, fun u waiter' hmem => ?_, ?_, fun scheduler => ?_⟩
    · replace hmem : waiter' ∈ Function.update s.hands t rest u := hmem
      by_cases hu : u = t
      · subst hu
        rw [Function.update_self] at hmem
        exact h.filled u waiter' (by rw [hhands]; exact List.mem_cons_of_mem _ hmem)
      · rw [Function.update_of_ne hu] at hmem
        exact h.filled u waiter' hmem
    · rw [registered_append, dropped_append, triggered_append, h.waiters]
      simp [Action.ofPoll]
    · have hsum := Table.sum_update (Multiset.ofList (α := Waiter S F C)) s.hands t rest
      rw [hhands, ← Multiset.cons_coe, ← Multiset.singleton_add] at hsum
      have hone : ∑ u, (s.hands u : Multiset (Waiter S F C)) =
          ∑ u, (Function.update s.hands t rest u : Multiset (Waiter S F C)) + {waiter} := by
        apply add_right_cancel (b := (rest : Multiset (Waiter S F C)))
        rw [← hsum]
        ac_rfl
      have hold := h.hands scheduler
      rw [hone, tasksOf_add, tasksOf_singleton] at hold
      rw [triggered_append]
      simp only [List.flatMap_append, List.flatMap_singleton, Action.ofCore, Action.others,
        Action.ofPoll, List.flatMap_nil, List.append_nil]
      rw [← hold]
      split_ifs
      · simp only [List.flatMap_singleton, Scheduler.Action.scheduled, hwaiter, if_true,
          ← Multiset.coe_add, Multiset.coe_singleton]
        ac_rfl
      · simp
  | @core scheduler' b core hstep =>
    refine ⟨h.wf, h.armed, h.filled, ?_, fun scheduler => ?_⟩
    · rw [registered_append, dropped_append, triggered_append, h.waiters]
      simp [Action.ofPoll]
    · have hold := h.hands scheduler
      rw [triggered_append]
      simp only [List.flatMap_append, List.flatMap_singleton, Action.ofCore, Action.others,
        Action.ofPoll, List.flatMap_nil, List.append_nil]
      split_ifs
      · simp only [List.flatMap_singleton, ← Multiset.coe_add]
        rw [add_right_comm, hold, add_right_comm]
      · simpa using hold

/-- In every run the run queues are conserved, and a registered waiter becomes one entry of the run
queue of its scheduler. -/
theorem event_tasks [Fintype W] (hrun : Run (Step tid) (State.new size) as s) : Laws tid as s := by
  have hqueue : ∀ scheduler, Scheduler.Conservation (tid scheduler)
      (as.flatMap (Action.ofCore scheduler)) (s.core scheduler) := fun scheduler =>
    Scheduler.run_queue_conservation (hrun.project (π := fun s : State T S W F C =>
      s.core scheduler) fun _ _ _ hstep => core_step scheduler hstep)
  have h := hrun.history (I := Inv) (inv_new size) fun _ _ _ _ hinv hstep => hinv.step hstep
  refine ⟨h.wf.pending, h.waiters, hqueue, fun scheduler => ?_⟩
  have htasks := (hqueue scheduler).tasks
  have hhands := h.hands scheduler
  rw [htasks, h.waiters]
  simp only [tasksOf_add]
  calc _ = (as.flatMap (Action.ofCore scheduler)).flatMap Scheduler.Action.scheduled +
        tasksOf scheduler (∑ t, (s.hands t : Multiset (Waiter S F C))) +
        (s.core scheduler).readied + tasksOf scheduler s.poll.ep.waiters +
        tasksOf scheduler (dropped as) := by ac_rfl
    _ = _ := by
      rw [hhands]
      ac_rfl

/-- A fiber waits for reading. Its event is reported and dispatched, and the fiber is an entry of
the run queue. -/
theorem event_tasks_example :
    ∃ (as : List (Action Unit String Unit ℕ String)) (s : State Unit String Unit ℕ String),
      registered as = {("s", .ofFiber (some 7) (-1))} ∧ s.poll.ep.pendingEventCount = 0 ∧
      (s.core "s").enqueued.map Entry.task = [.ofFiber (some 7) (-1)] ∧
      Laws (fun _ _ => 1) as s := by
  let this : Caller String ℕ := ⟨some "s", 7, .EXEC⟩
  have hadd : (EventPoller.new 2).addEvent 1 .READ none this true = .ok (0, oneReader) := rfl
  have hop : PollStep (.new 2 : Poll Unit String ℕ String)
      (.op (.addEvent 1 .READ ("s", .ofFiber (some 7) (-1)) 0))
      { ep := oneReader, batch := fun _ => [] } := .op (Step.addEvent rfl (by decide) rfl hadd)
  have hwait : PollStep ({ ep := oneReader, batch := fun _ => [] } : Poll Unit String ℕ String)
      (.epoll_wait () [(1, EPOLLIN)])
      (Poll.setBatch { ep := oneReader, batch := fun _ => [] } () [(1, EPOLLIN)]) := by
    refine .epoll_wait rfl fun report hmem => ?_
    obtain rfl := List.mem_singleton.mp hmem
    refine ⟨_, rfl, fun e he => ?_⟩
    cases e with
    | READ => decide
    | WRITE => exact absurd he (by decide)
  have hdispatch : PollStep (Poll.setBatch ({ ep := oneReader, batch := fun _ => [] } :
      Poll Unit String ℕ String) () [(1, EPOLLIN)])
      (.dispatch () [("s", .ofFiber (some 7) (-1))]) _ :=
    .dispatch rfl (show oneReader.dispatch 1 EPOLLIN true = .ok _ from rfl)
  have hcreate : Step (fun _ _ => 1) (State.new 2 : State Unit String Unit ℕ String)
      (.core "s" (.create 7 "body")) _ := .core rfl
  have hrun := (Run.single hcreate).snoc (.poll (t := ()) rfl hop trivial)
  have hrun := (hrun.snoc (.poll rfl hwait rfl)).snoc (.poll rfl hdispatch rfl)
  exact ⟨_, _, rfl, rfl, rfl, event_tasks (hrun.snoc (.schedule (t := ()) rfl rfl))⟩

end Runs

end EventTasks

end Sylar.EventPoller
