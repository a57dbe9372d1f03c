import Sylar.Foundation.Run
import Sylar.Scheduler.Ledger
import Sylar.Scheduler.Steps
import Mathlib.Algebra.BigOperators.Group.Finset.Piecewise

/-!
# Conservation of the run queue

The scheduler simulates the ledger: whatever the workers and their environment do, the entries move
as `Ledger.Step` says. `Conservation` collects what follows for every run, on any number of workers:

* `place`, `ticket`, `tasks` — every entry scheduled is in exactly one place, and a task that ended
  in `READY` is enqueued again once, with the same thread;
* `pinned` — an entry pinned to a thread is only in the hands of that thread;
* `earliest`, `nothing` — a worker takes the earliest entry eligible for it;
* `active` — `m_activeThreadNum` counts the workers between taking an entry and being done with
  it.
-/

namespace Sylar.Scheduler

open Transition

variable {W F C : Type*} [DecidableEq W] [DecidableEq F]

/-! ## Local variables -/

/-- The local variables of a worker agree with the entry it deals with. -/
def Worker.Consistent (wk : Worker F C) : Prop :=
  match wk.phase with
  | .taken e => wk.ft = e.task
  | .inFiber e => wk.ft = e.task ∧ wk.ft.fiber.isSome = true
  | .inCb e thread => thread = e.task.thread_id ∧ wk.cb_fiber.isSome = true
  | .readyFiber => wk.ft.fiber.isSome = true
  | .readyCb _ => wk.cb_fiber.isSome = true
  | _ => True

/-- The worker is between taking an entry and the return of its body, or its discard as stale. -/
def Worker.busy (wk : Worker F C) : Bool :=
  match wk.phase with
  | .taken _ => true
  | .inFiber _ => true
  | .inCb _ _ => true
  | _ => false

/-- The tasks that an action schedules from outside the loop. -/
def Action.scheduled : Action W F C → List (FiberTask F C)
  | .schedule task => if task.nonempty then [task] else []
  | _ => []

omit [DecidableEq W] [DecidableEq F] in
theorem ledger_enqueue (s : State W F C) (task : FiberTask F C) :
    (s.enqueue task).ledger = s.ledger.enqueue task := by
  unfold State.enqueue Ledger.enqueue
  by_cases hne : task.nonempty = true
  · rw [dif_pos hne, dif_pos hne]
    rfl
  · rw [dif_neg hne, dif_neg hne]

omit [DecidableEq F] in
theorem consistent_update {s : State W F C} (h : ∀ w, (s.worker w).Consistent) {w : W}
    {wk : Worker F C} (hwk : wk.Consistent) (v : W) :
    (Function.update s.worker w wk v).Consistent := by
  by_cases hv : v = w
  · subst hv
    rwa [Function.update_self]
  · rw [Function.update_of_ne hv]
    exact h v

variable {tid : W → ℤ} {s s' : State W F C} {a : Action W F C}

omit [DecidableEq F] in
theorem ledger_requeue (s : State W F C) (task : FiberTask F C) (w : W) (wk : Worker F C) :
    ((s.enqueue task).setWorker w wk).ledger =
      { s.ledger.enqueue task with worker := Function.update s.worker w wk } := by
  rw [← ledger_enqueue, ← worker_enqueue s task]
  rfl

/-- Every step of the scheduler is one of the ledger, and keeps the local variables consistent. -/
theorem ledger_step (h : ∀ w, (s.worker w).Consistent) (hstep : step tid s a = some s') :
    Ledger.Step tid s.ledger a.scheduled s'.ledger ∧ ∀ w, (s'.worker w).Consistent := by
  cases stepCase_of_step hstep with
  | create hfree => exact ⟨.stay, h⟩
  | copy hheld => exact ⟨.stay, h⟩
  | release hheld => exact ⟨.stay, h⟩
  | getThis hcur => exact ⟨.stay, h⟩
  | @schedule task hheld =>
    rw [ledger_enqueue, worker_enqueue]
    exact ⟨.schedule task, h⟩
  | @reset w hw =>
    refine ⟨.move w _ ?_ ?_, consistent_update h trivial⟩
      <;> simp [State.ledger, Worker.hand, Worker.owed, hw]
  | @take w e rest hw hscan =>
    refine ⟨.take w _ hscan ?_ rfl ?_, consistent_update h rfl⟩
      <;> simp [State.ledger, Worker.hand, Worker.owed, hw]
  | @takeNone w hw hscan =>
    refine ⟨.move w _ ?_ ?_, consistent_update h trivial⟩
      <;> simp [State.ledger, Worker.hand, Worker.owed, hw]
  | @startFiber w fresh f e fiber hw hft hf hended =>
    have hwk := h w
    simp only [Worker.Consistent, hw] at hwk
    refine ⟨.move w _ ?_ ?_, consistent_update h ⟨hwk, by simp [hft]⟩⟩
      <;> simp [State.ledger, Worker.hand, Worker.owed, hw]
  | @startCb w fresh f e cb fiber hw hcb hcbf hf =>
    -- `ft` is emptied; the thread id is kept in `_thread`
    have hwk := h w
    simp only [Worker.Consistent, hw] at hwk
    refine ⟨.move w _ ?_ ?_, consistent_update h ⟨congrArg FiberTask.thread_id hwk, rfl⟩⟩
      <;> simp [State.ledger, Worker.hand, Worker.owed, hw]
  | @startNew w fresh e cb hw hcb hcbf hfree =>
    have hwk := h w
    simp only [Worker.Consistent, hw] at hwk
    refine ⟨.move w _ ?_ ?_, consistent_update h ⟨congrArg FiberTask.thread_id hwk, rfl⟩⟩
      <;> simp [State.ledger, Worker.hand, Worker.owed, hw]
  | @stale w fresh e hw hcb hstale =>
    -- nothing has run, and the entry is done with
    refine ⟨.discard w _ ?_ rfl ?_ rfl, consistent_update h trivial⟩
      <;> simp [State.ledger, Worker.hand, Worker.owed, hw]
  | @fiberReady w f e fiber hw hft hf hleave =>
    have hwk := h w
    simp only [Worker.Consistent, hw] at hwk
    have htask : e.task.fiber = some f := by rw [← hwk.1, hft]
    -- what is owed is the fiber of the entry, pinned as the entry was
    refine ⟨.consume w _ [.ofFiber (some f) e.task.thread_id] ?_ rfl ?_ ?_,
      consistent_update h hwk.2⟩
    · simp [State.ledger, Worker.hand, hw]
    · simp [State.ledger, Worker.owed, hw]
    · simp [Worker.owed, hwk.1, htask]
  | @fiberHold w f e fiber hw hft hf hleave =>
    refine ⟨.discard w _ ?_ rfl ?_ rfl, consistent_update h trivial⟩
      <;> simp [State.ledger, Worker.hand, Worker.owed, hw]
  | @fiberEnded w f e fiber outcome hw hft hf hleave hended =>
    refine ⟨.discard w _ ?_ rfl ?_ rfl, consistent_update h trivial⟩
      <;> simp [State.ledger, Worker.hand, Worker.owed, hw]
  | @cbReady w f e thread fiber hw hcbf hf hleave =>
    have hwk := h w
    simp only [Worker.Consistent, hw] at hwk
    -- the fiber made for the callback is owed, pinned as the callback was
    refine ⟨.consume w _ [.ofFiber (some f) e.task.thread_id] ?_ rfl ?_ ?_,
      consistent_update h hwk.2⟩
    · simp [State.ledger, Worker.hand, hw]
    · simp [State.ledger, Worker.owed, hw]
    · simp [Worker.owed, hcbf, hwk.1]
  | @cbHold w f e thread fiber hw hcbf hf hleave =>
    refine ⟨.discard w _ ?_ rfl ?_ rfl, consistent_update h trivial⟩
      <;> simp [State.ledger, Worker.hand, Worker.owed, hw]
  | @cbEnded w f e thread fiber outcome hw hcbf hf hleave hended =>
    refine ⟨.discard w _ ?_ rfl ?_ rfl, consistent_update h trivial⟩
      <;> simp [State.ledger, Worker.hand, Worker.owed, hw]
  | @requeueFiber w hw | @requeueCb w thread hw =>
    have hwk := h w
    simp only [Worker.Consistent, hw] at hwk
    rw [ledger_requeue]
    refine ⟨.requeue w _ ?_ ?_ rfl ?_, ?_⟩
    · simpa [FiberTask.nonempty, FiberTask.ofFiber] using hwk
    · simp [State.ledger, Worker.owed, hw]
    · simp [State.ledger, Worker.hand, hw]
    · exact consistent_update (fun v => by rw [worker_enqueue]; exact h v) trivial
  | @exit w hw hidle =>
    refine ⟨.move w _ ?_ ?_, consistent_update h trivial⟩
      <;> simp [State.ledger, Worker.hand, Worker.owed, hw]
  | @idle w hw hidle =>
    refine ⟨.move w _ ?_ ?_, consistent_update h trivial⟩
      <;> simp [State.ledger, Worker.hand, Worker.owed, hw]
  | @idleReturn w returns hw =>
    refine ⟨.move w _ ?_ ?_, consistent_update h trivial⟩
      <;> simp [State.ledger, Worker.hand, Worker.owed, hw]

/-! ## Runs -/

/-- In every run the ledger keeps its invariant. -/
theorem ledger_inv [Fintype W] {as : List (Action W F C)}
    (hrun : Run (ofFun (step tid)) State.new as s) :
    Ledger.Inv tid (as.flatMap Action.scheduled) s.ledger ∧ ∀ w, (s.worker w).Consistent := by
  refine hrun.history (I := fun as s => Ledger.Inv tid (as.flatMap Action.scheduled) s.ledger ∧
    ∀ w, (s.worker w).Consistent) ⟨Ledger.inv_new, fun _ => trivial⟩ fun as s a s' h hstep => ?_
  obtain ⟨hinv, hcons⟩ := h
  obtain ⟨hledger, hcons'⟩ := ledger_step hcons hstep
  rw [List.flatMap_append, List.flatMap_singleton]
  exact ⟨hinv.step hledger, hcons'⟩

/-- The conservation law in a state `s` reached by the actions `as`. -/
structure Conservation [Fintype W] (tid : W → ℤ) (as : List (Action W F C)) (s : State W F C) :
    Prop where
  /-- An entry enqueued is in the queue, in the hands of one worker, or consumed. -/
  place : (s.sched.fibers : Multiset (Entry F C)) + ∑ w, (s.worker w).hand + s.consumed =
    s.enqueued
  /-- The entries enqueued are numbered, so each of them is in one place only once. -/
  ticket : s.enqueued.map Entry.ticket = List.range s.enqueued.length
  /-- A task is enqueued for each task scheduled and for each task that ended in `READY`, except
  those that a worker has yet to enqueue again. -/
  tasks : (s.enqueued.map Entry.task : Multiset (FiberTask F C)) + ∑ w, (s.worker w).owed =
    (as.flatMap Action.scheduled : Multiset (FiberTask F C)) + s.readied
  /-- An entry pinned to a thread is only in the hands of that thread. -/
  pinned : ∀ w, ∀ e ∈ (s.worker w).hand, e.task.thread_id = -1 ∨ e.task.thread_id = tid w
  /-- What a scan takes is eligible, and no eligible entry has been enqueued earlier. The other
  entries keep their order. -/
  earliest : ∀ w e rest, scan s.executing (tid w) s.sched.fibers = some (e, rest) →
    Eligible s.executing (tid w) e ∧
    (∀ e' ∈ s.sched.fibers, Eligible s.executing (tid w) e' → e.ticket ≤ e'.ticket) ∧
    ∃ pre post, s.sched.fibers = pre ++ e :: post ∧ rest = pre ++ post
  /-- A scan finds nothing only if no entry is eligible. -/
  nothing : ∀ w, scan s.executing (tid w) s.sched.fibers = none →
    ∀ e ∈ s.sched.fibers, ¬ Eligible s.executing (tid w) e
  /-- The counter counts the workers between taking an entry and being done with it. -/
  active : s.sched.activeThreadNum =
    (Finset.univ.filter fun w => (s.worker w).busy = true).card

omit [DecidableEq F] in
/-- A worker has at most one entry in its hands. -/
theorem Worker.card_hand (wk : Worker F C) : wk.hand.card = if wk.busy = true then 1 else 0 := by
  unfold Worker.hand Worker.busy
  cases wk.phase <;> rfl

/-- In every run, on any number of workers, entries are conserved. -/
theorem run_queue_conservation [Fintype W] {as : List (Action W F C)}
    (hrun : Run (ofFun (step tid)) State.new as s) : Conservation tid as s := by
  obtain ⟨hinv, -⟩ := ledger_inv hrun
  refine ⟨hinv.place, hinv.ticket, hinv.tasks, hinv.pinned, fun w e rest hscan => ?_,
    fun w hscan => scan_eq_none.mp hscan, ?_⟩
  · obtain ⟨pre, post, hq, hrest, helig, hpre⟩ := scan_eq_some hscan
    refine ⟨helig, fun e' he' helig' => ?_, pre, post, hq, hrest⟩
    have hsorted : s.sched.fibers.Pairwise fun e e' => e.ticket < e'.ticket := hinv.sorted
    rw [hq] at he' hsorted
    -- an eligible entry is not among those passed over
    rcases List.mem_append.mp he' with hmem | hmem
    · exact absurd helig' (hpre e' hmem)
    · rcases List.mem_cons.mp hmem with rfl | hmem
      · exact le_rfl
      · have htail := (List.pairwise_append.mp hsorted).2.1
        exact (List.rel_of_pairwise_cons htail hmem).le
  · -- a busy worker has one entry in its hands, the others have none
    rw [Finset.card_filter]
    refine hinv.active.trans (Finset.sum_congr rfl fun w _ => ?_)
    exact (s.worker w).card_hand

/-- Two workers: the first one runs a fiber pinned to it, which ends in `READY` and is enqueued
again, while the second one takes a callback. -/
theorem run_queue_conservation_example :
    ∃ (as : List (Action Bool ℕ String)) (s : State Bool ℕ String),
      as.length = 14 ∧ s.sched.fibers.length = 1 ∧ s.sched.activeThreadNum = 1 ∧
      Conservation (fun w => if w then 2 else 1) as s := by
  have hexec : exec (step fun w => if w then 2 else 1) (State.new : State Bool ℕ String)
      [.create 7 "body", .schedule (.ofFiber (some 7) 1), .schedule (.ofCb (some "f") (-1)),
        .reset false, .reset true, .dequeue true, .dequeue false, .start false 8, .start true 9,
        .getThis false, .copy 7, .finish false .ready, .requeue false, .release 7] =
      some _ := rfl
  exact ⟨_, _, rfl, rfl, rfl, run_queue_conservation (Run.of_exec hexec)⟩

end Sylar.Scheduler
