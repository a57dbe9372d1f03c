import Sylar.Scheduler.Frame
import Mathlib.Data.Fintype.Option

/-!
# Stopping the scheduler

Model of `Scheduler::start`, `Scheduler::stop` and the constructor's `use_caller`, around the loop
of the workers. A base `Scheduler` has an `idle` that returns at once, so a worker leaves `run` when
it has found nothing to take for the second time.

Representation:

* the workers are the threads of the pool, `some p`, and `m_mainFiber`, `none`, which runs on the
  caller's thread from `m_mainFiber->call()` on and only exists with `use_caller`;
* tasks are scheduled from outside only before `stop` is called;
* `executed` records the entries that have been executed, only to state what happens to them.

The results:

* `DrainLaw` — no null `m_mainFiber` is called, and when `stop` returns, the queue is empty and
  every entry has been executed once;
* `Attended` — no entry is left without a worker that may take it;
* `drain_law` — in a run whose steps are all `Attended`, the law holds in every state;
* `not_drainLaw_exited` — it fails when a task arrives after the workers have left `run`.
-/

namespace Sylar.Scheduler.Stop

open Transition

variable {P F C : Type*}

/-- Places of the thread that calls `stop`. -/
inductive Control
  /-- Before `stop`. -/
  | serving
  /-- Joining the threads. -/
  | joining
  /-- In `m_mainFiber->call()`. -/
  | calling
  | returned
  /-- `m_mainFiber->call()` on a null `m_mainFiber`. -/
  | nullCall
  deriving DecidableEq, Repr

/-- A scheduler with its threads. `started` says that the threads of the pool have been created. -/
structure State (P F C : Type*) where
  base : Scheduler.State (Option P) F C
  mainFiber : Option Fiber.State
  started : Bool
  control : Control
  executed : List (Entry F C)

/-- `Scheduler::Scheduler`. -/
def State.new (use_caller : Bool) : State P F C where
  base := .new
  mainFiber := if use_caller then some .INIT else none
  started := false
  control := .serving
  executed := []

/-- Store `m_running` and `m_autoStop`. -/
def State.setFlags (s : State P F C) (running autoStop : Bool) : State P F C :=
  { s with base := { s.base with
      sched := { s.base.sched with running := running, autoStop := autoStop } } }

/-- `Scheduler::start()`. -/
def State.start (s : State P F C) : State P F C :=
  if s.base.sched.running then s
  else { s.setFlags true s.base.sched.autoStop with started := true }

/-- `Scheduler::stop()` up to joining the threads, with `threadNum` of them. -/
def State.stop (s : State P F C) (threadNum : ℕ) : State P F C :=
  let s := s.setFlags s.base.sched.running true
  if (s.mainFiber = some .TERM ∨ s.mainFiber = some .INIT) ∧ threadNum = 0 then
    -- no thread but the caller's: if nothing is left to do, `stop` is done
    let s := s.setFlags false true
    if stopping s.base.sched then { s with control := .returned }
    else { s with control := .joining }
  else { s.setFlags false true with control := .joining }

/-- `Scheduler::stop()` after joining the threads. -/
def State.join (s : State P F C) : State P F C :=
  -- the test on `m_mainFiber` above this line in the source guards `tickle` only
  if !stopping s.base.sched then
    match s.mainFiber with
    | some _ => { s with control := .calling, mainFiber := some .EXEC }
    | none => { s with control := .nullCall }
  else { s with control := .returned }

/-! ## Steps -/

/-- A step of the scheduler and its environment. -/
inductive Action (P F C : Type*)
  | start
  /-- A step of a worker or of the environment. -/
  | run (a : Scheduler.Action (Option P) F C)
  | stop
  /-- All threads have been joined. -/
  | join
  /-- `run` on `m_mainFiber` has returned. -/
  | mainReturns

/-- The worker has a thread. -/
def State.runs (s : State P F C) : Option P → Bool
  | some _ => s.started
  | none => s.control = .calling

/-- The step may be taken: its worker has a thread, `idle` does not yield, and nothing is scheduled
from outside after `stop` has been called. -/
def State.allows (s : State P F C) (a : Scheduler.Action (Option P) F C) : Bool :=
  a.actor.all s.runs &&
    match a with
    | .schedule _ => s.control = .serving
    | .idleReturn _ returns => returns
    | _ => true

/-- The thread of the pool is not there, or has left `run`. -/
def State.Joinable (s : State P F C) (p : P) : Prop :=
  s.started = false ∨ (s.base.worker (some p)).phase = .exited

variable [Fintype P] [DecidableEq P] [DecidableEq F]

/-- The steps. The thread of worker `w` is `tid w`. -/
inductive Step (tid : Option P → ℤ) (s : State P F C) : Action P F C → State P F C → Prop
  | start (hcontrol : s.control = .serving) : Step tid s .start s.start
  | run {a : Scheduler.Action (Option P) F C} {base : Scheduler.State (Option P) F C}
      (hallows : s.allows a = true) (hstep : step tid s.base a = some base) :
      Step tid s (.run a) { s with base := base, executed := s.executed ++ s.base.executes a }
  | stop (hcontrol : s.control = .serving) : Step tid s .stop (s.stop (Fintype.card P))
  | join (hcontrol : s.control = .joining) (hthreads : ∀ p, s.Joinable p) : Step tid s .join s.join
  | mainReturns (hcontrol : s.control = .calling)
      (hexited : (s.base.worker none).phase = .exited) :
      Step tid s .mainReturns { s with control := .returned, mainFiber := some .TERM }

/-! ## The law -/

/-- What a graceful stop promises. -/
structure DrainLaw (s : State P F C) : Prop where
  noNullCall : s.control ≠ .nullCall
  drained : s.control = .returned → s.base.sched.fibers = [] ∧
    (s.executed : Multiset (Entry F C)) = s.base.enqueued

/-- The worker has a thread or may still get one. -/
def State.HasThread (s : State P F C) : Option P → Prop
  | some _ => s.started = true ∨ s.control = .serving
  | none => s.mainFiber ≠ none

/-- The worker has not left `run`, or will enter it. -/
def State.Serves (s : State P F C) (w : Option P) : Prop :=
  s.HasThread w ∧ (s.base.worker w).phase ≠ .exited

/-- No task is left without a worker that may take it: when a task is scheduled, there is such a
worker; a worker leaves `run` only if there is another one for each entry in the queue; and if
`stop` is called without `start`, then `m_mainFiber` is the one. -/
def Attended (tid : Option P → ℤ) (s : State P F C) : Action P F C → Prop
  | .run (.schedule task) => task.nonempty = true →
      ∃ w, s.Serves w ∧ MayTake task.thread_id (tid w)
  | .run (.idle w) => (s.base.worker w).idle_fiber = .TERM →
      ∀ e ∈ s.base.sched.fibers, ∃ v, v ≠ w ∧ s.Serves v ∧ MayTake e.task.thread_id (tid v)
  | .stop => s.started = false →
      ∀ e ∈ s.base.sched.fibers, s.Serves none ∧ MayTake e.task.thread_id (tid none)
  | _ => True

/-! ## The invariant -/

/-- What holds of the loop of the workers, with the entries executed so far. -/
structure Books (tid : Option P → ℤ) (s : Scheduler.State (Option P) F C)
    (executed : List (Entry F C)) : Prop where
  ledger : ∃ scheduled, Ledger.Inv tid scheduled s.ledger
  consistent : ∀ w, (s.worker w).Consistent
  allocated : Allocated s
  owed : ∀ w, ∀ task ∈ (s.worker w).owed, MayTake task.thread_id (tid w)
  executed : executed = s.consumed

/-- What holds in every state of a run whose steps are all `Attended`. -/
structure Inv (tid : Option P → ℤ) (s : State P F C) : Prop where
  books : Books tid s.base s.executed
  /-- Threads that have not been created are at the start of `run`. -/
  pool : s.started = false → ∀ p, (s.base.worker (some p)).phase = .loop
  main : s.control = .serving ∨ s.control = .joining → (s.base.worker none).phase = .loop
  mainFiber : s.control = .calling → s.mainFiber ≠ none
  attended : ∀ e ∈ s.base.sched.fibers, ∃ w, s.Serves w ∧ MayTake e.task.thread_id (tid w)
  stopped : s.control ≠ .serving →
    s.base.sched.running = false ∧ s.base.sched.autoStop = true
  joined : s.control = .calling ∨ s.control = .returned → ∀ p, s.Joinable p
  noNullCall : s.control ≠ .nullCall
  returned : s.control = .returned →
    s.base.sched.fibers = [] ∧ ∀ w, (s.base.worker w).hand = 0

variable {tid : Option P → ℤ} {s s' : State P F C} {t t' : Scheduler.State (Option P) F C}
  {a : Scheduler.Action (Option P) F C} {executed : List (Entry F C)}

omit [DecidableEq P] [DecidableEq F] in
theorem inv_new (tid : Option P → ℤ) (use_caller : Bool) :
    Inv tid (State.new use_caller : State P F C) where
  books :=
    { ledger := ⟨[], Ledger.inv_new⟩
      consistent := fun _ => trivial
      allocated := allocated_new
      owed := by simp [State.new, Scheduler.State.new, Worker.new, Worker.owed]
      executed := rfl }
  pool := fun _ _ => rfl
  main := fun _ => rfl
  mainFiber := nofun
  attended := nofun
  stopped := fun h => absurd rfl h
  joined := by simp [State.new]
  noNullCall := nofun
  returned := nofun

/-- A step of the loop keeps the books. -/
theorem Books.step (h : Books tid t executed) (hstep : Scheduler.step tid t a = some t') :
    Books tid t' (executed ++ t.executes a) := by
  obtain ⟨scheduled, hledger⟩ := h.ledger
  obtain ⟨hledger', hcons'⟩ := ledger_step h.consistent hstep
  have hcase := stepCase_of_step hstep
  refine ⟨⟨_, hledger.step hledger'⟩, hcons', h.allocated.step hcase, ?_, ?_⟩
  · intro w task htask
    rcases owed_step (h.consistent w) hcase htask with hold | ⟨e, he, hthread⟩
    · exact h.owed w task hold
    · rw [hthread]
      exact hledger.pinned w e he
  · rw [h.executed, consumed_step h.consistent h.allocated hcase]

omit [DecidableEq P] [DecidableEq F] in
/-- The counter is `0` if and only if no worker has an entry in its hands. -/
theorem Books.active_eq_zero (h : Books tid t executed) :
    t.sched.activeThreadNum = 0 ↔ ∀ w, (t.worker w).hand = 0 := by
  obtain ⟨scheduled, hledger⟩ := h.ledger
  have hactive : t.sched.activeThreadNum = ∑ w, (t.worker w).hand.card := hledger.active
  rw [hactive, Finset.sum_eq_zero_iff]
  simp

omit [DecidableEq P] [DecidableEq F] in
/-- When the queue and the hands are empty, every entry has been executed. -/
theorem Books.drained (h : Books tid t executed) (hfibers : t.sched.fibers = [])
    (hhands : ∀ w, (t.worker w).hand = 0) : (executed : Multiset (Entry F C)) = t.enqueued := by
  obtain ⟨scheduled, hledger⟩ := h.ledger
  have hplace : (t.sched.fibers : Multiset (Entry F C)) + ∑ w, (t.worker w).hand + t.consumed =
    t.enqueued := hledger.place
  rw [hfibers, Finset.sum_eq_zero fun w _ => hhands w] at hplace
  rw [h.executed, ← hplace]
  simp

omit [Fintype P] [DecidableEq P] [DecidableEq F] in
/-- After joining the threads, none of them serves the queue. -/
theorem not_serves_of_joinable {p : P} (hcontrol : s.control ≠ .serving) (hp : s.Joinable p) :
    ¬ s.Serves (some p) := by
  rintro ⟨hthread, hphase⟩
  -- a thread that can be joined was never created, or has left `run`
  rcases hp with hnot | hexited
  · rcases hthread with hstarted | hserving
    · rw [hnot] at hstarted
      cases hstarted
    · exact hcontrol hserving
  · exact hphase hexited

omit [DecidableEq P] [DecidableEq F] in
/-- Nor does it have an entry in its hands. -/
theorem Inv.hand_of_joinable (h : Inv tid s) {p : P} (hp : s.Joinable p) :
    (s.base.worker (some p)).hand = 0 := by
  rcases hp with hnot | hexited
  · simp [Worker.hand, h.pool hnot p]
  · simp [Worker.hand, hexited]

omit [DecidableEq P] [DecidableEq F] in
/-- The flags of the scheduler are no part of the books. -/
theorem Books.setFlags (h : Books tid s.base executed) (running autoStop : Bool) :
    Books tid (s.setFlags running autoStop).base executed :=
  ⟨h.ledger, h.consistent, h.allocated, h.owed, h.executed⟩

omit [DecidableEq P] [DecidableEq F] in
/-- After joining the threads, with the scheduler stopped, `stopping()` says whether the queue and
the hands are empty. -/
theorem Books.stopping_iff (h : Books tid t executed) (hrunning : t.sched.running = false)
    (hautoStop : t.sched.autoStop = true) :
    stopping t.sched = true ↔ t.sched.fibers = [] ∧ ∀ w, (t.worker w).hand = 0 := by
  rw [← h.active_eq_zero]
  simp [stopping, hrunning, hautoStop]

omit [Fintype P] [DecidableEq P] [DecidableEq F] in
theorem runs_of_allows (hallows : s.allows a = true) {w : Option P} (hw : a.actor = some w) :
    s.runs w = true := by
  unfold State.allows at hallows
  rw [hw] at hallows
  exact (Bool.and_eq_true_iff.mp hallows).1

omit [Fintype P] [DecidableEq P] [DecidableEq F] in
theorem serving_of_allows {task : FiberTask F C} (hallows : s.allows (.schedule task) = true) :
    s.control = .serving := by
  unfold State.allows at hallows
  simpa using (Bool.and_eq_true_iff.mp hallows).2

/-! ## What one step preserves -/

omit [DecidableEq P] [DecidableEq F] in
/-- `start` keeps the invariant. -/
theorem Inv.start (h : Inv tid s) (hcontrol : s.control = .serving) : Inv tid s.start := by
  unfold State.start
  split
  · exact h
  · exact
      { books := h.books.setFlags _ _
        pool := nofun
        main := h.main
        mainFiber := h.mainFiber
        attended := fun e he => by
          obtain ⟨w, ⟨hthread, hphase⟩, hmay⟩ := h.attended e he
          refine ⟨w, ⟨?_, hphase⟩, hmay⟩
          cases w with
          | none => exact hthread
          | some p => exact Or.inl rfl
        stopped := fun hne => absurd hcontrol hne
        joined := fun hjoined => by
          rcases hjoined with hc | hc <;> cases hcontrol.symm.trans hc
        noNullCall := h.noNullCall
        returned := fun hc => by cases hcontrol.symm.trans hc }

/-- A step of a worker or of the environment keeps the queue attended. -/
theorem Inv.attended_run (h : Inv tid s) (hattended : Attended tid s (.run a))
    (hallows : s.allows a = true) (hcase : StepCase tid s.base a t') :
    ∀ e ∈ t'.sched.fibers, ∃ w, (s.HasThread w ∧ (t'.worker w).phase ≠ .exited) ∧
      MayTake e.task.thread_id (tid w) := by
  intro e he
  rcases mem_fibers_step hcase he with hold | hsched | ⟨w, hactor, howed, hloop⟩
  · obtain ⟨w, ⟨hthread, hphase⟩, hmay⟩ := h.attended e hold
    by_cases hexit : (t'.worker w).phase = .exited
    · -- the worker that served `e` leaves `run`, and another one is left
      obtain ⟨rfl, -, hidle⟩ := (exited_step hcase hexit).resolve_left hphase
      obtain ⟨v, hne, ⟨hthread', hphase'⟩, hmay'⟩ := hattended hidle e hold
      refine ⟨v, ⟨hthread', ?_⟩, hmay'⟩
      rw [worker_of_ne hcase (by simpa [Action.actor, eq_comm] using hne)]
      exact hphase'
    · exact ⟨w, ⟨hthread, hexit⟩, hmay⟩
  · subst hsched
    obtain ⟨w, ⟨hthread, hphase⟩, hmay⟩ := hattended e.nonempty
    refine ⟨w, ⟨hthread, ?_⟩, hmay⟩
    rw [worker_of_actor_none hcase rfl]
    exact hphase
  · -- the worker that enqueues a task again may take it itself
    refine ⟨w, ⟨?_, by rw [hloop]; nofun⟩, h.books.owed w _ howed⟩
    have hruns := runs_of_allows hallows hactor
    cases w with
    -- `m_mainFiber` runs only while it is being called
    | none => exact h.mainFiber (by simpa [State.runs] using hruns)
    | some p => exact Or.inl hruns

/-- A step of a worker or of the environment keeps the invariant. -/
theorem Inv.run (h : Inv tid s) (hattended : Attended tid s (.run a)) (hallows : s.allows a = true)
    (hstep : Scheduler.step tid s.base a = some t') :
    Inv tid { s with base := t', executed := s.executed ++ s.base.executes a } := by
  have hcase := stepCase_of_step hstep
  have hjoinable : ∀ p, s.Joinable p → a.actor ≠ some (some p) := by
    rintro p (hnot | hexited) hactor
    · have hruns : s.started = true := runs_of_allows hallows hactor
      rw [hnot] at hruns
      cases hruns
    · exact not_exited hcase hactor hexited
  have hmain : s.control ≠ .calling → a.actor ≠ some none := by
    intro hne hactor
    exact hne (by simpa [State.runs] using runs_of_allows hallows hactor)
  exact
    { books := h.books.step hstep
      pool := fun hnot p => by
        show (t'.worker (some p)).phase = _
        rw [worker_of_ne hcase (hjoinable p (Or.inl hnot))]
        exact h.pool hnot p
      main := fun hcontrol => by
        show (t'.worker none).phase = _
        rw [worker_of_ne hcase (hmain (by rcases hcontrol with hc | hc <;> rw [hc] <;> nofun))]
        exact h.main hcontrol
      mainFiber := h.mainFiber
      attended := h.attended_run hattended hallows hcase
      stopped := fun hne => by
        obtain ⟨hrunning, hautoStop⟩ := flags_step hcase
        show t'.sched.running = false ∧ t'.sched.autoStop = true
        rw [hrunning, hautoStop]
        exact h.stopped hne
      joined := fun hcontrol p => by
        have hp := h.joined hcontrol p
        refine hp.imp_right fun hexited => ?_
        show (t'.worker (some p)).phase = _
        rw [worker_of_ne hcase (hjoinable p hp)]
        exact hexited
      noNullCall := h.noNullCall
      returned := fun hcontrol => by
        -- no worker takes a step any more, and nothing is scheduled
        obtain ⟨hfibers, hhands⟩ := h.returned hcontrol
        have hactor : a.actor = none := by
          cases hactor : a.actor with
          | none => rfl
          | some w =>
            cases w with
            | none => exact absurd hactor (hmain (by rw [hcontrol]; nofun))
            | some p => exact absurd hactor (hjoinable p (h.joined (Or.inr hcontrol) p))
        refine ⟨?_, fun w => ?_⟩
        · refine List.eq_nil_iff_forall_not_mem.mpr fun e he => ?_
          rcases mem_fibers_step hcase he with hold | hsched | ⟨w, hw, -⟩
          · rw [hfibers] at hold
            cases hold
          · subst hsched
            rw [serving_of_allows hallows] at hcontrol
            cases hcontrol
          · rw [hactor] at hw
            cases hw
        · show (t'.worker w).hand = 0
          rw [worker_of_actor_none hcase hactor]
          exact hhands w }

omit [DecidableEq P] [DecidableEq F] in
/-- While the threads are being joined the invariant holds, if the queue was attended. -/
theorem Inv.joining (h : Inv tid s) (hattended : Attended tid s .stop)
    (hcontrol : s.control = .serving) :
    Inv tid { s.setFlags false true with control := .joining } where
  books := h.books.setFlags _ _
  pool := h.pool
  main := fun _ => h.main (Or.inl hcontrol)
  mainFiber := nofun
  attended := by
    intro e he
    -- threads of the pool that have been created go on serving the queue
    by_cases hstarted : s.started = true
    · obtain ⟨w, ⟨hthread, hphase⟩, hmay⟩ := h.attended e he
      refine ⟨w, ⟨?_, hphase⟩, hmay⟩
      cases w with
      | none => exact hthread
      | some p => exact Or.inl hstarted
    · obtain ⟨⟨hthread, hphase⟩, hmay⟩ := hattended (by simpa using hstarted) e he
      exact ⟨none, ⟨hthread, hphase⟩, hmay⟩
  stopped := fun _ => ⟨rfl, rfl⟩
  joined := by simp
  noNullCall := nofun
  returned := nofun

omit [DecidableEq P] [DecidableEq F] in
/-- `stop` keeps the invariant, up to joining the threads. -/
theorem Inv.stop (h : Inv tid s) (hattended : Attended tid s .stop)
    (hcontrol : s.control = .serving) : Inv tid (s.stop (Fintype.card P)) := by
  unfold State.stop
  dsimp only
  split
  · rename_i hmain
    split
    · -- without threads, and with nothing to do
      rename_i hstopping
      have hempty : IsEmpty P := Fintype.card_eq_zero_iff.mp hmain.2
      have hdrained := ((h.books.setFlags false true).stopping_iff rfl rfl).mp hstopping
      exact
        { books := h.books.setFlags _ _
          pool := h.pool
          main := by simp
          mainFiber := nofun
          attended := fun e he => absurd he (List.eq_nil_iff_forall_not_mem.mp hdrained.1 e)
          stopped := fun _ => ⟨rfl, rfl⟩
          joined := fun _ p => hempty.elim p
          noNullCall := nofun
          returned := fun _ => hdrained }
    · exact h.joining hattended hcontrol
  · exact h.joining hattended hcontrol

omit [DecidableEq P] [DecidableEq F] in
/-- After joining the threads, only `m_mainFiber` is left to serve the queue. -/
theorem Inv.serves_main (h : Inv tid s) (hcontrol : s.control ≠ .serving)
    (hthreads : ∀ p, s.Joinable p) {e : Entry F C} (he : e ∈ s.base.sched.fibers) :
    s.Serves none ∧ MayTake e.task.thread_id (tid none) := by
  obtain ⟨w, hserves, hmay⟩ := h.attended e he
  cases w with
  | none => exact ⟨hserves, hmay⟩
  | some p => exact absurd hserves (not_serves_of_joinable hcontrol (hthreads p))

omit [DecidableEq P] [DecidableEq F] in
/-- The rest of `stop` keeps the invariant: if something is left to do, there is an `m_mainFiber` to
do it. -/
theorem Inv.join (h : Inv tid s) (hcontrol : s.control = .joining)
    (hthreads : ∀ p, s.Joinable p) : Inv tid s.join := by
  have hne : s.control ≠ .serving := by
    simp [hcontrol]
  obtain ⟨hrunning, hautoStop⟩ := h.stopped hne
  have hstopping := h.books.stopping_iff hrunning hautoStop
  have hhands : ∀ w, (s.base.worker w).hand = 0 := by
    intro w
    cases w with
    | none => simp [Worker.hand, h.main (Or.inr hcontrol)]
    | some p => exact h.hand_of_joinable (hthreads p)
  unfold State.join
  split
  · rename_i hnot
    -- the hands are empty, so an entry is left in the queue
    obtain ⟨e, he⟩ : ∃ e, e ∈ s.base.sched.fibers := by
      refine List.exists_mem_of_ne_nil _ fun hfibers => ?_
      rw [hstopping.mpr ⟨hfibers, hhands⟩] at hnot
      cases hnot
    have hexists : s.mainFiber ≠ none := (h.serves_main hne hthreads he).1.1
    split
    · exact
        { books := h.books
          pool := h.pool
          main := by simp
          mainFiber := by simp
          attended := fun e he => by
            obtain ⟨⟨-, hphase⟩, hmay⟩ := h.serves_main hne hthreads he
            exact ⟨none, ⟨by simp [State.HasThread], hphase⟩, hmay⟩
          stopped := fun _ => ⟨hrunning, hautoStop⟩
          joined := fun _ => hthreads
          noNullCall := by simp
          returned := by simp }
    · rename_i hnull
      exact absurd hnull hexists
  · rename_i hstop
    have hdrained := hstopping.mp (by simpa using hstop)
    exact
      { books := h.books
        pool := h.pool
        main := by simp
        mainFiber := by simp
        attended := fun e he => by
          rw [hdrained.1] at he
          cases he
        stopped := fun _ => ⟨hrunning, hautoStop⟩
        joined := fun _ => hthreads
        noNullCall := by simp
        returned := fun _ => hdrained }

omit [DecidableEq P] [DecidableEq F] in
/-- The return from `m_mainFiber` keeps the invariant: nobody is left to serve the queue, so it is
empty. -/
theorem Inv.mainReturns (h : Inv tid s) (hcontrol : s.control = .calling)
    (hexited : (s.base.worker none).phase = .exited) :
    Inv tid { s with control := .returned, mainFiber := some .TERM } := by
  have hne : s.control ≠ .serving := by
    rw [hcontrol]
    nofun
  have hfibers : s.base.sched.fibers = [] := by
    refine List.eq_nil_iff_forall_not_mem.mpr fun e he => ?_
    exact (h.serves_main hne (h.joined (Or.inl hcontrol)) he).1.2 hexited
  exact
    { books := h.books
      pool := h.pool
      main := by simp
      mainFiber := nofun
      attended := fun e he => by
        rw [hfibers] at he
        cases he
      stopped := fun _ => h.stopped hne
      joined := fun _ => h.joined (Or.inl hcontrol)
      noNullCall := nofun
      returned := fun _ => ⟨hfibers, fun w => by
        cases w with
        | none => simp [Worker.hand, hexited]
        | some p => exact h.hand_of_joinable (h.joined (Or.inl hcontrol) p)⟩ }

/-- A step that leaves no task unattended keeps the invariant. -/
theorem Inv.step {b : Action P F C} (h : Inv tid s) (hattended : Attended tid s b)
    (hstep : Step tid s b s') : Inv tid s' := by
  cases hstep with
  | start hcontrol => exact h.start hcontrol
  | run hallows hrun => exact h.run hattended hallows hrun
  | stop hcontrol => exact h.stop hattended hcontrol
  | join hcontrol hthreads => exact h.join hcontrol hthreads
  | mainReturns hcontrol hexited => exact h.mainReturns hcontrol hexited

/-! ## Runs -/

/-- A run goes on with steps of the loop in a row. -/
theorem run_of_exec {G : State P F C → Action P F C → Prop} {s₀ : State P F C}
    {bs : List (Action P F C)} (hrun : Run (Guarded G (Step tid)) s₀ bs s)
    (as : List (Scheduler.Action (Option P) F C))
    (hG : ∀ a ∈ as, ∀ s, G s (.run a)) (hallows : as.all s.allows = true)
    (hexec : exec (Scheduler.step tid) s.base as = some t') :
    ∃ executed, Run (Guarded G (Step tid)) s₀ (bs ++ as.map .run)
      { s with base := t', executed := executed } := by
  induction as generalizing s bs with
  | nil =>
    obtain rfl : s.base = t' := by simpa [exec] using hexec
    exact ⟨s.executed, by simpa using hrun⟩
  | cons a as ih =>
    obtain ⟨base, hstep, hrest⟩ : ∃ base, Scheduler.step tid s.base a = some base ∧
        exec (Scheduler.step tid) base as = some t' := by
      simpa [exec, Option.bind_eq_some_iff] using hexec
    rw [List.all_cons, Bool.and_eq_true] at hallows
    have hnext := hrun.snoc ⟨hG a List.mem_cons_self s, .run hallows.1 hstep⟩
    obtain ⟨executed, hrun'⟩ :=
      ih hnext (fun b hb => hG b (List.mem_cons_of_mem _ hb)) hallows.2 hrest
    refine ⟨executed, ?_⟩
    rw [List.map_cons, List.append_cons]
    exact hrun'

/-- The thread of the caller, and one thread of the pool. -/
def twoThreads (w : Option Unit) : ℤ := if w.isSome then 2 else 1

/-- What a worker does when it finds nothing to take, up to leaving `run`. -/
def leaveRun (w : Option Unit) : List (Scheduler.Action (Option Unit) ℕ String) :=
  [.reset w, .dequeue w, .idle w, .idleReturn w true, .reset w, .dequeue w, .idle w]

/-- In a run whose steps are all `Attended`, for any number of threads, with `use_caller` or
without, and for any order of the steps, the law holds in every state. -/
theorem drain_law {use_caller : Bool} {as : List (Action P F C)}
    (hrun : Run (Guarded (Attended tid) (Step tid)) (State.new use_caller) as s) : DrainLaw s := by
  have h : Inv tid s := hrun.invariant (inv_new tid use_caller)
    fun _ _ _ hinv hst => hinv.step hst.1 hst.2
  refine ⟨h.noNullCall, fun hcontrol => ?_⟩
  obtain ⟨hfibers, hhands⟩ := h.returned hcontrol
  exact ⟨hfibers, h.books.drained hfibers hhands⟩

/-- A task scheduled before `start` is executed by the thread of the pool. -/
theorem drain_law_example : ∃ as s,
    Run (Guarded (Attended twoThreads) (Step twoThreads)) (State.new true : State Unit ℕ String)
      as s ∧ s.control = .returned ∧ s.base.enqueued.length = 1 ∧ DrainLaw s := by
  have hrun : Run (Guarded (Attended twoThreads) (Step twoThreads))
      (State.new true : State Unit ℕ String) [.run (.schedule (.ofCb (some "f") (-1)))] _ :=
    Run.single ⟨fun _ => ⟨none, ⟨nofun, nofun⟩, Or.inl rfl⟩, .run rfl rfl⟩
  have hrun := hrun.snoc (l := .start) ⟨by exact trivial, .start rfl⟩
  obtain ⟨executed, hrun⟩ := run_of_exec hrun
    [.reset (some ()), .dequeue (some ()), .start (some ()) 0, .finish (some ()) .returns,
      .reset (some ()), .dequeue (some ())] (by simp [Attended]) rfl rfl
  -- the idle fiber has not run yet
  have hrun := hrun.snoc (l := .run (.idle (some ()))) ⟨by rintro ⟨⟩, .run rfl rfl⟩
  obtain ⟨executed, hrun⟩ := run_of_exec hrun
    [.idleReturn (some ()) true, .reset (some ()), .dequeue (some ())]
    (by simp [Attended]) rfl rfl
  -- the queue is empty
  have hrun := hrun.snoc (l := .run (.idle (some ()))) ⟨by rintro - e ⟨⟩, .run rfl rfl⟩
  have hrun := hrun.snoc (l := .stop) ⟨by rintro ⟨⟩, .stop rfl⟩
  have hrun := hrun.snoc (l := .join) ⟨by exact trivial, .join rfl fun _ => Or.inr rfl⟩
  exact ⟨_, _, hrun, rfl, rfl, drain_law hrun⟩

/-- The law fails when a task arrives after the thread of the pool has left `run`: without
`use_caller` a null `m_mainFiber` is called, and with it a task pinned to the thread of the pool
stays in the queue. -/
theorem not_drainLaw_exited :
    (∃ as s, Run (Step twoThreads) (State.new false : State Unit ℕ String) as s ∧
      s.control = .nullCall ∧ ¬ DrainLaw s) ∧
    ∃ as s, Run (Step twoThreads) (State.new true : State Unit ℕ String) as s ∧
      s.control = .returned ∧ s.base.sched.fibers.length = 1 ∧ ¬ DrainLaw s := by
  have hfree : ∀ {s : State Unit ℕ String} {a s'}, Step twoThreads s a s' →
      Guarded (fun _ _ => True) (Step twoThreads) s a s' := fun h => ⟨trivial, h⟩
  constructor
  · have hrun := Run.single (hfree (s := State.new false) (.start rfl))
    obtain ⟨executed, hrun⟩ := run_of_exec hrun
      (leaveRun (some ()) ++ [.schedule (.ofCb (some "f") (-1))])
      (fun _ _ _ => trivial) rfl rfl
    have hrun := hrun.snoc (hfree (.stop rfl))
    have hrun := hrun.snoc (hfree (.join rfl fun _ => Or.inr rfl))
    exact ⟨_, _, hrun.of_guarded, rfl, fun hlaw => hlaw.noNullCall rfl⟩
  · have hrun := Run.single (hfree (s := State.new true) (.start rfl))
    obtain ⟨executed, hrun⟩ := run_of_exec hrun
      (leaveRun (some ()) ++ [.schedule (.ofCb (some "f") 2)])
      (fun _ _ _ => trivial) rfl rfl
    have hrun := hrun.snoc (hfree (.stop rfl))
    have hrun := hrun.snoc (hfree (.join rfl fun _ => Or.inr rfl))
    -- the root thread passes over the task
    obtain ⟨executed', hrun⟩ := run_of_exec hrun (leaveRun none)
      (fun _ _ _ => trivial) rfl rfl
    have hrun := hrun.snoc (hfree (.mainReturns rfl rfl))
    refine ⟨_, _, hrun.of_guarded, rfl, rfl, fun hlaw => ?_⟩
    have hfibers := (hlaw.drained rfl).1
    cases hfibers

end Sylar.Scheduler.Stop
