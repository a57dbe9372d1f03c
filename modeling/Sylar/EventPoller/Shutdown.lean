import Sylar.EventPoller.Awake

/-!
# Stopping a poller

`EventPoller::~EventPoller` calls `Scheduler::stop`, which stores `m_autoStop` and `m_running` and
then joins the threads of the pool, one after another. A thread can be joined when it has left
`run`, and it leaves `run` when `idle` has returned, that is, when `EventPoller::stopping` was true
of a clock reading. `stop_returns_at_zero` says of every run that each thread that `stop` has joined
had read the clock as `0`: with any other readings, `stop` hangs in its first `join`.

The pool has at least one thread. What `stop` does behind the loop that joins them is not modelled.
-/

namespace Sylar.EventPoller.Shutdown

open Scheduler Transition

/-- Places of the thread that calls `stop`. -/
inductive Control (W : Type*)
  /-- Before `stop`. -/
  | serving
  /-- Behind `m_autoStop = true`. -/
  | stopping
  /-- In the loop over `thrs`, with these threads left to join. -/
  | joining (thrs : List W)

/-- A poller, and the thread that stops it. -/
structure State (W F C K : Type*) where
  poller : Loop.State W F C K
  control : Control W

/-- What may happen. -/
inductive Action (W F C K Addr Func : Type*)
  | poller (a : Loop.Action W F C K Addr Func)
  /-- `m_autoStop = true`. -/
  | autoStop
  /-- `m_running = false` and `thrs.swap(m_threads)`. -/
  | running
  /-- `i->join()` returns. -/
  | join

variable {W F C K Addr Func : Type*}

/-- The threads have been created. -/
def State.new : State W F C K where
  poller := .new
  control := .serving

/-- Store `m_running` and `m_autoStop`. -/
def State.setFlags (s : State W F C K) (running autoStop : Bool) : State W F C K :=
  { s with poller := { s.poller with core := { s.poller.core with
      sched := { s.poller.core.sched with running := running, autoStop := autoStop } } } }

variable [DecidableEq W] [DecidableEq F] [DecidableEq K]

/-- The state after an action, if the action is possible. The threads of the pool are `threads`. -/
def step (tid : W → ℤ) (capacity : ℕ) (threads : List W) (s : State W F C K) :
    Action W F C K Addr Func → Option (State W F C K)
  | .poller a => (Loop.step tid capacity s.poller a).map fun poller => { s with poller := poller }
  | .autoStop =>
    match s.control with
    | .serving =>
      some { s.setFlags s.poller.core.sched.running true with control := .stopping }
    | _ => none
  | .running =>
    match s.control with
    | .stopping =>
      some { s.setFlags false s.poller.core.sched.autoStop with control := .joining threads }
    | _ => none
  | .join =>
    match s.control with
    | .joining (w :: thrs) =>
      match (s.poller.core.worker w).phase with
      | .exited => some { s with control := .joining thrs }
      | _ => none -- `pthread_join` waits
    | _ => none

/-! ## The end of a worker -/

/-- The idle fiber of the worker has returned, or the worker has left `run`. -/
def Ended (s : Scheduler.State W F C) (w : W) : Prop :=
  (s.worker w).idle_fiber = .TERM ∨ (s.worker w).phase = .exited

section Ended

variable {tid : W → ℤ} {capacity : ℕ} {core core' : Scheduler.State W F C}
  {b : Scheduler.Action W F C} {s s' : Loop.State W F C K} {a : Loop.Action W F C K Addr Func}
  {w : W}

omit [DecidableEq K] in
/-- A worker ends by the return of `idle` only. -/
theorem ended_step (h : StepCase tid core b core') (hb : b ≠ .idleReturn w true)
    (hw : ¬ Ended core w) : ¬ Ended core' w := by
  by_cases hactor : b.actor = some w
  · rw [Ended, not_or] at hw
    obtain ⟨hidle, hphase⟩ := hw
    cases h with
    | create hfree => cases hactor
    | copy hheld => cases hactor
    | release hheld => cases hactor
    | schedule hheld => cases hactor
    | getThis hcur => exact not_or.mpr ⟨hidle, hphase⟩
    | @exit v hv hterm =>
      obtain rfl : v = w := Option.some.inj hactor
      exact absurd hterm hidle
    | @idleReturn v returns hv =>
      obtain rfl : v = w := Option.some.inj hactor
      cases returns with
      | false => simp [Ended, Scheduler.State.setWorker]
      | true => exact absurd rfl hb
    | _ =>
      -- the worker goes to another phase, and `idle_fiber` stays or runs
      obtain rfl := Option.some.inj hactor
      simp [Ended, Scheduler.State.setWorker, hidle]
  · rwa [Ended, worker_of_ne h hactor]

omit [DecidableEq K] in
/-- The same of several steps. -/
theorem ended_run {bs : List (Scheduler.Action W F C)}
    (hrun : Run (ofFun (Scheduler.step tid)) core bs core')
    (hbs : ∀ b ∈ bs, b ≠ .idleReturn w true) (hw : ¬ Ended core w) : ¬ Ended core' w := by
  induction hrun with
  | refl => exact hw
  | snoc _ hstep ih =>
    have hlast := hbs _ (List.mem_append_right _ (List.mem_singleton_self _))
    exact ended_step (stepCase_of_step hstep) hlast
      (ih fun b hb => hbs b (List.mem_append_left _ hb))

/-- In the poller, the test at the head of the loop of `idle` comes before it. -/
theorem leave_of_ended (h : Loop.step tid capacity s a = some s') (hw : ¬ Ended s.core w)
    (hw' : Ended s'.core w) : ∃ timers pendingEventCount now,
      a = .leave w timers pendingEventCount now ∧
      idleTest ⟨s.core.sched, timers, pendingEventCount⟩ now = none := by
  by_cases hcore : ∀ b ∈ a.core, b ≠ .idleReturn w true
  · exact absurd hw' (ended_run (Loop.core_step h) hcore hw)
  · simp only [ne_eq, not_forall, not_not, exists_prop, exists_eq_right] at hcore
    cases a with
    | run b dangling =>
      -- `run` takes no such step by itself
      obtain rfl : Scheduler.Action.idleReturn w true = b := List.mem_singleton.mp hcore
      simp [Loop.step, Loop.ofRun] at h
    | leave v timers pendingEventCount now =>
      simp only [Loop.Action.core, List.mem_singleton, Scheduler.Action.idleReturn.injEq,
        and_true] at hcore
      subst hcore
      simp only [Loop.step, Option.ite_none_right_eq_some] at h
      exact ⟨timers, pendingEventCount, now, rfl, h.1.2⟩
    | _ => simp [Loop.Action.core] at hcore

end Ended

/-! ## Runs -/

/-- The worker `w` has left `idle` at the clock reading `0`, with a timer pending that is
`2 ^ 64 - 1` milliseconds away. -/
def LeftAtZero (as : List (Action W F C K Addr Func)) (w : W) : Prop :=
  ∃ timers pendingEventCount t, .poller (.leave w timers pendingEventCount 0) ∈ as ∧
    earliest timers = some t ∧ t.next = ~~~0

/-- What holds of the threads in a state `s` that the actions `as` lead to. -/
structure StopsAtZero (threads : List W) (as : List (Action W F C K Addr Func))
    (s : State W F C K) : Prop where
  /-- A thread that has left `run`, or is about to. -/
  ended : ∀ w, Ended s.poller.core w → LeftAtZero as w
  /-- `stop` joins the threads in order, and waits for each of them. -/
  joined : ∀ thrs, s.control = .joining thrs →
    ∃ done, threads = done ++ thrs ∧ ∀ w ∈ done, LeftAtZero as w

section Runs

variable {tid : W → ℤ} {capacity : ℕ} {threads : List W} {s s' : State W F C K} {w : W}
  {a : Action W F C K Addr Func} {as bs : List (Action W F C K Addr Func)}

omit [DecidableEq W] [DecidableEq F] [DecidableEq K] in
theorem LeftAtZero.append (h : LeftAtZero as w) : LeftAtZero (as ++ bs) w := by
  obtain ⟨timers, pendingEventCount, t, hmem, ht⟩ := h
  exact ⟨timers, pendingEventCount, t, List.mem_append_left _ hmem, ht⟩

omit [DecidableEq W] [DecidableEq F] [DecidableEq K] in
/-- `stopping` takes only this reading for "no timer pending". -/
theorem leftAtZero_of_idleTest {sched : Scheduler F C} {timers : TimerManager Addr Func}
    {pendingEventCount : ℕ} {now : UInt64}
    (h : idleTest ⟨sched, timers, pendingEventCount⟩ now = none) :
    LeftAtZero (as ++ [Action.poller (K := K) (.leave w timers pendingEventCount now)]) w := by
  rw [idleTest_eq_none_iff, stopping_iff] at h
  obtain ⟨t, ht, rfl, hnext⟩ := (getNextTimer_eq_max_iff timers now).mp h.2.1
  exact ⟨timers, pendingEventCount, t, by simp, ht, hnext⟩

/-- Each step keeps this. -/
theorem StopsAtZero.step (h : StopsAtZero threads as s)
    (hstep : step tid capacity threads s a = some s') : StopsAtZero threads (as ++ [a]) s' := by
  have hold : ∀ thrs, s.control = .joining thrs →
      ∃ done, threads = done ++ thrs ∧ ∀ w ∈ done, LeftAtZero (as ++ [a]) w := by
    intro thrs hcontrol
    obtain ⟨done, hthreads, hdone⟩ := h.joined thrs hcontrol
    exact ⟨done, hthreads, fun w hw => (hdone w hw).append⟩
  cases a with
  | poller b =>
    simp only [Shutdown.step, Option.map_eq_some_iff] at hstep
    obtain ⟨poller, hpoller, rfl⟩ := hstep
    refine ⟨fun w hw => ?_, hold⟩
    by_cases hbefore : Ended s.poller.core w
    · exact (h.ended w hbefore).append
    · obtain ⟨timers, pendingEventCount, now, rfl, htest⟩ := leave_of_ended hpoller hbefore hw
      exact leftAtZero_of_idleTest htest
  | autoStop =>
    simp only [Shutdown.step] at hstep
    split at hstep
    · cases hstep
      exact ⟨fun w hw => (h.ended w hw).append, nofun⟩
    · cases hstep
  | running =>
    simp only [Shutdown.step] at hstep
    split at hstep
    · cases hstep
      refine ⟨fun w hw => (h.ended w hw).append, fun thrs hthrs => ⟨[], ?_, nofun⟩⟩
      cases hthrs
      rfl
    · cases hstep
  | join =>
    simp only [Shutdown.step] at hstep
    split at hstep
    · rename_i w thrs hcontrol
      split at hstep
      · rename_i hexited
        cases hstep
        refine ⟨fun w hw => (h.ended w hw).append, fun thrs' hthrs => ?_⟩
        cases hthrs
        -- the thread that `stop` has waited for goes to those that are done
        obtain ⟨done, hthreads, hdone⟩ := hold _ hcontrol
        refine ⟨done ++ [w], by simp [hthreads], fun v hv => ?_⟩
        rcases List.mem_append.mp hv with hv | hv
        · exact hdone v hv
        · obtain rfl := List.mem_singleton.mp hv
          exact (h.ended v (Or.inr hexited)).append
      · cases hstep
    · cases hstep

/-- In every run, `stop` returns from joining a thread only if this thread has read the clock as
`0`, with a timer pending that is `2 ^ 64 - 1` milliseconds away. -/
theorem stop_returns_at_zero (hrun : Run (ofFun (step tid capacity threads)) State.new as s) :
    StopsAtZero threads as s := by
  refine hrun.history ⟨fun w hw => ?_, nofun⟩ fun as s a s' h hstep => h.step hstep
  rcases hw with hw | hw <;> cases hw

/-- At the clock reading `0`, with such a timer, the only thread of a pool is joined. -/
theorem stop_returns_at_zero_example :
    ∃ (as : List (Action Unit ℕ String Unit ℕ String)) (s : State Unit ℕ String Unit),
      s.control = .joining [] ∧ StopsAtZero [()] as s := by
  let timers : TimerManager ℕ String := (TimerManager.new.addTimer 0 (~~~0) "f" false 0).2
  have hexec : exec (step (fun _ => 1) 65536 [()]) State.new
      ([.poller (.run (.reset ()) false), .poller (.run (.dequeue ()) false),
        .poller (.tickle () false), .poller (.run (.idle ()) false), .autoStop, .running,
        .poller (.leave () timers 0 0), .poller (.run (.reset ()) false),
        .poller (.run (.dequeue ()) false), .poller (.tickle () false),
        .poller (.run (.idle ()) false), .join] : List (Action Unit ℕ String Unit ℕ String)) =
      some _ := rfl
  exact ⟨_, _, rfl, stop_returns_at_zero (Run.of_exec hexec)⟩

end Runs

end Sylar.EventPoller.Shutdown
