import Sylar.EventPoller.Awake

/-!
# The full pipe

`tickle` writes into a pipe whose write end blocks, and every worker that passes over an entry
pinned to another thread calls it, although only the workers in `idle` read. `stuck_iff` says that a
poller is stuck for good exactly when each worker has left `run` or is in `tickle` on the full pipe,
whether `run` has called it or a call of `schedule` by the worker, and `tickle_deadlock` that this
happens, for pipes of any capacity, with a callback in the queue that the worker could run.
-/

namespace Sylar.EventPoller.Loop

open Scheduler Transition

variable {W F C K Addr Func : Type*} [DecidableEq W] [DecidableEq F] [DecidableEq K]

variable {tid : W → ℤ} {capacity : ℕ} {s s' : State W F C K} {a : Action W F C K Addr Func}
  {as : List (Action W F C K Addr Func)}

/-- Whatever happens, no worker goes on. -/
def State.Stuck (Addr Func : Type*) (tid : W → ℤ) (capacity : ℕ) (s : State W F C K) : Prop :=
  ∀ (as : List (Action W F C K Addr Func)) (s' : State W F C K),
    Run (ofFun (step tid capacity)) s as s' → ∀ w, s'.Blocked capacity w

/-- Each worker has left `run`, or is in `tickle`, its own call or that of `run`, and the pipe is
full. -/
def State.Trapped (s : State W F C K) (capacity : ℕ) : Prop :=
  ∀ w, s.Blocked capacity w ∧ s.place w ≠ .waiting

omit [DecidableEq W] [DecidableEq F] [DecidableEq K] in
/-- A worker in the body of a task, or in `idle` behind `epoll_wait`, goes on. -/
theorem not_blocked_of_body {w : W} {body : Body} (h : s.body w = some body) :
    ¬ s.Blocked capacity w := by
  intro hblocked
  unfold State.body at h
  unfold State.Blocked at hblocked
  cases hplace : s.place w with
  | running =>
    rw [hplace] at h hblocked
    simp [hblocked] at h
  | _ => simp_all

/-- Only the others take a step: they leave the workers where they are, and nobody reads. -/
theorem State.Trapped.others (h : s.Trapped capacity) (hstep : step tid capacity s a = some s') :
    s'.place = s.place ∧ s.pipe.bytes ≤ s'.pipe.bytes ∧ (s'.core = s.core ∨
      ∃ b, b.actor = none ∧ Scheduler.step tid s.core b = some s'.core) := by
  cases a with
  | run b dangling =>
    simp only [step, Option.ite_none_right_eq_some] at hstep
    obtain ⟨-, hstep⟩ := hstep
    cases hb : b.actor with
    | none =>
      simp only [hb, coreStep_eq_some] at hstep
      obtain ⟨core, hcore, rfl⟩ := hstep
      exact ⟨rfl, Nat.le_refl _, Or.inr ⟨b, hb, hcore⟩⟩
    | some w =>
      simp only [hb, Option.ite_none_right_eq_some, Option.map_eq_some_iff, coreStep_eq_some]
        at hstep
      obtain ⟨hplace, s₁, ⟨core, hcore, rfl⟩, rfl⟩ := hstep
      have hexited := (h w).1
      simp only [State.Blocked, hplace] at hexited
      exact absurd hexited (not_exited (stepCase_of_step hcore) hb)
  | tickle w again =>
    simp only [step, State.write, Option.ite_none_right_eq_some, Option.some.injEq] at hstep
    obtain ⟨hplace, hroom, -⟩ := hstep
    have hfull := (h w).1
    simp only [State.Blocked, hplace] at hfull
    exact absurd hroom hfull.not_gt
  | scheduleBegin k =>
    simp only [step] at hstep
    split at hstep
    · cases hstep
      exact ⟨rfl, Nat.le_refl _, Or.inl rfl⟩
    · cases hstep
  | scheduleNonLock k task =>
    simp only [step, Option.bind_eq_some_iff, Option.map_eq_some_iff, coreStep_eq_some] at hstep
    obtain ⟨need_tickle, -, s₁, ⟨core, hcore, rfl⟩, rfl⟩ := hstep
    exact ⟨rfl, Nat.le_refl _, Or.inr ⟨_, rfl, hcore⟩⟩
  | scheduleEnd k again =>
    simp only [step, Option.bind_eq_some_iff] at hstep
    obtain ⟨need_tickle, -, hstep⟩ := hstep
    cases need_tickle with
    | false =>
      cases hstep
      exact ⟨rfl, Nat.le_refl _, Or.inl rfl⟩
    | true =>
      simp only [if_true, State.write, Option.ite_none_right_eq_some, Option.some.injEq] at hstep
      obtain ⟨-, rfl⟩ := hstep
      exact ⟨rfl, Nat.le_succ _, Or.inl rfl⟩
  | leave w timers pendingEventCount now =>
    simp only [step, Option.ite_none_right_eq_some] at hstep
    obtain ⟨⟨hplace, -⟩, -⟩ := hstep
    have hblocked := (h w).1
    simp [State.Blocked, hplace] at hblocked
  | wait w timers pendingEventCount now =>
    simp only [step, Option.ite_none_right_eq_some] at hstep
    obtain ⟨⟨hplace, -⟩, -⟩ := hstep
    have hblocked := (h w).1
    simp [State.Blocked, hplace] at hblocked
  | wake w tickled =>
    simp only [step, Option.ite_none_right_eq_some] at hstep
    exact absurd hstep.1 (h w).2
  | read w =>
    simp only [step, Option.ite_none_right_eq_some] at hstep
    have hblocked := (h w).1
    rcases hstep.1 with hplace | hplace <;> simp [State.Blocked, hplace] at hblocked
  | swapOut w =>
    simp only [step, Option.ite_none_right_eq_some] at hstep
    have hblocked := (h w).1
    simp [State.Blocked, hstep.1] at hblocked
  | callSchedule w | callFlush w =>
    simp only [step, Option.map_eq_some_iff] at hstep
    obtain ⟨body, hbody, -⟩ := hstep
    exact absurd (h w).1 (not_blocked_of_body hbody)
  | callNonLock w task | callEnd w =>
    simp only [step] at hstep
    have hblocked := (h w).1
    cases hplace : s.place w with
    | calling body need_tickle => simp [State.Blocked, hplace] at hblocked
    | _ => simp [hplace] at hstep
  | callTickle w again =>
    simp only [step] at hstep
    have hblocked := (h w).1
    cases hplace : s.place w with
    | ringing body =>
      simp only [hplace, State.write, Option.ite_none_right_eq_some] at hstep
      simp only [State.Blocked, hplace] at hblocked
      exact absurd hstep.1 hblocked.not_gt
    | _ => simp [hplace] at hstep
  | flushTimer again =>
    simp only [step, State.write, Option.ite_none_right_eq_some, Option.some.injEq] at hstep
    obtain ⟨-, rfl⟩ := hstep
    exact ⟨rfl, Nat.le_succ _, Or.inl rfl⟩
  | forget =>
    simp only [step, Option.ite_none_right_eq_some, Option.some.injEq] at hstep
    obtain ⟨-, rfl⟩ := hstep
    exact ⟨rfl, Nat.le_refl _, Or.inl rfl⟩

/-- So the workers stay where they are. -/
theorem State.Trapped.step (h : s.Trapped capacity) (hstep : step tid capacity s a = some s') :
    s'.Trapped capacity := by
  obtain ⟨hplace, hbytes, hcore⟩ := h.others hstep
  have hworker : s'.core.worker = s.core.worker := by
    obtain hcore | ⟨b, hb, hcore⟩ := hcore
    · rw [hcore]
    · exact worker_of_actor_none (stepCase_of_step hcore) hb
  intro w
  obtain ⟨hblocked, hwait⟩ := h w
  rw [← hplace] at hwait
  refine ⟨?_, hwait⟩
  cases hw : s'.place w with
  | running =>
    rw [hplace] at hw
    simp only [State.Blocked, hplace, hw, hworker] at hblocked ⊢
    exact hblocked
  | tickling | ringing body =>
    rw [hplace] at hw
    simp only [State.Blocked, hplace, hw] at hblocked ⊢
    exact hblocked.trans hbytes
  | waiting => exact absurd hw hwait
  | _ =>
    rw [hplace] at hw
    simp [State.Blocked, hw] at hblocked

/-- For good. -/
theorem State.Trapped.run (h : s.Trapped capacity)
    (hrun : Run (ofFun (Loop.step tid capacity)) s as s') : s'.Trapped capacity :=
  hrun.invariant (I := fun s => s.Trapped capacity) h fun _ _ _ h hstep => h.step hstep

/-- And the callbacks stay in the queue. -/
theorem State.Trapped.mem_fibers {e : Entry F C} (h : s.Trapped capacity)
    (hstep : Loop.step tid capacity s a = some s') (he : e ∈ s.core.sched.fibers) :
    e ∈ s'.core.sched.fibers := by
  obtain ⟨-, -, hcore | ⟨b, hb, hcore⟩⟩ := h.others hstep
  · rwa [hcore]
  · generalize s'.core = core at hcore ⊢
    cases stepCase_of_step hcore with
    | create hfree => exact he
    | copy hheld => exact he
    | release hheld => exact he
    | @schedule task hheld =>
      unfold Scheduler.State.enqueue
      split
      · exact List.mem_append_left _ he
      · exact he
    | _ => cases hb

/-- A worker adds a timer before it reads the pipe, which has room for one byte. -/
example :
    ∃ s : State Unit ℕ String Unit, exec (step (fun _ => 1) 1) State.new
        ([.run (.reset ()) false, .run (.dequeue ()) false, .tickle () false, .run (.idle ()) false,
          .wait () .new 1 0, .wake () true, .callFlush ()] :
            List (Action Unit ℕ String Unit ℕ ℕ)) = some s ∧
      s.place () = .ringing .told ∧ s.Trapped 1 := by
  refine ⟨_, rfl, rfl, ?_⟩
  rintro ⟨⟩
  exact ⟨Nat.le_refl 1, by decide⟩

/-! ## How the pipe fills up -/

section Deadlock

variable (Addr Func) {t other : ℤ} {f : F} {cb : C} {n : ℕ} {s s' : State Unit F C Unit}
  {core : Scheduler.State Unit F C} {e e' : Entry F C}

/-- The worker is about to enter a turn of the loop, with an entry for another thread in front of
the queue and `n` bytes in the pipe. `f` is the fiber for its callbacks. -/
structure State.Turn (other : ℤ) (f : F) (n : ℕ) (s : State Unit F C Unit) : Prop where
  place : s.place () = .running
  phase : (s.core.worker ()).phase = .loop
  fibers : ∃ e, s.core.sched.fibers = [e] ∧ e.task.thread_id = other
  bytes : s.pipe.bytes = n
  call : s.call () = none
  cb_fiber : (s.core.worker ()).cb_fiber = none ∧ s.core.heap f = none ∨
    (s.core.worker ()).cb_fiber = some f ∧ ∃ fiber, s.core.heap f = some fiber

/-- A callback is put into the queue behind the entry. -/
theorem schedule_cb (hcall : s.call () = none) {q : List (Entry F C)} (hne : q ≠ [])
    (hq : s.core.sched.fibers = q) (cb : C) (capacity : ℕ) :
    ∃ (as : List (Action Unit F C Unit Addr Func)) (s' : State Unit F C Unit) (e : Entry F C),
      Run (ofFun (step (fun _ => t) capacity)) s as s' ∧ e.task = .ofCb (some cb) (-1) ∧
      s'.core.sched.fibers = q ++ [e] ∧ s'.place = s.place ∧ s'.core.worker = s.core.worker ∧
      s'.core.heap = s.core.heap ∧ s'.pipe = s.pipe ∧ s'.call () = none := by
  have hnonempty : (FiberTask.ofCb (some cb) (-1) : FiberTask F C).nonempty = true := rfl
  have hexec : ∃ s', exec (step (fun _ => t) capacity) s ([.scheduleBegin (),
      .scheduleNonLock () (.ofCb (some cb) (-1)), .scheduleEnd () false] :
        List (Action Unit F C Unit Addr Func)) = some s' ∧
      s'.core = s.core.enqueue (.ofCb (some cb) (-1)) ∧ s'.place = s.place ∧ s'.pipe = s.pipe ∧
      s'.call () = none := by
    simp [exec, step, hcall, State.coreStep, Scheduler.step, hq, hne, FiberTask.ofCb]
  obtain ⟨s', hexec, hcore, hplace, hpipe, hcall'⟩ := hexec
  refine ⟨_, s', ⟨s.core.enqueued.length, _, hnonempty⟩, Run.of_exec hexec, rfl, ?_, hplace, ?_, ?_,
    hpipe, hcall'⟩
  · rw [hcore, Scheduler.State.enqueue, dif_pos hnonempty, hq]
  · rw [hcore, worker_enqueue]
  · rw [hcore, heap_enqueue]

omit [DecidableEq F] in
/-- The scan passes over the entry in front. -/
theorem scan_pinned {executing : FiberTask F C → Bool} {q : List (Entry F C)}
    (hother : e.task.thread_id ≠ -1) (hne : e.task.thread_id ≠ t)
    (he' : e'.task = .ofCb (some cb) (-1)) (hexec : executing e'.task = false) :
    scan executing t (e :: e' :: q) = some (e', e :: q) ∧
      (pass executing t false (e :: e' :: q)).tickles false = true := by
  have hthread : e'.task.thread_id = -1 := by rw [he']; rfl
  simp [scan, Scheduler.pass, Pass.tickles, hother, hne, hthread, hexec]

/-- The worker passes over an entry for another thread, takes the callback behind it, and calls
`tickle`. -/
theorem take_cb (hplace : s.place () = .running) (hphase : (s.core.worker ()).phase = .loop)
    {q : List (Entry F C)} (hq : s.core.sched.fibers = e :: e' :: q)
    (hother : e.task.thread_id ≠ -1) (hne : e.task.thread_id ≠ t)
    (he' : e'.task = .ofCb (some cb) (-1)) (capacity : ℕ) :
    ∃ s', exec (step (fun _ => t) capacity) s ([.run (.reset ()) false, .run (.dequeue ()) false] :
        List (Action Unit F C Unit Addr Func)) = some s' ∧ s'.place () = .tickling ∧
      (s'.core.worker ()).phase = .taken e' ∧ (s'.core.worker ()).ft = e'.task ∧
      (s'.core.worker ()).cb_fiber = (s.core.worker ()).cb_fiber ∧
      s'.core.sched.fibers = e :: q ∧ s'.core.heap = s.core.heap ∧ s'.pipe = s.pipe ∧
      s'.call = s.call := by
  have hcb : s.core.executing e'.task = false := by
    simp [Scheduler.State.executing, he', FiberTask.ofCb]
  obtain ⟨hscan, htickles⟩ := scan_pinned (q := q) hother hne he' hcb
  have hexec : ∀ core : Scheduler.State Unit F C, core.heap = s.core.heap →
      core.executing = s.core.executing := by
    intro core hheap
    funext task
    rw [Scheduler.State.executing, Scheduler.State.executing, hheap]
  simp [exec, step, ofRun, Scheduler.Action.actor, hplace, State.coreStep, Scheduler.step, hphase,
    State.placeAfter, State.goto, hexec, hq, hscan, htickles, Scheduler.State.setWorker]

/-- The worker runs the callback, and is at the head of the loop again. -/
theorem run_cb (hplace : s.place () = .running) (hphase : (s.core.worker ()).phase = .taken e')
    (hft : (s.core.worker ()).ft = e'.task) (he' : e'.task = .ofCb (some cb) (-1))
    (hcb : (s.core.worker ()).cb_fiber = none ∧ s.core.heap f = none ∨
      (s.core.worker ()).cb_fiber = some f ∧ ∃ fiber, s.core.heap f = some fiber) (capacity : ℕ) :
    ∃ s', exec (step (fun _ => t) capacity) s ([.run (.start () f) false,
        .run (.finish () .returns) false] : List (Action Unit F C Unit Addr Func)) = some s' ∧
      s'.place () = .running ∧ (s'.core.worker ()).phase = .loop ∧
      s'.core.sched.fibers = s.core.sched.fibers ∧ s'.pipe = s.pipe ∧ s'.call = s.call ∧
      (s'.core.worker ()).cb_fiber = some f ∧ ∃ fiber, s'.core.heap f = some fiber := by
  have htask : (s.core.worker ()).ft.fiber = none ∧ (s.core.worker ()).ft.cb = some cb := by
    rw [hft, he']
    exact ⟨rfl, rfl⟩
  obtain ⟨hcbf, hheap⟩ | ⟨hcbf, fiber, hheap⟩ := hcb <;>
    simp [exec, step, ofRun, Scheduler.Action.actor, hplace, State.coreStep, Scheduler.step, hphase,
      State.placeAfter, State.goto, Scheduler.State.setWorker, Scheduler.State.start, htask,
      Scheduler.State.startCb, hcbf, hheap, Scheduler.State.call, Scheduler.State.setFiber,
      Scheduler.State.finishCb, Scheduler.State.consume, Fiber.canLeave, Fiber.leave, Fiber.ended,
      Fiber.swapIn, Fiber.new, Fiber.reset]

/-- A turn of the loop leaves one byte more in the pipe. -/
theorem State.Turn.next (h : s.Turn other f n) (hother : other ≠ -1) (hne : other ≠ t) (cb : C)
    (hroom : n < capacity) :
    ∃ (as : List (Action Unit F C Unit Addr Func)) (s' : State Unit F C Unit),
      Run (ofFun (step (fun _ => t) capacity)) s as s' ∧ s'.Turn other f (n + 1) := by
  obtain ⟨e, hq, he⟩ := h.fibers
  subst he
  obtain ⟨as₁, s₁, e', hrun₁, he', hq₁, hplace₁, hworker₁, hheap₁, hpipe₁, hcall₁⟩ :=
    schedule_cb Addr Func (t := t) h.call (by simp) hq cb capacity
  obtain ⟨s₂, hexec₂, hplace₂, hphase₂, hft₂, hcbf₂, hq₂, hheap₂, hpipe₂, hcall₂⟩ :=
    take_cb Addr Func (by rw [hplace₁, h.place]) (by rw [hworker₁, h.phase]) hq₁ hother hne he'
      capacity
  -- `tickle`, which has room for the byte
  have hbytes₂ : s₂.pipe.bytes = n := by rw [hpipe₂, hpipe₁, h.bytes]
  have htickle : step (fun _ => t) capacity s₂ (.tickle () false : Action Unit F C Unit Addr Func) =
      some { s₂.goto () .running with pipe := s₂.pipe.write false } := by
    simp [step, hplace₂, State.write, State.goto, hbytes₂, hroom]
  generalize hs₃ : ({ s₂.goto () .running with pipe := s₂.pipe.write false } :
    State Unit F C Unit) = s₃ at htickle
  obtain ⟨s₄, hexec₄, hplace₄, hphase₄, hq₄, hpipe₄, hcall₄, hcbf₄, hheap₄⟩ :=
    run_cb Addr Func (t := t) (s := s₃) (f := f) (by rw [← hs₃]; rfl) (by rw [← hs₃]; exact hphase₂)
      (by rw [← hs₃]; exact hft₂) he' (by
        rw [← hs₃]
        show (s₂.core.worker ()).cb_fiber = none ∧ s₂.core.heap f = none ∨
          (s₂.core.worker ()).cb_fiber = some f ∧ ∃ fiber, s₂.core.heap f = some fiber
        rw [hcbf₂, hworker₁, hheap₂, hheap₁]
        exact h.cb_fiber) capacity
  refine ⟨_, s₄, ((hrun₁.append (Run.of_exec hexec₂)).snoc htickle).append (Run.of_exec hexec₄),
    hplace₄, hphase₄, ⟨e, ?_, rfl⟩, ?_, ?_, Or.inr ⟨hcbf₄, hheap₄⟩⟩
  · rw [hq₄, ← hs₃]
    exact hq₂
  · rw [hpipe₄, ← hs₃]
    show s₂.pipe.bytes + 1 = n + 1
    rw [hbytes₂]
  · rw [hcall₄, ← hs₃]
    show s₂.call () = none
    rw [hcall₂, hcall₁]

/-- A callback is scheduled for another thread. -/
theorem turn_one (other : ℤ) (f : F) (cb : C) (hcap : 0 < capacity) :
    ∃ (as : List (Action Unit F C Unit Addr Func)) (s : State Unit F C Unit),
      Run (ofFun (step (fun _ => t) capacity)) State.new as s ∧ s.Turn other f 1 := by
  have hexec : ∃ s, exec (step (fun _ => t) capacity) State.new ([.scheduleBegin (),
      .scheduleNonLock () (.ofCb (some cb) other), .scheduleEnd () false] :
        List (Action Unit F C Unit Addr Func)) = some s ∧ s.Turn other f 1 := by
    simp only [exec, step, State.new, State.coreStep, Scheduler.step, FiberTask.ofCb, State.write,
      EdgePipe.empty, hcap, if_true, Option.bind_some, Option.map_some, Function.update_self,
      Scheduler.State.new, List.isEmpty_nil, Bool.or_true, Option.some.injEq, exists_eq_left']
    exact ⟨rfl, rfl, ⟨_, rfl, rfl⟩, rfl, rfl, Or.inl ⟨rfl, rfl⟩⟩
  obtain ⟨s, hexec, hturn⟩ := hexec
  exact ⟨_, s, Run.of_exec hexec, hturn⟩

/-- The pipe fills up. -/
theorem turn_of_le (hother : other ≠ -1) (hne : other ≠ t) (f : F) (cb : C) (hpos : 1 ≤ n)
    (hle : n ≤ capacity) :
    ∃ (as : List (Action Unit F C Unit Addr Func)) (s : State Unit F C Unit),
      Run (ofFun (step (fun _ => t) capacity)) State.new as s ∧ s.Turn other f n := by
  induction n, hpos using Nat.le_induction with
  | base => exact turn_one Addr Func other f cb hle
  | succ n hpos ih =>
    obtain ⟨as, s, hrun, hturn⟩ := ih (Nat.le_of_succ_le hle)
    obtain ⟨as', s', hrun', hturn'⟩ := hturn.next Addr Func hother hne cb hle
    exact ⟨as ++ as', s', hrun.append hrun', hturn'⟩

/-- With a pipe of any capacity, a worker may be stuck in `tickle` for good while the queue holds a
callback that it could run. -/
theorem tickle_deadlock (hother : other ≠ -1) (hne : other ≠ t) (f : F) (cb : C)
    (hcap : 0 < capacity) :
    ∃ (as : List (Action Unit F C Unit Addr Func)) (s : State Unit F C Unit) (e : Entry F C),
      Run (ofFun (step (fun _ => t) capacity)) State.new as s ∧ e.task = .ofCb (some cb) (-1) ∧
      ∀ (as' : List (Action Unit F C Unit Addr Func)) (s' : State Unit F C Unit),
        Run (ofFun (step (fun _ => t) capacity)) s as' s' →
        s'.place () = .tickling ∧ e ∈ s'.core.sched.fibers ∧
          Eligible s'.core.executing t e := by
  obtain ⟨as, s, hrun, hturn⟩ := turn_of_le Addr Func hother hne f cb hcap (Nat.le_refl capacity)
  obtain ⟨e, hq, he⟩ := hturn.fibers
  subst he
  -- two more callbacks: one is in the hands of the worker, the other one behind it
  obtain ⟨as₁, s₁, e₁, hrun₁, he₁, hq₁, hplace₁, hworker₁, hheap₁, hpipe₁, hcall₁⟩ :=
    schedule_cb Addr Func (t := t) hturn.call (by simp) hq cb capacity
  obtain ⟨as₂, s₂, e₂, hrun₂, he₂, hq₂, hplace₂, hworker₂, hheap₂, hpipe₂, hcall₂⟩ :=
    schedule_cb Addr Func (t := t) hcall₁ (by simp) hq₁ cb capacity
  obtain ⟨s₃, hexec₃, hplace₃, hphase₃, hft₃, hcbf₃, hq₃, hheap₃, hpipe₃, hcall₃⟩ :=
    take_cb Addr Func (q := [e₂]) (by rw [hplace₂, hplace₁, hturn.place])
      (by rw [hworker₂, hworker₁, hturn.phase]) hq₂ hother hne he₁ capacity
  refine ⟨_, s₃, e₂, ((hrun.append hrun₁).append hrun₂).append (Run.of_exec hexec₃), he₂,
    fun as' s' hrun' => ?_⟩
  have htrapped : s₃.Trapped capacity := by
    rintro ⟨⟩
    have hbytes : capacity ≤ s₃.pipe.bytes := by
      rw [hpipe₃, hpipe₂, hpipe₁, hturn.bytes]
    exact ⟨by simpa only [State.Blocked, hplace₃] using hbytes, by simp [hplace₃]⟩
  have hmem : e₂ ∈ s₃.core.sched.fibers := by simp [hq₃]
  obtain ⟨-, hplace', hmem'⟩ := hrun'.invariant
    (I := fun s => s.Trapped capacity ∧ s.place () = .tickling ∧ e₂ ∈ s.core.sched.fibers)
    ⟨htrapped, hplace₃, hmem⟩ fun s a s' h hstep =>
      ⟨h.1.step hstep, by rw [(h.1.others hstep).1, h.2.1], h.1.mem_fibers hstep h.2.2⟩
  refine ⟨hplace', hmem', Or.inl ?_, ?_⟩
  · rw [he₂]
    rfl
  · simp [Scheduler.State.executing, he₂, FiberTask.ofCb]

/-- A pipe of 64 KiB, and thread ids 1 and 2. -/
theorem tickle_deadlock_example :
    ∃ (as : List (Action Unit ℕ String Unit ℕ ℕ)) (s : State Unit ℕ String Unit)
      (e : Entry ℕ String),
      Run (ofFun (step (fun _ => 1) 65536)) State.new as s ∧ e.task = .ofCb (some "f") (-1) ∧
      ∀ (as' : List (Action Unit ℕ String Unit ℕ ℕ)) (s' : State Unit ℕ String Unit),
        Run (ofFun (step (fun _ => 1) 65536)) s as' s' →
        s'.place () = .tickling ∧ e ∈ s'.core.sched.fibers ∧ Eligible s'.core.executing 1 e :=
  tickle_deadlock ℕ ℕ (show (2 : ℤ) ≠ -1 by decide) (by decide) 0 "f" (by decide)

end Deadlock

end Sylar.EventPoller.Loop
