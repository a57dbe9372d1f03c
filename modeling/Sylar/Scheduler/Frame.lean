import Sylar.Scheduler.Conservation

/-!
# What one step changes

Facts about single steps, for any number of workers, that hold whatever else is going on:

* `worker_of_ne`, `worker_of_actor_none` — a step leaves the other workers alone;
* `exited_step` — a worker leaves `run` only when its idle fiber has terminated, and takes no step
  afterwards;
* `mem_fibers_step` — an entry of the queue has been there before, has been scheduled from outside
  the loop, or is a task that ended in `READY`;
* `Allocated.step` — the fibers that somebody refers to exist;
* `consumed_step` — an entry is consumed when its body gives up the thread, or when its fiber has
  ended before (`executes`).
-/

namespace Sylar.Scheduler

variable {W F C : Type*}

/-! ## The other workers -/

/-- The worker that takes a step. -/
def Action.actor : Action W F C → Option W
  | .getThis w => some w
  | .reset w => some w
  | .dequeue w => some w
  | .start w _ => some w
  | .finish w _ => some w
  | .requeue w => some w
  | .idle w => some w
  | .idleReturn w _ => some w
  | _ => none

variable [DecidableEq W] [DecidableEq F]

variable {tid : W → ℤ} {s s' : State W F C} {a : Action W F C} {v w : W} {e : Entry F C}

/-- A step from outside leaves the workers alone. -/
theorem worker_of_actor_none (h : StepCase tid s a s') (ha : a.actor = none) :
    s'.worker = s.worker := by
  cases h with
  | create hfree => rfl
  | copy hheld => rfl
  | release hheld => rfl
  | schedule hheld => rw [worker_enqueue]
  | _ => cases ha

/-- A step of a worker leaves the other ones alone. -/
theorem worker_of_ne (h : StepCase tid s a s') (hv : a.actor ≠ some v) :
    s'.worker v = s.worker v := by
  cases h with
  | create hfree => rfl
  | copy hheld => rfl
  | release hheld => rfl
  | getThis hcur => rfl
  | schedule hheld => rw [worker_enqueue]
  | @requeueFiber w hw =>
    have hne : v ≠ w := fun heq => hv (congrArg some heq.symm)
    exact (Function.update_of_ne hne _ _).trans (by rw [worker_enqueue])
  | @requeueCb w thread hw =>
    have hne : v ≠ w := fun heq => hv (congrArg some heq.symm)
    exact (Function.update_of_ne hne _ _).trans (by rw [worker_enqueue])
  | _ =>
    refine Function.update_of_ne (fun heq => hv ?_) _ _
    rw [heq]
    rfl

/-- A worker that has left `run` takes no step. -/
theorem not_exited (h : StepCase tid s a s') (ha : a.actor = some w) :
    (s.worker w).phase ≠ .exited := by
  intro hexited
  cases h with
  | create hfree => cases ha
  | copy hheld => cases ha
  | release hheld => cases ha
  | schedule hheld => cases ha
  | getThis hcur =>
    cases ha
    -- it runs no body either
    simp [Worker.current, hexited] at hcur
  | _ =>
    cases ha
    simp_all

/-- A worker leaves `run` only when its idle fiber has terminated. -/
theorem exited_step (h : StepCase tid s a s') (hv : (s'.worker v).phase = .exited) :
    (s.worker v).phase = .exited ∨
      a = .idle v ∧ (s.worker v).phase = .idle ∧ (s.worker v).idle_fiber = .TERM := by
  by_cases ha : a.actor = some v
  · refine Or.inr ?_
    cases h with
    | create hfree => cases ha
    | copy hheld => cases ha
    | release hheld => cases ha
    | schedule hheld => cases ha
    | getThis hcur =>
      cases ha
      simp only [Worker.current, State.setHeld] at hcur hv
      simp [hv] at hcur
    | @exit w hw hidle =>
      cases ha
      exact ⟨rfl, hw, hidle⟩
    | _ =>
      cases ha
      simp [State.setWorker] at hv
  · rw [worker_of_ne h ha] at hv
    exact Or.inl hv

/-- No step of a worker or of its environment starts or stops the scheduler. -/
theorem flags_step (h : StepCase tid s a s') :
    s'.sched.running = s.sched.running ∧ s'.sched.autoStop = s.sched.autoStop := by
  have henqueue : ∀ task, (s.enqueue task).sched.running = s.sched.running ∧
      (s.enqueue task).sched.autoStop = s.sched.autoStop := by
    intro task
    unfold State.enqueue
    split <;> exact ⟨rfl, rfl⟩
  cases h with
  | schedule hheld => exact henqueue _
  | requeueFiber hw => exact henqueue _
  | requeueCb hw => exact henqueue _
  | _ => exact ⟨rfl, rfl⟩

/-! ## The queue -/

omit [DecidableEq W] [DecidableEq F] in
theorem mem_fibers_enqueue {task : FiberTask F C} (he : e ∈ (s.enqueue task).sched.fibers) :
    e ∈ s.sched.fibers ∨ e.task = task := by
  unfold State.enqueue at he
  split at he
  · rcases List.mem_append.mp he with he | he
    · exact Or.inl he
    · exact Or.inr (congrArg Entry.task (List.mem_singleton.mp he))
  · exact Or.inl he

/-- An entry of the queue has been there before, has been scheduled from outside the loop, or is the
task that a worker owed. -/
theorem mem_fibers_step (h : StepCase tid s a s') (he : e ∈ s'.sched.fibers) :
    e ∈ s.sched.fibers ∨ a = .schedule e.task ∨
      ∃ w, a.actor = some w ∧ e.task ∈ (s.worker w).owed ∧ (s'.worker w).phase = .loop := by
  cases h with
  | schedule hheld =>
    refine (mem_fibers_enqueue he).imp_right fun htask => Or.inl ?_
    rw [htask]
  | take hw hscan => exact Or.inl (mem_of_scan hscan (Or.inr he))
  | @requeueFiber w hw =>
    refine (mem_fibers_enqueue he).imp_right fun htask => Or.inr ⟨w, rfl, ?_, ?_⟩
    · simp [Worker.owed, hw, htask]
    · simp [State.setWorker]
  | @requeueCb w thread hw =>
    refine (mem_fibers_enqueue he).imp_right fun htask => Or.inr ⟨w, rfl, ?_, ?_⟩
    · simp [Worker.owed, hw, htask]
    · simp [State.setWorker]
  | _ => exact Or.inl he

/-- A worker owes what it has owed before, or the fiber of the entry in its hands, pinned as the
entry was. -/
theorem owed_step (hcons : (s.worker w).Consistent) (h : StepCase tid s a s')
    {task : FiberTask F C} (htask : task ∈ (s'.worker w).owed) :
    task ∈ (s.worker w).owed ∨ ∃ e ∈ (s.worker w).hand, task.thread_id = e.task.thread_id := by
  by_cases ha : a.actor = some w
  · cases h with
    | create hfree => exact Or.inl htask
    | copy hheld => exact Or.inl htask
    | release hheld => exact Or.inl htask
    | getThis hcur => exact Or.inl htask
    | schedule hheld => cases ha
    | @fiberReady w f e fiber hw hft hf hleave =>
      cases ha
      simp only [Worker.Consistent, hw] at hcons
      obtain rfl := by simpa [State.setWorker, Worker.owed] using htask
      exact Or.inr ⟨e, by simp [Worker.hand, hw], by simp [FiberTask.ofFiber, hcons.1]⟩
    | @cbReady w f e thread fiber hw hcbf hf hleave =>
      cases ha
      simp only [Worker.Consistent, hw] at hcons
      obtain rfl := by simpa [State.setWorker, Worker.owed] using htask
      exact Or.inr ⟨e, by simp [Worker.hand, hw], by simp [FiberTask.ofFiber, hcons.1]⟩
    | _ =>
      cases ha
      simp [State.setWorker, Worker.owed] at htask
  · rw [worker_of_ne h ha] at htask
    exact Or.inl htask

/-! ## References -/

/-- Somebody outside, an entry of the queue or a local variable of a worker refers to the fiber. -/
def Refers (s : State W F C) (f : F) : Prop :=
  0 < s.held f ∨ (∃ e ∈ s.sched.fibers, e.task.fiber = some f) ∨
    ∃ w, (s.worker w).ft.fiber = some f ∨ (s.worker w).cb_fiber = some f

variable {f : F}

omit [DecidableEq W] [DecidableEq F] in
theorem refers_of_held (h : 0 < s.held f) : Refers s f := Or.inl h

omit [DecidableEq W] [DecidableEq F] in
theorem refers_of_mem (he : e ∈ s.sched.fibers) (hf : e.task.fiber = some f) : Refers s f :=
  Or.inr (Or.inl ⟨e, he, hf⟩)

omit [DecidableEq W] [DecidableEq F] in
theorem refers_of_ft (hf : (s.worker w).ft.fiber = some f) : Refers s f :=
  Or.inr (Or.inr ⟨w, Or.inl hf⟩)

omit [DecidableEq W] [DecidableEq F] in
theorem refers_of_cb_fiber (hf : (s.worker w).cb_fiber = some f) : Refers s f :=
  Or.inr (Or.inr ⟨w, Or.inr hf⟩)

omit [DecidableEq W] [DecidableEq F] in
theorem refers_of_current (hf : (s.worker w).current = some f) : Refers s f := by
  unfold Worker.current at hf
  split at hf
  · exact refers_of_ft hf
  · exact refers_of_cb_fiber hf
  · cases hf

omit [DecidableEq F] in
/-- The local variables of one worker change. -/
theorem refers_setWorker {wk : Worker F C} (h : Refers (s.setWorker w wk) f) :
    Refers s f ∨ wk.ft.fiber = some f ∨ wk.cb_fiber = some f := by
  rcases h with hheld | ⟨e, he, hf⟩ | ⟨v, hv⟩
  · exact Or.inl (refers_of_held hheld)
  · exact Or.inl (refers_of_mem he hf)
  · by_cases heq : v = w
    · subst heq
      simp only [State.setWorker, Function.update_self] at hv
      exact Or.inr hv
    · simp only [State.setWorker, Function.update_of_ne heq] at hv
      exact Or.inl (Or.inr (Or.inr ⟨v, hv⟩))

omit [DecidableEq W] [DecidableEq F] in
theorem refers_enqueue {task : FiberTask F C} (h : Refers (s.enqueue task) f) :
    Refers s f ∨ task.fiber = some f := by
  rcases h with hheld | ⟨e, he, hf⟩ | ⟨v, hv⟩
  · rw [held_enqueue] at hheld
    exact Or.inl (refers_of_held hheld)
  · rcases mem_fibers_enqueue he with he | htask
    · exact Or.inl (refers_of_mem he hf)
    · exact Or.inr (htask ▸ hf)
  · rw [worker_enqueue] at hv
    exact Or.inl (Or.inr (Or.inr ⟨v, hv⟩))

/-- A step refers only to fibers that were referred to before, or that it creates. -/
theorem refers_step (h : StepCase tid s a s') (hf : Refers s' f) :
    Refers s f ∨ s'.heap f ≠ none := by
  cases h with
  | @create g cb hfree =>
    by_cases heq : f = g
    · exact Or.inr (by simp [State.setHeld, State.setFiber, heq])
    · refine Or.inl (hf.imp_left fun hheld => ?_)
      simpa [State.setHeld, State.setFiber, heq] using hheld
  | @copy g hheld =>
    by_cases heq : f = g
    · exact Or.inl (refers_of_held (heq ▸ hheld))
    · exact Or.inl (hf.imp_left fun hheld => by simpa [State.setHeld, heq] using hheld)
  | @release g hheld =>
    by_cases heq : f = g
    · exact Or.inl (refers_of_held (heq ▸ hheld))
    · exact Or.inl (hf.imp_left fun hheld => by simpa [State.setHeld, heq] using hheld)
  | @getThis w g hcur =>
    by_cases heq : f = g
    · exact Or.inl (refers_of_current (heq ▸ hcur))
    · exact Or.inl (hf.imp_left fun hheld => by simpa [State.setHeld, heq] using hheld)
  | schedule hheld =>
    rcases refers_enqueue hf with hf | htask
    · exact Or.inl hf
    · exact Or.inl (refers_of_held (hheld f htask))
  | @reset w hw =>
    rcases refers_setWorker hf with hf | hft | hcbf
    · exact Or.inl hf
    · cases hft
    · exact Or.inl (refers_of_cb_fiber hcbf)
  | @take w e rest hw hscan =>
    refine Or.inl ?_
    rcases refers_setWorker hf with (hheld | ⟨e', he', hf⟩ | hworker) | hft | hcbf
    · exact refers_of_held hheld
    · exact refers_of_mem (mem_of_scan hscan (Or.inr he')) hf
    · exact Or.inr (Or.inr hworker)
    · -- the worker has the fiber of an entry that was in the queue
      exact refers_of_mem (mem_of_scan hscan (Or.inl rfl)) hft
    · exact refers_of_cb_fiber hcbf
  | @startCb w fresh g e cb fiber hw hcb hcbf hg =>
    -- the callback moves into the fiber that `cb_fiber` has already
    rcases refers_setWorker hf with hf | hft | hsame
    · exact Or.inl hf
    · cases hft
    · exact Or.inl (refers_of_cb_fiber (hcbf.trans hsame))
  | @startNew w fresh e cb hw hcb hcbf hfree =>
    rcases refers_setWorker hf with hf | hft | hnew
    · exact Or.inl hf
    · cases hft
    · cases hnew
      -- the fiber made for the callback is on the heap
      exact Or.inr (by simp [State.setWorker, State.setFiber])
  | @cbHold w g e thread fiber hw hcbf hg hleave =>
    -- the worker gives its reference up
    rcases refers_setWorker hf with hf | hft | hcbf
    · exact Or.inl hf
    · exact Or.inl (refers_of_ft hft)
    · cases hcbf
  | @requeueFiber w hw =>
    rcases refers_setWorker hf with hf | hft | hcbf
    · exact Or.inl ((refers_enqueue hf).elim id refers_of_ft)
    · exact Or.inl (refers_of_ft hft)
    · exact Or.inl (refers_of_cb_fiber hcbf)
  | @requeueCb w thread hw =>
    rcases refers_setWorker hf with hf | hft | hcbf
    · exact Or.inl ((refers_enqueue hf).elim id refers_of_cb_fiber)
    · exact Or.inl (refers_of_ft hft)
    · cases hcbf
  | @exit w hw hidle =>
    rcases refers_setWorker hf with hf | hft | hcbf
    · exact Or.inl hf
    · cases hft
    · cases hcbf
  | _ =>
    rcases refers_setWorker hf with hf | hft | hcbf
    · exact Or.inl hf
    · exact Or.inl (refers_of_ft hft)
    · exact Or.inl (refers_of_cb_fiber hcbf)

/-- Fibers are never removed from the heap. -/
theorem heap_step (h : StepCase tid s a s') (hf : s.heap f ≠ none) : s'.heap f ≠ none := by
  -- storing a fiber adds to what is there
  have hset : ∀ (t : State W F C) (g : F) (fiber : Fiber C), t.heap = s.heap →
      (t.setFiber g fiber).heap f ≠ none := by
    intro t g fiber hheap
    simp only [State.setFiber, Function.update_apply]
    split
    · nofun
    · rwa [hheap]
  cases h with
  | schedule hheld => rwa [heap_enqueue]
  | requeueFiber hw => exact (heap_enqueue s _).symm ▸ hf
  | requeueCb hw => exact (heap_enqueue s _).symm ▸ hf
  | create hfree => exact hset s _ _ rfl
  | startFiber hw hft hf hended => exact hset s _ _ rfl
  | startCb hw hcb hcbf hf => exact hset s _ _ rfl
  | startNew hw hcb hcbf hfree => exact hset s _ _ rfl
  | fiberReady hw hft hf hleave => exact hset s _ _ rfl
  | fiberHold hw hft hf hleave => exact hset s _ _ rfl
  | fiberEnded hw hft hf hleave hended => exact hset s _ _ rfl
  | cbReady hw hcbf hf hleave => exact hset s _ _ rfl
  | cbHold hw hcbf hf hleave => exact hset s _ _ rfl
  | cbEnded hw hcbf hf hleave hended => exact hset s _ _ rfl
  | _ => exact hf

/-- Whatever somebody refers to is on the heap. -/
def Allocated (s : State W F C) : Prop := ∀ f, Refers s f → s.heap f ≠ none

omit [DecidableEq W] [DecidableEq F] in
theorem allocated_new : Allocated (State.new : State W F C) := by
  intro f hf
  simp [Refers, State.new, Worker.new, FiberTask.empty] at hf

/-- A step keeps what is referred to on the heap. -/
theorem Allocated.step (h : Allocated s) (hstep : StepCase tid s a s') : Allocated s' := by
  intro f hf
  rcases refers_step hstep hf with hold | hnew
  · exact heap_step hstep (h f hold)
  · exact hnew

/-! ## Execution -/

/-- The fiber of the task has ended. -/
def State.endedTask (s : State W F C) (task : FiberTask F C) : Bool :=
  match task.fiber.bind s.heap with
  | some fiber => fiber.ended
  | none => false

/-- The entries that a step has executed: the body has given up the thread, or there is nothing to
run because the fiber has ended before. -/
def State.executes (s : State W F C) : Action W F C → List (Entry F C)
  | .start w _ =>
    match (s.worker w).phase with
    | .taken e => if e.task.cb.isNone && s.endedTask e.task then [e] else []
    | _ => []
  | .finish w _ =>
    match (s.worker w).phase with
    | .inFiber e => [e]
    | .inCb e _ => [e]
    | _ => []
  | _ => []

omit [DecidableEq W] [DecidableEq F] in
theorem consumed_enqueue (s : State W F C) (task : FiberTask F C) :
    (s.enqueue task).consumed = s.consumed := by
  unfold State.enqueue
  split <;> rfl

/-- Exactly the entries executed are consumed. -/
theorem consumed_step (hcons : ∀ w, (s.worker w).Consistent) (halloc : Allocated s)
    (h : StepCase tid s a s') : s'.consumed = s.consumed ++ s.executes a := by
  cases h with
  | schedule hheld => exact (consumed_enqueue s _).trans (List.append_nil _).symm
  | requeueFiber hw => exact (consumed_enqueue s _).trans (List.append_nil _).symm
  | requeueCb hw => exact (consumed_enqueue s _).trans (List.append_nil _).symm
  | @startFiber w fresh f e fiber hw hft hf hended =>
    have hwk := hcons w
    simp only [Worker.Consistent, hw] at hwk
    -- the fiber runs, so its entry is not stale
    have hnot : s.endedTask e.task = false := by
      simp [State.endedTask, ← hwk, hft, hf, hended]
    simp [State.executes, hw, hnot, State.setWorker, State.setFiber, State.call]
  | @startCb w fresh f e cb fiber hw hcb hcbf hf =>
    have hwk := hcons w
    simp only [Worker.Consistent, hw] at hwk
    simp [State.executes, hw, ← hwk, hcb, State.setWorker, State.setFiber, State.call]
  | @startNew w fresh e cb hw hcb hcbf hfree =>
    have hwk := hcons w
    simp only [Worker.Consistent, hw] at hwk
    simp [State.executes, hw, ← hwk, hcb, State.setWorker, State.setFiber, State.call]
  | @stale w fresh e hw hcb hstale =>
    have hwk := hcons w
    simp only [Worker.Consistent, hw] at hwk
    -- the task is not empty, so it has a fiber
    obtain ⟨f, hf⟩ : ∃ f, (s.worker w).ft.fiber = some f := by
      have hne := e.nonempty
      rw [← hwk] at hne
      simpa [FiberTask.nonempty, hcb, Option.isSome_iff_exists] using hne
    obtain ⟨fiber, hfiber⟩ := Option.ne_none_iff_exists'.mp (halloc f (refers_of_ft hf))
    have hended : s.endedTask e.task = true := by
      simp [State.endedTask, ← hwk, hf, hfiber, hstale f fiber hf hfiber]
    simp [State.executes, hw, ← hwk, hcb, hwk ▸ hended, State.setWorker, State.consume]
  | fiberReady hw hft hf hleave =>
    simp [State.executes, hw, State.setWorker, State.setFiber, State.ready, State.consume]
  | fiberHold hw hft hf hleave =>
    simp [State.executes, hw, State.setWorker, State.setFiber, State.consume]
  | fiberEnded hw hft hf hleave hended =>
    simp [State.executes, hw, State.setWorker, State.setFiber, State.consume]
  | cbReady hw hcbf hf hleave =>
    simp [State.executes, hw, State.setWorker, State.setFiber, State.ready, State.consume]
  | cbHold hw hcbf hf hleave =>
    simp [State.executes, hw, State.setWorker, State.setFiber, State.consume]
  | cbEnded hw hcbf hf hleave hended =>
    simp [State.executes, hw, State.setWorker, State.setFiber, State.call, State.consume]
  | _ => exact (List.append_nil _).symm

end Sylar.Scheduler
