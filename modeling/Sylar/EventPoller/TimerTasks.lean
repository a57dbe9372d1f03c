import Sylar.Scheduler.Conservation
import Sylar.Timer.Delivery

/-!
# From a timer to the run queue

`EventPoller` is a timer manager and a scheduler. In `idle` a worker calls `listExpiredCb(cbs)` on a
vector of its own and then `schedule(cbs.begin(), cbs.end())`, which puts the callbacks into the
run queue one by one, while other workers and threads go on. `Step` composes the steps of the timer
manager with those of the scheduler through these vectors.

`timer_tasks` says that in every run the delivery law of timers and the conservation law of the run
queue hold side by side, and that the vectors lose nothing in between: every delivery of a timer is
one entry of the run queue, or still in the vector of a worker.
-/

namespace Sylar.EventPoller.TimerTasks

open Transition

variable {W Addr F C : Type*}

/-- The timer set, the run queue with its workers, and the vector `cbs` of each worker. -/
structure State (W Addr F C : Type*) where
  timers : TimerManager Addr C
  core : Scheduler.State W F C
  cbs : W → List (Option C)

/-- The task of a callback in a range. -/
def taskOf (cb : Option C) : FiberTask F C := (FiberTask.swapCb cb (-1)).1

/-- The tasks of the callbacks in a range. -/
def tasksOf (cbs : List (Option C)) : Multiset (FiberTask F C) :=
  (cbs.map taskOf : List (FiberTask F C))

theorem tasksOf_append (cbs cbs' : List (Option C)) :
    (tasksOf (cbs ++ cbs') : Multiset (FiberTask F C)) = tasksOf cbs + tasksOf cbs' := by
  rw [tasksOf, List.map_append, ← Multiset.coe_add]
  rfl

@[simp]
theorem tasksOf_nil : (tasksOf [] : Multiset (FiberTask F C)) = 0 := rfl

theorem tasksOf_cons (cb : Option C) (cbs : List (Option C)) :
    (tasksOf (cb :: cbs) : Multiset (FiberTask F C)) = {taskOf cb} + tasksOf cbs := rfl

/-- What may happen. -/
inductive Action (W Addr F C : Type*)
  /-- `addTimer` or `Timer::cancel`. -/
  | timer (e : TimerManager.Event Addr C)
  /-- `listExpiredCb(cbs)` in `idle`. -/
  | listExpiredCb (w : W) (now : UInt64) (probe : Addr) (expired : List Addr)
  /-- `scheduleNonLock(&(*begin), -1)` in the loop of `schedule(begin, end)`. -/
  | scheduleNonLock (w : W) (cb : Option C)
  /-- A step of the scheduler; other tasks may be scheduled at any time. -/
  | core (a : Scheduler.Action W F C)

/-- Nothing has happened yet. -/
def State.new : State W Addr F C where
  timers := .new
  core := .new
  cbs := fun _ => []

variable [LinearOrder Addr] [DecidableEq W] [DecidableEq F]

/-- The event is a call of `addTimer` or `cancel`. -/
def External : TimerManager.Event Addr C → Prop
  | .listExpiredCb .. => False
  | _ => True

/-- A worker calls `listExpiredCb` and `schedule` in `idle`, and leaves it when its vector is
empty. -/
inductive Step (tid : W → ℤ) (s : State W Addr F C) :
    Action W Addr F C → State W Addr F C → Prop
  | timer {e : TimerManager.Event Addr C} {timers : TimerManager Addr C} (he : External e)
      (hstep : TimerManager.Step s.timers e timers) :
      Step tid s (.timer e) { s with timers := timers }
  | listExpiredCb {w : W} (hidle : (s.core.worker w).phase = .idling) (hempty : s.cbs w = [])
      (now : UInt64) {probe : Addr} (hfree : s.timers.heap probe = none) :
      Step tid s (.listExpiredCb w now probe (s.timers.expired now probe)) { s with
        timers := (s.timers.listExpiredCb now probe []).1
        cbs := Function.update s.cbs w (s.timers.listExpiredCb now probe []).2 }
  | scheduleNonLock {w : W} {cb : Option C} {cbs : List (Option C)} (hcbs : s.cbs w = cb :: cbs) :
      Step tid s (.scheduleNonLock w cb) { s with
        core := s.core.enqueue (taskOf cb)
        cbs := Function.update s.cbs w cbs }
  | core {a : Scheduler.Action W F C} {core : Scheduler.State W F C}
      (hidle : ∀ w returns, a = .idleReturn w returns → s.cbs w = [])
      (hstep : Scheduler.step tid s.core a = some core) :
      Step tid s (.core a) { s with core := core }

/-! ## What a run has done -/

/-- What an action does to the timer set. -/
def Action.timers : Action W Addr F C → List (TimerManager.Event Addr C)
  | .timer e => [e]
  | .listExpiredCb _ now probe expired => [.listExpiredCb now probe expired]
  | _ => []

/-- What an action does to the scheduler. -/
def Action.ofCore : Action W Addr F C → List (Scheduler.Action W F C)
  | .scheduleNonLock _ cb => [.schedule (taskOf cb)]
  | .core a => [a]
  | _ => []

/-- The timers that an action delivers, in order. -/
def Action.delivered : Action W Addr F C → List Addr
  | .listExpiredCb _ _ _ expired => expired
  | _ => []

/-- The tasks that an action schedules, other than callbacks of timers. -/
def Action.others : Action W Addr F C → List (FiberTask F C)
  | .core a => a.scheduled
  | _ => []

/-- The callback that an action gives to a new timer at `p`. -/
def Action.added (p : Addr) : Action W Addr F C → Option C
  | .timer (.addTimer q _ cb _ _) => if q = p then some cb else none
  | _ => none

/-- The callback given to the timer at `p`. -/
def added (as : List (Action W Addr F C)) (p : Addr) : Option C := as.findSome? (Action.added p)

/-- The task of each delivery of a timer. -/
def deliveredTasks (as : List (Action W Addr F C)) : Multiset (FiberTask F C) :=
  tasksOf ((as.flatMap Action.delivered).map (added as))

/-- The laws in a state `s` reached by the actions `as`. -/
structure Laws [Fintype W] (tid : W → ℤ) (as : List (Action W Addr F C))
    (s : State W Addr F C) : Prop where
  timers : TimerManager.DeliveryLaw (as.flatMap Action.timers) s.timers
  queue : Scheduler.Conservation tid (as.flatMap Action.ofCore) s.core
  /-- The tasks enqueued, those that a worker has yet to enqueue again, and the callbacks in the
  vectors are the tasks scheduled by others, those that ended in `READY`, and one task for each
  delivery of a timer. -/
  tasks : (s.core.enqueued.map Entry.task : Multiset (FiberTask F C)) +
      ∑ w, (s.core.worker w).owed + ∑ w, tasksOf (s.cbs w) =
    (as.flatMap Action.others : Multiset (FiberTask F C)) +
      (s.core.readied : Multiset (FiberTask F C)) +
      deliveredTasks as

/-! ## The timers -/

section Timers

variable {as : List (Action W Addr F C)} {a : Action W Addr F C} {p : Addr}

omit [LinearOrder Addr] [DecidableEq W] [DecidableEq F] in
theorem taskOf_nonempty {cb : Option C} (h : cb.isSome = true) :
    (taskOf cb : FiberTask F C).nonempty = true := by
  rw [taskOf, FiberTask.swapCb, FiberTask.nonempty, h, Bool.true_or]

/-- The callback of a timer is the one that it was added with, while it has one. -/
structure Known (as : List (Action W Addr F C)) (m : TimerManager Addr C) : Prop where
  fresh : ∀ p, m.heap p = none → added as p = none
  cb : ∀ p t, m.heap p = some t → (added as p).isSome = true ∧ (t.cb = none ∨ t.cb = added as p)

omit [DecidableEq W] [DecidableEq F] in
theorem added_append (as : List (Action W Addr F C)) (a : Action W Addr F C) (p : Addr) :
    added (as ++ [a]) p = (added as p).or (a.added p) := by
  rw [added, List.findSome?_append, ← added]
  cases added as p <;> simp

omit [DecidableEq W] [DecidableEq F] in
/-- Once a timer has been added, its callback is known for the rest of the run. -/
theorem added_append_of_isSome (h : (added as p).isSome = true) :
    added (as ++ [a]) p = added as p := by
  obtain ⟨cb, hcb⟩ := Option.isSome_iff_exists.mp h
  rw [added_append, hcb]
  rfl

omit [DecidableEq W] [DecidableEq F] in
theorem Known.append {m m' : TimerManager Addr C} (h : Known as m) (ha : ∀ p, a.added p = none)
    (hheap : ∀ p t', m'.heap p = some t' →
      ∃ t, m.heap p = some t ∧ (t'.cb = none ∨ t'.cb = t.cb))
    (hnone : ∀ p, m'.heap p = none → m.heap p = none) : Known (as ++ [a]) m' := by
  have hadded : ∀ p, added (as ++ [a]) p = added as p := by
    intro p
    rw [added_append, ha, Option.or_none]
  refine ⟨fun p hp => by rw [hadded, h.fresh p (hnone p hp)], fun p t' ht' => ?_⟩
  obtain ⟨t, ht, hcb⟩ := hheap p t' ht'
  obtain ⟨hsome, hold⟩ := h.cb p t ht
  rw [hadded]
  refine ⟨hsome, ?_⟩
  rcases hcb with hcb | hcb
  · exact Or.inl hcb
  · rw [hcb]
    exact hold

omit [DecidableEq W] [DecidableEq F] in
/-- A call of `addTimer` or `cancel`. -/
theorem Known.timer {m m' : TimerManager Addr C} {e : TimerManager.Event Addr C}
    (h : Known as m) (hwf : m.WF) (he : External e) (hstep : TimerManager.Step m e m') :
    Known (as ++ [.timer e]) m' := by
  cases hstep with
  | @addTimer p hfree ms cb recurring now =>
    obtain ⟨-, hheap, -⟩ := TimerManager.addTimer_spec hwf hfree ms cb recurring now
    have hnew : (Action.timer (.addTimer p ms cb recurring now) : Action W Addr F C).added p =
        some cb := by
      simp [Action.added]
    have hold : ∀ q, q ≠ p →
        (Action.timer (.addTimer p ms cb recurring now) : Action W Addr F C).added q = none := by
      intro q hq
      simp [Action.added, Ne.symm hq]
    refine ⟨fun q hq => ?_, fun q t ht => ?_⟩
    · have hne : q ≠ p := by
        rintro rfl
        simp [hheap] at hq
      rw [hheap, TimerManager.set_heap_of_ne _ hne] at hq
      rw [added_append, h.fresh q hq, hold q hne]
      rfl
    · rw [hheap] at ht
      by_cases hq : q = p
      · subst hq
        rw [TimerManager.set_heap_self] at ht
        obtain rfl := Option.some.inj ht
        rw [added_append, h.fresh q hfree, hnew]
        exact ⟨rfl, Or.inr rfl⟩
      · rw [TimerManager.set_heap_of_ne _ hq] at ht
        rw [added_append, hold q hq, Option.or_none]
        exact h.cb q t ht
  | @cancel p hlive =>
    obtain ⟨t, ht⟩ := Option.isSome_iff_exists.mp hlive
    refine h.append (fun q => rfl) (fun q u hu => ?_) (fun q hq => ?_)
    · by_cases hcb : t.cb.isSome = true
      · rw [TimerManager.cancel_of_some hwf ht hcb] at hu
        by_cases hq : q = p
        · subst hq
          refine ⟨t, ht, Or.inl ?_⟩
          obtain rfl : { t with cb := none } = u := by simpa using hu
          rfl
        · exact ⟨u, by simpa [TimerManager.set, hq] using hu, Or.inr rfl⟩
      · rw [TimerManager.cancel_of_none ht (by simpa using hcb)] at hu
        exact ⟨u, hu, Or.inr rfl⟩
    · by_cases hcb : t.cb.isSome = true
      · rw [TimerManager.cancel_of_some hwf ht hcb] at hq
        by_cases hqp : q = p
        · subst hqp
          simp at hq
        · simpa [TimerManager.set, hqp] using hq
      · rwa [TimerManager.cancel_of_none ht (by simpa using hcb)] at hq
  | listExpiredCb hfree now cbs => exact he.elim

omit [DecidableEq W] [DecidableEq F] in
/-- What `listExpiredCb` appends are the callbacks that the due timers were added with. -/
theorem Known.listExpiredCb {m : TimerManager Addr C} (h : Known as m) (hwf : m.WF) (w : W)
    (now : UInt64) (probe : Addr) :
    Known (as ++ [.listExpiredCb w now probe (m.expired now probe)])
        (m.listExpiredCb now probe []).1 ∧
      (m.listExpiredCb now probe []).2 = (m.expired now probe).map (added as) ∧
      ∀ p ∈ m.expired now probe, (added as p).isSome = true := by
  obtain ⟨m', heq, hwf', hheap⟩ := TimerManager.listExpiredCb_spec hwf now probe []
  have hexp := (hwf.toOrdered.expired_eq_filter now probe).1
  have hpending : ∀ p ∈ m.expired now probe, ∃ t, m.heap p = some t ∧ t.cb = added as p ∧
      t.cb.isSome = true := by
    intro p hp
    rw [hexp] at hp
    have hin := (List.mem_filter.mp hp).1
    obtain ⟨t, ht⟩ := Option.isSome_iff_exists.mp (hwf.live p hin)
    have hcb := (hwf.mem_iff p t ht).mp hin
    refine ⟨t, ht, ((h.cb p t ht).2.resolve_left fun hnone => ?_), hcb⟩
    rw [hnone] at hcb
    cases hcb
  refine ⟨?_, ?_, fun p hp => ?_⟩
  · rw [heq]
    refine h.append (fun p => rfl) (fun p t' ht' => ?_) (fun p hp => ?_)
    · rw [hheap p] at ht'
      split_ifs at ht' with hmem
      · obtain ⟨t, ht, rfl⟩ := Option.map_eq_some_iff.mp ht'
        refine ⟨t, ht, ?_⟩
        unfold Timer.delivered
        split_ifs
        · exact Or.inr rfl
        · exact Or.inl rfl
      · exact ⟨t', ht', Or.inr rfl⟩
    · rw [hheap p] at hp
      split_ifs at hp
      · simpa using hp
      · exact hp
  · rw [heq, ← hexp]
    refine List.map_congr_left fun p hp => ?_
    obtain ⟨t, ht, hcb, -⟩ := hpending p hp
    simp [TimerManager.callback, ht, hcb]
  · obtain ⟨t, -, hcb, hsome⟩ := hpending p hp
    rwa [← hcb]

end Timers

/-! ## Runs -/

section Runs

variable {tid : W → ℤ} {as : List (Action W Addr F C)} {a : Action W Addr F C}
  {s s' : State W Addr F C}

/-- The timers of a run take the steps of a timer manager. -/
theorem timers_step (h : Step tid s a s') :
    Run TimerManager.Step s.timers a.timers s'.timers := by
  cases h with
  | timer he hstep => exact Run.single hstep
  | listExpiredCb hidle hempty now hfree => exact Run.single (.listExpiredCb hfree now [])
  | scheduleNonLock hcbs => exact Run.refl
  | core hidle hstep => exact Run.refl

/-- The scheduler takes its own steps. -/
theorem core_step (h : Step tid s a s') :
    Run (ofFun (Scheduler.step tid)) s.core a.ofCore s'.core := by
  cases h with
  | timer he hstep => exact Run.refl
  | listExpiredCb hidle hempty now hfree => exact Run.refl
  | scheduleNonLock hcbs => exact Run.single rfl
  | core hidle hstep => exact Run.single hstep

variable [Fintype W]

/-- What the vectors of the workers hold, and what has been taken out of them. -/
structure Inv (as : List (Action W Addr F C)) (s : State W Addr F C) : Prop where
  known : Known as s.timers
  delivered : ∀ p ∈ as.flatMap Action.delivered, (added as p).isSome = true
  filled : ∀ w, ∀ cb ∈ s.cbs w, cb.isSome = true
  vectors : (((as.flatMap Action.ofCore).flatMap Scheduler.Action.scheduled :
      List (FiberTask F C)) : Multiset (FiberTask F C)) + ∑ w, tasksOf (s.cbs w) =
    (as.flatMap Action.others : Multiset (FiberTask F C)) + deliveredTasks as

omit [DecidableEq W] [DecidableEq F] [Fintype W] in
/-- The tasks of earlier deliveries stay as they are. -/
theorem deliveredTasks_append (h : ∀ p ∈ as.flatMap Action.delivered, (added as p).isSome = true)
    (a : Action W Addr F C) :
    deliveredTasks (as ++ [a]) =
      deliveredTasks as + tasksOf (a.delivered.map (added (as ++ [a]))) := by
  have hold : (as.flatMap Action.delivered).map (added (as ++ [a])) =
      (as.flatMap Action.delivered).map (added as) :=
    List.map_congr_left fun p hp => added_append_of_isSome (h p hp)
  rw [deliveredTasks, List.flatMap_append, List.flatMap_singleton, List.map_append, hold,
    deliveredTasks, tasksOf_append]

omit [DecidableEq W] [DecidableEq F] in
theorem inv_new : Inv ([] : List (Action W Addr F C)) State.new where
  known := ⟨fun _ _ => rfl, fun p t ht => by cases ht⟩
  delivered := fun p hp => by cases hp
  filled := fun w cb hcb => by cases hcb
  vectors := by simp [deliveredTasks, tasksOf, State.new]

theorem Inv.step (h : Inv as s) (hwf : s.timers.WF) (hstep : Step tid s a s') :
    Inv (as ++ [a]) s' := by
  have hdelivered : ∀ p ∈ as.flatMap Action.delivered, (added (as ++ [a]) p).isSome = true := by
    intro p hp
    rw [added_append_of_isSome (h.delivered p hp)]
    exact h.delivered p hp
  have hvectors := h.vectors
  cases hstep with
  | @timer e timers he hstep =>
    refine ⟨h.known.timer hwf he hstep, ?_, h.filled, ?_⟩
    · simpa [Action.delivered] using hdelivered
    · rw [deliveredTasks_append h.delivered]
      simpa [Action.ofCore, Action.others, Action.delivered] using hvectors
  | @listExpiredCb w hidle hempty now probe hfree =>
    obtain ⟨hknown, hcbs, hexpired⟩ := h.known.listExpiredCb hwf w now probe
    have hsame : ∀ p ∈ s.timers.expired now probe,
        added (as ++ [.listExpiredCb w now probe (s.timers.expired now probe)]) p = added as p :=
      fun p hp => added_append_of_isSome (hexpired p hp)
    refine ⟨hknown, ?_, fun v cb hcb => ?_, ?_⟩
    · intro p hp
      rw [List.flatMap_append, List.flatMap_singleton, List.mem_append] at hp
      rcases hp with hp | hp
      · exact hdelivered p hp
      · rw [hsame p hp]
        exact hexpired p hp
    · replace hcb : cb ∈ Function.update s.cbs w (s.timers.listExpiredCb now probe []).2 v := hcb
      by_cases hv : v = w
      · subst hv
        rw [Function.update_self, hcbs] at hcb
        obtain ⟨p, hp, rfl⟩ := List.mem_map.mp hcb
        exact hexpired p hp
      · rw [Function.update_of_ne hv] at hcb
        exact h.filled v cb hcb
    · -- the vector of the worker was empty, and holds the callbacks of the timers delivered
      have hsum := Table.sum_update (tasksOf (F := F)) s.cbs w
        (s.timers.listExpiredCb now probe []).2
      rw [hempty, tasksOf_nil, add_zero, hcbs] at hsum
      have hmap : (s.timers.expired now probe).map (added (as ++
          [.listExpiredCb w now probe (s.timers.expired now probe)])) =
          (s.timers.expired now probe).map (added as) := List.map_congr_left hsame
      rw [deliveredTasks_append h.delivered]
      simp only [List.flatMap_append, List.flatMap_singleton, Action.ofCore, Action.others,
        Action.delivered, List.append_nil, hmap, hcbs]
      rw [hsum, ← add_assoc, hvectors, add_assoc]
  | @scheduleNonLock w cb cbs hcbs =>
    have hcb : cb.isSome = true := h.filled w cb (by rw [hcbs]; exact List.mem_cons_self)
    refine ⟨?_, ?_, fun v cb' hcb' => ?_, ?_⟩
    · exact h.known.append (fun p => rfl) (fun p t ht => ⟨t, ht, Or.inr rfl⟩) fun p hp => hp
    · simpa [Action.delivered] using hdelivered
    · replace hcb' : cb' ∈ Function.update s.cbs w cbs v := hcb'
      by_cases hv : v = w
      · subst hv
        rw [Function.update_self] at hcb'
        exact h.filled v cb' (by rw [hcbs]; exact List.mem_cons_of_mem _ hcb')
      · rw [Function.update_of_ne hv] at hcb'
        exact h.filled v cb' hcb'
    · have hsum := Table.sum_update (tasksOf (F := F)) s.cbs w cbs
      rw [hcbs, tasksOf_cons] at hsum
      have hnonempty := taskOf_nonempty (F := F) hcb
      rw [deliveredTasks_append h.delivered]
      simp only [List.flatMap_append, List.flatMap_singleton, Action.ofCore, Action.others,
        Action.delivered, List.append_nil, List.map_nil, tasksOf_nil, add_zero,
        Scheduler.Action.scheduled, hnonempty, if_true, ← Multiset.coe_add, Multiset.coe_singleton]
      rw [← hvectors, add_assoc]
      congr 1
      apply add_right_cancel (b := tasksOf cbs)
      rw [← hsum]
      ac_rfl
  | @core b core hidle hstep =>
    refine ⟨?_, ?_, h.filled, ?_⟩
    · exact h.known.append (fun p => rfl) (fun p t ht => ⟨t, ht, Or.inr rfl⟩) fun p hp => hp
    · simpa [Action.delivered] using hdelivered
    · rw [deliveredTasks_append h.delivered]
      simp only [List.flatMap_append, List.flatMap_singleton, Action.ofCore, Action.others,
        Action.delivered, List.map_nil, tasksOf_nil, add_zero, ← Multiset.coe_add]
      rw [add_right_comm, hvectors, add_right_comm]

/-- In every run the laws of the timers and of the run queue hold together, and every delivery of a
timer becomes one entry of the run queue. -/
theorem timer_tasks (hrun : Run (Step tid) State.new as s) : Laws tid as s := by
  have htimers : Run TimerManager.Step .new (as.flatMap Action.timers) s.timers :=
    hrun.project fun _ _ _ hstep => timers_step hstep
  have hqueue : Scheduler.Conservation tid (as.flatMap Action.ofCore) s.core :=
    Scheduler.run_queue_conservation (hrun.project fun _ _ _ hstep => core_step hstep)
  obtain ⟨-, hinv⟩ := hrun.history
    (I := fun as s => Run TimerManager.Step .new (as.flatMap Action.timers) s.timers ∧ Inv as s)
    ⟨Run.refl, inv_new⟩ fun as s a s' h hstep => by
      obtain ⟨hpast, hinv⟩ := h
      refine ⟨?_, hinv.step (TimerManager.History.run hpast).toWF hstep⟩
      rw [List.flatMap_append, List.flatMap_singleton]
      exact hpast.append (timers_step hstep)
  refine ⟨TimerManager.delivery_law htimers, hqueue, ?_⟩
  rw [hqueue.tasks, add_right_comm, hinv.vectors, add_right_comm]

/-- A worker delivers a timer that recurs, and another one delivers it again before the first has
put its callback into the queue. -/
theorem timer_tasks_example :
    ∃ (as : List (Action Bool ℕ ℕ String)) (s : State Bool ℕ ℕ String),
      as.flatMap Action.delivered = [7, 7] ∧ s.core.enqueued.length = 1 ∧
      s.cbs true = [some "tick"] ∧ Laws (fun w => if w then 2 else 1) as s := by
  have hstay : ∀ b : Scheduler.Action Bool ℕ String, (∀ w r, b ≠ .idleReturn w r) →
      ∀ w r, b = .idleReturn w r → (State.new : State Bool ℕ ℕ String).cbs w = [] :=
    fun b hb w r h => absurd h (hb w r)
  refine ⟨[.core (.reset true), .core (.dequeue true), .core (.idle true), .core (.reset false),
    .core (.dequeue false), .core (.idle false), .timer (.addTimer 7 10 "tick" true 100),
    .listExpiredCb false 110 5 [7], .listExpiredCb true 120 9 [7],
    .scheduleNonLock false (some "tick")], _, rfl, ?_, ?_, timer_tasks (.snoc (.snoc (.snoc (.snoc
    (.snoc (.snoc (.snoc (.snoc (.snoc (.snoc .refl
    (.core (hstay (.reset true) (by simp)) rfl)) (.core (hstay (.dequeue true) (by simp)) rfl))
    (.core (hstay (.idle true) (by simp)) rfl)) (.core (hstay (.reset false) (by simp)) rfl))
    (.core (hstay (.dequeue false) (by simp)) rfl)) (.core (hstay (.idle false) (by simp)) rfl))
    (.timer trivial (.addTimer ?_ 10 "tick" true 100))) (.listExpiredCb ?_ ?_ 110 ?_))
    (.listExpiredCb ?_ ?_ 120 ?_)) (.scheduleNonLock rfl))⟩
  all_goals rfl

end Runs

end Sylar.EventPoller.TimerTasks
