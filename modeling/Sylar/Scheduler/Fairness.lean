import Sylar.Scheduler.Conservation

/-!
# The order in which entries are taken

The scan takes the first entry of the queue that is eligible for the worker. So

* `bounded_waiting` — while the fiber of an entry is not executing elsewhere, every scan of a worker
  that may take the entry takes one that is ahead of it, until it is taken itself: there are no more
  such scans than there were entries ahead of it;
* `callback_order` — callbacks for the same thread, or for any thread, leave the queue in the order
  in which they were scheduled.

`queue_step` lists what a step does to the queue.
-/

namespace Sylar.Scheduler

open Transition

variable {W F C : Type*}

/-- The number of entries in front of `e`. -/
def ahead (e : Entry F C) (q : List (Entry F C)) : ℕ :=
  q.countP fun e' => e'.ticket < e.ticket

/-- The action is a scan by a worker that may take the entry. -/
def Action.scansFor (tid : W → ℤ) (e : Entry F C) : Action W F C → Bool
  | .dequeue w => e.task.thread_id = -1 || e.task.thread_id = tid w
  | _ => false

/-- A callback with this `thread_id`. -/
def isCallbackFor (thread_id : ℤ) (e : Entry F C) : Bool :=
  e.task.fiber.isNone && e.task.thread_id = thread_id

variable [DecidableEq W] [DecidableEq F]

variable {tid : W → ℤ} {s s' m : State W F C} {a : Action W F C} {e : Entry F C}
  {as as' : List (Action W F C)}

/-! ## What a step does to the queue -/

/-- A step leaves the queue alone, appends an entry, or takes one. -/
inductive QueueStep (tid : W → ℤ) (s : State W F C) (a : Action W F C) (s' : State W F C) : Prop
  | stay (hfibers : s'.sched.fibers = s.sched.fibers) (henqueued : s'.enqueued = s.enqueued)
      (hscan : ∀ w, a = .dequeue w → scan s.executing (tid w) s.sched.fibers = none)
  | append (e : Entry F C) (hticket : e.ticket = s.enqueued.length)
      (hfibers : s'.sched.fibers = s.sched.fibers ++ [e])
      (henqueued : s'.enqueued = s.enqueued ++ [e]) (ha : ∀ w, a ≠ .dequeue w)
  | take (w : W) (e : Entry F C) (ha : a = .dequeue w)
      (hscan : scan s.executing (tid w) s.sched.fibers = some (e, s'.sched.fibers))
      (henqueued : s'.enqueued = s.enqueued)

omit [DecidableEq W] [DecidableEq F] in
theorem QueueStep.of_enqueue (tid : W → ℤ) (task : FiberTask F C) (ha : ∀ w, a ≠ .dequeue w)
    (hfibers : s'.sched.fibers = (s.enqueue task).sched.fibers)
    (henqueued : s'.enqueued = (s.enqueue task).enqueued) : QueueStep tid s a s' := by
  by_cases hne : task.nonempty = true
  · rw [State.enqueue, dif_pos hne] at hfibers henqueued
    exact .append ⟨s.enqueued.length, task, hne⟩ rfl hfibers henqueued ha
  · rw [State.enqueue, dif_neg hne] at hfibers henqueued
    exact .stay hfibers henqueued fun w hw => absurd hw (ha w)

theorem queue_step (h : step tid s a = some s') : QueueStep tid s a s' := by
  have hstay : ∀ {b : Action W F C} {t : State W F C}, t.sched.fibers = s.sched.fibers →
      t.enqueued = s.enqueued → (∀ w, b ≠ .dequeue w) → QueueStep tid s b t :=
    fun hf he hb => .stay hf he fun w hw => absurd hw (hb w)
  cases stepCase_of_step h with
  | @schedule task hheld => exact .of_enqueue tid task (by simp) rfl rfl
  | take hw hscan => exact .take _ _ rfl hscan rfl
  | takeNone hw hscan =>
    refine .stay rfl rfl fun w hw => ?_
    obtain rfl := Action.dequeue.inj hw
    exact hscan
  | @requeueFiber w hw =>
    exact .of_enqueue tid (.ofFiber (s.worker w).ft.fiber (s.worker w).ft.thread_id) (by simp) rfl
      rfl
  | @requeueCb w thread hw =>
    exact .of_enqueue tid (.ofFiber (s.worker w).cb_fiber thread) (by simp) rfl rfl
  | _ => exact hstay rfl rfl (by simp)

/-! ## Bounded waiting -/

omit [DecidableEq W] [DecidableEq F] in
/-- An entry of the queue that has been enqueued before is not enqueued again. -/
theorem QueueStep.mem (h : QueueStep tid s a s') (hticket : e.ticket < s.enqueued.length)
    (he : e ∈ s'.sched.fibers) : e ∈ s.sched.fibers := by
  cases h with
  | stay hfibers henqueued hscan => rwa [← hfibers]
  | append e' hticket' hfibers henqueued ha =>
    rw [hfibers, List.mem_append, List.mem_singleton] at he
    rcases he with he | rfl
    · exact he
    · exact absurd hticket' (Nat.ne_of_lt hticket)
  | take w e' ha hscan henqueued => exact mem_of_scan hscan (Or.inr he)

omit [DecidableEq W] [DecidableEq F] in
/-- A step does not put anything in front of an entry. A scan for the entry that leaves it in the
queue takes away one that is in front of it. -/
theorem QueueStep.ahead_add (h : QueueStep tid s a s')
    (hsorted : s.sched.fibers.Pairwise fun e e' => e.ticket < e'.ticket)
    (hticket : e.ticket < s.enqueued.length) (hexec : s.executing e.task = false)
    (he : e ∈ s'.sched.fibers) :
    ahead e s'.sched.fibers + (if a.scansFor tid e then 1 else 0) ≤ ahead e s.sched.fibers := by
  have hmem := h.mem hticket he
  cases h with
  | stay hfibers henqueued hscan =>
    rw [hfibers, if_neg, Nat.add_zero]
    -- a scan for the entry would have found it
    intro hscans
    cases a with
    | dequeue w =>
      have hmay : MayTake e.task.thread_id (tid w) := by
        simpa [Action.scansFor, MayTake] using hscans
      exact scan_eq_none.mp (hscan w rfl) e hmem ⟨hmay, hexec⟩
    | _ => cases hscans
  | append e' hticket' hfibers henqueued ha =>
    have hnot : a.scansFor tid e = false := by
      cases a with
      | dequeue w => exact absurd rfl (ha w)
      | _ => rfl
    have hback : ¬ e'.ticket < e.ticket := by omega
    simp [hfibers, hnot, ahead, List.countP_append, hback]
  | take w e' ha hscan henqueued =>
    obtain ⟨pre, post, hq, hrest, helig, hpre⟩ := scan_eq_some hscan
    subst ha
    have hahead : ahead e s.sched.fibers = ahead e s'.sched.fibers +
        (if e'.ticket < e.ticket then 1 else 0) := by
      rw [hq, hrest]
      simp only [ahead, List.countP_append, List.countP_cons, decide_eq_true_eq]
      omega
    rw [hahead]
    refine Nat.add_le_add_left ?_ _
    by_cases hscans : (Action.dequeue w : Action W F C).scansFor tid e = true
    · have hmay : MayTake e.task.thread_id (tid w) := by
        simpa [Action.scansFor, MayTake] using hscans
      -- the entry is eligible, so it is not in front of the one taken
      have hlt : e'.ticket < e.ticket := by
        rw [hrest, List.mem_append] at he
        rcases he with he | he
        · exact absurd ⟨hmay, hexec⟩ (hpre e he)
        · rw [hq] at hsorted
          have htail := (List.pairwise_append.mp hsorted).2.1
          exact List.rel_of_pairwise_cons htail he
      rw [if_pos hscans, if_pos hlt]
    · rw [if_neg hscans]
      exact Nat.zero_le _

/-- What holds in every state of a run. -/
structure InOrder (s : State W F C) : Prop where
  sorted : s.sched.fibers.Pairwise fun e e' => e.ticket < e'.ticket
  ticket_lt : ∀ e ∈ s.sched.fibers, e.ticket < s.enqueued.length

theorem inOrder_run [Fintype W] (hrun : Run (ofFun (step tid)) State.new as s) : InOrder s :=
  have hinv := (ledger_inv hrun).1
  ⟨hinv.sorted, fun _ he => hinv.ticket_lt he⟩

omit [DecidableEq W] [DecidableEq F] in
/-- Enqueuing only appends. -/
theorem QueueStep.length_le (h : QueueStep tid s a s') :
    s.enqueued.length ≤ s'.enqueued.length := by
  cases h with
  | stay hfibers henqueued hscan => rw [henqueued]
  | append e' hticket' hfibers henqueued ha =>
    rw [henqueued, List.length_append]
    exact Nat.le_add_right _ _
  | take w e' ha hscan henqueued => rw [henqueued]

/-- An entry that stays in the queue while its fiber is not executing is waiting for one scan at
most for each entry that was ahead of it. -/
theorem bounded_waiting [Fintype W] (hrun : Run (ofFun (step tid)) State.new as m)
    (he : e ∈ m.sched.fibers)
    (hrun' : Run (Guarded (fun s _ => s.executing e.task = false) (ofFun (step tid))) m as' s)
    (he' : e ∈ s.sched.fibers) :
    ahead e s.sched.fibers + as'.countP (Action.scansFor tid e) ≤ ahead e m.sched.fibers := by
  have hticket := (inOrder_run hrun).ticket_lt e he
  suffices h : m.enqueued.length ≤ s.enqueued.length ∧ (e ∈ s.sched.fibers →
      ahead e s.sched.fibers + as'.countP (Action.scansFor tid e) ≤ ahead e m.sched.fibers) from
    h.2 he'
  clear he'
  induction hrun' with
  | refl => exact ⟨Nat.le_refl _, fun _ => Nat.le_refl _⟩
  | @snoc bs b s s' hbs hb ih =>
    obtain ⟨hexec, hstep⟩ := hb
    have hqueue := queue_step hstep
    have hpast : Run (ofFun (step tid)) State.new (as ++ bs) s := hrun.append hbs.of_guarded
    have horder := inOrder_run hpast
    obtain ⟨hle, ih⟩ := ih
    have hlt := hticket.trans_le hle
    refine ⟨hle.trans hqueue.length_le, fun he' => ?_⟩
    have hstep' := hqueue.ahead_add horder.sorted hlt hexec he'
    have hpast' := ih (hqueue.mem hlt he')
    rw [List.countP_append, List.countP_singleton]
    omega

/-- A callback behind two others, on two workers: each of them scans once, which is as often as they
may without taking it. -/
theorem bounded_waiting_example :
    ∃ (m s : State Bool ℕ String) (e : Entry ℕ String),
      ahead e m.sched.fibers = 2 ∧ e ∈ s.sched.fibers ∧
      ahead e s.sched.fibers + [.reset true, .dequeue true, .reset false, .dequeue false].countP
        (Action.scansFor (fun w => if w then 2 else 1) e) ≤ ahead e m.sched.fibers := by
  have hexec : exec (step fun w => if w then 2 else 1) (State.new : State Bool ℕ String)
      [.schedule (.ofCb (some "f") (-1)), .schedule (.ofCb (some "g") (-1)),
        .schedule (.ofCb (some "h") (-1))] =
      some (((State.new.enqueue (.ofCb (some "f") (-1))).enqueue (.ofCb (some "g") (-1))).enqueue
        (.ofCb (some "h") (-1))) := rfl
  have hexec' : exec (step fun w => if w then 2 else 1)
      ((((State.new : State Bool ℕ String).enqueue (.ofCb (some "f") (-1))).enqueue
        (.ofCb (some "g") (-1))).enqueue (.ofCb (some "h") (-1)))
      [.reset true, .dequeue true, .reset false, .dequeue false] =
      some _ := rfl
  have hmem : ({ ticket := 2, task := .ofCb (some "h") (-1), nonempty := rfl } : Entry ℕ String) ∈
      [({ ticket := 2, task := .ofCb (some "h") (-1), nonempty := rfl } : Entry ℕ String)] :=
    List.mem_singleton_self _
  refine ⟨_, _, { ticket := 2, task := .ofCb (some "h") (-1), nonempty := rfl }, ?_, hmem,
    bounded_waiting (Run.of_exec hexec) ?_
      ((Run.of_exec hexec').guard fun _ _ _ => rfl) hmem⟩
  · rfl
  · exact List.mem_cons_of_mem _ (List.mem_cons_of_mem _ hmem)

/-! ## Callbacks in order -/

omit [DecidableEq W] [DecidableEq F] in
/-- No callback is passed over for another one with the same `thread_id`. -/
theorem QueueStep.filter_suffix (h : QueueStep tid s a s') (hexec : ∀ task : FiberTask F C,
      task.fiber = none → s.executing task = false) (t : ℤ)
    (hsuffix : s.sched.fibers.filter (isCallbackFor t) <:+ s.enqueued.filter (isCallbackFor t)) :
    s'.sched.fibers.filter (isCallbackFor t) <:+ s'.enqueued.filter (isCallbackFor t) := by
  cases h with
  | stay hfibers henqueued hscan => rwa [hfibers, henqueued]
  | append e hticket hfibers henqueued ha =>
    rw [hfibers, henqueued, List.filter_append, List.filter_append]
    obtain ⟨taken, htaken⟩ := hsuffix
    exact ⟨taken, by rw [← htaken, List.append_assoc]⟩
  | take w e ha hscan henqueued =>
    obtain ⟨pre, post, hq, hrest, helig, hpre⟩ := scan_eq_some hscan
    rw [henqueued]
    refine List.IsSuffix.trans ?_ hsuffix
    rw [hq, hrest]
    by_cases hfor : isCallbackFor t e = true
    · -- what the scan has passed over is not eligible, so it holds no such callback
      have hnone : pre.filter (isCallbackFor t) = [] := by
        refine List.filter_eq_nil_iff.mpr fun e' he' hfor' => hpre e' he' ?_
        simp only [isCallbackFor, Bool.and_eq_true, Option.isNone_iff_eq_none,
          decide_eq_true_eq] at hfor hfor'
        refine ⟨?_, hexec _ hfor'.1⟩
        rw [hfor'.2, ← hfor.2]
        exact helig.1
      rw [List.filter_append, List.filter_append, hnone, List.filter_cons_of_pos hfor]
      exact List.suffix_cons _ _
    · rw [List.filter_append, List.filter_append, List.filter_cons_of_neg hfor]

/-- The callbacks in the queue for one thread, or for any thread, are the last ones of those
scheduled: they leave the queue in the order in which they came. -/
theorem callback_order (hrun : Run (ofFun (step tid)) State.new as s) (t : ℤ) :
    s.sched.fibers.filter (isCallbackFor t) <:+ s.enqueued.filter (isCallbackFor t) := by
  refine hrun.invariant (I := fun s => s.sched.fibers.filter (isCallbackFor t) <:+
    s.enqueued.filter (isCallbackFor t)) (List.suffix_refl _) fun s a s' h hstep => ?_
  refine (queue_step hstep).filter_suffix (fun task hnone => ?_) t h
  simp [State.executing, hnone]

/-- Two callbacks for any thread with one for the thread 2 in between: the first worker takes the
first one, and of those for any thread the last one is left. -/
theorem callback_order_example :
    ∃ s : State Unit ℕ String, (s.enqueued.filter (isCallbackFor (-1))).length = 2 ∧
      (s.sched.fibers.filter (isCallbackFor (-1))).length = 1 ∧
      s.sched.fibers.filter (isCallbackFor (-1)) <:+ s.enqueued.filter (isCallbackFor (-1)) := by
  have hexec : exec (step fun _ => 1) (State.new : State Unit ℕ String)
      [.schedule (.ofCb (some "f") (-1)), .schedule (.ofCb (some "g") 2),
        .schedule (.ofCb (some "h") (-1)), .reset (), .dequeue ()] =
      some _ := rfl
  exact ⟨_, rfl, rfl, callback_order (Run.of_exec hexec) (-1)⟩

end Sylar.Scheduler
