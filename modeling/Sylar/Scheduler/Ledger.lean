import Sylar.Scheduler.Defs
import Sylar.Foundation.Table
import Mathlib.Algebra.BigOperators.Group.Finset.Basic
import Mathlib.Algebra.Order.Group.Multiset
import Mathlib.Data.List.Pairwise

/-!
# The ledger of the run queue

An abstract model of what the scheduler does with entries. Every entry is in the queue, in the
hands of a worker, or consumed; a worker may moreover owe a task that ended in `READY` and has not
been enqueued again. `Ledger.Step` lists the ways in which entries move, and forgets fibers, bodies
and local variables.

* `Ledger.Inv` — no entry is lost or duplicated, the queue is in the order of enqueuing, pinned
  entries are in the right hands, and the active workers are counted;
* `Ledger.Inv.step` — every step keeps the invariant;
* `scan_eq_some`, `scan_eq_none` — the scan takes the first eligible entry.
-/

namespace Sylar.Scheduler

variable {W F C : Type*}

/-! ## The scan -/

/-- The thread may take an entry with this `thread_id`. -/
def MayTake (thread_id tid : ℤ) : Prop := thread_id = -1 ∨ thread_id = tid

/-- The entry is not pinned elsewhere, and its fiber is not executing. -/
def Eligible (executing : FiberTask F C → Bool) (tid : ℤ) (e : Entry F C) : Prop :=
  MayTake e.task.thread_id tid ∧ executing e.task = false

section Scan

variable {executing : FiberTask F C → Bool} {tid : ℤ} {q rest : List (Entry F C)} {e : Entry F C}

/-- An entry that is not eligible is passed over. -/
theorem scan_cons_of_not_eligible (h : ¬ Eligible executing tid e) :
    scan executing tid (e :: q) = (scan executing tid q).map fun (ft, rest) => (ft, e :: rest) := by
  rw [scan]
  by_cases hpinned : e.task.thread_id ≠ -1 ∧ e.task.thread_id ≠ tid
  · rw [if_pos hpinned]
  · rw [if_neg hpinned, if_pos]
    by_contra hexec
    refine h ⟨?_, by simpa using hexec⟩
    by_contra hnot
    exact hpinned (not_or.mp hnot)

theorem scan_cons_of_eligible (h : Eligible executing tid e) :
    scan executing tid (e :: q) = some (e, q) := by
  obtain ⟨hpin, hexec⟩ := h
  have hpinned : ¬ (e.task.thread_id ≠ -1 ∧ e.task.thread_id ≠ tid) := by
    rintro ⟨hfree, hother⟩
    exact hpin.elim hfree hother
  rw [scan, if_neg hpinned, if_neg (by simp [hexec])]

/-- The scan takes the first eligible entry and leaves the others in their order. -/
theorem scan_eq_some : scan executing tid q = some (e, rest) →
    ∃ pre post, q = pre ++ e :: post ∧ rest = pre ++ post ∧ Eligible executing tid e ∧
      ∀ e' ∈ pre, ¬ Eligible executing tid e' := by
  induction q generalizing rest with
  | nil =>
    intro h
    cases h
  | cons e' q ih =>
    intro h
    by_cases helig : Eligible executing tid e'
    · rw [scan_cons_of_eligible helig] at h
      cases h
      exact ⟨[], q, rfl, rfl, helig, by simp⟩
    · rw [scan_cons_of_not_eligible helig, Option.map_eq_some_iff] at h
      obtain ⟨⟨ft, rest'⟩, hrest, heq⟩ := h
      cases heq
      obtain ⟨pre, post, rfl, rfl, he, hpre⟩ := ih hrest
      refine ⟨e' :: pre, post, rfl, rfl, he, fun x hx => ?_⟩
      rcases List.mem_cons.mp hx with rfl | hx
      · exact helig
      · exact hpre x hx

/-- What the scan takes, and what it leaves, is part of the queue. -/
theorem mem_of_scan (h : scan executing tid q = some (e, rest)) {e' : Entry F C}
    (he' : e' = e ∨ e' ∈ rest) : e' ∈ q := by
  obtain ⟨pre, post, rfl, rfl, -, -⟩ := scan_eq_some h
  rcases he' with rfl | he'
  · exact List.mem_append_right _ List.mem_cons_self
  · exact ((List.sublist_cons_self e post).append_left pre).subset he'

/-- The scan finds nothing only if no entry is eligible. -/
theorem scan_eq_none : scan executing tid q = none ↔ ∀ e ∈ q, ¬ Eligible executing tid e := by
  induction q with
  | nil => simp [scan]
  | cons e' q ih =>
    by_cases helig : Eligible executing tid e'
    · simp [scan_cons_of_eligible helig, helig]
    · simp [scan_cons_of_not_eligible helig, helig, ih]

end Scan

/-! ## The ledger -/

/-- The entry in the hands of a worker: taken, and its body has not returned. -/
def Worker.hand (wk : Worker F C) : Multiset (Entry F C) :=
  match wk.phase with
  | .taken e => {e}
  | .inFiber e => {e}
  | .inCb e _ => {e}
  | _ => 0

/-- The task that a worker has yet to enqueue again. -/
def Worker.owed (wk : Worker F C) : Multiset (FiberTask F C) :=
  match wk.phase with
  | .readyFiber => {.ofFiber wk.ft.fiber wk.ft.thread_id}
  | .readyCb thread => {.ofFiber wk.cb_fiber thread}
  | _ => 0

/-- Where the entries are. -/
structure Ledger (W F C : Type*) where
  fibers : List (Entry F C)
  active : ℕ
  worker : W → Worker F C
  enqueued : List (Entry F C)
  consumed : List (Entry F C)
  readied : List (FiberTask F C)

/-- The ledger of a state. -/
def State.ledger (s : State W F C) : Ledger W F C where
  fibers := s.sched.fibers
  active := s.sched.activeThreadNum
  worker := s.worker
  enqueued := s.enqueued
  consumed := s.consumed
  readied := s.readied

namespace Ledger

/-- Append the entry for a task, unless it is empty. -/
def enqueue (l : Ledger W F C) (task : FiberTask F C) : Ledger W F C :=
  if h : task.nonempty = true then
    let e : Entry F C := { ticket := l.enqueued.length, task := task, nonempty := h }
    { l with fibers := l.fibers ++ [e], enqueued := l.enqueued ++ [e] }
  else l

/-- Enqueuing appends one entry, with the next ticket. -/
theorem enqueue_eq (l : Ledger W F C) {task : FiberTask F C} (hne : task.nonempty = true) :
    ∃ e : Entry F C, e.ticket = l.enqueued.length ∧ e.task = task ∧
      l.enqueue task = { l with fibers := l.fibers ++ [e], enqueued := l.enqueued ++ [e] } :=
  ⟨{ ticket := l.enqueued.length, task := task, nonempty := hne }, rfl, rfl, dif_pos hne⟩

/-- The ways in which entries move. The list holds the tasks that the step schedules from outside
the loop. -/
inductive Step [DecidableEq W] (tid : W → ℤ) (l : Ledger W F C) :
    List (FiberTask F C) → Ledger W F C → Prop
  | stay : Step tid l [] l
  | schedule (task : FiberTask F C) :
      Step tid l (if task.nonempty then [task] else []) (l.enqueue task)
  | move (w : W) (wk : Worker F C) (hhand : wk.hand = (l.worker w).hand)
      (howed : wk.owed = (l.worker w).owed) :
      Step tid l [] { l with worker := Function.update l.worker w wk }
  | take (w : W) (wk : Worker F C) {executing : FiberTask F C → Bool} {e : Entry F C}
      {rest : List (Entry F C)} (hscan : scan executing (tid w) l.fibers = some (e, rest))
      (hhand : (l.worker w).hand = 0) (hhand' : wk.hand = {e})
      (howed : wk.owed = (l.worker w).owed) :
      Step tid l [] { l with
        fibers := rest
        active := l.active + 1
        worker := Function.update l.worker w wk }
  | consume (w : W) (wk : Worker F C) {e : Entry F C} (ready : List (FiberTask F C))
      (hhand : (l.worker w).hand = {e}) (hhand' : wk.hand = 0) (howed : (l.worker w).owed = 0)
      (howed' : wk.owed = ready) :
      Step tid l [] { l with
        active := subSize l.active 1
        worker := Function.update l.worker w wk
        consumed := l.consumed ++ [e]
        readied := l.readied ++ ready }
  | requeue (w : W) (wk : Worker F C) {task : FiberTask F C} (hne : task.nonempty = true)
      (howed : (l.worker w).owed = {task}) (howed' : wk.owed = 0)
      (hhand : wk.hand = (l.worker w).hand) :
      Step tid l [] { l.enqueue task with worker := Function.update l.worker w wk }

/-- A worker is done with an entry whose task has not ended in `READY`. -/
theorem Step.discard [DecidableEq W] {tid : W → ℤ} {l : Ledger W F C} (w : W) (wk : Worker F C)
    {e : Entry F C} (hhand : (l.worker w).hand = {e}) (hhand' : wk.hand = 0)
    (howed : (l.worker w).owed = 0) (howed' : wk.owed = 0) :
    Step tid l [] { l with
      active := subSize l.active 1
      worker := Function.update l.worker w wk
      consumed := l.consumed ++ [e] } := by
  have hstep := (Step.consume w wk [] hhand hhand' howed howed' :
    Step tid l [] _)
  rwa [List.append_nil] at hstep

variable [Fintype W]

/-- The entries in the hands of the workers. -/
def hands (l : Ledger W F C) : Multiset (Entry F C) := ∑ w, (l.worker w).hand

/-- The tasks that the workers have yet to enqueue again. -/
def owed (l : Ledger W F C) : Multiset (FiberTask F C) := ∑ w, (l.worker w).owed

/-- The invariant of the ledger, after the given tasks have been scheduled. -/
structure Inv (tid : W → ℤ) (scheduled : List (FiberTask F C)) (l : Ledger W F C) : Prop where
  place : (l.fibers : Multiset _) + l.hands + (l.consumed : Multiset _) = (l.enqueued : Multiset _)
  ticket : l.enqueued.map Entry.ticket = List.range l.enqueued.length
  tasks : (l.enqueued.map Entry.task : Multiset _) + l.owed =
    (scheduled : Multiset _) + (l.readied : Multiset _)
  sorted : l.fibers.Pairwise fun e e' => e.ticket < e'.ticket
  pinned : ∀ w, ∀ e ∈ (l.worker w).hand, e.task.thread_id = -1 ∨ e.task.thread_id = tid w
  active : l.active = ∑ w, (l.worker w).hand.card

variable {tid : W → ℤ} {scheduled new : List (FiberTask F C)} {l l' : Ledger W F C}

theorem inv_new : Inv tid [] (State.new : State W F C).ledger where
  place := by simp [State.new, State.ledger, hands, Worker.new, Worker.hand]
  ticket := rfl
  tasks := by simp [State.new, State.ledger, owed, Worker.new, Worker.owed]
  sorted := List.Pairwise.nil
  pinned := by simp [State.new, State.ledger, Worker.new, Worker.hand]
  active := by simp [State.new, State.ledger, Worker.new, Worker.hand]

/-- An entry in the queue has been enqueued. -/
theorem Inv.ticket_lt (h : Inv tid scheduled l) {e : Entry F C} (he : e ∈ l.fibers) :
    e.ticket < l.enqueued.length := by
  -- the queue is part of what has been enqueued, whose tickets are below its length
  have hmem : e ∈ (l.enqueued : Multiset (Entry F C)) := by
    rw [← h.place]
    simp [he]
  have hticket := List.mem_map_of_mem (f := Entry.ticket) (Multiset.mem_coe.mp hmem)
  rw [h.ticket] at hticket
  exact List.mem_range.mp hticket

/-! ## The invariant is kept -/

/-- A new task from outside the loop. -/
theorem Inv.enqueue (h : Inv tid scheduled l) {task : FiberTask F C} (hne : task.nonempty = true) :
    Inv tid (scheduled ++ [task]) (l.enqueue task) := by
  obtain ⟨e, hticket, htask, heq⟩ := l.enqueue_eq hne
  rw [heq]
  refine ⟨?_, ?_, ?_, ?_, h.pinned, h.active⟩
  · -- the new entry is in the queue
    show ((l.fibers ++ [e] : List _) : Multiset _) + l.hands + (l.consumed : Multiset _) =
      ((l.enqueued ++ [e] : List _) : Multiset _)
    rw [← Multiset.coe_add, ← Multiset.coe_add, ← h.place]
    ac_rfl
  · simp [h.ticket, hticket, List.range_succ]
  · show ((l.enqueued ++ [e]).map Entry.task : Multiset _) + l.owed = _
    rw [List.map_append, List.map_singleton, htask, ← Multiset.coe_add, ← Multiset.coe_add]
    calc _ = (l.enqueued.map Entry.task : Multiset _) + l.owed + ([task] : Multiset _) := by ac_rfl
      _ = _ := by rw [h.tasks]; ac_rfl
  · -- the new ticket is greater than all in the queue
    refine List.pairwise_append.mpr ⟨h.sorted, List.pairwise_singleton _ _, fun x hx y hy => ?_⟩
    obtain rfl := List.mem_singleton.mp hy
    rw [hticket]
    exact h.ticket_lt hx

variable [DecidableEq W]

/-- What the hands of one worker add to the total. -/
theorem hands_update (l : Ledger W F C) (w : W) (wk : Worker F C) :
    (∑ v, (Function.update l.worker w wk v).hand) + (l.worker w).hand = l.hands + wk.hand :=
  Table.sum_update Worker.hand l.worker w wk

theorem owed_update (l : Ledger W F C) (w : W) (wk : Worker F C) :
    (∑ v, (Function.update l.worker w wk v).owed) + (l.worker w).owed = l.owed + wk.owed :=
  Table.sum_update Worker.owed l.worker w wk

theorem card_update (l : Ledger W F C) (w : W) (wk : Worker F C) :
    (∑ v, (Function.update l.worker w wk v).hand.card) + (l.worker w).hand.card =
      (∑ v, (l.worker v).hand.card) + wk.hand.card :=
  Table.sum_update (fun wk : Worker F C => wk.hand.card) l.worker w wk

theorem Inv.pinned_update (h : Inv tid scheduled l) {w : W} {wk : Worker F C}
    (hhand : ∀ e ∈ wk.hand, e.task.thread_id = -1 ∨ e.task.thread_id = tid w) (v : W) :
    ∀ e ∈ (Function.update l.worker w wk v).hand,
      e.task.thread_id = -1 ∨ e.task.thread_id = tid v := by
  by_cases hv : v = w
  · subst hv
    rw [Function.update_self]
    exact hhand
  · rw [Function.update_of_ne hv]
    exact h.pinned v

/-- A worker changes its place with the entry in its hands. -/
theorem Inv.move (h : Inv tid scheduled l) {w : W} {wk : Worker F C}
    (hhand : wk.hand = (l.worker w).hand) (howed : wk.owed = (l.worker w).owed) :
    Inv tid scheduled { l with worker := Function.update l.worker w wk } := by
  have hhands := l.hands_update w wk
  have howes := l.owed_update w wk
  have hcard := l.card_update w wk
  -- the totals are what they were
  rw [hhand] at hhands hcard
  rw [howed] at howes
  refine ⟨?_, h.ticket, ?_, h.sorted, fun v => ?_, ?_⟩
  · rw [← h.place, ← add_right_cancel hhands]
    rfl
  · rw [← h.tasks, ← add_right_cancel howes]
    rfl
  · refine h.pinned_update (fun e he => ?_) v
    rw [hhand] at he
    exact h.pinned w e he
  · rw [add_right_cancel hcard]
    exact h.active

/-- A worker takes the entry that its scan has found. -/
theorem Inv.take (h : Inv tid scheduled l) {w : W} {wk : Worker F C}
    {executing : FiberTask F C → Bool} {e : Entry F C} {rest : List (Entry F C)}
    (hscan : scan executing (tid w) l.fibers = some (e, rest)) (hhand : (l.worker w).hand = 0)
    (hhand' : wk.hand = {e}) (howed : wk.owed = (l.worker w).owed) :
    Inv tid scheduled { l with
      fibers := rest
      active := l.active + 1
      worker := Function.update l.worker w wk } := by
  obtain ⟨pre, post, hq, rfl, ⟨hpin, -⟩, -⟩ := scan_eq_some hscan
  have hhands := l.hands_update w wk
  have howes := l.owed_update w wk
  have hcard := l.card_update w wk
  rw [hhand, hhand', add_zero] at hhands
  rw [hhand, hhand', Multiset.card_zero, Multiset.card_singleton] at hcard
  rw [howed] at howes
  refine ⟨?_, h.ticket, ?_, ?_, fun v => ?_, ?_⟩
  · show ((pre ++ post : List _) : Multiset _) + (∑ v, (Function.update l.worker w wk v).hand) +
      (l.consumed : Multiset _) = _
    -- the entry moves from the queue to the hands of `w`
    have hmiddle : ((pre ++ e :: post : List _) : Multiset _) =
        ((pre ++ post : List _) : Multiset _) + {e} := by
      rw [← Multiset.coe_singleton, Multiset.coe_add, Multiset.coe_eq_coe]
      exact List.perm_middle.trans (List.perm_append_singleton e (pre ++ post)).symm
    rw [hhands, ← h.place, hq, hmiddle]
    ac_rfl
  · rw [← h.tasks, ← add_right_cancel howes]
    rfl
  · -- what is left is in the old order
    have hsorted := h.sorted
    rw [hq] at hsorted
    exact hsorted.sublist ((List.Sublist.refl pre).append (List.sublist_cons_self e post))
  · refine h.pinned_update (fun e' he => ?_) v
    rw [hhand', Multiset.mem_singleton] at he
    rw [he]
    exact hpin
  · show l.active + 1 = ∑ v, (Function.update l.worker w wk v).hand.card
    rw [h.active]
    omega

/-- A worker is done with the entry in its hands. -/
theorem Inv.consume (h : Inv tid scheduled l) {w : W} {wk : Worker F C} {e : Entry F C}
    {ready : List (FiberTask F C)} (hhand : (l.worker w).hand = {e}) (hhand' : wk.hand = 0)
    (howed : (l.worker w).owed = 0) (howed' : wk.owed = ready) :
    Inv tid scheduled { l with
      active := subSize l.active 1
      worker := Function.update l.worker w wk
      consumed := l.consumed ++ [e]
      readied := l.readied ++ ready } := by
  have hhands := l.hands_update w wk
  have howes := l.owed_update w wk
  have hcard := l.card_update w wk
  rw [hhand, hhand', add_zero] at hhands
  rw [hhand, hhand', Multiset.card_zero, Multiset.card_singleton] at hcard
  rw [howed, howed', add_zero] at howes
  refine ⟨?_, h.ticket, ?_, h.sorted, fun v => ?_, ?_⟩
  · show (l.fibers : Multiset _) + (∑ v, (Function.update l.worker w wk v).hand) +
      ((l.consumed ++ [e] : List _) : Multiset _) = _
    rw [← h.place, ← hhands, ← Multiset.coe_add, Multiset.coe_singleton]
    ac_rfl
  · show (l.enqueued.map Entry.task : Multiset _) + (∑ v, (Function.update l.worker w wk v).owed) =
      (scheduled : Multiset _) + ((l.readied ++ ready : List _) : Multiset _)
    rw [howes, ← Multiset.coe_add, ← add_assoc, ← add_assoc, h.tasks]
  · refine h.pinned_update (fun e' he => ?_) v
    rw [hhand'] at he
    exact absurd he (Multiset.notMem_zero e')
  · -- `w` has an entry in its hands, so the counter does not wrap
    show subSize l.active 1 = ∑ v, (Function.update l.worker w wk v).hand.card
    have hactive := h.active
    rw [subSize_of_le (by omega)]
    omega

/-- A worker enqueues the task that it owes. -/
theorem Inv.requeue (h : Inv tid scheduled l) {w : W} {wk : Worker F C} {task : FiberTask F C}
    (hne : task.nonempty = true) (howed : (l.worker w).owed = {task}) (howed' : wk.owed = 0)
    (hhand : wk.hand = (l.worker w).hand) :
    Inv tid scheduled { l.enqueue task with worker := Function.update l.worker w wk } := by
  obtain ⟨hplace, hticket, htasks, hsorted, hpinned, hactive⟩ := h.enqueue hne
  have hhands := l.hands_update w wk
  have howes := l.owed_update w wk
  have hcard := l.card_update w wk
  rw [hhand] at hhands hcard
  rw [howed, howed', add_zero] at howes
  obtain ⟨e, -, -, heq⟩ := l.enqueue_eq hne
  refine ⟨?_, hticket, ?_, hsorted, fun v => ?_, ?_⟩
  · rw [← hplace, heq]
    simp only [hands]
    rw [add_right_cancel hhands]
    rfl
  · -- the task moves from what is owed to what has been enqueued
    refine add_right_cancel (b := ({task} : Multiset _)) ?_
    rw [heq] at htasks ⊢
    simp only [owed] at htasks ⊢
    rw [add_assoc, howes]
    refine htasks.trans ?_
    rw [← Multiset.coe_add, Multiset.coe_singleton]
    ac_rfl
  · refine h.pinned_update (fun e' he => ?_) v
    rw [hhand] at he
    exact h.pinned w e' he
  · rw [heq]
    rw [add_right_cancel hcard]
    exact h.active

/-- Every step of the ledger keeps the invariant. -/
theorem Inv.step (h : Inv tid scheduled l) (hstep : Step tid l new l') :
    Inv tid (scheduled ++ new) l' := by
  cases hstep with
  | stay =>
    rw [List.append_nil]
    exact h
  | schedule task =>
    by_cases hne : task.nonempty = true
    · rw [if_pos hne]
      exact h.enqueue hne
    · rw [if_neg hne, List.append_nil, Ledger.enqueue, dif_neg hne]
      exact h
  | move w wk hhand howed =>
    rw [List.append_nil]
    exact h.move hhand howed
  | take w wk hscan hhand hhand' howed =>
    rw [List.append_nil]
    exact h.take hscan hhand hhand' howed
  | consume w wk ready hhand hhand' howed howed' =>
    rw [List.append_nil]
    exact h.consume hhand hhand' howed howed'
  | requeue w wk hne howed howed' hhand =>
    rw [List.append_nil]
    exact h.requeue hne howed howed' hhand

end Ledger

end Sylar.Scheduler
