import Sylar.EventPoller.Defs
import Sylar.Foundation.Table
import Mathlib.Algebra.Order.Group.Multiset

/-!
# The poller is well formed

`WF ep` ties together what the operations keep in agreement: the bits of `events`, the two event
contexts, the kernel's interest set and `m_pendingEventCount`.

* `FdContext.WF` — a bit of `events` is set exactly when its event context is armed;
* `FdContext.arm`, `FdContext.clear` — the two changes that the operations make to a context;
* `WF.update` — a well-formed context, stored with its interest and its share of the counter,
  keeps the poller well formed;
* `addEvent_eq`, `delEvent_eq`, `cancelEvent_eq`, `cancelAll_eq` — what the operations return and
  store when the event is registered, or not, and `epoll_ctl` is granted.
-/

namespace Sylar

namespace EventPoller

variable {S F C : Type*}

/-! ## Masks -/

section Mask

variable {m : Mask} {e e' : Event}

/-- Only bits of events that can be registered are set. -/
def Mask.Valid (m : Mask) : Prop :=
  m = NONE ∨ m = Event.READ.mask ∨ m = Event.WRITE.mask ∨ m = Event.READ.mask ||| Event.WRITE.mask

/-- The bit of the event is set. -/
def Mask.Has (m : Mask) (e : Event) : Prop := m &&& e.mask ≠ 0

instance (m : Mask) (e : Event) : Decidable (Mask.Has m e) := inferInstanceAs (Decidable (_ ≠ _))

/-- The number of bits set. -/
def Mask.bits (m : Mask) : ℕ := m.cpop.toNat

/-- Registering an event leaves a mask of `READ` and `WRITE`. -/
theorem Mask.Valid.or (h : Mask.Valid m) (e : Event) : Mask.Valid (m ||| e.mask) := by
  unfold Mask.Valid
  rcases h with rfl | rfl | rfl | rfl <;> cases e <;> decide

/-- So does taking one away. -/
theorem Mask.Valid.diff (h : Mask.Valid m) (e : Event) : Mask.Valid (m &&& ~~~e.mask) := by
  unfold Mask.Valid
  rcases h with rfl | rfl | rfl | rfl <;> cases e <;> decide

/-- The events of a mask to which one has been added. -/
theorem Mask.Valid.has_or (h : Mask.Valid m) :
    Mask.Has (m ||| e.mask) e' ↔ e' = e ∨ Mask.Has m e' := by
  rcases h with rfl | rfl | rfl | rfl <;> cases e <;> cases e' <;> decide

/-- The events of a mask from which one has been taken. -/
theorem Mask.Valid.has_diff (h : Mask.Valid m) :
    Mask.Has (m &&& ~~~e.mask) e' ↔ e' ≠ e ∧ Mask.Has m e' := by
  rcases h with rfl | rfl | rfl | rfl <;> cases e <;> cases e' <;> decide

/-- A new event counts. -/
theorem Mask.Valid.bits_or (h : Mask.Valid m) (hnot : ¬ Mask.Has m e) :
    Mask.bits (m ||| e.mask) = Mask.bits m + 1 := by
  revert hnot
  rcases h with rfl | rfl | rfl | rfl <;> cases e <;> decide

/-- An event that has been taken away does not count any more. -/
theorem Mask.Valid.bits_diff (h : Mask.Valid m) (hhas : Mask.Has m e) :
    Mask.bits (m &&& ~~~e.mask) + 1 = Mask.bits m := by
  revert hhas
  rcases h with rfl | rfl | rfl | rfl <;> cases e <;> decide

/-- Taking away an event that is not there changes nothing. -/
theorem Mask.Valid.diff_of_not_has (h : Mask.Valid m) (hnot : ¬ Mask.Has m e) :
    m &&& ~~~e.mask = m := by
  revert hnot
  rcases h with rfl | rfl | rfl | rfl <;> cases e <;> decide

/-- `NONE` is the mask without events. -/
theorem Mask.Valid.eq_none_iff (h : Mask.Valid m) : m = NONE ↔ ∀ e, ¬ Mask.Has m e := by
  refine ⟨?_, fun hall => ?_⟩
  · rintro rfl e
    cases e <;> decide
  · have hread := hall .READ
    have hwrite := hall .WRITE
    revert hread hwrite
    rcases h with rfl | rfl | rfl | rfl <;> decide

end Mask

/-! ## Contexts -/

/-- The context has a scheduler and exactly one of a callback and a fiber. -/
def EventContext.Armed (ctx : EventContext S F C) : Prop :=
  ctx.scheduler.isSome = true ∧ ctx.cb.isSome = !ctx.fiber.isSome

/-- The entry that an armed context hands to its scheduler. -/
def EventContext.waiter (ctx : EventContext S F C) : List (S × FiberTask F C) :=
  match ctx.scheduler with
  | none => []
  | some scheduler =>
    if ctx.cb.isSome then [(scheduler, .ofCb ctx.cb (-1))]
    else [(scheduler, .ofFiber ctx.fiber (-1))]

/-- Nobody waits in a new context. -/
@[simp] theorem EventContext.waiter_new : (new : EventContext S F C).waiter = [] := rfl

/-- The context of an event holds a waiter exactly when the bit of the event is set. -/
structure FdContext.WF (c : FdContext S F C) : Prop where
  valid : Mask.Valid c.events
  armed : ∀ e, Mask.Has c.events e → (c.getContext e).Armed
  empty : ∀ e, ¬ Mask.Has c.events e → c.getContext e = .new

/-- The waiters of a context. -/
def FdContext.waiters (c : FdContext S F C) : Multiset (S × FiberTask F C) :=
  (c.read.waiter : Multiset _) + (c.write.waiter : Multiset _)

namespace FdContext

variable {c : FdContext S F C} {ctx : EventContext S F C} {e e' : Event}

/-- Setting the context of an event leaves the mask as it is. -/
@[simp] theorem setContext_events (c : FdContext S F C) (ctx : EventContext S F C) (e : Event) :
    (c.setContext ctx e).events = c.events := by
  cases e <;> rfl

/-- It leaves the descriptor as it is. -/
@[simp] theorem setContext_fd (c : FdContext S F C) (ctx : EventContext S F C) (e : Event) :
    (c.setContext ctx e).fd = c.fd := by
  cases e <;> rfl

/-- It changes the context of this event only. -/
@[simp] theorem getContext_setContext (c : FdContext S F C) (ctx : EventContext S F C)
    (e e' : Event) :
    (c.setContext ctx e).getContext e' = if e' = e then ctx else c.getContext e' := by
  cases e <;> cases e' <;> rfl

/-- The contexts do not depend on the mask. -/
@[simp] theorem getContext_events (c : FdContext S F C) (m : Mask) (e : Event) :
    ({ c with events := m } : FdContext S F C).getContext e = c.getContext e := by
  cases e <;> rfl

/-- One waiter is exchanged for another one. -/
theorem waiters_setContext (c : FdContext S F C) (ctx : EventContext S F C) (e : Event) :
    (c.setContext ctx e).waiters + ((c.getContext e).waiter : Multiset _) =
      c.waiters + (ctx.waiter : Multiset _) := by
  cases e <;> simp only [waiters, setContext, getContext] <;> ac_rfl

/-- The event is registered with the waiter in `ctx`. -/
def arm (c : FdContext S F C) (ctx : EventContext S F C) (e : Event) : FdContext S F C :=
  ({ c with events := c.events ||| e.mask } : FdContext S F C).setContext ctx e

/-- The event is removed together with its waiter. -/
def clear (c : FdContext S F C) (e : Event) : FdContext S F C :=
  ({ c with events := c.events &&& ~~~e.mask } : FdContext S F C).setContext .new e

/-- Arming a context leaves the descriptor as it is. -/
@[simp] theorem arm_fd (c : FdContext S F C) (ctx : EventContext S F C) (e : Event) :
    (c.arm ctx e).fd = c.fd := by
  simp [arm]

/-- So does clearing it. -/
@[simp] theorem clear_fd (c : FdContext S F C) (e : Event) : (c.clear e).fd = c.fd := by
  simp [clear]

/-- Arming adds the event. -/
@[simp] theorem arm_events (c : FdContext S F C) (ctx : EventContext S F C) (e : Event) :
    (c.arm ctx e).events = c.events ||| e.mask := by
  simp [arm]

/-- Clearing takes it away. -/
@[simp] theorem clear_events (c : FdContext S F C) (e : Event) :
    (c.clear e).events = c.events &&& ~~~e.mask := by
  simp [clear]

/-- Arming a context with a waiter keeps it well formed. -/
theorem WF.arm (hc : WF c) (hctx : ctx.Armed) (e : Event) : WF (c.arm ctx e) where
  valid := by
    rw [arm_events]
    exact hc.valid.or e
  armed := by
    intro e' hhas
    rw [arm_events, hc.valid.has_or] at hhas
    by_cases heq : e' = e
    · simpa [FdContext.arm, heq] using hctx
    · simpa [FdContext.arm, heq] using hc.armed e' (hhas.resolve_left heq)
  empty := by
    intro e' hnot
    rw [arm_events, hc.valid.has_or, not_or] at hnot
    simpa [FdContext.arm, hnot.1] using hc.empty e' hnot.2

/-- So does clearing it. -/
theorem WF.clear (hc : WF c) (e : Event) : WF (c.clear e) where
  valid := by
    rw [clear_events]
    exact hc.valid.diff e
  armed := by
    intro e' hhas
    rw [clear_events, hc.valid.has_diff] at hhas
    simpa [FdContext.clear, hhas.1] using hc.armed e' hhas.2
  empty := by
    intro e' hnot
    rw [clear_events, hc.valid.has_diff, not_and] at hnot
    by_cases heq : e' = e
    · simp [FdContext.clear, heq]
    · simpa [FdContext.clear, heq] using hc.empty e' (hnot heq)

/-- Arming adds the waiter, if the event was not registered. -/
theorem waiters_arm (hc : WF c) (hnot : ¬ Mask.Has c.events e) :
    (c.arm ctx e).waiters = c.waiters + (ctx.waiter : Multiset _) := by
  have h := waiters_setContext ({ c with events := c.events ||| e.mask } : FdContext S F C) ctx e
  rwa [getContext_events, hc.empty e hnot, EventContext.waiter_new, Multiset.coe_nil,
    add_zero] at h

/-- Clearing takes it away. -/
theorem waiters_clear (c : FdContext S F C) (e : Event) :
    (c.clear e).waiters + ((c.getContext e).waiter : Multiset _) = c.waiters := by
  have h := waiters_setContext ({ c with events := c.events &&& ~~~e.mask } : FdContext S F C)
    .new e
  rwa [getContext_events, EventContext.waiter_new, Multiset.coe_nil, add_zero] at h

/-- Clearing an event that is not registered does nothing. -/
theorem WF.clear_of_not_has (hc : WF c) (hnot : ¬ Mask.Has c.events e) : c.clear e = c := by
  have hempty := hc.empty e hnot
  have hevents := hc.valid.diff_of_not_has hnot
  cases e <;> simp_all [FdContext.clear, setContext, getContext] <;> rw [← hempty]

/-- `triggerEvent` on a registered event clears it and hands its waiter to the scheduler. -/
theorem WF.triggerEvent (hc : WF c) (hhas : Mask.Has c.events e) :
    c.triggerEvent e = .ok (c.clear e, (c.getContext e).waiter) := by
  obtain ⟨hsched, hone⟩ := hc.armed e hhas
  obtain ⟨s, hs⟩ := Option.isSome_iff_exists.mp hsched
  have hset : ¬ c.events &&& e.mask = 0 := hhas
  rw [FdContext.triggerEvent, if_neg hset]
  simp only [getContext_events, hs]
  cases hcb : (c.getContext e).cb with
  | some cb =>
    -- an armed context with a callback has no fiber, so the swap leaves it empty
    have hfiber : (c.getContext e).fiber = none := by simpa [hcb] using hone
    simp [hfiber, FiberTask.swapCb, FdContext.clear, EventContext.waiter, hs, hcb, schedule,
      FiberTask.nonempty, FiberTask.ofCb, EventContext.new]
  | none =>
    obtain ⟨f, hf⟩ := Option.isSome_iff_exists.mp (show (c.getContext e).fiber.isSome = true by
      simpa [hcb] using hone)
    simp [hf, FiberTask.swapFiber, FdContext.clear, EventContext.waiter, hs, hcb, schedule,
      FiberTask.nonempty, FiberTask.ofFiber, EventContext.new]

end FdContext

/-! ## The table, the counter and the interest set -/

/-- The interest set agrees with the events of a context. -/
def interestOf (events : Mask) : Option Mask :=
  if events = NONE then none else some (EPOLLET ||| events)

/-- The number of bits set in all contexts. -/
def eventCount (ep : EventPoller S F C) : ℕ :=
  (ep.fdContexts.map fun c => Mask.bits c.events).sum

/-- The waiters in all contexts. -/
def waiters (ep : EventPoller S F C) : Multiset (S × FiberTask F C) :=
  (ep.fdContexts.map FdContext.waiters).sum

/-- The contexts are well formed, each at the index of its file descriptor, the interest set holds
their events, and the counter counts them. -/
structure WF (ep : EventPoller S F C) : Prop where
  context : ∀ fd c, ep.fdContexts[fd]? = some c →
    c.WF ∧ c.fd = fd ∧ ep.interest fd = interestOf c.events
  pending : ep.pendingEventCount = ep.eventCount

variable {ep : EventPoller S F C} {fd : ℕ} {c c' : FdContext S F C} {e : Event} {pending : ℕ}

/-- A new poller is well formed. -/
theorem wf_new (size : ℕ) : WF (new size : EventPoller S F C) where
  context := by
    intro fd c hc
    obtain ⟨fd', hfd', rfl⟩ : ∃ fd', (List.range size)[fd]? = some fd' ∧ FdContext.new fd' = c := by
      simpa [new] using hc
    obtain ⟨-, rfl⟩ : fd < size ∧ fd = fd' := by
      simpa [List.getElem?_range, List.getElem?_eq_some_iff] using hfd'
    have hnone : ∀ e, ¬ Mask.Has NONE e := (Mask.Valid.eq_none_iff (Or.inl rfl)).mp rfl
    exact ⟨⟨Or.inl rfl, fun e hhas => absurd hhas (hnone e), fun e _ => by cases e <;> rfl⟩,
      rfl, rfl⟩
  pending := by
    have hzero : ∀ fds : List ℕ, ((fds.map (FdContext.new : ℕ → FdContext S F C)).map
        fun c => Mask.bits c.events).sum = 0 := by
      intro fds
      induction fds with
      | nil => rfl
      | cons fd fds ih =>
        rw [List.map_cons, List.map_cons, List.sum_cons, ih]
        exact (show Mask.bits NONE + 0 = 0 by decide)
    exact (hzero _).symm

/-- Storing a well-formed context with its interest and its share of the counter. -/
theorem WF.update (h : WF ep) (hfd : ep.fdContexts[fd]? = some c) (hc' : c'.WF) (heq : c'.fd = fd)
    (hpending : pending + Mask.bits c.events = ep.pendingEventCount + Mask.bits c'.events) :
    WF ((ep.update fd c' pending).setInterest fd (interestOf c'.events)) where
  context := by
    refine Table.forall_set (fun fd' a hne ha => ?_) ?_
    · -- the other contexts and their interest are as before
      simpa [setInterest, EventPoller.update, hne] using h.context fd' a ha
    · simp [hc', heq, setInterest]
  pending := by
    -- the total changes by the difference of the two contexts
    have hsum := Table.sum_map_set (fun c : FdContext S F C => Mask.bits c.events) hfd c'
    have hold := h.pending
    simp only [eventCount, EventPoller.update, setInterest] at hold ⊢
    omega

/-- The waiters after one context has been replaced. -/
theorem waiters_update (hfd : ep.fdContexts[fd]? = some c) (c' : FdContext S F C) (pending : ℕ)
    (interest : Option Mask) :
    ((ep.update fd c' pending).setInterest fd interest).waiters + c.waiters =
      ep.waiters + c'.waiters :=
  Table.sum_map_set FdContext.waiters hfd c'

/-! ## The operations -/

/-- `addEvent` modifies an entry of the interest list that is there, or adds a new one. -/
theorem addOp_legal (events : Mask) : (addOp events).Legal (interestOf events) := by
  unfold addOp interestOf
  by_cases h : events = NONE <;> simp [h, CtlOp.Legal]

/-- If the kernel grants it, the entry is the new mask. -/
theorem epoll_ctl_addOp (events mask : Mask) :
    epoll_ctl (addOp events) mask (interestOf events) true = some (some mask) := by
  unfold addOp interestOf
  by_cases h : events = NONE <;> simp [h, epoll_ctl]

/-- If the kernel refuses, nothing changes. -/
@[simp] theorem epoll_ctl_refused (op : CtlOp) (mask : Mask) (interest : Option Mask) :
    epoll_ctl op mask interest false = none := by
  cases op <;> cases interest <;> rfl

/-- A descriptor with an event is in the interest list. -/
theorem interestOf_of_has {m : Mask} (h : Mask.Has m e) : interestOf m = some (EPOLLET ||| m) := by
  refine if_neg ?_
  rintro rfl
  exact h (by cases e <;> decide)

/-- What takes an event away modifies an entry that is there, or deletes it. -/
theorem leftOp_legal {m : Mask} (left : Mask) (h : Mask.Has m e) :
    (leftOp left).Legal (interestOf m) := by
  rw [interestOf_of_has h]
  unfold leftOp
  split_ifs <;> simp [CtlOp.Legal]

/-- If the kernel grants it, the entry is that of the events that are left. -/
theorem epoll_ctl_leftOp {m : Mask} (left : Mask) (h : Mask.Has m e) :
    epoll_ctl (leftOp left) (EPOLLET ||| left) (interestOf m) true = some (interestOf left) := by
  rw [interestOf_of_has h]
  unfold leftOp interestOf
  by_cases hleft : left = NONE <;> simp [hleft, epoll_ctl]

/-- The context that a successful `addEvent` arms. -/
def armedBy (s : S) (fiber : F) (cb : Option C) : EventContext S F C :=
  match cb with
  | some cb => { scheduler := some s, fiber := none, cb := some cb }
  | none => { scheduler := some s, fiber := some fiber, cb := none }

/-- `addEvent` leaves a fiber or a callback, and a scheduler. -/
theorem armedBy_armed (s : S) (fiber : F) (cb : Option C) : (armedBy s fiber cb).Armed := by
  cases cb <;> exact ⟨rfl, rfl⟩

/-- `addEvent` of an event that is not registered arms its context. -/
theorem WF.addEvent_eq (h : WF ep) (hfd : ep.fdContexts[fd]? = some c)
    (hnot : ¬ Mask.Has c.events e) (cb : Option C) {this : Caller S F} {s : S}
    (hs : this.scheduler = some s) (hexec : cb = none → this.state = .EXEC) :
    ep.addEvent fd e cb this true =
      .ok (0, (ep.update fd (c.arm (armedBy s this.fiber cb) e)
        (ep.pendingEventCount + 1)).setInterest fd (interestOf (c.events ||| e.mask))) := by
  obtain ⟨hc, -, hint⟩ := h.context fd c hfd
  have hset : ¬ c.events &&& e.mask ≠ 0 := hnot
  -- the mask stored by the kernel is that of the new events
  have hhas : Mask.Has (c.events ||| e.mask) e := hc.valid.has_or.mpr (Or.inl rfl)
  simp only [addEvent, hfd, if_neg hset, hint, epoll_ctl_addOp, FdContext.getContext_events,
    hc.empty e hnot, EventContext.new]
  rw [interestOf_of_has hhas, BitVec.or_assoc]
  cases cb with
  | some cb => simp [hs, armedBy, FdContext.arm]
  | none => simp [hs, armedBy, FdContext.arm, hexec rfl]

/-- If `epoll_ctl` fails, `addEvent` returns -1 and registers nothing. -/
theorem addEvent_refused (hfd : ep.fdContexts[fd]? = some c) (hnot : ¬ Mask.Has c.events e)
    (cb : Option C) (this : Caller S F) : ep.addEvent fd e cb this false = .ok (-1, ep) := by
  have hset : ¬ c.events &&& e.mask ≠ 0 := hnot
  simp only [addEvent, hfd, if_neg hset, epoll_ctl_refused]

/-- `delEvent` of a registered event clears its context. -/
theorem WF.delEvent_eq (h : WF ep) (hfd : ep.fdContexts[fd]? = some c)
    (hhas : Mask.Has c.events e) :
    ep.delEvent fd e true = (true, (ep.update fd (c.clear e)
      (subSize ep.pendingEventCount 1)).setInterest fd (interestOf (c.clear e).events)) := by
  obtain ⟨hc, -, hint⟩ := h.context fd c hfd
  have hset : ¬ c.events &&& e.mask = 0 := hhas
  simp only [delEvent, hfd, if_neg hset, hint, epoll_ctl_leftOp _ hhas, FdContext.clear_events]
  rfl

/-- `cancelEvent` of a registered event clears its context and schedules its waiter. -/
theorem WF.cancelEvent_eq (h : WF ep) (hfd : ep.fdContexts[fd]? = some c)
    (hhas : Mask.Has c.events e) :
    ep.cancelEvent fd e true = .ok (true, (c.getContext e).waiter, (ep.update fd (c.clear e)
      (subSize ep.pendingEventCount 1)).setInterest fd (interestOf (c.clear e).events)) := by
  obtain ⟨hc, -, hint⟩ := h.context fd c hfd
  have hset : ¬ c.events &&& e.mask = 0 := hhas
  simp only [cancelEvent, hfd, if_neg hset, hint, epoll_ctl_leftOp _ hhas, FdContext.clear_events,
    hc.triggerEvent hhas]
  rfl

/-- Without the event neither operation does anything. -/
theorem delEvent_of_not_has (hnot : ∀ c, ep.fdContexts[fd]? = some c → ¬ Mask.Has c.events e)
    (granted : Bool) : ep.delEvent fd e granted = (false, ep) := by
  cases hfd : ep.fdContexts[fd]? with
  | none => simp only [delEvent, hfd]
  | some c =>
    have hset : c.events &&& e.mask = 0 := not_not.mp (hnot c hfd)
    simp only [delEvent, hfd, if_pos hset]

/-- `cancelEvent` of an event that is not registered returns `false`. -/
theorem cancelEvent_of_not_has (hnot : ∀ c, ep.fdContexts[fd]? = some c → ¬ Mask.Has c.events e)
    (granted : Bool) : ep.cancelEvent fd e granted = .ok (false, [], ep) := by
  cases hfd : ep.fdContexts[fd]? with
  | none => simp only [cancelEvent, hfd]
  | some c =>
    have hset : c.events &&& e.mask = 0 := not_not.mp (hnot c hfd)
    simp only [cancelEvent, hfd, if_pos hset]

/-- If `epoll_ctl` fails, `delEvent` returns `false` and changes nothing. -/
theorem delEvent_refused (ep : EventPoller S F C) (fd : ℕ) (e : Event) :
    ep.delEvent fd e false = (false, ep) := by
  unfold delEvent
  simp only [epoll_ctl_refused]
  split <;> simp

/-- If `epoll_ctl` fails, `cancelEvent` triggers nobody. -/
theorem cancelEvent_refused (ep : EventPoller S F C) (fd : ℕ) (e : Event) :
    ep.cancelEvent fd e false = .ok (false, [], ep) := by
  unfold cancelEvent
  simp only [epoll_ctl_refused]
  split <;> simp

/-- If `epoll_ctl` fails, `cancelAll` triggers nobody. -/
theorem cancelAll_refused (ep : EventPoller S F C) (fd : ℕ) :
    ep.cancelAll fd false = .ok (false, [], ep) := by
  unfold cancelAll
  simp only [epoll_ctl_refused]
  split <;> simp

/-! ### Triggering several events -/

/-- One bit per registered event is accounted for in the counter. -/
theorem WF.bits_le (h : WF ep) (hfd : ep.fdContexts[fd]? = some c) :
    Mask.bits c.events ≤ ep.pendingEventCount := by
  rw [h.pending]
  exact Table.le_sum_map (fun c : FdContext S F C => Mask.bits c.events) hfd

/-- Removing a registered event takes its bit off the counter. -/
theorem WF.pending_clear (h : WF ep) (hfd : ep.fdContexts[fd]? = some c)
    (hhas : Mask.Has c.events e) :
    subSize ep.pendingEventCount 1 + Mask.bits c.events =
      ep.pendingEventCount + Mask.bits (c.clear e).events := by
  have hle := h.bits_le hfd
  have hone := (h.context fd c hfd).1.valid.bits_diff hhas
  rw [subSize_of_le (by omega), FdContext.clear_events]
  omega

/-- The event is removed together with its waiter if the mask has it. -/
def FdContext.clearIf (c : FdContext S F C) (m : Mask) (e : Event) : FdContext S F C :=
  if Mask.Has m e then c.clear e else c

/-- Clearing the events that are reported keeps a context well formed. -/
theorem FdContext.WF.clearIf (hc : c.WF) (m : Mask) (e : Event) : (c.clearIf m e).WF := by
  unfold FdContext.clearIf
  split_ifs
  · exact hc.clear e
  · exact hc

/-- Triggering an event of the mask that is registered clears it, schedules its waiter and takes
its bit off the counter. -/
theorem FdContext.WF.triggerIf_eq (hc : c.WF) {m : Mask}
    (hreg : Mask.Has m e → Mask.Has c.events e) (hbits : Mask.bits c.events ≤ pending) :
    ∃ pending', triggerIf m e c pending =
        .ok (c.clearIf m e, if Mask.Has m e then (c.getContext e).waiter else [], pending') ∧
      pending' + Mask.bits c.events = pending + Mask.bits (c.clearIf m e).events ∧
      pending' ≤ pending := by
  unfold FdContext.clearIf
  by_cases hm : Mask.Has m e
  · have hset : ¬ m &&& e.mask = 0 := hm
    -- the bit cleared is counted, so the counter does not wrap
    have hone := hc.valid.bits_diff (hreg hm)
    refine ⟨pending - 1, ?_, ?_, Nat.sub_le _ _⟩
    · rw [triggerIf, if_neg hset, hc.triggerEvent (hreg hm), if_pos hm, if_pos hm,
        ← subSize_of_le (show 1 ≤ pending by omega)]
      rfl
    · rw [if_pos hm, clear_events]
      omega
  · have hset : m &&& e.mask = 0 := not_not.mp hm
    refine ⟨pending, ?_, by rw [if_neg hm], le_rfl⟩
    rw [triggerIf, if_pos hset, if_neg hm, if_neg hm]

/-- Triggering whatever the context has registered. -/
theorem FdContext.WF.triggerIf_events (hc : c.WF) (e : Event)
    (hbits : Mask.bits c.events ≤ pending) :
    ∃ pending', triggerIf c.events e c pending =
        .ok (c.clear e, (c.getContext e).waiter, pending') ∧
      pending' + Mask.bits c.events = pending + Mask.bits (c.clear e).events := by
  have hclear : c.clearIf c.events e = c.clear e := by
    unfold FdContext.clearIf
    split_ifs with hm
    · rfl
    · exact (hc.clear_of_not_has hm).symm
  have hwaiter : (if Mask.Has c.events e then (c.getContext e).waiter else []) =
      (c.getContext e).waiter := by
    split_ifs with hm
    · rfl
    · rw [hc.empty e hm, EventContext.waiter_new]
  obtain ⟨pending', heq, hpending, -⟩ := hc.triggerIf_eq id hbits
  exact ⟨pending', by rw [heq, hclear, hwaiter], by rw [hpending, hclear]⟩

/-- `cancelAll` clears both events and schedules their waiters. -/
theorem WF.cancelAll_eq (h : WF ep) (hfd : ep.fdContexts[fd]? = some c) (hne : c.events ≠ NONE) :
    ∃ pending, ep.cancelAll fd true =
        .ok (true, c.read.waiter ++ c.write.waiter,
          (ep.update fd ((c.clear .READ).clear .WRITE) pending).setInterest fd
            (interestOf ((c.clear .READ).clear .WRITE).events)) ∧
      pending + Mask.bits c.events =
        ep.pendingEventCount + Mask.bits ((c.clear .READ).clear .WRITE).events := by
  obtain ⟨hc, -, hint⟩ := h.context fd c hfd
  obtain ⟨pending₁, hread, hpending₁⟩ := hc.triggerIf_events .READ (h.bits_le hfd)
  have hbits : Mask.bits (c.clear .READ).events ≤ pending₁ := by
    have := h.bits_le hfd
    omega
  obtain ⟨pending₂, hwrite, hpending₂⟩ := (hc.clear .READ).triggerIf_events .WRITE hbits
  -- no bit is left
  have hnone : ((c.clear .READ).clear .WRITE).events = NONE := by
    rw [((hc.clear .READ).clear .WRITE).valid.eq_none_iff]
    intro e
    rw [FdContext.clear_events, (hc.clear .READ).valid.has_diff, FdContext.clear_events,
      hc.valid.has_diff]
    cases e <;> simp
  refine ⟨pending₂, ?_, by omega⟩
  -- some event is registered, so the file descriptor is in the interest set
  have hdel : epoll_ctl .DEL 0 (ep.interest fd) true = some none := by
    rw [hint, interestOf, if_neg hne]
    rfl
  simp only [cancelAll, hfd, if_neg hne, hdel, hread, hwrite, hnone, bind, Except.bind, interestOf]
  rfl

/-- `cancelAll` of a descriptor without events returns `false`. -/
theorem cancelAll_of_none (hnone : ∀ c, ep.fdContexts[fd]? = some c → c.events = NONE)
    (granted : Bool) : ep.cancelAll fd granted = .ok (false, [], ep) := by
  cases hfd : ep.fdContexts[fd]? with
  | none => simp only [cancelAll, hfd]
  | some c => simp only [cancelAll, hfd, if_pos (hnone c hfd)]

end EventPoller

end Sylar
