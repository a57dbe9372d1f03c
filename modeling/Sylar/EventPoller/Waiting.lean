import Sylar.EventPoller.Registration

/-!
# What waits on one file descriptor

`HasBit ep fd e` and `waitersOn ep fd` single out one descriptor of a poller. In a well-formed
poller, `addEvent` adds one waiter there, `cancelAll` hands all of them to their schedulers and
leaves no bit, and neither touches another descriptor.
-/

namespace Sylar

namespace EventPoller

variable {S F C : Type*} {ep : EventPoller S F C} {fd : ℕ} {c c' : FdContext S F C} {e : Event}

/-- The bit of the event is set for the descriptor. -/
def HasBit (ep : EventPoller S F C) (fd : ℕ) (e : Event) : Prop :=
  ∃ c, ep.fdContexts[fd]? = some c ∧ Mask.Has c.events e

/-- The waiters of a descriptor. -/
def waitersOn (ep : EventPoller S F C) (fd : ℕ) : Multiset (Waiter S F C) :=
  (ep.fdContexts[fd]?.map FdContext.waiters).getD 0

theorem waitersOn_eq (hfd : ep.fdContexts[fd]? = some c) : ep.waitersOn fd = c.waiters := by
  rw [waitersOn, hfd]
  rfl

/-- The interest set is the kernel's. -/
@[simp]
theorem hasBit_setInterest (ep : EventPoller S F C) (fd fd' : ℕ) (interest : Option Mask)
    (e : Event) : (ep.setInterest fd' interest).HasBit fd e ↔ ep.HasBit fd e := Iff.rfl

@[simp]
theorem waitersOn_setInterest (ep : EventPoller S F C) (fd fd' : ℕ) (interest : Option Mask) :
    (ep.setInterest fd' interest).waitersOn fd = ep.waitersOn fd := rfl

theorem getElem?_update_self (hfd : ep.fdContexts[fd]? = some c) (c' : FdContext S F C)
    (pending : ℕ) : (ep.update fd c' pending).fdContexts[fd]? = some c' := by
  obtain ⟨hlt, -⟩ := List.getElem?_eq_some_iff.1 hfd
  exact List.getElem?_set_self hlt

/-- The contexts of the other descriptors. -/
theorem getElem?_update_of_ne {fd' : ℕ} (hne : fd' ≠ fd) (c' : FdContext S F C) (pending : ℕ) :
    (ep.update fd c' pending).fdContexts[fd']? = ep.fdContexts[fd']? :=
  List.getElem?_set_ne (Ne.symm hne)

theorem waitersOn_update_of_ne {fd' : ℕ} (hne : fd' ≠ fd) (c' : FdContext S F C) (pending : ℕ) :
    (ep.update fd c' pending).waitersOn fd' = ep.waitersOn fd' := by
  rw [waitersOn, getElem?_update_of_ne hne, waitersOn]

/-- A bit that is set makes `addEvent` fail, whoever set it. -/
theorem addEvent_of_hasBit (h : ep.HasBit fd e) (cb : Option C) (this : Caller S F)
    (granted : Bool) : ep.addEvent fd e cb this granted = .error .assertion := by
  obtain ⟨c, hfd, hhas⟩ := h
  have hset : c.events &&& e.mask ≠ 0 := hhas
  simp only [addEvent, hfd, if_pos hset]

/-- A well-formed context without events has no waiter. -/
theorem FdContext.WF.waiters_eq_zero (hc : c.WF) (hnot : ∀ e, ¬ Mask.Has c.events e) :
    c.waiters = 0 := by
  have hread : c.read = .new := hc.empty .READ (hnot .READ)
  have hwrite : c.write = .new := hc.empty .WRITE (hnot .WRITE)
  rw [FdContext.waiters, hread, hwrite, EventContext.waiter_new]
  rfl

namespace WF

theorem waitersOn_eq_zero (h : WF ep) (hnot : ∀ e, ¬ ep.HasBit fd e) : ep.waitersOn fd = 0 := by
  cases hfd : ep.fdContexts[fd]? with
  | none =>
    rw [waitersOn, hfd]
    rfl
  | some c =>
    rw [waitersOn_eq hfd]
    exact (h.context fd c hfd).1.waiters_eq_zero fun e hhas => hnot e ⟨c, hfd, hhas⟩

/-- The kernel forgets a closed descriptor; a poller without its bits does not notice. -/
theorem setInterest_none (h : WF ep) (hnot : ∀ e, ¬ ep.HasBit fd e) :
    WF (ep.setInterest fd none) where
  context := by
    intro fd' c hfd'
    obtain ⟨hc, heq, hint⟩ := h.context fd' c hfd'
    refine ⟨hc, heq, ?_⟩
    by_cases hne : fd' = fd
    · subst hne
      have hnone : c.events = NONE :=
        hc.valid.eq_none_iff.2 fun e hhas => hnot e ⟨c, hfd', hhas⟩
      simp [setInterest, hnone, interestOf]
    · simpa [setInterest, hne] using hint
  pending := h.pending

/-- `addEvent` changes nothing, or it adds the waiter to those of the descriptor. -/
theorem addEvent_waitersOn (h : WF ep) {cb : Option C} {this : Caller S F} {s : S} {granted : Bool}
    {ret : ℤ} {ep' : EventPoller S F C} (hs : this.scheduler = some s) (hexec : this.state = .EXEC)
    (hadd : ep.addEvent fd e cb this granted = .ok (ret, ep')) :
    WF ep' ∧ (ret = 0 ∧ ep'.waitersOn fd = ep.waitersOn fd + {waiterOf s this.fiber cb} ∨
      ret ≠ 0 ∧ ep' = ep) ∧ ∀ fd' ≠ fd, ep'.waitersOn fd' = ep.waitersOn fd' := by
  cases hfd : ep.fdContexts[fd]? with
  | none => simp [EventPoller.addEvent, hfd] at hadd
  | some c =>
    by_cases hhas : Mask.Has c.events e
    -- the assertion of `addEvent` fails, and it does not return
    · rw [addEvent_of_hasBit ⟨c, hfd, hhas⟩] at hadd
      cases hadd
    · cases granted with
      | false =>
        -- `epoll_ctl` comes before any change
        rw [addEvent_refused hfd hhas] at hadd
        cases hadd
        exact ⟨h, Or.inr ⟨by decide, rfl⟩, fun _ _ => rfl⟩
      | true =>
        obtain ⟨hc, hfd', -⟩ := h.context fd c hfd
        have hstep := Step.addEvent hfd hhas hs hadd
        rw [h.addEvent_eq hfd hhas cb hs fun _ => hexec] at hadd
        cases hadd
        refine ⟨(step_wf h hstep).1, Or.inl ⟨rfl, ?_⟩, fun fd'' hne => ?_⟩
        · rw [waitersOn_setInterest, waitersOn_eq (getElem?_update_self hfd _ _),
            FdContext.waiters_arm hc hhas, waitersOn_eq hfd]
          cases cb <;> rfl
        · rw [waitersOn_setInterest, waitersOn_update_of_ne hne]

/-- `cancelAll` schedules the waiters of the descriptor and leaves no bit. -/
theorem cancelAll_waitersOn (h : WF ep) (fd : ℕ) : ∃ ret scheduled ep',
    ep.cancelAll fd true = .ok (ret, scheduled, ep') ∧ WF ep' ∧
      (∀ e, ¬ ep'.HasBit fd e) ∧ (scheduled : Multiset (Waiter S F C)) = ep.waitersOn fd ∧
      ∀ fd' ≠ fd, ep'.waitersOn fd' = ep.waitersOn fd' := by
  by_cases hreg : ∃ c, ep.fdContexts[fd]? = some c ∧ c.events ≠ NONE
  · obtain ⟨c, hfd, hne⟩ := hreg
    obtain ⟨hc, -, -⟩ := h.context fd c hfd
    obtain ⟨pending, heq, -⟩ := h.cancelAll_eq hfd hne
    refine ⟨_, _, _, heq, (step_wf h (Step.cancelAll heq)).1, ?_, ?_, fun fd' hfd' => ?_⟩
    · -- one event is cleared after the other
      rintro e ⟨c', hc', hhas⟩
      rw [setInterest, getElem?_update_self hfd] at hc'
      obtain rfl := Option.some_inj.1 hc'
      rw [FdContext.clear_events, (hc.clear .READ).valid.has_diff, FdContext.clear_events,
        hc.valid.has_diff] at hhas
      cases e <;> simp at hhas
    · rw [waitersOn_eq hfd, FdContext.waiters, Multiset.coe_add]
    · rw [waitersOn_setInterest, waitersOn_update_of_ne hfd']
  · -- nothing is registered, and nothing is done
    have hnone : ∀ c, ep.fdContexts[fd]? = some c → c.events = NONE := fun c hfd => by
      by_contra hne
      exact hreg ⟨c, hfd, hne⟩
    have hnot : ∀ e, ¬ ep.HasBit fd e := by
      rintro e ⟨c, hfd, hhas⟩
      rw [hnone c hfd] at hhas
      cases e <;> exact hhas (by decide)
    exact ⟨_, _, _, cancelAll_of_none hnone true, h, hnot, (h.waitersOn_eq_zero hnot).symm,
      fun _ _ => rfl⟩

end WF

end EventPoller

end Sylar
