import Sylar.EventPoller.Dispatch
import Sylar.EventPoller.Waiting

/-!
# From a registration to the wake-up

One event of one descriptor: `Idle` while nothing is registered for it, `Waits` while it is
registered with the waiter of an event context. `addEvent` leads from `Idle` to `Waits`, and each
of `cancelEvent` and the dispatch of a report back to `Idle`, with the waiter among the entries
scheduled.

`reported` is what `epoll_wait` may return for a descriptor: events that the kernel has been asked
for, an error, or a hangup.
-/

namespace Sylar

namespace EventPoller

/-! ## Masks of reports -/

section Mask

variable {m m' : Mask} {e e' : Event}

/-- The position of the bit of an event. -/
def Event.bit : Event → ℕ
  | .READ => 0
  | .WRITE => 2

/-- An event is one bit of a mask. -/
theorem Mask.has_iff : Mask.Has m e ↔ m.getLsbD e.bit = true := by
  have hpow : e.mask = BitVec.twoPow 32 e.bit := by cases e <;> decide
  have hne : BitVec.twoPow 32 e.bit ≠ 0 := by cases e <;> decide
  rw [Mask.Has, hpow, BitVec.and_twoPow]
  split_ifs with hbit
  · exact iff_of_true hne hbit
  · exact iff_of_false (fun h => h rfl) hbit

/-- What a union of masks has. -/
theorem Mask.has_or : Mask.Has (m ||| m') e ↔ Mask.Has m e ∨ Mask.Has m' e := by
  simp [Mask.has_iff]

/-- What an intersection of masks has. -/
theorem Mask.has_and : Mask.Has (m &&& m') e ↔ Mask.Has m e ∧ Mask.Has m' e := by
  simp [Mask.has_iff]

/-- A mask of one event has no other one. -/
theorem Mask.has_ite {p : Prop} [Decidable p] :
    Mask.Has (if p then e'.mask else NONE) e ↔ p ∧ e = e' := by
  split_ifs with hp
  · rw [and_iff_right hp]
    cases e <;> cases e' <;> decide
  · rw [iff_false_intro fun h : p ∧ e = e' => hp h.1, iff_false]
    cases e <;> decide

/-- With an error or a hangup, all events of the context count as reported. -/
theorem has_real_events (event_events events : Mask) (e : Event) :
    Mask.Has (real_events event_events events) e ↔ Mask.Has event_events e ∨
      event_events &&& (EPOLLERR ||| EPOLLHUP) ≠ 0 ∧ Mask.Has events e := by
  have hboth : Mask.Has (EPOLLIN ||| EPOLLOUT) e := by cases e <;> decide
  -- the events are picked out of the mask one by one
  have hbits : ∀ m : Mask, Mask.Has ((if m &&& EPOLLIN ≠ 0 then Event.READ.mask else NONE) |||
      (if m &&& EPOLLOUT ≠ 0 then Event.WRITE.mask else NONE)) e ↔ Mask.Has m e := by
    intro m
    rw [Mask.has_or, Mask.has_ite, Mask.has_ite]
    cases e with
    | READ =>
      simp only [reduceCtorEq, and_true, and_false, or_false]
      exact Iff.rfl
    | WRITE =>
      simp only [reduceCtorEq, and_true, and_false, false_or]
      exact Iff.rfl
  rw [real_events, hbits]
  split_ifs with herr
  · rw [Mask.has_or, Mask.has_and, and_iff_right hboth, and_iff_right herr]
  · rw [or_iff_left fun h => herr h.1]

end Mask

variable {S F C : Type*} {ep : EventPoller S F C} {fd : ℕ} {c : FdContext S F C} {e : Event}
  {ctx : EventContext S F C} {report : Mask}

/-- What `epoll_wait` returns for a descriptor of whose condition `report` is true: the kernel
leaves out what it has not been asked for, except for errors and hangups. -/
def reported (ep : EventPoller S F C) (fd : ℕ) (report : Mask) : Mask :=
  report &&& ((ep.interest fd).getD NONE ||| (EPOLLERR ||| EPOLLHUP))

/-- The condition wakes the waiter of the event. -/
def Mask.Wakes (report : Mask) (e : Event) : Prop :=
  Mask.Has report e ∨ report &&& (EPOLLERR ||| EPOLLHUP) ≠ 0

instance (report : Mask) (e : Event) : Decidable (Mask.Wakes report e) :=
  inferInstanceAs (Decidable (_ ∨ _))

/-- The real events of a report are the registered ones that the condition wakes. -/
theorem WF.has_reported (h : WF ep) (hfd : ep.fdContexts[fd]? = some c) (hhas : Mask.Has c.events e)
    (report : Mask) (e' : Event) :
    Mask.Has (real_events (ep.reported fd report) c.events) e' ↔
      Mask.Has c.events e' ∧ Mask.Wakes report e' := by
  obtain ⟨-, -, hint⟩ := h.context fd c hfd
  -- of what the kernel adds to the events asked for, nothing is the bit of an event
  have hother : ∀ m, m = EPOLLET ∨ m = EPOLLERR ||| EPOLLHUP → ¬ Mask.Has m e' := by
    rintro m (rfl | rfl) <;> cases e' <;> decide
  have herr : ∀ m : Mask, (m ||| (EPOLLERR ||| EPOLLHUP)) &&& (EPOLLERR ||| EPOLLHUP) =
      EPOLLERR ||| EPOLLHUP := by
    intro m
    ext i hi
    simp only [BitVec.getElem_and, BitVec.getElem_or]
    grind
  rw [has_real_events, reported, hint, interestOf_of_has hhas, Option.getD_some, Mask.has_and,
    Mask.has_or, Mask.has_or, BitVec.and_assoc, herr, or_iff_left (hother _ (Or.inr rfl)),
    or_iff_right (hother _ (Or.inl rfl)), Mask.Wakes, ← or_and_right, and_comm]

/-! ## One event of one descriptor -/

/-- The descriptor has a context, where nothing is registered for the event. -/
structure Idle (ep : EventPoller S F C) (fd : ℕ) (e : Event) : Prop where
  wf : WF ep
  context : ∃ c, ep.fdContexts[fd]? = some c ∧ ¬ Mask.Has c.events e

/-- The event is registered, with the waiter in `ctx`. -/
structure Waits (ep : EventPoller S F C) (fd : ℕ) (e : Event) (ctx : EventContext S F C) :
    Prop where
  wf : WF ep
  context : ∃ c, ep.fdContexts[fd]? = some c ∧ Mask.Has c.events e ∧ c.getContext e = ctx

/-- A new poller has no event registered. -/
theorem not_hasBit_new (size fd : ℕ) (e : Event) :
    ¬ (new size : EventPoller S F C).HasBit fd e := by
  rintro ⟨c, hfd, hhas⟩
  obtain ⟨i, -, rfl⟩ : ∃ i, (List.range size)[fd]? = some i ∧ FdContext.new i = c := by
    simpa [new] using hfd
  cases e <;> exact hhas (BitVec.zero_and)

/-- An event that nobody waits for is not registered. -/
theorem Idle.not_hasBit (h : Idle ep fd e) : ¬ ep.HasBit fd e := by
  obtain ⟨c, hfd, hnot⟩ := h.context
  rintro ⟨c', hfd', hhas⟩
  obtain rfl : c = c' := Option.some_inj.1 (hfd.symm.trans hfd')
  exact hnot hhas

/-- In a well-formed poller, an event that is not registered can be waited for. -/
theorem WF.idle (h : WF ep) (hfd : fd < ep.fdContexts.length) (hnot : ¬ ep.HasBit fd e) :
    Idle ep fd e where
  wf := h
  context := ⟨_, List.getElem?_eq_getElem hfd,
    fun hhas => hnot ⟨_, List.getElem?_eq_getElem hfd, hhas⟩⟩

/-- A context without the event has been stored. -/
theorem idle_update {c c' : FdContext S F C} {pending : ℕ} {interest : Option Mask}
    (hfd : ep.fdContexts[fd]? = some c) (hnot : ¬ Mask.Has c'.events e)
    (hwf : WF ((ep.update fd c' pending).setInterest fd interest)) :
    Idle ((ep.update fd c' pending).setInterest fd interest) fd e where
  wf := hwf
  context := ⟨c', getElem?_update_self hfd c' pending, hnot⟩

/-- `addEvent` registers an event that nobody waits for, and its caller waits. -/
theorem Idle.addEvent (h : Idle ep fd e) (cb : Option C) {this : Caller S F} {s : S}
    (hs : this.scheduler = some s) (hexec : cb = none → this.state = .EXEC) :
    ∃ ep', ep.addEvent fd e cb this true = .ok (0, ep') ∧
      Waits ep' fd e (armedBy s this.fiber cb) := by
  obtain ⟨c, hfd, hnot⟩ := h.context
  obtain ⟨hc, -, -⟩ := h.wf.context fd c hfd
  have heq := h.wf.addEvent_eq hfd hnot cb hs hexec
  -- the context is armed with the waiter, and its new mask has the event
  refine ⟨_, heq, (step_wf h.wf (Step.addEvent hfd hnot hs heq)).1, ?_⟩
  refine ⟨_, getElem?_update_self hfd (c.arm (armedBy s this.fiber cb) e)
    (ep.pendingEventCount + 1), ?_, ?_⟩
  · rw [FdContext.arm_events, hc.valid.has_or]
    exact Or.inl rfl
  · simp [FdContext.arm]

/-- If `epoll_ctl` fails, `addEvent` returns -1 and registers nothing. -/
theorem Idle.addEvent_refused (h : Idle ep fd e) (cb : Option C) (this : Caller S F) :
    ep.addEvent fd e cb this false = .ok (-1, ep) := by
  obtain ⟨c, hfd, hnot⟩ := h.context
  exact EventPoller.addEvent_refused hfd hnot cb this

/-- `cancelEvent` triggers the one who waits, and nobody waits any more. -/
theorem Waits.cancelEvent (h : Waits ep fd e ctx) :
    ∃ ep', ep.cancelEvent fd e true = .ok (true, ctx.waiter, ep') ∧ Idle ep' fd e := by
  obtain ⟨c, hfd, hhas, rfl⟩ := h.context
  obtain ⟨hc, -, -⟩ := h.wf.context fd c hfd
  have heq := h.wf.cancelEvent_eq hfd hhas
  refine ⟨_, heq, idle_update hfd ?_ (step_wf h.wf (Step.cancelEvent heq)).1⟩
  rw [FdContext.clear_events, hc.valid.has_diff]
  exact fun hcleared => hcleared.1 rfl

/-- An event that has been reported is not registered any more. -/
theorem FdContext.WF.not_has_clearIf (hc : c.WF) {m : Mask} (hm : Mask.Has m e) :
    ¬ Mask.Has (c.clearIf m e).events e := by
  rw [FdContext.clearIf_events, if_pos hm, hc.valid.has_diff]
  exact fun hcleared => hcleared.1 rfl

/-- The dispatch of a report schedules the waiter, perhaps with that of the other event. -/
theorem Waits.dispatch (h : Waits ep fd e ctx) (hwakes : Mask.Wakes report e) :
    ∃ scheduled ep', ep.dispatch fd (ep.reported fd report) true = .ok (scheduled, ep') ∧
      ctx.waiter ⊆ scheduled ∧ Idle ep' fd e := by
  obtain ⟨c, hfd, hhas, rfl⟩ := h.context
  obtain ⟨hc, hfd', -⟩ := h.wf.context fd c hfd
  have hreal := h.wf.has_reported hfd hhas report
  have he : Mask.Has (real_events (ep.reported fd report) c.events) e := (hreal e).2 ⟨hhas, hwakes⟩
  have hsome : ¬ c.events &&& real_events (ep.reported fd report) c.events = NONE := by
    rw [hc.valid.and_eq_none_iff (real_events_valid _ _)]
    exact fun hnone => hnone e he hhas
  obtain ⟨pending, heq, hpending, -⟩ :=
    h.wf.dispatch_reported hfd rfl (fun e' he' => ((hreal e').1 he').1) hsome
  -- READ is cleared first, and then WRITE
  have hc₁ := hc.clearIf (real_events (ep.reported fd report) c.events) .READ
  refine ⟨_, _, heq, ?_, idle_update hfd ?_
    (h.wf.update hfd (hc₁.clearIf _ .WRITE) (by simpa using hfd') hpending)⟩
  · intro waiter hmem
    rw [List.mem_append, FdContext.reportedWaiter, FdContext.reportedWaiter]
    cases e with
    | READ => exact Or.inl (by rwa [if_pos he])
    | WRITE => exact Or.inr (by rwa [if_pos he])
  · -- each event is cleared by its own step
    cases e with
    | READ =>
      rw [hc₁.has_clearIf (by decide)]
      exact hc.not_has_clearIf he
    | WRITE => exact hc₁.not_has_clearIf he

end EventPoller

end Sylar
