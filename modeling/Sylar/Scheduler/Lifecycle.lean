import Sylar.Scheduler.Frame

/-!
# The life of a fiber under one worker

What one worker's `run` does to fibers, whatever their bodies do. A fiber is `Referenced` by those
outside the scheduler, by the queue, by the local variables of the worker, and by its own stack from
its first `swapIn` until `MainFunc` drops `cur`.

* `LifecycleLaw` — `swapIn` and `Fiber::reset` are called in the right states, and the destructor
  finds every fiber in a state that its assertion allows;
* `Kept` — a fiber whose body has thrown in a fiber task is held by someone outside the scheduler,
  or by `cb_fiber`, and they do not give up the last of these references;
* `lifecycle_law` — in a run whose steps are all `Kept`, every step obeys the law;
* `not_lifecycleLaw_throws` — a fiber task that throws and is held by nobody else breaks it:
  `ft.reset()` drops the fiber in `EXCEPT`.
-/

namespace Sylar.Scheduler

open Transition

variable {F C : Type*}

/-! ## The law -/

/-- From its first `swapIn` until its body ends, `cur` on its own stack refers to the fiber. -/
def OnStack (fiber : Fiber C) : Prop :=
  fiber.state = .EXEC ∨ fiber.state = .HOLD ∨ fiber.state = .READY

/-- Somebody has a `Fiber::Ptr` to the fiber. -/
def Referenced (s : State Unit F C) (f : F) : Prop :=
  Refers s f ∨ ∃ fiber, s.heap f = some fiber ∧ OnStack fiber

/-- The call is made in a state in which it may be made. -/
def Call.Legal : Call → Prop
  | .swapIn state => state = .INIT ∨ state = .HOLD ∨ state = .READY
  | .reset state => state.resettable = true

/-- What the lifecycle of fibers demands of a step from `s` to `s'`. -/
structure LifecycleLaw (s s' : State Unit F C) : Prop where
  /-- No fiber that is running or has ended is swapped in, and none that is suspended is reset. -/
  calls : ∀ call ∈ s'.calls, call.Legal
  /-- When the last reference to a fiber is dropped, the assertion of `~Fiber` holds. -/
  dropped : ∀ f fiber, Referenced s f → ¬ Referenced s' f → s'.heap f = some fiber →
    fiber.state.destructible = true
  /-- So does it for the idle fiber, when `run` returns. -/
  idle : (s'.worker ()).phase = .exited → (s'.worker ()).idle_fiber.destructible = true

/-- The body of a fiber task throws only while someone outside the scheduler, or `cb_fiber`, holds
its fiber; and those who hold a fiber whose body has thrown do not give it up: not the last one
outside, unless `cb_fiber` holds it, and not `cb_fiber` at the end of `run`, unless someone outside
does. -/
def Kept (s : State Unit F C) : Action Unit F C → Prop
  | .finish _ .throws => ∀ e f, (s.worker ()).phase = .inFiber e → (s.worker ()).ft.fiber = some f →
      0 < s.held f ∨ (s.worker ()).cb_fiber = some f
  | .release f => ∀ fiber, s.heap f = some fiber → fiber.state = .EXCEPT →
      1 < s.held f ∨ (s.worker ()).cb_fiber = some f
  | .idle _ => ∀ f fiber, (s.worker ()).idle_fiber = .TERM → (s.worker ()).cb_fiber = some f →
      s.heap f = some fiber → fiber.state = .EXCEPT → 0 < s.held f
  | _ => True

/-! ## The invariant -/

/-- What `cb_fiber` may be at each place. Between two callbacks it has no callback, and only someone
who has kept a reference to it can get it to run, in a fiber task that throws. -/
def Phase.Spare (p : Phase F C) (fiber : Fiber C) : Prop :=
  match p with
  | .inCb _ _ => True
  | .readyCb _ => fiber.state = .READY
  | _ => fiber.cb = none ∧ (fiber.state = .INIT ∨ fiber.state = .EXEC ∨ fiber.state = .EXCEPT)

/-- What holds of the fibers in every state of a run whose steps are all `Kept`. -/
structure Alive (s : State Unit F C) : Prop where
  executing : ∀ f fiber, s.heap f = some fiber → fiber.state = .EXEC →
    (s.worker ()).current = some f
  thrown : ∀ f fiber, s.heap f = some fiber → fiber.state = .EXCEPT →
    0 < s.held f ∨ (s.worker ()).cb_fiber = some f
  spare : ∀ f, (s.worker ()).cb_fiber = some f →
    ∃ fiber, s.heap f = some fiber ∧ (s.worker ()).phase.Spare fiber

/-- What holds of the idle fiber. -/
structure IdleFiber (wk : Worker F C) : Prop where
  state : wk.phase = .idling ∨ wk.idle_fiber = .INIT ∨ wk.idle_fiber = .HOLD ∨ wk.idle_fiber = .TERM
  exited : wk.phase = .exited → wk.idle_fiber = .TERM

variable {s s' : State Unit F C} {f : F} {fiber fiber' : Fiber C} {wk : Worker F C} {call : Call}

theorem alive_new : Alive (State.new : State Unit F C) where
  executing := by simp [State.new]
  thrown := by simp [State.new]
  spare := by simp [State.new, Worker.new]

theorem Alive.not_exec (h : Alive s) (hcur : (s.worker ()).current = none)
    (hf : s.heap f = some fiber) : fiber.state ≠ .EXEC := by
  intro hexec
  rw [h.executing f fiber hf hexec] at hcur
  cases hcur

theorem Alive.spare_fiber (h : Alive s) (hcbf : (s.worker ()).cb_fiber = some f)
    (hf : s.heap f = some fiber) : (s.worker ()).phase.Spare fiber := by
  obtain ⟨fiber', hf', hsp⟩ := h.spare f hcbf
  rw [hf] at hf'
  obtain rfl := Option.some_inj.1 hf'
  exact hsp

/-- The worker changes its place while no body is running, and may let go of `cb_fiber` unless it is
the one that keeps a fiber whose body has thrown. -/
theorem Alive.move (h : Alive s) (hcur : (s.worker ()).current = none)
    (hheap : s'.heap = s.heap) (hheld : s'.held = s.held)
    (hcbf : (s'.worker ()).cb_fiber = (s.worker ()).cb_fiber ∨ (s'.worker ()).cb_fiber = none ∧
      ∀ f fiber, (s.worker ()).cb_fiber = some f → s.heap f = some fiber →
        fiber.state = .EXCEPT → 0 < s.held f)
    (hspare : ∀ fiber, (s.worker ()).phase.Spare fiber → (s'.worker ()).phase.Spare fiber ∨
      (s'.worker ()).cb_fiber = none) : Alive s' where
  executing := by
    intro f fiber hf hexec
    rw [hheap] at hf
    exact absurd hexec (h.not_exec hcur hf)
  thrown := by
    intro f fiber hf hexc
    rw [hheap] at hf
    rw [hheld]
    rcases hcbf with heq | ⟨-, hkept⟩
    · rw [heq]
      exact h.thrown f fiber hf hexc
    · rcases h.thrown f fiber hf hexc with hpos | hspare
      · exact Or.inl hpos
      · -- `cb_fiber` may have been the one that kept the fiber, and is given up
        exact Or.inl (hkept f fiber hspare hf hexc)
  spare := by
    intro f hf
    rcases hcbf with heq | ⟨hnone, -⟩
    · obtain ⟨fiber, hfiber, hphase⟩ := h.spare f (heq ▸ hf)
      rcases hspare fiber hphase with hphase' | hnone
      · exact ⟨fiber, by rwa [hheap], hphase'⟩
      · rw [hnone] at hf
        cases hf
    · rw [hnone] at hf
      cases hf

/-- The worker goes on between two bodies, with `cb_fiber` as it is. -/
theorem Alive.walk (h : Alive s) (hcur : (s.worker ()).current = none) (hheap : s'.heap = s.heap)
    (hheld : s'.held = s.held) (hcbf : (s'.worker ()).cb_fiber = (s.worker ()).cb_fiber)
    (hspare : ∀ fiber, (s'.worker ()).phase.Spare fiber ↔ (s.worker ()).phase.Spare fiber) :
    Alive s' :=
  h.move hcur hheap hheld (Or.inl hcbf) fun fiber hsp => Or.inl ((hspare fiber).2 hsp)

/-- The references outside the scheduler change. -/
theorem Alive.hold (h : Alive s) (hheap : s'.heap = s.heap) (hworker : s'.worker = s.worker)
    (hheld : ∀ f fiber, s.heap f = some fiber → fiber.state = .EXCEPT → 0 < s.held f →
      0 < s'.held f ∨ (s.worker ()).cb_fiber = some f) : Alive s' where
  executing := by
    rw [hheap, hworker]
    exact h.executing
  thrown := by
    intro f fiber hf hexc
    rw [hheap] at hf
    rw [hworker]
    rcases h.thrown f fiber hf hexc with hpos | hspare
    · exact hheld f fiber hf hexc hpos
    · exact Or.inr hspare
  spare := by
    rw [hheap, hworker]
    exact h.spare

variable [DecidableEq F]

/-- The worker writes to a fiber, to start its body or after its body has ended. -/
theorem Alive.write (h : Alive s)
    (hcur : (s.worker ()).current = none ∨ (s.worker ()).current = some f)
    (hheap : s'.heap = Function.update s.heap f (some fiber')) (hheld : s'.held = s.held)
    (hexec : fiber'.state = .EXEC → (s'.worker ()).current = some f)
    (hexc : fiber'.state = .EXCEPT → 0 < s.held f ∨ (s'.worker ()).cb_fiber = some f)
    (hcbf : ∀ g, g ≠ f → (s.worker ()).cb_fiber = some g → (s'.worker ()).cb_fiber = some g)
    (hspare : ∀ g, (s'.worker ()).cb_fiber = some g →
      g = f ∧ (s'.worker ()).phase.Spare fiber' ∨ g ≠ f ∧ (s.worker ()).cb_fiber = some g ∧
        ∀ fiber, (s.worker ()).phase.Spare fiber → (s'.worker ()).phase.Spare fiber) :
    Alive s' where
  executing := by
    intro g fiber hg hst
    rw [hheap, Function.update_apply] at hg
    split at hg
    · rename_i heq
      cases hg
      rw [heq]
      exact hexec hst
    · rename_i hne
      -- no other fiber was executing
      have hold := h.executing g fiber hg hst
      rcases hcur with hcur | hcur
      · rw [hcur] at hold
        cases hold
      · rw [hcur] at hold
        cases hold
        exact absurd rfl hne
  thrown := by
    intro g fiber hg hst
    rw [hheap, Function.update_apply] at hg
    rw [hheld]
    split at hg
    · rename_i heq
      cases hg
      rw [heq]
      exact hexc hst
    · rename_i hne
      exact (h.thrown g fiber hg hst).imp_right (hcbf g hne)
  spare := by
    intro g hg
    rw [hheap]
    rcases hspare g hg with ⟨rfl, hphase⟩ | ⟨hne, hold, hkeep⟩
    · exact ⟨fiber', by rw [Function.update_self], hphase⟩
    · obtain ⟨fiber, hfiber, hphase⟩ := h.spare g hold
      exact ⟨fiber, by rwa [Function.update_of_ne hne], hkeep fiber hphase⟩

/-- The body of a callback starts, in a fiber that becomes `cb_fiber` if it is not. -/
theorem Alive.startCb (h : Alive s) {e : Entry F C} {thread : ℤ}
    (hcur : (s.worker ()).current = none)
    (hcbf : ∀ g, g ≠ f → (s.worker ()).cb_fiber ≠ some g)
    (hheap : s'.heap = Function.update s.heap f (some fiber')) (hheld : s'.held = s.held)
    (hstate : fiber'.state = .EXEC) (hphase : (s'.worker ()).phase = .inCb e thread)
    (hcbf' : (s'.worker ()).cb_fiber = some f) : Alive s' := by
  refine h.write (Or.inl hcur) hheap hheld ?_ ?_ ?_ ?_
  · intro _
    simp only [Worker.current, hphase, hcbf']
  · intro hexc
    rw [hstate] at hexc
    cases hexc
  · exact fun g hne hg => absurd hg (hcbf g hne)
  · intro g hg
    rw [hcbf'] at hg
    obtain rfl := Option.some_inj.mp hg
    -- while its body runs, nothing is asked of `cb_fiber`
    refine Or.inl ⟨rfl, ?_⟩
    rw [hphase]
    trivial

/-- A fiber is created at an unused address. -/
theorem Alive.create (h : Alive s) (hfree : s.heap f = none) (cb : C) :
    Alive ((s.setFiber f (.new cb)).setHeld f 1) where
  executing := by
    intro g fiber hg hst
    simp only [State.setHeld, State.setFiber, Function.update_apply] at hg
    split at hg
    · cases hg
      cases hst
    · exact h.executing g fiber hg hst
  thrown := by
    intro g fiber hg hst
    simp only [State.setHeld, State.setFiber, Function.update_apply] at hg ⊢
    split at hg
    · cases hg
      cases hst
    · rename_i hne
      rw [if_neg hne]
      exact h.thrown g fiber hg hst
  spare := by
    intro g hg
    obtain ⟨fiber, hfiber, hphase⟩ := h.spare g hg
    refine ⟨fiber, ?_, hphase⟩
    -- `cb_fiber` is on the heap, and the new fiber was not
    have hne : g ≠ f := by
      rintro rfl
      rw [hfree] at hfiber
      cases hfiber
    simpa [State.setHeld, State.setFiber, hne] using hfiber

/-- The body of a fiber task gives up the thread. -/
theorem Alive.finishFiber (h : Alive s) {e : Entry F C} {outcome : Fiber.Outcome}
    (hw : (s.worker ()).phase = .inFiber e) (hft : (s.worker ()).ft.fiber = some f)
    (hf : s.heap f = some fiber) (hleave : fiber.canLeave outcome = true)
    (hkept : outcome = .throws → 0 < s.held f ∨ (s.worker ()).cb_fiber = some f)
    (hheap : s'.heap = Function.update s.heap f (some (fiber.leave outcome)))
    (hheld : s'.held = s.held) (hcbf : (s'.worker ()).cb_fiber = (s.worker ()).cb_fiber)
    (hphase : (s'.worker ()).phase = .loop ∨ (s'.worker ()).phase = .readyFiber) : Alive s' := by
  have hplain : ∀ fiber : Fiber C,
      (s.worker ()).phase.Spare fiber → (s'.worker ()).phase.Spare fiber := by
    intro fiber hsp
    rw [hw] at hsp
    rcases hphase with hphase | hphase <;> rw [hphase] <;> exact hsp
  refine h.write (Or.inr (by simpa [Worker.current, hw] using hft)) hheap hheld ?_ ?_ ?_ ?_
  · intro hexec
    cases outcome <;> cases hexec
  · intro hexc
    rw [hcbf]
    cases outcome with
    | throws => exact hkept rfl
    | returns => cases hexc
    | yieldToHold => cases hexc
    | ready => cases hexc
  · intro g _ hg
    rwa [hcbf]
  · intro g hg
    rw [hcbf] at hg
    by_cases heq : g = f
    · -- `cb_fiber` has no callback, so its body can only have thrown
      subst heq
      have hsp := h.spare_fiber hg hf
      rw [hw] at hsp
      have hcb : fiber.cb = none := hsp.1
      obtain rfl : outcome = .throws := by simpa [Fiber.canLeave, hcb] using hleave
      refine Or.inl ⟨rfl, ?_⟩
      rcases hphase with hphase | hphase <;> rw [hphase] <;> exact ⟨hcb, Or.inr (Or.inr rfl)⟩
    · exact Or.inr ⟨heq, hg, hplain⟩

/-- The body of a callback gives up the thread. -/
theorem Alive.finishCb (h : Alive s) {e : Entry F C} {thread : ℤ}
    (hw : (s.worker ()).phase = .inCb e thread) (hold : (s.worker ()).cb_fiber = some f)
    (hheap : s'.heap = Function.update s.heap f (some fiber')) (hheld : s'.held = s.held)
    (hstate : fiber'.state = .READY ∨ fiber'.state = .HOLD ∨ fiber'.state = .INIT)
    (hspare : (s'.worker ()).cb_fiber = none ∨
      (s'.worker ()).cb_fiber = some f ∧ (s'.worker ()).phase.Spare fiber') : Alive s' := by
  refine h.write (Or.inr (by simpa [Worker.current, hw] using hold)) hheap hheld ?_ ?_ ?_ ?_
  · intro hexec
    rcases hstate with hst | hst | hst <;> rw [hst] at hexec <;> cases hexec
  · intro hexc
    rcases hstate with hst | hst | hst <;> rw [hst] at hexc <;> cases hexc
  · intro g hne hg
    rw [hold] at hg
    cases hg
    exact absurd rfl hne
  · intro g hg
    rcases hspare with hnone | ⟨hsome, hphase⟩
    · rw [hnone] at hg
      cases hg
    · rw [hsome] at hg
      cases hg
      exact Or.inl ⟨rfl, hphase⟩

/-! ## What one step preserves -/

variable {tid : Unit → ℤ} {a : Action Unit F C}

/-- A step that is `Kept` keeps the invariant of the fibers. -/
theorem Alive.step (h : Alive s) (hkept : Kept s a) (hstep : StepCase tid s a s') : Alive s' := by
  cases hstep with
  | create hfree => exact h.create hfree _
  | @copy f hheld =>
    refine h.hold rfl rfl fun g fiber _ _ hpos => Or.inl ?_
    by_cases hg : g = f <;> simp [State.setHeld, hg, hpos]
  | @release f hheld =>
    refine h.hold rfl rfl fun g fiber hg hexc hpos => ?_
    by_cases heq : g = f
    · subst heq
      -- a fiber that has thrown: the reference given up is not the last one
      refine (hkept fiber hg hexc).imp_left fun hmore => ?_
      simp only [State.setHeld, Function.update_self]
      omega
    · exact Or.inl (by simpa [State.setHeld, heq] using hpos)
  | @getThis w f hcur =>
    refine h.hold rfl rfl fun g fiber _ _ hpos => Or.inl ?_
    by_cases hg : g = f <;> simp [State.setHeld, hg, hpos]
  | @schedule task hheld =>
    refine h.hold (heap_enqueue s task) (worker_enqueue s task) fun g fiber _ _ hpos => Or.inl ?_
    rwa [held_enqueue]
  | @reset w hw =>
    exact h.walk (by simp [Worker.current, hw]) rfl rfl rfl
      fun fiber => by simp [Phase.Spare, hw, State.setWorker]
  | @take w e rest hw hscan =>
    exact h.walk (by simp [Worker.current, hw]) rfl rfl rfl
      fun fiber => by simp [Phase.Spare, hw, State.setWorker]
  | @takeNone w hw hscan =>
    exact h.walk (by simp [Worker.current, hw]) rfl rfl rfl
      fun fiber => by simp [Phase.Spare, hw, State.setWorker]
  | @startFiber w fresh f e fiber hw hft hf hended =>
    refine h.write (Or.inl (by simp [Worker.current, hw])) rfl rfl ?_ ?_ ?_ ?_
    · intro _
      simpa [Worker.current, State.setWorker] using hft
    · intro hexc
      cases hexc
    · exact fun g _ hg => hg
    · intro g hg
      by_cases heq : g = f
      · subst heq
        have hsp := h.spare_fiber hg hf
        rw [hw] at hsp
        have hcb : fiber.cb = none := hsp.1
        -- an entry of `cb_fiber` itself: it runs without a callback, and will throw
        exact Or.inl ⟨rfl, hcb, Or.inr (Or.inl rfl)⟩
      · refine Or.inr ⟨heq, hg, fun fiber hsp => ?_⟩
        simpa [Phase.Spare, hw, State.setWorker] using hsp
  | @startCb w fresh f e cb fiber hw hcb hcbf hf =>
    refine h.startCb (by simp [Worker.current, hw]) (fun g hne hg => hne ?_) rfl rfl rfl rfl rfl
    exact Option.some_inj.mp (hg.symm.trans hcbf)
  | @startNew w fresh e cb hw hcb hcbf hfree =>
    refine h.startCb (by simp [Worker.current, hw]) (fun g _ hg => ?_) rfl rfl rfl rfl rfl
    cases hcbf.symm.trans hg
  | @stale w fresh e hw hcb hstale =>
    exact h.walk (by simp [Worker.current, hw]) rfl rfl rfl
      fun fiber => by simp [Phase.Spare, hw, State.setWorker]
  | @fiberReady w f e fiber hw hft hf hleave =>
    exact h.finishFiber hw hft hf hleave (by simp) rfl rfl rfl (Or.inr rfl)
  | @fiberHold w f e fiber hw hft hf hleave =>
    exact h.finishFiber hw hft hf hleave (by simp) rfl rfl rfl (Or.inl rfl)
  | @fiberEnded w f e fiber outcome hw hft hf hleave hended =>
    -- a body that throws leaves the fiber in `EXCEPT`, which is where `Kept` is needed
    refine h.finishFiber hw hft hf hleave ?_ rfl rfl rfl (Or.inl rfl)
    rintro rfl
    exact hkept e f hw hft
  | @cbReady w f e thread fiber hw hcbf hf hleave =>
    exact h.finishCb hw hcbf rfl rfl (Or.inl rfl) (Or.inr ⟨hcbf, rfl⟩)
  | @cbHold w f e thread fiber hw hcbf hf hleave =>
    -- `cb_fiber` lets go of a fiber in `HOLD`, which its own stack keeps alive
    exact h.finishCb hw hcbf rfl rfl (Or.inr (Or.inl rfl)) (Or.inl rfl)
  | @cbEnded w f e thread fiber outcome hw hcbf hf hleave hended =>
    -- however the callback has ended, `reset(nullptr)` leaves its fiber in `INIT`
    exact h.finishCb hw hcbf rfl rfl (Or.inr (Or.inr rfl)) (Or.inr ⟨hcbf, rfl, Or.inl rfl⟩)
  | @requeueFiber w hw =>
    exact h.walk (by simp [Worker.current, hw]) (heap_enqueue s _) (held_enqueue s _) rfl
      fun fiber => by simp [Phase.Spare, hw, State.setWorker]
  | @requeueCb w thread hw =>
    refine h.move (by simp [Worker.current, hw]) (heap_enqueue s _) (held_enqueue s _)
      (Or.inr ⟨rfl, fun f fiber hcbf hf hexc => ?_⟩) fun _ _ => Or.inr rfl
    -- at this place `cb_fiber` is in `READY`
    have hsp := h.spare_fiber hcbf hf
    rw [hw] at hsp
    rw [show fiber.state = .READY from hsp] at hexc
    cases hexc
  | @exit w hw hidle =>
    exact h.move (by simp [Worker.current, hw]) rfl rfl
      (Or.inr ⟨rfl, fun f fiber hcbf hf hexc => hkept f fiber hidle hcbf hf hexc⟩)
      fun _ _ => Or.inr rfl
  | @idle w hw hidle =>
    exact h.walk (by simp [Worker.current, hw]) rfl rfl rfl
      fun fiber => by simp [Phase.Spare, hw, State.setWorker]
  | @idleReturn w returns hw =>
    exact h.walk (by simp [Worker.current, hw]) rfl rfl rfl
      fun fiber => by simp [Phase.Spare, hw, State.setWorker]

omit [DecidableEq F] in
/-- The worker changes its place, and not the idle fiber. -/
theorem IdleFiber.move {wk' : Worker F C} (h : IdleFiber wk) (hwk : wk.phase ≠ .idling)
    (hidle : wk'.idle_fiber = wk.idle_fiber) (hwk' : wk'.phase ≠ .exited) : IdleFiber wk' where
  state := by
    rw [hidle]
    exact Or.inr (h.state.resolve_left hwk)
  exited := fun hexited => absurd hexited hwk'

/-- A step keeps the invariant of the idle fiber. -/
theorem IdleFiber.step (h : IdleFiber (s.worker ())) (hstep : StepCase tid s a s') :
    IdleFiber (s'.worker ()) := by
  cases hstep with
  | create hfree => exact h
  | copy hheld => exact h
  | release hheld => exact h
  | getThis hcur => exact h
  | @schedule task hheld =>
    rw [worker_enqueue]
    exact h
  | reset hw => exact h.move (by rw [hw]; nofun) rfl nofun
  | take hw hscan => exact h.move (by rw [hw]; nofun) rfl nofun
  | takeNone hw hscan => exact h.move (by rw [hw]; nofun) rfl nofun
  | startFiber hw hft hf hended => exact h.move (by rw [hw]; nofun) rfl nofun
  | startCb hw hcb hcbf hf => exact h.move (by rw [hw]; nofun) rfl nofun
  | startNew hw hcb hcbf hfree => exact h.move (by rw [hw]; nofun) rfl nofun
  | stale hw hcb hstale => exact h.move (by rw [hw]; nofun) rfl nofun
  | fiberReady hw hft hf hleave => exact h.move (by rw [hw]; nofun) rfl nofun
  | fiberHold hw hft hf hleave => exact h.move (by rw [hw]; nofun) rfl nofun
  | fiberEnded hw hft hf hleave hended => exact h.move (by rw [hw]; nofun) rfl nofun
  | cbReady hw hcbf hf hleave => exact h.move (by rw [hw]; nofun) rfl nofun
  | cbHold hw hcbf hf hleave => exact h.move (by rw [hw]; nofun) rfl nofun
  | cbEnded hw hcbf hf hleave hended => exact h.move (by rw [hw]; nofun) rfl nofun
  | requeueFiber hw => exact h.move (by rw [hw]; nofun) rfl nofun
  | requeueCb hw => exact h.move (by rw [hw]; nofun) rfl nofun
  | exit hw hidle => exact ⟨Or.inr (Or.inr (Or.inr hidle)), fun _ => hidle⟩
  | idle hw hidle => exact ⟨Or.inl rfl, nofun⟩
  | @idleReturn w returns hw =>
    refine ⟨Or.inr ?_, nofun⟩
    cases returns
    · exact Or.inr (Or.inl rfl)
    · exact Or.inr (Or.inr rfl)

omit [DecidableEq F] in
/-- A fiber that is not executing and has not ended may be swapped in. -/
theorem Call.legal_swapIn (hexec : fiber.state ≠ .EXEC) (hended : fiber.ended = false) :
    Call.Legal (.swapIn fiber.state) := by
  obtain ⟨state, cb⟩ := fiber
  cases state with
  | INIT => exact Or.inl rfl
  | HOLD => exact Or.inr (Or.inl rfl)
  | READY => exact Or.inr (Or.inr rfl)
  | EXEC => exact absurd rfl hexec
  | TERM => cases hended
  | EXCEPT => cases hended

/-- The calls that a step makes are legal. -/
theorem Alive.calls (h : Alive s) (hidle : IdleFiber (s.worker ()))
    (hcalls : ∀ call ∈ s.calls, call.Legal) (hstep : StepCase tid s a s') :
    ∀ call ∈ s'.calls, call.Legal := by
  -- what holds of the record and of one more call holds of the longer record
  have hmore : ∀ {calls : List Call} {call}, (∀ c ∈ calls, c.Legal) → call.Legal →
      ∀ c ∈ calls ++ [call], c.Legal := by
    intro calls call hold hnew c hc
    rcases List.mem_append.mp hc with hc | hc
    · exact hold c hc
    · exact List.mem_singleton.mp hc ▸ hnew
  cases hstep with
  | create hfree => exact hcalls
  | copy hheld => exact hcalls
  | release hheld => exact hcalls
  | getThis hcur => exact hcalls
  | schedule hheld =>
    rw [calls_enqueue]
    exact hcalls
  | reset hw => exact hcalls
  | take hw hscan => exact hcalls
  | takeNone hw hscan => exact hcalls
  | startFiber hw hft hf hended =>
    exact hmore hcalls (Call.legal_swapIn (h.not_exec (by simp [Worker.current, hw]) hf) hended)
  | @startCb w fresh f e cb fiber hw hcb hcbf hf =>
    refine hmore (hmore hcalls ?_) (Or.inl rfl)
    have hsp := h.spare_fiber hcbf hf
    rw [hw] at hsp
    rcases hsp.2 with hst | hst | hst
    · rw [hst]
      rfl
    · -- no body is running
      exact absurd hst (h.not_exec (by simp [Worker.current, hw]) hf)
    · rw [hst]
      rfl
  | startNew hw hcb hcbf hfree => exact hmore hcalls (Or.inl rfl)
  | stale hw hcb hstale => exact hcalls
  | fiberReady hw hft hf hleave => exact hcalls
  | fiberHold hw hft hf hleave => exact hcalls
  | fiberEnded hw hft hf hleave hended => exact hcalls
  | cbReady hw hcbf hf hleave => exact hcalls
  | cbHold hw hcbf hf hleave => exact hcalls
  | @cbEnded w f e thread fiber outcome hw hcbf hf hleave hended =>
    refine hmore hcalls ?_
    cases outcome with
    | returns => rfl
    | throws => rfl
    | yieldToHold => cases hended
    | ready => cases hended
  | requeueFiber hw =>
    show ∀ call ∈ (s.enqueue _).calls, _
    rw [calls_enqueue]
    exact hcalls
  | requeueCb hw =>
    show ∀ call ∈ (s.enqueue _).calls, _
    rw [calls_enqueue]
    exact hcalls
  | exit hw hidle => exact hcalls
  | idle hw hterm =>
    refine hmore hcalls ?_
    rcases hidle.state with hwk | hst | hst | hst
    · rw [hw] at hwk
      cases hwk
    · exact Or.inl hst
    · exact Or.inr (Or.inl hst)
    · exact absurd hst hterm
  | idleReturn hw => exact hcalls

/-! ## Runs -/

omit [DecidableEq F] in
/-- A fiber to which nobody refers has not started, has returned, or has been reset. -/
theorem Alive.destructible (h : Alive s) (hnot : ¬ Referenced s f) (hf : s.heap f = some fiber) :
    fiber.state.destructible = true := by
  have hstack : ¬ OnStack fiber := fun hon => hnot (Or.inr ⟨fiber, hf, hon⟩)
  cases hst : fiber.state with
  | INIT => rfl
  | TERM => rfl
  | HOLD => exact absurd (Or.inr (Or.inl hst)) hstack
  | EXEC => exact absurd (Or.inl hst) hstack
  | READY => exact absurd (Or.inr (Or.inr hst)) hstack
  | EXCEPT =>
    rcases h.thrown f fiber hf hst with hheld | hcbf
    · exact absurd (Or.inl (refers_of_held hheld)) hnot
    · exact absurd (Or.inl (refers_of_cb_fiber hcbf)) hnot

/-- In a run of one worker whose steps are all `Kept`, whatever the tasks and the outcomes of their
bodies, every step obeys the law: so does the step after any prefix of the run. -/
theorem lifecycle_law {as : List (Action Unit F C)}
    (hrun : Run (Guarded Kept (ofFun (step tid))) State.new as s)
    (hstep : Guarded Kept (ofFun (step tid)) s a s') : LifecycleLaw s s' := by
  obtain ⟨halive, hidle, hcalls⟩ :
      Alive s' ∧ IdleFiber (s'.worker ()) ∧ ∀ call ∈ s'.calls, call.Legal := by
    refine (hrun.snoc hstep).invariant (I := fun s : State Unit F C =>
      Alive s ∧ IdleFiber (s.worker ()) ∧ ∀ call ∈ s.calls, call.Legal) ?_ ?_
    · exact ⟨alive_new, ⟨Or.inr (Or.inl rfl), nofun⟩, nofun⟩
    · rintro s a s' ⟨halive, hidle, hcalls⟩ ⟨hkept, hst⟩
      have hcase := stepCase_of_step hst
      exact ⟨halive.step hkept hcase, hidle.step hcase, halive.calls hidle hcalls hcase⟩
  refine ⟨hcalls, fun f fiber _ hnot hf => halive.destructible hnot hf, fun hexited => ?_⟩
  rw [hidle.exited hexited]
  rfl

/-- The creator of a fiber keeps its reference when the body throws, and `ft.reset()` does not drop
the fiber. -/
theorem lifecycle_law_example : ∃ (as : List (Action Unit ℕ String)) (s s' : State Unit ℕ String),
    Run (Guarded Kept (ofFun (step fun _ => 1))) State.new as s ∧
      Guarded Kept (ofFun (step fun _ => 1)) s (.reset ()) s' ∧
      s.heap 7 = some { state := .EXCEPT, cb := some "throws" } ∧ LifecycleLaw s s' := by
  obtain ⟨s, hexec, hft, hheld, s₁, hthrow, s₂, hreset, hheap⟩ :
      ∃ s, exec (step fun _ => 1) (State.new : State Unit ℕ String)
        [.create 7 "throws", .schedule (.ofFiber (some 7) (-1)), .reset (), .dequeue (),
          .start () 0] = some s ∧ (s.worker ()).ft.fiber = some 7 ∧ s.held 7 = 1 ∧
      ∃ s₁, step (fun _ => 1) s (.finish () .throws) = some s₁ ∧
      ∃ s₂, step (fun _ => 1) s₁ (.reset ()) = some s₂ ∧
        s₁.heap 7 = some { state := .EXCEPT, cb := some "throws" } :=
    ⟨_, rfl, rfl, rfl, _, rfl, _, rfl, rfl⟩
  have hkept : Kept s (.finish () .throws) := by
    intro e f _ hf
    rw [hft] at hf
    cases hf
    exact Or.inl (by rw [hheld]; decide)
  have hrun := ((Run.of_exec hexec).guard (C := Kept) (by simp [Kept])).snoc ⟨hkept, hthrow⟩
  have hstep : Guarded Kept (ofFun (step fun _ => 1)) s₁ (.reset ()) s₂ := ⟨trivial, hreset⟩
  exact ⟨_, s₁, s₂, hrun, hstep, hheap, lifecycle_law hrun hstep⟩

/-- The law fails when the body of a fiber task throws and nobody else holds its fiber: `ft.reset()`
drops the last reference to a fiber in `EXCEPT`. -/
theorem not_lifecycleLaw_throws : ∃ as s s',
    Run (ofFun (step fun _ => 1)) (State.new : State Unit ℕ String) as s ∧
      step (fun _ => 1) s (.reset ()) = some s' ∧ ¬ LifecycleLaw s s' := by
  have hexec : exec (step fun _ => 1) (State.new : State Unit ℕ String)
      [.create 7 "throws", .schedule (.ofFiber (some 7) (-1)), .release 7, .reset (), .dequeue (),
        .start () 0, .finish () .throws] = some _ := rfl
  refine ⟨_, _, _, Run.of_exec hexec, rfl, fun hlaw => ?_⟩
  have hdead := hlaw.dropped 7 { state := .EXCEPT, cb := some "throws" }
    (Or.inl (refers_of_ft (w := ()) rfl)) ?_ rfl
  · cases hdead
  · rintro ((hheld | ⟨e, he, -⟩ | ⟨w, hft | hcbf⟩) | ⟨fiber, hf, hon⟩)
    · exact absurd hheld (by decide)
    · cases he
    · cases hft
    · cases hcbf
    · cases hf
      rcases hon with hst | hst | hst <;> cases hst

end Sylar.Scheduler
