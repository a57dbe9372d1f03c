import Sylar.Foundation.Run
import Sylar.Scheduler.Handover

/-!
# Timely wake-ups make the handover safe

* `Unsaved` — whatever the wake-ups do, a fiber whose context is not saved is being executed;
* `Exclusive` — two workers never get hold of a fiber that is not dead, whether from the queue, in
  `ft` or in `cb_fiber`: kept by every step whose wake-up is `Timely`;
* `handover_law` — in a run whose wake-ups are all `Timely`, every step obeys `StepLaw`;
* `not_stepLaw_early_wakeup` — a wake-up that fires between setting `HOLD` and saving the context
  breaks both parts of the law.
-/

namespace Sylar.Scheduler.Handover

open Transition

variable {W F C : Type*} [DecidableEq W] [DecidableEq F]

/-! ## Saved contexts -/

/-- A fiber whose context is not saved is being executed. -/
def Unsaved (s : State W F C) : Prop := ∀ f, s.saved f = false → ∃ w, (s.worker w).Executing f

variable {tid : W → ℤ} {s s' : State W F C} {a : Action W F C} {w : W} {f : F}
  {wk : Worker F C} {stage : Stage} {fibers : F → Option (C × ℕ)}

omit [DecidableEq W] [DecidableEq F] in
theorem unsaved_new : Unsaved (State.new fibers : State W F C) := by
  intro f hf
  cases hf

omit [DecidableEq F] in
/-- A worker changes, and executes what it executed before unless that is saved now. -/
theorem Unsaved.move (h : Unsaved s) (hworker : s'.worker = Function.update s.worker w wk)
    (hsaved : ∀ f, s'.saved f = false →
      wk.Executing f ∨ s.saved f = false ∧ ¬ (s.worker w).Executing f) : Unsaved s' := by
  intro f hf
  rcases hsaved f hf with hwk | ⟨hold, hnot⟩
  · exact ⟨w, by rwa [hworker, Function.update_self]⟩
  · obtain ⟨v, hv⟩ := h f hold
    have hne : v ≠ w := by
      rintro rfl
      exact hnot hv
    exact ⟨v, by rwa [hworker, Function.update_of_ne hne]⟩

/-- A worker swaps in the fiber `f`. -/
theorem Unsaved.swapIn (h : Unsaved s) (hw : (s.worker w).current = none)
    (hworker : s'.worker = Function.update s.worker w wk)
    (hsaved : s'.saved = Function.update s.saved f false)
    (hcur : wk.current = some (f, .running)) : Unsaved s' := by
  refine h.move hworker fun g hg => ?_
  by_cases heq : g = f
  · exact Or.inl ((Worker.executing_iff hcur).mpr ⟨heq, by decide⟩)
  · rw [hsaved, Function.update_of_ne heq] at hg
    exact Or.inr ⟨hg, Worker.not_executing hw⟩

omit [DecidableEq F] in
/-- The body that a worker has swapped in gets further, and is not left yet. -/
theorem Unsaved.setStage {stage' : Stage} (h : Unsaved s)
    (hcur : (s.worker w).current = some (f, stage))
    (hworker : s'.worker = Function.update s.worker w ((s.worker w).setStage stage'))
    (hsaved : s'.saved = s.saved) (hstage : stage' ≠ .returned) : Unsaved s' := by
  refine h.move hworker fun g hg => ?_
  rw [hsaved] at hg
  by_cases heq : g = f
  · exact Or.inl ((Worker.executing_iff (Worker.current_setStage hcur stage')).mpr ⟨heq, hstage⟩)
  · exact Or.inr ⟨hg, fun hex => heq ((Worker.executing_iff hcur).mp hex).1⟩

/-- Whatever the wake-ups do, a fiber whose context is not saved is being executed. -/
theorem Unsaved.step (h : Unsaved s) (hstep : Step tid s a s') : Unsaved s' := by
  cases hstep with
  | fire thread hf hwakeups => exact h
  | schedule cb thread => exact h
  | register hcur => exact h
  | dequeue hw hscan =>
    exact h.move rfl fun g hg => Or.inr ⟨hg, Worker.not_executing (by simp [Worker.current, hw])⟩
  | stale hw hstale hcb =>
    exact h.move rfl fun g hg => Or.inr ⟨hg, Worker.not_executing (by simp [Worker.current, hw])⟩
  | startFiber hw hft hf hended hassert =>
    exact h.swapIn (by simp [Worker.current, hw]) rfl rfl (by simp [Worker.current, hft])
  | startCb hw hstale hcb hcbf hf hassert =>
    exact h.swapIn (by simp [Worker.current, hw]) rfl rfl (by simp [Worker.current, hcbf])
  | startNew hw hstale hcb hcbf hfree =>
    exact h.swapIn (by simp [Worker.current, hw]) rfl rfl rfl
  | setHold hcur hf hbody hassert => exact h.setStage hcur rfl rfl (by decide)
  | finish hcur hf hbody hended => exact h.setStage hcur rfl rfl (by decide)
  | @leave w f stage hcur hstage =>
    refine h.move rfl fun g hg => Or.inr ?_
    -- the fiber that the worker leaves is saved
    have hne : g ≠ f := by
      rintro rfl
      simp [State.setWorker, State.setSaved] at hg
    refine ⟨by simpa [State.setWorker, State.setSaved, hne] using hg, fun hex => ?_⟩
    exact hne ((Worker.executing_iff hcur).mp hex).1
  | settleFiber hw hft hf hended =>
    exact h.move rfl fun g hg => Or.inr ⟨hg, Worker.not_executing_returned (Or.inl hw)⟩
  | settleEnded hw hft hf hended =>
    exact h.move rfl fun g hg => Or.inr ⟨hg, Worker.not_executing_returned (Or.inl hw)⟩
  | settleCb hw hcbf hf hended =>
    exact h.move rfl fun g hg => Or.inr ⟨hg, Worker.not_executing_returned (Or.inr hw)⟩
  | settleCbEnded hw hcbf hf hended =>
    exact h.move rfl fun g hg => Or.inr ⟨hg, Worker.not_executing_returned (Or.inr hw)⟩

/-! ## Dead fibers -/

omit [DecidableEq W] [DecidableEq F] in
/-- A fiber of which nothing changes stays dead. -/
theorem Dead.of_eq (h : Dead s f) (hheap : s'.heap f = s.heap f)
    (hcbf : ∀ v, (s'.worker v).cb_fiber = some f → (s.worker v).cb_fiber = some f) :
    Dead s' f := by
  obtain ⟨⟨fiber, hf, hended⟩, hnot⟩ := h
  exact ⟨⟨fiber, hheap.trans hf, hended⟩, fun v hv => hnot v (hcbf v hv)⟩

omit [DecidableEq W] [DecidableEq F] in
/-- A dead fiber is none that has not ended. -/
theorem Dead.ne (h : Dead s f) {g : F} {fiber : Fiber C} (hg : s.heap g = some fiber)
    (hended : fiber.ended = false) : f ≠ g := by
  rintro rfl
  obtain ⟨⟨fiber', hf, hended'⟩, -⟩ := h
  rw [hg] at hf
  cases hf
  rw [hended] at hended'
  cases hended'

/-- A dead fiber stays dead. -/
theorem Dead.step (h : Dead s f) (hstep : Step tid s a s') : Dead s' f := by
  -- a worker that keeps its `cb_fiber`, or gives it up
  have hkeep : ∀ {w wk}, (wk.cb_fiber = some f → (s.worker w).cb_fiber = some f) →
      ∀ v, (Function.update s.worker w wk v).cb_fiber = some f →
        (s.worker v).cb_fiber = some f := by
    intro w wk hwk v hv
    by_cases heq : v = w
    · subst heq
      rw [Function.update_self] at hv
      exact hwk hv
    · rwa [Function.update_of_ne heq] at hv
  cases hstep with
  | fire thread hf hwakeups => exact h
  | schedule cb thread => exact h
  | register hcur => exact h
  | dequeue hw hscan => exact h.of_eq rfl (hkeep id)
  | stale hw hstale hcb => exact h.of_eq rfl (hkeep id)
  | startFiber hw hft hf hended hassert =>
    exact h.of_eq (Function.update_of_ne (h.ne hf hended) _ _) (hkeep id)
  | @startCb w fresh g cb fiber hw hstale hcb hcbf hf hassert =>
    have hne : f ≠ g := by
      rintro rfl
      exact h.2 w hcbf
    exact h.of_eq (Function.update_of_ne hne _ _) (hkeep id)
  | @startNew w fresh cb hw hstale hcb hcbf hfree =>
    have hne : f ≠ fresh := by
      rintro rfl
      obtain ⟨⟨fiber, hf, -⟩, -⟩ := h
      rw [hfree] at hf
      cases hf
    exact h.of_eq (Function.update_of_ne hne _ _)
      (hkeep fun hnew => absurd (Option.some.inj hnew).symm hne)
  | @setHold w g fiber hcur hf hbody hassert =>
    have hended : fiber.ended = false := by simp [Fiber.ended, hassert]
    exact h.of_eq (Function.update_of_ne (h.ne hf hended) _ _) (hkeep id)
  | @finish w g fiber outcome hcur hf hbody hended =>
    by_cases heq : f = g
    · subst heq
      have hcbf : ∀ v, (Function.update s.worker w ((s.worker w).setStage .ended) v).cb_fiber =
          some f → (s.worker v).cb_fiber = some f := hkeep id
      exact ⟨⟨_, Function.update_self _ _ _, hended⟩, fun v hv => h.2 v (hcbf v hv)⟩
    · exact h.of_eq (Function.update_of_ne heq _ _) (hkeep id)
  | leave hcur hstage => exact h.of_eq rfl (hkeep id)
  | settleFiber hw hft hf hended =>
    exact h.of_eq (Function.update_of_ne (h.ne hf hended) _ _) (hkeep id)
  | settleEnded hw hft hf hended => exact h.of_eq rfl (hkeep id)
  | settleCb hw hcbf hf hended =>
    exact h.of_eq (Function.update_of_ne (h.ne hf hended) _ _) (hkeep nofun)
  | @settleCbEnded w g fiber hw hcbf hf hended =>
    have hne : f ≠ g := by
      rintro rfl
      exact h.2 w hcbf
    exact h.of_eq (Function.update_of_ne hne _ _) (hkeep id)

/-! ## Exclusive fibers -/

/-- Two workers never get hold of a fiber that is not dead. -/
structure Exclusive (tid : W → ℤ) (s : State W F C) : Prop where
  queued : ∀ e ∈ s.queue, ∀ f, e.task.fiber = some f → s.heap f ≠ none
  had : ∀ w f, (s.worker w).Has f → s.heap f ≠ none
  /-- Two entries are offered to one worker at most. -/
  entries : s.queue.Pairwise fun e e' => ∀ f w w', ¬ Dead s f → Offers tid e f w →
    Offers tid e' f w' → w = w'
  /-- An entry of a fiber that a worker has is offered to no other worker. -/
  entry : ∀ e ∈ s.queue, ∀ f w w', ¬ Dead s f → Offers tid e f w → (s.worker w').Has f → w = w'
  workers : ∀ f w w', ¬ Dead s f → (s.worker w).Has f → (s.worker w').Has f → w = w'

omit [DecidableEq W] [DecidableEq F] in
theorem exclusive_new : Exclusive tid (State.new fibers : State W F C) where
  queued := by simp [State.new]
  had := by simp [State.new, Worker.new, Worker.Has, FiberTask.empty]
  entries := List.Pairwise.nil
  entry := by simp [State.new]
  workers := by simp [State.new, Worker.new, Worker.Has, FiberTask.empty]

omit [DecidableEq F] in
/-- A worker gets hold of no other fibers than a new one. -/
theorem Exclusive.move (h : Exclusive tid s) (hqueue : s'.queue = s.queue)
    (hworker : s'.worker = Function.update s.worker w wk)
    (hhas : ∀ f, wk.Has f → (s.worker w).Has f ∨ s.heap f = none ∧ s'.heap f ≠ none)
    (hheap : ∀ f, s.heap f ≠ none → s'.heap f ≠ none)
    (hdead : ∀ f, Dead s f → Dead s' f) : Exclusive tid s' := by
  have hlive : ∀ {f}, ¬ Dead s' f → ¬ Dead s f := fun hf hold => hf (hdead _ hold)
  have hback : ∀ v f, (s'.worker v).Has f →
      (s.worker v).Has f ∨ v = w ∧ s.heap f = none ∧ s'.heap f ≠ none := by
    intro v f hv
    rw [hworker] at hv
    by_cases heq : v = w
    · rw [heq, Function.update_self] at hv
      rw [heq]
      exact (hhas f hv).imp_right fun hnew => ⟨rfl, hnew⟩
    · rw [Function.update_of_ne heq] at hv
      exact Or.inl hv
  constructor
  · rw [hqueue]
    exact fun e he f hf => hheap f (h.queued e he f hf)
  · intro v f hv
    rcases hback v f hv with hold | ⟨-, -, hnew⟩
    · exact hheap f (h.had v f hold)
    · exact hnew
  · rw [hqueue]
    exact h.entries.imp fun hpair f v v' hf => hpair f v v' (hlive hf)
  · rw [hqueue]
    intro e he f v v' hf hv hv'
    rcases hback v' f hv' with hold | ⟨-, hfree, -⟩
    · exact h.entry e he f v v' (hlive hf) hv hold
    · -- nobody has had anything to do with a new fiber
      exact absurd hfree (h.queued e he f hv.1)
  · intro f v v' hf hv hv'
    rcases hback v f hv with hold | ⟨rfl, hfree, -⟩
    · rcases hback v' f hv' with hold' | ⟨-, hfree, -⟩
      · exact h.workers f v v' (hlive hf) hold hold'
      · exact absurd hfree (h.had v f hold)
    · rcases hback v' f hv' with hold' | ⟨rfl, -, -⟩
      · exact absurd hfree (h.had v' f hold')
      · rfl

omit [DecidableEq W] [DecidableEq F] in
/-- An entry is added that cannot bring a fiber to a second worker. -/
theorem Exclusive.enqueue {task : FiberTask F C} (h : Exclusive tid s)
    (hne : task.nonempty = true) (hheap : ∀ f, task.fiber = some f → s.heap f ≠ none)
    (htimely : ∀ f w w', task.fiber = some f → ¬ Dead s f → MayTake task.thread_id (tid w) →
      s.Due tid f w' → w = w') : Exclusive tid (s.enqueue task hne) := by
  constructor
  · intro e he g hg
    rcases List.mem_append.mp he with he | he
    · exact h.queued e he g hg
    · cases List.mem_singleton.mp he
      exact hheap g hg
  · exact h.had
  · refine List.pairwise_append.mpr ⟨h.entries, List.pairwise_singleton _ _, ?_⟩
    rintro e he e' he' g v v' hg hv ⟨hg', htake⟩
    cases List.mem_singleton.mp he'
    exact (htimely g v' v hg' hg htake (Or.inr ⟨e, he, hv⟩)).symm
  · intro e he g v v' hg hv hv'
    rcases List.mem_append.mp he with he | he
    · exact h.entry e he g v v' hg hv hv'
    · cases List.mem_singleton.mp he
      exact htimely g v v' hv.1 hg hv.2 (Or.inl hv')
  · exact h.workers

omit [DecidableEq F] in
/-- A worker takes an entry. -/
theorem Exclusive.dequeue {e : Entry F C} {pre post : List (Entry F C)} (h : Exclusive tid s)
    (hq : s.queue = pre ++ e :: post) (htake : MayTake e.task.thread_id (tid w)) :
    Exclusive tid (({ s with queue := pre ++ post } : State W F C).setWorker w
      { s.worker w with phase := .taken, ft := e.task }) := by
  set s' := ({ s with queue := pre ++ post } : State W F C).setWorker w
    { s.worker w with phase := .taken, ft := e.task } with hs'
  have hentries := h.entries
  rw [hq] at hentries
  obtain ⟨hpre, hpost, hcross⟩ := List.pairwise_append.mp hentries
  have hmem : ∀ e' ∈ pre ++ post, e' ∈ s.queue := by
    intro e' he'
    rw [hq]
    exact ((List.sublist_cons_self e post).append_left pre).subset he'
  have hin : e ∈ s.queue := by simp [hq]
  have hlive : ∀ {f}, ¬ Dead s' f → ¬ Dead s f := by
    refine fun hf hold => hf (hold.of_eq rfl fun v hv => ?_)
    by_cases heq : v = w
    · subst heq
      simpa [hs', State.setWorker] using hv
    · simpa [hs', State.setWorker, heq] using hv
  -- `w` has what it had in `cb_fiber`, and the fiber of the entry
  have hback : ∀ v f, (s'.worker v).Has f → v = w ∧ e.task.fiber = some f ∨ (s.worker v).Has f := by
    intro v f hv
    by_cases heq : v = w
    · subst heq
      rcases hv with hft | hcbf
      · exact Or.inl ⟨rfl, by simpa [hs', State.setWorker] using hft⟩
      · exact Or.inr (Or.inr (by simpa [hs', State.setWorker] using hcbf))
    · exact Or.inr (by simpa [hs', State.setWorker, heq] using hv)
  constructor
  · exact fun e' he' => h.queued e' (hmem e' he')
  · intro v f hv
    rcases hback v f hv with ⟨-, hf⟩ | hold
    · exact h.queued e hin f hf
    · exact h.had v f hold
  · refine List.pairwise_append.mpr ⟨hpre.imp ?_, hpost.of_cons.imp ?_, fun e' he' e'' he'' => ?_⟩
    · exact fun hpair f v v' hf => hpair f v v' (hlive hf)
    · exact fun hpair f v v' hf => hpair f v v' (hlive hf)
    · exact fun f v v' hf => hcross e' he' e'' (List.mem_cons_of_mem _ he'') f v v' (hlive hf)
  · intro e' he' f v v' hf hv hv'
    rcases hback v' f hv' with ⟨rfl, hfiber⟩ | hold
    · -- another entry of the fiber that has been taken is offered to the same worker
      rcases List.mem_append.mp he' with hmem' | hmem'
      · exact hcross e' hmem' e List.mem_cons_self f v v' (hlive hf) hv ⟨hfiber, htake⟩
      · exact (List.rel_of_pairwise_cons hpost hmem' f v' v (hlive hf) ⟨hfiber, htake⟩ hv).symm
    · exact h.entry e' (hmem e' he') f v v' (hlive hf) hv hold
  · have hheld : ∀ v f, e.task.fiber = some f → ¬ Dead s f → (s.worker v).Has f → w = v :=
      fun v f hfiber hf hv => h.entry e hin f w v hf ⟨hfiber, htake⟩ hv
    intro f v v' hf hv hv'
    rcases hback v f hv with ⟨rfl, hfiber⟩ | hold
    · rcases hback v' f hv' with ⟨rfl, -⟩ | hold'
      · rfl
      · exact hheld v' f hfiber (hlive hf) hold'
    · rcases hback v' f hv' with ⟨rfl, hfiber⟩ | hold'
      · exact (hheld v f hfiber (hlive hf) hold).symm
      · exact h.workers f v v' (hlive hf) hold hold'

omit [DecidableEq W] in
/-- Storing a fiber leaves all fibers on the heap. -/
theorem heap_setFiber {g : F} {fiber : Fiber C} (hf : s.heap f ≠ none) :
    (s.setFiber g fiber).heap f ≠ none := by
  simp only [State.setFiber, Function.update_apply]
  split
  · nofun
  · exact hf

/-- A timely step keeps the fibers exclusive. -/
theorem Exclusive.step (h : Exclusive tid s) (htimely : Timely tid s a)
    (hstep : Step tid s a s') : Exclusive tid s' := by
  have hdead : ∀ f, Dead s f → Dead s' f := fun f hf => hf.step hstep
  cases hstep with
  | @fire f fiber thread hf hwakeups =>
    -- only the new entry is a reason to ask whether the step is timely
    have hset : Exclusive tid (s.setWakeups f (s.wakeups f - 1)) :=
      ⟨h.queued, h.had, h.entries, h.entry, h.workers⟩
    refine hset.enqueue rfl ?_ ?_
    · rintro g hg
      cases hg
      show s.heap f ≠ none
      rw [hf]
      nofun
    · rintro g v v' hg hlive htake hdue
      cases hg
      exact htimely hlive v v' htake hdue
  | schedule cb thread => exact h.enqueue rfl nofun nofun
  | register hcur => exact ⟨h.queued, h.had, h.entries, h.entry, h.workers⟩
  | dequeue hw hscan =>
    obtain ⟨pre, post, hq, rfl, helig, -⟩ := scan_eq_some hscan
    exact h.dequeue hq helig.1
  | stale hw hstale hcb =>
    exact h.move rfl rfl (fun f hf => Or.inl (hf.imp_left nofun)) (fun _ => id) hdead
  | startFiber hw hft hf hended hassert =>
    exact h.move rfl rfl (fun f hf => Or.inl hf) (fun _ => heap_setFiber) hdead
  | startCb hw hstale hcb hcbf hf hassert =>
    exact h.move rfl rfl (fun f hf => Or.inl (hf.imp_left nofun)) (fun _ => heap_setFiber) hdead
  | @startNew w fresh cb hw hstale hcb hcbf hfree =>
    refine h.move rfl rfl (fun f hf => Or.inr ?_) (fun _ => heap_setFiber) hdead
    rcases hf with hft | hnew
    · cases hft
    · cases hnew
      exact ⟨hfree, by simp [State.setWorker, State.setWakeups, State.setSaved, State.setFiber]⟩
  | setHold hcur hf hbody hassert =>
    exact h.move rfl rfl (fun f hf => Or.inl hf) (fun _ => heap_setFiber) hdead
  | finish hcur hf hbody hended =>
    exact h.move rfl rfl (fun f hf => Or.inl hf) (fun _ => heap_setFiber) hdead
  | leave hcur hstage => exact h.move rfl rfl (fun f hf => Or.inl hf) (fun _ => id) hdead
  | settleFiber hw hft hf hended =>
    exact h.move rfl rfl (fun f hf => Or.inl (hf.imp_left nofun)) (fun _ => heap_setFiber) hdead
  | settleEnded hw hft hf hended =>
    exact h.move rfl rfl (fun f hf => Or.inl (hf.imp_left nofun)) (fun _ => id) hdead
  | settleCb hw hcbf hf hended =>
    exact h.move rfl rfl (fun f hf => Or.inl (hf.imp_right nofun)) (fun _ => heap_setFiber) hdead
  | settleCbEnded hw hcbf hf hended =>
    exact h.move rfl rfl (fun f hf => Or.inl hf) (fun _ => heap_setFiber) hdead

omit [DecidableEq W] [DecidableEq F] in
/-- No other worker is executing a fiber that a worker has, unless it is dead. -/
theorem Exclusive.not_executing (h : Exclusive tid s) (hf : ¬ Dead s f) (hw : (s.worker w).Has f)
    {v : W} (hne : v ≠ w) : ¬ (s.worker v).Executing f :=
  fun hv => hne (h.workers f v w hf hv.has hw)

/-- Where fibers are exclusive, a step obeys the law. -/
theorem Exclusive.stepLaw (h : Exclusive tid s) (hunsaved : Unsaved s)
    (hstep : Step tid s a s') : StepLaw s a s' := by
  -- the context of a fiber that a worker has and is not executing is saved
  have hsaved : ∀ {w f}, ¬ Dead s f → (s.worker w).Has f → (s.worker w).current = none →
      s.saved f = true := by
    intro w f hlive hhas hcur
    by_contra hnot
    obtain ⟨v, hv⟩ := hunsaved f (by simpa using hnot)
    by_cases heq : v = w
    · exact Worker.not_executing hcur (heq ▸ hv)
    · exact h.not_executing hlive hhas heq hv
  have hended : ∀ {f fiber}, s.heap f = some fiber → fiber.ended = false → ¬ Dead s f :=
    fun hf hnot hdead => hdead.ne hf hnot rfl
  cases hstep with
  | @startFiber w fresh f fiber hw hft hf hnot hassert =>
    intro g stage hcur
    obtain ⟨rfl, -⟩ : f = g ∧ _ := by
      simpa [State.setWorker, Worker.current, hft] using hcur
    exact hsaved (hended hf hnot) (Or.inl hft) (by simp [Worker.current, hw])
  | @startCb w fresh f cb fiber hw hstale hcb hcbf hf hassert =>
    intro g stage hcur
    obtain ⟨rfl, -⟩ : f = g ∧ _ := by
      simpa [State.setWorker, Worker.current, hcbf] using hcur
    exact hsaved (fun hdead => hdead.2 w hcbf) (Or.inr hcbf) (by simp [Worker.current, hw])
  | @startNew w fresh cb hw hstale hcb hcbf hfree =>
    intro g stage hcur
    obtain ⟨rfl, -⟩ : fresh = g ∧ _ := by
      simpa [State.setWorker, Worker.current] using hcur
    -- the new fiber has never run
    by_contra hnot
    obtain ⟨v, hv⟩ := hunsaved fresh (by simpa using hnot)
    exact h.had v fresh hv.has hfree
  | stale hw hstale hcb =>
    intro g stage hcur
    simp [State.setWorker, Worker.current] at hcur
  | settleFiber hw hft hf hnot =>
    intro g stage fiber hcur hg hlive v hne
    exact h.not_executing (hended hg hlive) (Worker.has_of_current hcur) hne
  | settleEnded hw hft hf hnot =>
    intro g stage fiber hcur hg hlive v hne
    exact h.not_executing (hended hg hlive) (Worker.has_of_current hcur) hne
  | settleCb hw hcbf hf hnot =>
    intro g stage fiber hcur hg hlive v hne
    exact h.not_executing (hended hg hlive) (Worker.has_of_current hcur) hne
  | settleCbEnded hw hcbf hf hnot =>
    intro g stage fiber hcur hg hlive v hne
    exact h.not_executing (hended hg hlive) (Worker.has_of_current hcur) hne
  | _ => trivial

/-! ## The law -/

/-- In a run whose wake-ups are all timely, for any number of workers and any order of the steps,
the next step obeys the law: so does the step after any prefix of the run. -/
theorem handover_law {as : List (Action W F C)}
    (hrun : Run (Guarded (Timely tid) (Step tid)) (State.new fibers) as s)
    (hstep : Step tid s a s') : StepLaw s a s' := by
  have hunsaved : Unsaved s := hrun.of_guarded.invariant unsaved_new
    fun _ _ _ hold hst => hold.step hst
  have hexclusive : Exclusive tid s := hrun.invariant exclusive_new
    fun _ _ _ hold hst => hold.step hst.1 hst.2
  exact hexclusive.stepLaw hunsaved hstep

/-- The threads of two workers. -/
def twoThreads (w : Bool) : ℤ := if w then 2 else 1

omit [DecidableEq W] [DecidableEq F] in
/-- A wake-up is timely when no worker has its fiber and there is no entry of it. -/
theorem timely_of_free {thread : ℤ} (hworker : ∀ w, ¬ (s.worker w).Has f)
    (hqueue : ∀ e ∈ s.queue, e.task.fiber ≠ some f) : Timely tid s (.fire f thread) := by
  rintro - w w' - (hv | ⟨e, he, hf, -⟩)
  · exact absurd hv (hworker w')
  · exact absurd hf (hqueue e he)

/-- A fiber with a body, which its creator will schedule once. -/
def oneFiber : State Bool Unit String := .new fun _ => some ("waits", 1)

/-- The wake-up fires when the first worker has set `HOLD`, and the other worker resumes the
fiber. -/
theorem handover_law_example :
    ∃ (as : List (Action Bool Unit String)) (s s' : State Bool Unit String),
    Run (Guarded (Timely twoThreads) (Step twoThreads)) oneFiber as s ∧
      s.heap () = some ⟨.HOLD, some "waits"⟩ ∧ Step twoThreads s (.start true ()) s' ∧
      StepLaw s (.start true ()) s' := by
  have hfire : Guarded (Timely twoThreads) (Step twoThreads) oneFiber (.fire () (-1)) _ :=
    ⟨timely_of_free (by decide) (List.forall_mem_nil _), .fire (-1) rfl (by decide)⟩
  have hrun := (Run.single hfire).snoc (show Guarded _ _ _ (.dequeue false) _ from
    ⟨trivial, .dequeue rfl rfl⟩)
  have hrun := hrun.snoc (show Guarded _ _ _ (.start false ()) _ from
    ⟨trivial, .startFiber rfl rfl rfl rfl (by decide)⟩)
  have hrun := hrun.snoc (show Guarded _ _ _ (.register false) _ from ⟨trivial, .register rfl⟩)
  have hrun := hrun.snoc (show Guarded _ _ _ (.setHold false) _ from
    ⟨trivial, .setHold rfl rfl rfl rfl⟩)
  have hrun := hrun.snoc (show Guarded _ _ _ (.leave false) _ from
    ⟨trivial, .leave rfl (Or.inl rfl)⟩)
  have hrun := hrun.snoc (show Guarded _ _ _ (.settle false) _ from
    ⟨trivial, .settleFiber rfl rfl rfl rfl⟩)
  -- nobody has the fiber any more
  have hrun := hrun.snoc (show Guarded _ _ _ (.fire () (-1)) _ from
    ⟨timely_of_free (by decide) (List.forall_mem_nil _), .fire (-1) rfl (by decide)⟩)
  have hrun := hrun.snoc (show Guarded _ _ _ (.dequeue true) _ from
    ⟨trivial, .dequeue rfl rfl⟩)
  exact ⟨_, _, _, hrun, rfl, .startFiber rfl rfl rfl rfl (by decide),
    handover_law hrun (.startFiber rfl rfl rfl rfl (by decide))⟩

/-- The law fails when the wake-up fires right after `yieldToHold` has set `HOLD`: the other worker
takes the fiber and swaps it in before its context has been saved, and later the first worker sets
`HOLD` while the other one is executing the fiber. -/
theorem not_stepLaw_early_wakeup :
    (∃ (as : List (Action Bool Unit String)) (s s' : State Bool Unit String),
      Run (Step twoThreads) oneFiber as s ∧ Step twoThreads s (.start true ()) s' ∧
        ¬ StepLaw s (.start true ()) s') ∧
    ∃ (as : List (Action Bool Unit String)) (s s' : State Bool Unit String),
      Run (Step twoThreads) oneFiber as s ∧ Step twoThreads s (.settle false) s' ∧
        ¬ StepLaw s (.settle false) s' := by
  have hfire : Step twoThreads oneFiber (.fire () (-1)) _ := .fire (-1) rfl (by decide)
  have hrun := (Run.single hfire).snoc
    (show Step twoThreads _ (.dequeue false) _ from .dequeue rfl rfl)
  have hrun := hrun.snoc (show Step twoThreads _ (.start false ()) _ from
    .startFiber rfl rfl rfl rfl (by decide))
  have hrun := hrun.snoc (show Step twoThreads _ (.register false) _ from .register rfl)
  have hrun := hrun.snoc (show Step twoThreads _ (.setHold false) _ from
    .setHold rfl rfl rfl rfl)
  -- the wake-up fires before `leave false`
  have hrun := hrun.snoc (show Step twoThreads _ (.fire () (-1)) _ from
    .fire (-1) rfl (by decide))
  have hrun := hrun.snoc (show Step twoThreads _ (.dequeue true) _ from .dequeue rfl rfl)
  refine ⟨⟨_, _, _, hrun, .startFiber rfl rfl rfl rfl (by decide), fun hlaw => ?_⟩, ?_⟩
  · have hsaved := hlaw () .running rfl
    cases hsaved
  · have hrun := hrun.snoc (show Step twoThreads _ (.start true ()) _ from
      .startFiber rfl rfl rfl rfl (by decide))
    have hrun := hrun.snoc (show Step twoThreads _ (.leave false) _ from
      .leave rfl (Or.inl rfl))
    refine ⟨_, _, _, hrun, .settleFiber rfl rfl rfl rfl, fun hlaw => ?_⟩
    exact hlaw () .returned _ rfl rfl rfl true (by decide) ⟨.running, rfl, by decide⟩

end Sylar.Scheduler.Handover
