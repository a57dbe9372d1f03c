import Sylar.Foundation.Run
import Sylar.Timer.WellFormed
import Mathlib.Data.List.Nodup
import Mathlib.Algebra.GroupWithZero.Nat

/-!
# Timer delivery

`Step` performs `addTimer`, `Timer::cancel` or `listExpiredCb` atomically, at any clock reading;
`Event` records the arguments of the step and its result. In every state that a run reaches from
the empty manager, `DeliveryLaw` holds:

* `delivery` — `listExpiredCb` appends the callbacks of the pending timers that are due, each once
  and in the order of `m_next`;
* `oneShot`, `silent` — a one-shot timer is delivered at most once, and no timer is delivered after
  a `cancel` that returned `true`;
* `cancel_result`, `cancel_effect` — what `cancel` returns and what it removes;
* `recurring`, `next` — a recurring timer is pending until it is cancelled, and `m_next` is `m_ms`
  after the clock reading of its latest delivery.
-/

namespace Sylar

namespace TimerManager

variable {Addr Func : Type*} [LinearOrder Addr]

/-- An atomic step with its result. The callback of `addTimer` is not empty. -/
inductive Event (Addr Func : Type*)
  | addTimer (p : Addr) (ms : UInt64) (cb : Func) (recurring : Bool) (now : UInt64)
  | cancel (p : Addr) (result : Bool)
  | listExpiredCb (now : UInt64) (probe : Addr) (expired : List Addr)

/-- A new timer, and the probe of `listExpiredCb`, may lie at any address that is not in use;
`cancel` is called on a timer that exists. -/
inductive Step (m : TimerManager Addr Func) :
    Event Addr Func → TimerManager Addr Func → Prop
  | addTimer {p : Addr} (hfree : m.heap p = none) (ms : UInt64) (cb : Func) (recurring : Bool)
      (now : UInt64) :
      Step m (.addTimer p ms cb recurring now) (m.addTimer p ms cb recurring now).2
  | cancel {p : Addr} (hlive : m.Live p) : Step m (.cancel p (m.cancel p).1) (m.cancel p).2
  | listExpiredCb {probe : Addr} (hfree : m.heap probe = none) (now : UInt64)
      (cbs : List (Option Func)) :
      Step m (.listExpiredCb now probe (m.expired now probe)) (m.listExpiredCb now probe cbs).1

/-- The timer at `p` was cancelled by a call that returned `true`. -/
def Cancelled (ls : List (Event Addr Func)) (p : Addr) : Prop := .cancel p true ∈ ls

/-- The number of times a step delivers the timer at `p`. -/
def Event.deliveries (p : Addr) : Event Addr Func → ℕ
  | .addTimer .. => 0
  | .cancel .. => 0
  | .listExpiredCb _ _ expired => expired.count p

/-- The number of times the timer at `p` is delivered. -/
def deliveries (ls : List (Event Addr Func)) (p : Addr) : ℕ :=
  (ls.map (Event.deliveries p)).sum

/-- The clock reading of a step that schedules the timer at `p`, else `reading`. -/
def Event.scheduledAt (p : Addr) (reading : UInt64) : Event Addr Func → UInt64
  | .addTimer q _ _ _ now => if q = p then now else reading
  | .cancel .. => reading
  | .listExpiredCb now _ expired => if p ∈ expired then now else reading

/-- The clock reading of the latest step that scheduled the timer at `p`. -/
def scheduledAt (ls : List (Event Addr Func)) (p : Addr) : UInt64 :=
  ls.foldl (Event.scheduledAt p) 0

/-- `m_next` does not decrease along a list of timers. -/
def NextSorted (m : TimerManager Addr Func) (ps : List Addr) : Prop :=
  ps.Pairwise fun p q => ∀ t u, m.heap p = some t → m.heap q = some u → t.next ≤ u.next

/-- The delivery law in a state `m` reached by the steps `ls`. -/
structure DeliveryLaw (ls : List (Event Addr Func)) (m : TimerManager Addr Func) : Prop where
  delivery : ∀ now probe cbs, m.heap probe = none →
    (m.listExpiredCb now probe cbs).2 = cbs ++ (m.expired now probe).map m.callback ∧
      (∀ p, p ∈ m.expired now probe ↔ p ∈ m.timers ∧ m.due now p = true) ∧
      (m.expired now probe).Nodup ∧ m.NextSorted (m.expired now probe)
  /-- The callback delivered is the one given to `addTimer`. -/
  callback : ∀ p t, m.heap p = some t →
    ∃ cb now, .addTimer p t.ms cb t.recurring now ∈ ls ∧ (p ∈ m.timers → m.callback p = some cb)
  oneShot : ∀ p t, m.heap p = some t → t.recurring = false → deliveries ls p ≤ 1
  silent : ∀ p ls₁ ls₂, ls = ls₁ ++ .cancel p true :: ls₂ → deliveries ls₂ p = 0
  cancel_result : ∀ p t, m.heap p = some t →
    ((m.cancel p).1 = true ↔ ¬ Cancelled ls p ∧ (t.recurring = false → deliveries ls p = 0))
  cancel_effect : ∀ p, m.Live p →
    ((m.cancel p).1 = true → p ∈ m.timers ∧ (m.cancel p).2.timers = m.timers.erase p ∧
      ∀ q, q ≠ p → (m.cancel p).2.heap q = m.heap q) ∧
    ((m.cancel p).1 = false → (m.cancel p).2 = m)
  recurring : ∀ p t, m.heap p = some t → t.recurring = true →
    (p ∈ m.timers ↔ ¬ Cancelled ls p)
  next : ∀ p t, m.heap p = some t → t.recurring = true → t.next = scheduledAt ls p + t.ms

/-! ## What the state knows about the steps so far -/

variable {ls : List (Event Addr Func)} {m m' : TimerManager Addr Func} {e : Event Addr Func}
  {p : Addr}

/-- Deliveries are counted in two parts. -/
@[simp] theorem deliveries_append (ls ls' : List (Event Addr Func)) (p : Addr) :
    deliveries (ls ++ ls') p = deliveries ls p + deliveries ls' p := by
  simp [deliveries]

/-- A single action delivers what it does. -/
@[simp] theorem deliveries_singleton (e : Event Addr Func) (p : Addr) :
    deliveries [e] p = e.deliveries p := by
  simp [deliveries]

/-- The manager is well formed, and the fields of every timer tell what happened to it. -/
structure History (ls : List (Event Addr Func)) (m : TimerManager Addr Func) : Prop
    extends WF m where
  fresh : ∀ p, m.heap p = none → deliveries ls p = 0 ∧ ¬ Cancelled ls p
  cb_iff : ∀ p t, m.heap p = some t →
    (t.cb.isSome = true ↔ ¬ Cancelled ls p ∧ (t.recurring = false → deliveries ls p = 0))
  once : ∀ p t, m.heap p = some t → t.recurring = false → deliveries ls p ≤ 1
  origin : ∀ p t, m.heap p = some t →
    ∃ cb now, .addTimer p t.ms cb t.recurring now ∈ ls ∧ (t.cb = none ∨ t.cb = some cb)
  next : ∀ p t, m.heap p = some t → t.recurring = true → t.next = scheduledAt ls p + t.ms

/-- The fields of a timer at `p` tell what happened to it. -/
structure Told (ls : List (Event Addr Func)) (p : Addr) (t : Timer Func) : Prop where
  cb_iff : t.cb.isSome = true ↔ ¬ Cancelled ls p ∧ (t.recurring = false → deliveries ls p = 0)
  once : t.recurring = false → deliveries ls p ≤ 1
  origin : ∃ cb now, .addTimer p t.ms cb t.recurring now ∈ ls ∧ (t.cb = none ∨ t.cb = some cb)
  next : t.recurring = true → t.next = scheduledAt ls p + t.ms

/-- A step neither delivers nor cancels nor schedules the timer at `p`. -/
structure Event.Spares (e : Event Addr Func) (p : Addr) : Prop where
  deliveries : e.deliveries p = 0
  cancelled : e ≠ .cancel p true
  scheduledAt : ∀ reading, e.scheduledAt p reading = reading

/-- An action that spares a timer does not deliver it. -/
theorem Event.Spares.deliveries_eq (he : e.Spares p) (ls : List (Event Addr Func)) :
    TimerManager.deliveries (ls ++ [e]) p = TimerManager.deliveries ls p := by
  rw [deliveries_append, deliveries_singleton, he.deliveries, Nat.add_zero]

/-- It does not cancel it. -/
theorem Event.Spares.cancelled_iff (he : e.Spares p) (ls : List (Event Addr Func)) :
    Cancelled (ls ++ [e]) p ↔ Cancelled ls p := by
  rw [Cancelled, List.mem_append, List.mem_singleton]
  exact or_iff_left (Ne.symm he.cancelled)

/-- What the fields tell stays true if a step spares the timer. -/
theorem Told.append {t : Timer Func} (h : Told ls p t) (he : e.Spares p) :
    Told (ls ++ [e]) p t where
  cb_iff := by
    rw [he.deliveries_eq, he.cancelled_iff]
    exact h.cb_iff
  once := by
    rw [he.deliveries_eq]
    exact h.once
  origin := by
    obtain ⟨cb, now, hmem, hcb⟩ := h.origin
    exact ⟨cb, now, List.mem_append_left _ hmem, hcb⟩
  next := by
    rw [scheduledAt, List.foldl_concat, he.scheduledAt]
    exact h.next

/-- The history of a live timer. -/
theorem History.told (h : History ls m) {t : Timer Func} (ht : m.heap p = some t) :
    Told ls p t :=
  ⟨h.cb_iff p t ht, h.once p t ht, h.origin p t ht, h.next p t ht⟩

/-- A history is that of each timer. -/
theorem History.of_told (hwf : WF m)
    (hfresh : ∀ p, m.heap p = none → deliveries ls p = 0 ∧ ¬ Cancelled ls p)
    (htold : ∀ p t, m.heap p = some t → Told ls p t) : History ls m where
  toWF := hwf
  fresh := hfresh
  cb_iff := fun p t ht => (htold p t ht).cb_iff
  once := fun p t ht => (htold p t ht).once
  origin := fun p t ht => (htold p t ht).origin
  next := fun p t ht => (htold p t ht).next

/-- Nothing has happened at the start. -/
theorem history_new : History [] (new : TimerManager Addr Func) where
  toWF := wf_new
  fresh := by simp [deliveries, Cancelled]
  cb_iff := by simp [new]
  once := by simp [new]
  origin := by simp [new]
  next := by simp [new]

/-- `addTimer` begins the history of a timer. -/
theorem History.addTimer (h : History ls m) (hfree : m.heap p = none) (ms : UInt64) (cb : Func)
    (recurring : Bool) (now : UInt64) :
    History (ls ++ [.addTimer p ms cb recurring now]) (m.addTimer p ms cb recurring now).2 := by
  obtain ⟨hwf, hheap, -⟩ := addTimer_spec h.toWF hfree ms cb recurring now
  obtain ⟨hnone, hnot⟩ := h.fresh p hfree
  have hold : ∀ q, q ≠ p → (m.addTimer p ms cb recurring now).2.heap q = m.heap q := by
    intro q hq
    rw [hheap, set_heap_of_ne _ hq]
  have hspares : ∀ q, q ≠ p → (Event.addTimer p ms cb recurring now).Spares q := by
    intro q hq
    exact ⟨rfl, by simp, fun _ => if_neg (Ne.symm hq)⟩
  apply History.of_told hwf
  · intro q hq
    have hne : q ≠ p := by
      rintro rfl
      simp [hheap] at hq
    rw [(hspares q hne).deliveries_eq, (hspares q hne).cancelled_iff]
    exact h.fresh q ((hold q hne).symm.trans hq)
  · intro q t ht
    by_cases hq : q = p
    · -- nothing has happened to the new timer
      subst hq
      rw [hheap, set_heap_self] at ht
      obtain rfl := Option.some.inj ht
      refine ⟨?_, ?_, ⟨cb, now, by simp [Timer.new], Or.inr rfl⟩, ?_⟩
      · simpa [Event.deliveries, Cancelled, Timer.new, hnone] using hnot
      · simp [Event.deliveries, hnone]
      · simp [scheduledAt, Event.scheduledAt, Timer.new]
    · exact (h.told ((hold q hq).symm.trans ht)).append (hspares q hq)

/-- `cancel` ends it. -/
theorem History.cancel (h : History ls m) (hlive : m.Live p) :
    History (ls ++ [.cancel p (m.cancel p).1]) (m.cancel p).2 := by
  obtain ⟨t, ht⟩ := Option.isSome_iff_exists.mp hlive
  have hwf := cancel_wf h.toWF hlive
  by_cases hcb : t.cb.isSome = true
  · rw [cancel_of_some h.toWF ht hcb] at hwf ⊢
    -- every other timer, and what happened to it, is as before
    have hold : ∀ q, q ≠ p → (m.set p { t with cb := none }).heap q = m.heap q := fun q hq =>
      set_heap_of_ne _ hq
    have hspares : ∀ q, q ≠ p → (Event.cancel p true : Event Addr Func).Spares q := by
      intro q hq
      exact ⟨rfl, by simp [Ne.symm hq], fun _ => rfl⟩
    apply History.of_told hwf
    · intro q hq
      have hne : q ≠ p := by
        rintro rfl
        simp at hq
      rw [(hspares q hne).deliveries_eq, (hspares q hne).cancelled_iff]
      exact h.fresh q ((hold q hne).symm.trans hq)
    · intro q u hu
      by_cases hq : q = p
      · -- the callback is gone
        subst hq
        obtain rfl : { t with cb := none } = u := by simpa using hu
        have htold := h.told ht
        obtain ⟨cb, now, hmem, -⟩ := htold.origin
        refine ⟨?_, ?_, ⟨cb, now, List.mem_append_left _ hmem, Or.inl rfl⟩, ?_⟩
        · simp [Cancelled]
        · simpa [Event.deliveries] using htold.once
        · simpa [scheduledAt, Event.scheduledAt] using htold.next
      · exact (h.told ((hold q hq).symm.trans hu)).append (hspares q hq)
  · rw [cancel_of_none ht (by simpa using hcb)] at hwf ⊢
    have hspares : ∀ q, (Event.cancel p false : Event Addr Func).Spares q := fun q =>
      ⟨rfl, by simp, fun _ => rfl⟩
    apply History.of_told hwf
    · intro q hq
      rw [(hspares q).deliveries_eq, (hspares q).cancelled_iff]
      exact h.fresh q hq
    · intro q u hu
      exact (h.told hu).append (hspares q)

/-- A delivery to a timer whose callback was still there. -/
theorem Told.delivered {t : Timer Func} (h : Told ls p t) (hcb : t.cb.isSome = true)
    {now : UInt64} {probe : Addr} {es : List Addr} (hnodup : es.Nodup) (hmem : p ∈ es) :
    Told (ls ++ [.listExpiredCb now probe es]) p (t.delivered now) := by
  have hdel : deliveries (ls ++ [.listExpiredCb now probe es]) p = deliveries ls p + 1 := by
    simp [Event.deliveries, List.count_eq_one_of_mem hnodup hmem]
  have hcan : Cancelled (ls ++ [.listExpiredCb now probe es]) p ↔ Cancelled ls p := by
    simp [Cancelled]
  obtain ⟨cb, now', hadd, hcb'⟩ := h.origin
  by_cases hrec : t.recurring = true
  · have htimer : t.delivered now = { t with next := now + t.ms } := by
      rw [Timer.delivered, if_pos hrec]
    rw [htimer]
    refine ⟨?_, ?_, ⟨cb, now', List.mem_append_left _ hadd, hcb'⟩, fun _ => ?_⟩
    · have hiff := h.cb_iff
      simpa [hcan, hrec] using hiff
    · simp [hrec]
    · simp [scheduledAt, Event.scheduledAt, hmem]
  · have htimer : t.delivered now = { t with cb := none } := by
      rw [Timer.delivered, if_neg hrec]
    rw [htimer]
    -- this is the first delivery
    have hzero := (h.cb_iff.1 hcb).2 (Bool.eq_false_iff.2 hrec)
    refine ⟨?_, ?_, ⟨cb, now', List.mem_append_left _ hadd, Or.inl rfl⟩, fun hrec' => ?_⟩
    · simp [hdel, hrec]
    · simp [hdel, hzero]
    · exact absurd hrec' hrec

/-- `listExpiredCb` goes on with those of the timers that are due. -/
theorem History.listExpiredCb (h : History ls m) (now : UInt64) (probe : Addr)
    (cbs : List (Option Func)) :
    History (ls ++ [.listExpiredCb now probe (m.expired now probe)])
      (m.listExpiredCb now probe cbs).1 := by
  obtain ⟨hexp, -⟩ := h.toOrdered.expired_eq_filter now probe
  obtain ⟨m', heq, hwf, hheap⟩ := listExpiredCb_spec h.toWF now probe cbs
  rw [heq, hexp]
  set es := m.timers.filter (m.due now)
  -- each timer of the range is delivered once
  have hnodup : es.Nodup := h.nodup.filter _
  have hspares : ∀ q, q ∉ es → (Event.listExpiredCb now probe es : Event Addr Func).Spares q := by
    intro q hq
    exact ⟨List.count_eq_zero_of_not_mem hq, by simp, fun _ => if_neg hq⟩
  apply History.of_told hwf
  · intro q hq
    have hnone : m.heap q = none := by
      rw [hheap q] at hq
      split_ifs at hq
      · simpa using hq
      · exact hq
    -- an address without a timer is not in the set
    have hnot : q ∉ es := fun hmem => h.not_mem hnone (List.mem_filter.mp hmem).1
    rw [(hspares q hnot).deliveries_eq, (hspares q hnot).cancelled_iff]
    exact h.fresh q hnone
  · intro q u hu
    rw [hheap q] at hu
    split_ifs at hu with hmem
    · -- a timer of the range was pending, with its callback
      have hin := (List.mem_filter.mp hmem).1
      obtain ⟨t, ht⟩ := Option.isSome_iff_exists.mp (h.live q hin)
      obtain rfl : t.delivered now = u := by simpa [ht] using hu
      exact (h.told ht).delivered ((h.mem_iff q t ht).mp hin) hnodup hmem
    · exact (h.told hu).append (hspares q hmem)

/-- Every step keeps the record. -/
theorem History.step (h : History ls m) (hstep : Step m e m') : History (ls ++ [e]) m' := by
  cases hstep with
  | addTimer hfree ms cb recurring now => exact h.addTimer hfree ms cb recurring now
  | cancel hlive => exact h.cancel hlive
  | listExpiredCb hfree now cbs => exact h.listExpiredCb now _ cbs

/-- Every run has a history. -/
theorem History.run (h : Transition.Run Step new ls m) : History ls m :=
  h.history history_new fun _ _ _ _ hist hstep => hist.step hstep

/-! ## The delivery law -/

/-- The timers to deliver are in the order of `m_next`. -/
theorem WF.nextSorted_filter (hm : WF m) (now : UInt64) :
    m.NextSorted (m.timers.filter (m.due now)) := by
  refine List.Pairwise.imp (fun {p q} hlt t u ht hu => ?_) (hm.sorted.sublist List.filter_sublist)
  have hkey := (lt_iff ht hu).mp hlt
  grind

/-- A step delivers nothing that has been cancelled. -/
theorem History.deliveries_eq_zero (h : History ls m) (hstep : Step m e m')
    (hcan : Cancelled ls p) : e.deliveries p = 0 := by
  cases hstep with
  | addTimer hfree ms cb recurring now => rfl
  | cancel hlive => rfl
  | @listExpiredCb probe hfree now cbs =>
    refine List.count_eq_zero_of_not_mem fun hmem => ?_
    rw [(h.toOrdered.expired_eq_filter now probe).1] at hmem
    have hin := (List.mem_filter.mp hmem).1
    obtain ⟨t, ht⟩ := Option.isSome_iff_exists.mp (h.live p hin)
    exact ((h.cb_iff p t ht).mp ((h.mem_iff p t ht).mp hin)).1 hcan

/-- Nothing that has been cancelled is delivered later in the run. -/
theorem silent_after_cancel {m₀ : TimerManager Addr Func} {ls₁ ls₂ : List (Event Addr Func)}
    (h : Transition.Run Step new ls₁ m₀) (hcan : Cancelled ls₁ p)
    (hrest : Transition.Run Step m₀ ls₂ m) : deliveries ls₂ p = 0 := by
  induction hrest with
  | refl => rfl
  | snoc hrun hstep ih =>
    -- the record of the whole run up to this step
    have hist := History.run (h.append hrun)
    have hzero := hist.deliveries_eq_zero hstep (List.mem_append_left _ hcan)
    simp [ih, hzero]

/-- In every run the timers are delivered according to the delivery law. -/
theorem delivery_law (h : Transition.Run Step new ls m) : DeliveryLaw ls m := by
  have hist := History.run h
  refine ⟨fun now probe cbs _ => ?_, fun p t ht => ?_, hist.once, ?_, fun p t ht => ?_,
    fun p hlive => ?_, fun p t ht hrec => ?_, hist.next⟩
  · -- the callbacks are appended in the order of the erased range
    obtain ⟨m', heq, -, -⟩ := listExpiredCb_spec hist.toWF now probe cbs
    rw [(hist.toOrdered.expired_eq_filter now probe).1, heq]
    refine ⟨rfl, fun p => List.mem_filter, hist.nodup.filter _, hist.nextSorted_filter now⟩
  · obtain ⟨cb, now, hadd, hcb⟩ := hist.origin p t ht
    refine ⟨cb, now, hadd, fun hin => ?_⟩
    have hsome := (hist.mem_iff p t ht).mp hin
    rcases hcb with hnone | hcb
    · simp [hnone] at hsome
    · simp [TimerManager.callback, ht, hcb]
  · intro p ls₁ ls₂ heq
    -- cut the run behind the call of `cancel`
    rw [heq, List.append_cons, Transition.Run.append_iff] at h
    obtain ⟨m₀, hfirst, hrest⟩ := h
    exact silent_after_cancel hfirst (by simp [Cancelled]) hrest
  · rw [← hist.cb_iff p t ht]
    by_cases hcb : t.cb.isSome = true
    · simp [cancel_of_some hist.toWF ht hcb, hcb]
    · simp [cancel_of_none ht (by simpa using hcb), hcb]
  · obtain ⟨t, ht⟩ := Option.isSome_iff_exists.mp hlive
    by_cases hcb : t.cb.isSome = true
    · rw [cancel_of_some hist.toWF ht hcb]
      refine ⟨fun _ => ⟨(hist.mem_iff p t ht).mpr hcb, rfl, fun q hq => ?_⟩, fun hfalse => ?_⟩
      · exact set_heap_of_ne _ hq
      · cases hfalse
    · rw [cancel_of_none ht (by simpa using hcb)]
      refine ⟨fun htrue => ?_, fun _ => rfl⟩
      cases htrue
  · rw [hist.mem_iff p t ht, hist.cb_iff p t ht]
    simp [hrec]

/-- A recurring and a one-shot timer, due at the same reading and ordered by their addresses: the
recurring timer is delivered twice, the other one once. -/
theorem delivery_law_example : ∃ m : TimerManager ℕ String,
    DeliveryLaw [.addTimer 7 10 "tick" true 100, .addTimer 3 5 "once" false 105,
      .listExpiredCb 110 5 [3, 7], .listExpiredCb 125 9 [7], .cancel 7 true] m := by
  refine ⟨_, delivery_law (.snoc (.snoc (.snoc (.snoc (.snoc .refl
    (.addTimer ?_ 10 "tick" true 100)) (.addTimer ?_ 5 "once" false 105))
    (.listExpiredCb ?_ 110 [])) (.listExpiredCb ?_ 125 [])) (.cancel ?_))⟩
  all_goals rfl

end TimerManager

end Sylar
