import Sylar.Timer.WellFormed
import Mathlib.Logic.Function.Basic

/-!
# A timer with an owner

A function that adds a timer, waits, and cancels the timer again owns the only `Timer::Ptr` besides
those of `m_timers`, so the timer is destroyed when the function drops it (`release`). Meanwhile
other timers may be delivered.

* `Beside m₀ p m` — compared with `m₀`, only the timer at `p` has come to be pending;
* `Settled m₀ m` — no timer has.

`addTimer` leads from a well-formed manager to `Beside`, `listExpiredCb` stays there, and `cancel`
with `release` leads to `Settled`.
-/

namespace Sylar

namespace TimerManager

variable {Addr Func : Type*} [LinearOrder Addr]
variable {m₀ m m' : TimerManager Addr Func} {p q : Addr} {t : Timer Func} {cb : Func}

/-- The last `Timer::Ptr` to the timer at `p` goes. -/
def release (m : TimerManager Addr Func) (p : Addr) : TimerManager Addr Func :=
  { m with heap := Function.update m.heap p none }

/-- No timer has become pending, or has another callback than before, and no address has come into
use. -/
structure Settled (m₀ m : TimerManager Addr Func) : Prop where
  wf : WF m
  pending : ∀ q ∈ m.timers, q ∈ m₀.timers ∧ m.callback q = m₀.callback q
  free : ∀ q, m₀.heap q = none → m.heap q = none

/-- The same except for the timer at `p`. -/
structure Beside (m₀ : TimerManager Addr Func) (p : Addr) (m : TimerManager Addr Func) : Prop where
  wf : WF m
  live : m.Live p
  pending : ∀ q ∈ m.timers, q ≠ p → q ∈ m₀.timers ∧ m.callback q = m₀.callback q
  free : ∀ q, q ≠ p → m₀.heap q = none → m.heap q = none

/-- Nothing has changed. -/
theorem Settled.refl (h : WF m) : Settled m m where
  wf := h
  pending := fun _ hq => ⟨hq, rfl⟩
  free := fun _ hq => hq

/-- Two changes of other timers in a row. -/
theorem Settled.trans (h : Settled m₀ m) (h' : Settled m m') : Settled m₀ m' where
  wf := h'.wf
  pending := by
    intro q hq
    obtain ⟨hmem, heq⟩ := h'.pending q hq
    obtain ⟨hmem₀, heq₀⟩ := h.pending q hmem
    exact ⟨hmem₀, heq.trans heq₀⟩
  free := fun q hq => h'.free q (h.free q hq)

omit [LinearOrder Addr] in
/-- The callback of a timer is in its cell. -/
theorem callback_congr (h : m'.heap q = m.heap q) : m'.callback q = m.callback q := by
  rw [callback, callback, h]

/-- The timers that exist after one has been stored. -/
theorem live_of_heap_set (hheap : m'.heap = (m.set p t).heap) (hq : q = p ∨ m.Live q) :
    m'.Live q := by
  rw [Live, hheap]
  by_cases hne : q = p
  · rw [hne, set_heap_self]
    rfl
  · rw [set_heap_of_ne _ hne]
    exact hq.resolve_left hne

/-- A timer is pending exactly while it has a callback. -/
theorem WF.mem_timers_iff (hm : WF m) : q ∈ m.timers ↔ (m.callback q).isSome = true := by
  cases hq : m.heap q with
  | none => simp [callback, hq, hm.not_mem hq]
  | some t => simp [callback, hq, hm.mem_iff q t hq]

/-! ## From `addTimer` to the release -/

/-- A new timer stands beside the others. -/
theorem addTimer_beside (hm : WF m) (hp : m.heap p = none) (ms : UInt64) (cb : Func)
    (recurring : Bool) (now : UInt64) :
    Beside m p (m.addTimer p ms cb recurring now).2 := by
  obtain ⟨hwf, hheap, hmem⟩ := addTimer_spec hm hp ms cb recurring now
  have hother : ∀ q, q ≠ p → (m.addTimer p ms cb recurring now).2.heap q = m.heap q := by
    intro q hq
    rw [hheap, set_heap_of_ne _ hq]
  refine ⟨hwf, ?_, fun q hq hne => ?_, fun q hne hq => by rw [hother q hne, hq]⟩
  · exact live_of_heap_set hheap (Or.inl rfl)
  · exact ⟨((hmem q).1 hq).resolve_left hne, callback_congr (hother q hne)⟩

/-- What `listExpiredCb` leaves pending was pending before, with the same callback. -/
theorem listExpiredCb_pending (hm : WF m) (now : UInt64) (probe : Addr)
    (cbs : List (Option Func)) : WF (m.listExpiredCb now probe cbs).1 ∧
      (∀ q ∈ (m.listExpiredCb now probe cbs).1.timers,
        q ∈ m.timers ∧ (m.listExpiredCb now probe cbs).1.callback q = m.callback q) ∧
      ∀ q, (m.listExpiredCb now probe cbs).1.heap q = none ↔ m.heap q = none := by
  obtain ⟨m', heq, hwf, hheap⟩ := listExpiredCb_spec hm now probe cbs
  rw [heq]
  -- delivery takes the callback of a timer, or leaves it as it is
  have hcb : ∀ q, (m'.callback q).isSome = true → m'.callback q = m.callback q := by
    intro q hsome
    unfold callback at hsome ⊢
    rw [hheap q] at hsome ⊢
    split_ifs at hsome ⊢ with hdue
    · cases hq : m.heap q with
      | none => rfl
      | some t =>
        rw [hq, Option.map_some, Option.bind_some] at hsome
        rw [Option.map_some, Option.bind_some, Option.bind_some]
        unfold Timer.delivered at hsome ⊢
        split_ifs at hsome ⊢ with hrec
        · rfl
        · cases hsome
    · rfl
  refine ⟨hwf, fun q hq => ?_, fun q => ?_⟩
  · have hsome := hwf.mem_timers_iff.1 hq
    exact ⟨hm.mem_timers_iff.2 (hcb q hsome ▸ hsome), hcb q hsome⟩
  · change m'.heap q = none ↔ _
    rw [hheap q]
    split_ifs
    · exact Option.map_eq_none_iff
    · rfl

/-- It still does when expired timers have been collected. -/
theorem Beside.listExpiredCb (h : Beside m₀ p m) (now : UInt64) (probe : Addr)
    (cbs : List (Option Func)) : Beside m₀ p (m.listExpiredCb now probe cbs).1 := by
  obtain ⟨hwf, hpending, hfree⟩ := listExpiredCb_pending h.wf now probe cbs
  refine ⟨hwf, ?_, fun q hq hne => ?_, fun q hne hq => (hfree q).2 (h.free q hne hq)⟩
  · rw [Live, Option.isSome_iff_ne_none, Ne, hfree p]
    exact Option.isSome_iff_ne_none.1 h.live
  · obtain ⟨hmem, heq⟩ := hpending q hq
    obtain ⟨hmem₀, heq₀⟩ := h.pending q hmem hne
    exact ⟨hmem₀, heq.trans heq₀⟩

/-- Whether or not the timer has been delivered, it is gone when it has been cancelled and
released. -/
theorem cancel_release (hm : WF m) (hp : m.Live p) : WF ((m.cancel p).2.release p) ∧
    ((m.cancel p).2.release p).heap = Function.update m.heap p none ∧
    ∀ q, q ∈ ((m.cancel p).2.release p).timers ↔ q ≠ p ∧ q ∈ m.timers := by
  have hwf := cancel_wf hm hp
  obtain ⟨t, ht⟩ := Option.isSome_iff_exists.mp hp
  have hcancel : ((m.cancel p).2.release p).heap = Function.update m.heap p none ∧
      ∀ q, q ∈ (m.cancel p).2.timers ↔ q ≠ p ∧ q ∈ m.timers := by
    by_cases hcb : t.cb.isSome = true
    -- still pending: `cancel` takes it out of the set
    · rw [cancel_of_some hm ht hcb]
      refine ⟨?_, fun q => hm.nodup.mem_erase_iff⟩
      funext q
      by_cases hq : q = p
      · simp [release, hq]
      · simp [release, hq, set]
    -- delivered already, so that it is not in the set
    · rw [cancel_of_none ht (by simpa using hcb)]
      refine ⟨rfl, fun q => ⟨fun hq => ⟨?_, hq⟩, And.right⟩⟩
      rintro rfl
      exact hcb ((hm.mem_iff q t ht).1 hq)
  obtain ⟨hheap, hmem⟩ := hcancel
  -- the timers that stay in the set lie at other addresses
  have hother : ∀ q ∈ (m.cancel p).2.timers,
      ((m.cancel p).2.release p).heap q = (m.cancel p).2.heap q := fun q hq =>
    Function.update_of_ne ((hmem q).1 hq).1 _ _
  refine ⟨⟨hwf.toOrdered.sublist (List.Sublist.refl _) hother, fun q u hq => ?_⟩, hheap, hmem⟩
  by_cases hne : q = p
  · rw [hne, hheap, Function.update_self] at hq
    cases hq
  · have hq' : (m.cancel p).2.heap q = some u := by
      rwa [← show ((m.cancel p).2.release p).heap q = _ from Function.update_of_ne hne _ _]
    exact hwf.mem_iff q u hq'

/-- Cancelled and freed, it has left no trace. -/
theorem Beside.release (h : Beside m₀ p m) : Settled m₀ ((m.cancel p).2.release p) := by
  obtain ⟨hwf, hheap, hmem⟩ := cancel_release h.wf h.live
  refine ⟨hwf, fun q hq => ?_, fun q hq => ?_⟩
  · obtain ⟨hne, hq'⟩ := (hmem q).1 hq
    obtain ⟨hmem₀, heq⟩ := h.pending q hq' hne
    refine ⟨hmem₀, heq ▸ callback_congr ?_⟩
    rw [hheap, Function.update_of_ne hne]
  · rw [hheap]
    by_cases hne : q = p
    · rw [hne, Function.update_self]
    · rw [Function.update_of_ne hne]
      exact h.free q hne hq

/-! ## Delivery -/

/-- When the timer is due, its callback is delivered among those of other timers. -/
theorem listExpiredCb_delivers (hm : WF m) {now : UInt64} (hp : m.heap p = some t)
    (hcb : t.cb = some cb) (hdue : t.next ≤ now) (probe : Addr) :
    ∃ ps qs : List Addr, (m.listExpiredCb now probe []).2 =
        ps.map m.callback ++ some cb :: qs.map m.callback ∧
      ∀ q ∈ ps ++ qs, q ≠ p ∧ q ∈ m.timers := by
  obtain ⟨m', heq, -, -⟩ := listExpiredCb_spec hm now probe []
  rw [heq]
  -- the timers that are due are a part of the set, in which `p` lies once
  have hmem : p ∈ m.timers.filter (m.due now) := by
    rw [List.mem_filter, hm.mem_iff p t hp, hcb]
    exact ⟨rfl, by simpa [due, hp] using hdue⟩
  obtain ⟨ps, qs, hsplit⟩ := List.append_of_mem hmem
  have hnodup : (ps ++ p :: qs).Nodup := hsplit ▸ hm.nodup.filter _
  have hpcb : m.callback p = some cb := by rw [callback, hp, Option.bind_some, hcb]
  refine ⟨ps, qs, ?_, fun q hq => ⟨?_, ?_⟩⟩
  · simp [hsplit, hpcb]
  · rintro rfl
    exact (List.nodup_cons.1 (List.perm_middle.nodup_iff.1 hnodup)).1 hq
  · have hq' : q ∈ m.timers.filter (m.due now) := by
      rw [hsplit, List.mem_append, List.mem_cons]
      rw [List.mem_append] at hq
      tauto
    exact (List.mem_filter.1 hq').1

end TimerManager

end Sylar
