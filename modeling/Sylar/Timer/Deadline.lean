import Sylar.Foundation.Size
import Sylar.Timer.Reschedule

/-!
# The deadline of a timer

`m_next` is a sum of `uint64_t` and wraps, while the deadline that the caller of `addTimer` asked
for is an integer. `Dated` keeps that integer for each timer beside the manager, and `NoEarly` says
that no `listExpiredCb` delivers a timer at a clock reading before it.

A timer is armed when it is added, and again whenever it is delivered and recurs. `step_iff` says
that a step leads to a state with `NoEarly` exactly when no sum wraps that arms a timer.
-/

namespace Sylar

namespace TimerManager

variable {Addr Func : Type*} [LinearOrder Addr]

/-- A manager, with the deadline that each timer was added with: the clock reading and the delay,
added up as integers. -/
structure Dated (Addr Func : Type*) where
  manager : TimerManager Addr Func
  deadline : Addr → ℕ

/-- The deadlines after a step. -/
def Act.deadline (deadline : Addr → ℕ) : Act Addr Func → Addr → ℕ
  | .event (.addTimer p ms _ _ now) => Function.update deadline p (now.toNat + ms.toNat)
  | _ => deadline

/-- The step arms the timer at `q`, with the delay `ms` from the clock reading `now` on. -/
def Act.Arms (m : TimerManager Addr Func) (q : Addr) (now ms : UInt64) : Act Addr Func → Prop
  | .event (.addTimer p ms' _ _ now') => q = p ∧ now = now' ∧ ms = ms'
  | .event (.listExpiredCb now' _ expired) =>
    q ∈ expired ∧ now = now' ∧ ∃ t, m.heap q = some t ∧ t.recurring = true ∧ t.ms = ms
  | _ => False

namespace Dated

/-- A step of the manager, with what it means for the deadlines. -/
structure Step (s : Dated Addr Func) (a : Act Addr Func) (s' : Dated Addr Func) : Prop where
  turn : Turn s.manager a s'.manager
  deadline : s'.deadline = a.deadline s.deadline

/-- No `listExpiredCb` delivers a timer at a clock reading before its deadline, wherever its probe
lies. -/
def NoEarly (s : Dated Addr Func) : Prop :=
  ∀ reading probe, ∀ p ∈ s.manager.expired reading probe, s.deadline p ≤ reading.toNat

/-- No sum that arms a timer wraps. -/
def NoWrap (s : Dated Addr Func) (a : Act Addr Func) : Prop :=
  ∀ q now ms, a.Arms s.manager q now ms → now.toNat + ms.toNat < 2 ^ 64

/-- The manager is sound, and a pending timer was added with its period as the delay. -/
structure Honest (s : Dated Addr Func) : Prop where
  sound : Sound s.manager
  period : ∀ p ∈ s.manager.timers, ∀ t, s.manager.heap p = some t → t.ms.toNat ≤ s.deadline p

end Dated

/-! ## What a step does to pending timers -/

omit [LinearOrder Addr] in
/-- A step arms a timer once. -/
theorem Act.Arms.unique {m : TimerManager Addr Func} {a : Act Addr Func} {q : Addr}
    {now ms now' ms' : UInt64} (h : a.Arms m q now ms) (h' : a.Arms m q now' ms') :
    now = now' ∧ ms = ms' := by
  cases a with
  | event e =>
    cases e with
    | addTimer p ms cb recurring now => exact ⟨h.2.1.trans h'.2.1.symm, h.2.2.trans h'.2.2.symm⟩
    | cancel p result => exact h.elim
    | listExpiredCb reading probe expired =>
      obtain ⟨-, rfl, t, ht, -, rfl⟩ := h
      obtain ⟨-, rfl, t', ht', -, rfl⟩ := h'
      obtain rfl : t = t' := Option.some.inj (ht.symm.trans ht')
      exact ⟨rfl, rfl⟩
  | reset p ms from_now now => exact h.elim
  | refresh p now result => exact h.elim

variable {m m' : TimerManager Addr Func} {p q : Addr} {t : Timer Func} {a : Act Addr Func}
  {now ms : UInt64}

/-- The timers that are left by an erasure are pending as before. -/
theorem heap_of_mem_erase (hm : Ordered m) (hq : q ∈ m.timers.erase p) :
    q ∈ m.timers ∧ (m.set p t).heap q = m.heap q := by
  obtain ⟨hne, hmem⟩ := hm.nodup.mem_erase_iff.mp hq
  exact ⟨hmem, set_heap_of_ne t hne⟩

/-- A timer that is pending after a step has just been armed, or was pending before, with the same
fields. -/
theorem Turn.pending (hm : Sound m) (hturn : Turn m a m') (hq : q ∈ m'.timers) :
    (∃ t now ms, a.Arms m q now ms ∧ m'.heap q = some t ∧ t.ms = ms ∧ t.next = now + ms) ∨
      (∀ now ms, ¬ a.Arms m q now ms) ∧ q ∈ m.timers ∧ m'.heap q = m.heap q := by
  cases hturn with
  | event hstep =>
    cases hstep with
    | @addTimer p hfree ms cb recurring now =>
      obtain ⟨-, hmem⟩ := hm.toOrdered.addTimer_spec hfree ms cb recurring now
      by_cases hne : q = p
      · subst hne
        left
        exact ⟨.new ms cb recurring now, now, ms, ⟨rfl, rfl, rfl⟩, set_heap_self m q _, rfl, rfl⟩
      · right
        refine ⟨fun _ _ harms => hne harms.1, ((hmem q).mp hq).resolve_left hne, ?_⟩
        exact set_heap_of_ne (.new ms cb recurring now) hne
    | @cancel p hlive =>
      right
      refine ⟨fun _ _ harms => harms, ?_⟩
      obtain ⟨t, ht⟩ := Option.isSome_iff_exists.mp hlive
      by_cases hcb : t.cb.isSome = true
      · rw [hm.toOrdered.cancel_eq ht hcb] at hq ⊢
        exact heap_of_mem_erase hm.toOrdered hq
      · rw [cancel_of_none ht (by simpa using hcb)] at hq ⊢
        exact ⟨hq, rfl⟩
    | @listExpiredCb probe hfree now cbs =>
      obtain ⟨hexp, -⟩ := hm.toOrdered.expired_eq_filter now probe
      obtain ⟨m', heq, -, hheap, hmem⟩ := hm.toOrdered.listExpiredCb_spec now probe cbs
      rw [heq] at hq ⊢
      obtain ⟨hin, hrec⟩ := (hmem q).mp hq
      by_cases hdue : m.due now q = true
      · -- delivered and armed again
        obtain ⟨t, ht, hrec⟩ := hrec hdue
        have hfilter : q ∈ m.timers.filter (m.due now) := List.mem_filter.mpr ⟨hin, hdue⟩
        left
        refine ⟨t.delivered now, now, t.ms, ⟨hexp ▸ hfilter, rfl, t, ht, hrec, rfl⟩, ?_, ?_, ?_⟩
        · rw [hheap q, if_pos hfilter, ht, Option.map_some]
        · simp [Timer.delivered, hrec]
        · simp [Timer.delivered, hrec]
      · have hfilter : q ∉ m.timers.filter (m.due now) := fun h => hdue (List.mem_filter.mp h).2
        right
        refine ⟨fun _ _ harms => hfilter (hexp ▸ harms.1), hin, ?_⟩
        exact (hheap q).trans (if_neg hfilter)
  | reset hlive ms from_now now =>
    right
    refine ⟨fun _ _ harms => harms, ?_⟩
    obtain heq | ⟨t, next, -, heq⟩ := reset_cases hm.toOrdered _ ms from_now now
    · rw [heq] at hq ⊢
      exact ⟨hq, rfl⟩
    · rw [heq] at hq ⊢
      exact heap_of_mem_erase hm.toOrdered hq
  | refresh hok =>
    right
    rw [refreshExclusive_ok hm.toOrdered hok] at hq ⊢
    exact ⟨fun _ _ harms => harms, hq, rfl⟩

/-- A timer that a step arms is pending afterwards. -/
theorem Turn.mem_of_arms (hm : Sound m) (hturn : Turn m a m') (harms : a.Arms m q now ms) :
    q ∈ m'.timers := by
  cases hturn with
  | event hstep =>
    cases hstep with
    | @addTimer p hfree ms cb recurring now =>
      obtain ⟨-, hmem⟩ := hm.toOrdered.addTimer_spec hfree ms cb recurring now
      exact (hmem q).mpr (Or.inl harms.1)
    | cancel hlive => exact harms.elim
    | @listExpiredCb probe hfree now cbs =>
      obtain ⟨hexp, -⟩ := hm.toOrdered.expired_eq_filter now probe
      obtain ⟨m', heq, -, -, hmem⟩ := hm.toOrdered.listExpiredCb_spec now probe cbs
      obtain ⟨hin, -, t, ht, hrec, -⟩ := harms
      rw [hexp] at hin
      rw [heq]
      exact (hmem q).mpr ⟨(List.mem_filter.mp hin).1, fun _ => ⟨t, ht, hrec⟩⟩
  | reset hlive ms from_now now => exact harms.elim
  | refresh hok => exact harms.elim

/-! ## Early deliveries -/

namespace Dated

variable {s s' : Dated Addr Func}

/-- A timer can be delivered early exactly when its `m_next` lies before its deadline. -/
theorem noEarly_iff (hm : Ordered s.manager) :
    NoEarly s ↔
      ∀ p ∈ s.manager.timers, ∀ t, s.manager.heap p = some t → s.deadline p ≤ t.next.toNat := by
  constructor
  · intro h p hp t ht
    -- a `listExpiredCb` at `m_next` delivers the timer
    apply h t.next p p
    rw [(hm.expired_eq_filter t.next p).1, List.mem_filter]
    exact ⟨hp, by simp [due, ht]⟩
  · intro h reading probe p hp
    rw [(hm.expired_eq_filter reading probe).1, List.mem_filter] at hp
    obtain ⟨hin, hdue⟩ := hp
    obtain ⟨t, ht⟩ := Option.isSome_iff_exists.mp (hm.live p hin)
    have hle : t.next ≤ reading := by simpa [due, ht] using hdue
    exact (h p hin t ht).trans (UInt64.le_iff_toNat_le.mp hle)

/-- The deadline of a timer that a step arms: it is new, or the timer was due. -/
theorem Step.deadline_of_arms (h : Honest s) (hstep : Step s a s')
    (harms : a.Arms s.manager q now ms) :
    s'.deadline q = now.toNat + ms.toNat ∨
      s'.deadline q = s.deadline q ∧ ms.toNat ≤ s.deadline q ∧
        ∃ probe, q ∈ s.manager.expired now probe := by
  obtain ⟨hturn, hdeadline⟩ := hstep
  generalize s'.manager = m' at hturn
  cases hturn with
  | event hst =>
    cases hst with
    | addTimer hfree ms cb recurring now =>
      obtain ⟨rfl, rfl, rfl⟩ := harms
      left
      rw [hdeadline]
      exact Function.update_self _ _ _
    | cancel hlive => exact harms.elim
    | @listExpiredCb probe hfree now cbs =>
      obtain ⟨hin, rfl, t, ht, -, rfl⟩ := harms
      have hmem := hin
      rw [(h.sound.toOrdered.expired_eq_filter _ probe).1] at hmem
      right
      exact ⟨by rw [hdeadline]; rfl, h.period q (List.mem_filter.mp hmem).1 t ht, probe, hin⟩
  | reset hlive ms from_now now => exact harms.elim
  | refresh hok => exact harms.elim

/-- A timer that was pending before and has not been armed keeps its deadline. -/
theorem Step.deadline_of_not_arms (hstep : Step s a s')
    (harms : ∀ now ms, ¬ a.Arms s.manager q now ms) : s'.deadline q = s.deadline q := by
  rw [hstep.deadline]
  cases a with
  | event e =>
    cases e with
    | addTimer p ms cb recurring now =>
      apply Function.update_of_ne
      rintro rfl
      exact harms now ms ⟨rfl, rfl, rfl⟩
    | cancel p result => rfl
    | listExpiredCb now probe expired => rfl
  | reset p ms from_now now => rfl
  | refresh p now result => rfl

theorem Honest.step (h : Honest s) (hstep : Step s a s') : Honest s' := by
  refine ⟨h.sound.turn hstep.turn, fun q hq t ht => ?_⟩
  obtain ⟨u, now, ms, harms, hu, rfl, -⟩ | ⟨harms, hin, hsame⟩ := hstep.turn.pending h.sound hq
  · obtain rfl : u = t := Option.some.inj (hu.symm.trans ht)
    obtain hnew | ⟨hold, hle, -⟩ := hstep.deadline_of_arms h harms
    · rw [hnew]
      exact Nat.le_add_left _ _
    · rw [hold]
      exact hle
  · rw [hstep.deadline_of_not_arms harms]
    exact h.period q hin t (hsame ▸ ht)

/-- From a state without early deliveries, a step leads to one exactly when it lets no sum wrap. -/
theorem step_iff (h : Honest s) (hearly : NoEarly s) (hstep : Step s a s') :
    NoWrap s a ↔ NoEarly s' := by
  have h' := h.step hstep
  have hbefore := (noEarly_iff h.sound.toOrdered).mp hearly
  rw [noEarly_iff h'.sound.toOrdered]
  constructor
  · intro hwrap q hq t ht
    obtain ⟨u, now, ms, harms, hu, rfl, hnext⟩ | ⟨harms, hin, hsame⟩ :=
      hstep.turn.pending h.sound hq
    · obtain rfl : u = t := Option.some.inj (hu.symm.trans ht)
      have hsum := toNat_add_eq now u.ms
      rw [if_pos (hwrap q now u.ms harms)] at hsum
      rw [hnext, hsum]
      obtain hnew | ⟨hold, -, probe, hexp⟩ := hstep.deadline_of_arms h harms
      · exact hnew.le
      · -- it has been delivered now, so its deadline has passed
        have hpassed := hearly now probe q hexp
        omega
    · rw [hstep.deadline_of_not_arms harms]
      exact hbefore q hin t (hsame ▸ ht)
  · intro hafter q now ms harms
    by_contra hwrap
    have hq := hstep.turn.mem_of_arms h.sound harms
    obtain ⟨u, now', ms', harms', hu, rfl, hnext⟩ | ⟨harms', -⟩ := hstep.turn.pending h.sound hq
    · have hle := hafter q hq u hu
      obtain ⟨rfl, rfl⟩ := harms'.unique harms
      have hsum := toNat_add_eq now' u.ms
      rw [if_neg hwrap] at hsum
      rw [hnext, hsum] at hle
      have hlt := now'.toNat_lt
      have hlt' := u.ms.toNat_lt
      obtain hnew | ⟨hold, hms, -⟩ := hstep.deadline_of_arms h harms
      · omega
      · omega
    · exact harms' now ms harms

end Dated

end TimerManager

end Sylar
