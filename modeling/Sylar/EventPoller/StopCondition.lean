import Sylar.Scheduler.Defs
import Sylar.Timer.Delivery

/-!
# The stop condition of the poller

`EventPoller::stopping(timeout)` asks `getNextTimer` for the time until the next timer and takes
`~0ull` to mean that there is none. `getNextTimer` returns `0` then. `stopping_iff` says exactly
when the two agree: `stopping` is right about a poller whose other conditions for stopping are not
met, or which has a timer pending that is not `2 ^ 64 - 1` milliseconds away.
-/

namespace Sylar

variable {Addr Func F C : Type*}

namespace EventPoller

/-- What the stop condition reads: the poller is a scheduler and a timer manager, with a count of
pending events. -/
structure StopState (Addr Func F C : Type*) where
  sched : Scheduler F C
  timers : TimerManager Addr Func
  pendingEventCount : ℕ

/-- `EventPoller::stopping(timeout)` at the clock reading `now`: the result and the timeout. -/
def stopping (s : StopState Addr Func F C) (now : UInt64) : Bool × UInt64 :=
  let timeout := s.timers.getNextTimer now
  (s.pendingEventCount = 0 && timeout = ~~~0 && s.sched.stopping, timeout)

/-- The test at the head of the loop of `idle`, `if(stopping(next_timeout)) break`: `none` leaves
the loop, and otherwise the timeout is used for `epoll_wait`. -/
def idleTest (s : StopState Addr Func F C) (now : UInt64) : Option UInt64 :=
  let (stop, next_timeout) := stopping s now
  if stop then none else some next_timeout

/-- The poller has nothing left to wait for. -/
def Drained (s : StopState Addr Func F C) : Prop :=
  s.pendingEventCount = 0 ∧ s.timers.timers = [] ∧ s.sched.stopping = true

/-- The stop condition is right: `stopping` returns `true`, and the loop of `idle` is left, exactly
when the poller is drained. -/
def StopLaw (s : StopState Addr Func F C) (now : UInt64) : Prop :=
  ((stopping s now).1 = true ↔ Drained s) ∧ (idleTest s now = none ↔ Drained s)

/-- The timer at the front of the set. -/
def earliest (m : TimerManager Addr Func) : Option (Timer Func) := m.timers.head?.bind m.heap

/-- A difference of clock readings is `~0ull` only for the two extreme readings. -/
theorem sub_eq_max_iff {next now : UInt64} (h : now ≤ next) :
    next - now = ~~~0 ↔ now = 0 ∧ next = ~~~0 := by
  refine ⟨fun hmax => ?_, fun ⟨hnow, hnext⟩ => by rw [hnow, hnext]; decide⟩
  -- the largest difference of two readings is reached only at the two ends
  have hle : now.toNat ≤ next.toNat := h
  have hlt := next.toNat_lt
  have hdiff : next.toNat - now.toNat = 2 ^ 64 - 1 := by
    rw [← UInt64.toNat_sub_of_le _ _ h, hmax]
    decide
  constructor
  · rw [← UInt64.toNat_inj, UInt64.toNat_zero]
    omega
  · rw [← UInt64.toNat_inj]
    show next.toNat = 2 ^ 64 - 1
    omega

/-- `~0ull` comes from a timer that is `2 ^ 64 - 1` milliseconds away, at clock reading `0`. -/
theorem getNextTimer_eq_max_iff (m : TimerManager Addr Func) (now : UInt64) :
    m.getNextTimer now = ~~~0 ↔ ∃ t, earliest m = some t ∧ now = 0 ∧ t.next = ~~~0 := by
  have hzero : ¬ (0 : UInt64) = ~~~0 := by decide
  unfold TimerManager.getNextTimer earliest
  cases h : m.timers.head?.bind m.heap with
  | none => exact ⟨fun hmax => absurd hmax hzero, fun ⟨_, ht, _⟩ => by cases ht⟩
  | some t =>
    simp only [Option.some.injEq, exists_eq_left']
    by_cases hle : t.next ≥ now
    · rw [if_pos hle]
      exact sub_eq_max_iff hle
    · rw [if_neg hle]
      -- an overdue timer: the clock does not read `0`
      refine ⟨fun hmax => absurd hmax hzero, fun ⟨hnow, _⟩ => ?_⟩
      rw [hnow] at hle
      exact absurd (UInt64.zero_le) hle

theorem idleTest_eq_none_iff (s : StopState Addr Func F C) (now : UInt64) :
    idleTest s now = none ↔ (stopping s now).1 = true := by
  unfold idleTest
  cases h : (stopping s now).1 <;> simp [h]

theorem stopping_iff (s : StopState Addr Func F C) (now : UInt64) :
    (stopping s now).1 = true ↔ s.pendingEventCount = 0 ∧ s.timers.getNextTimer now = ~~~0 ∧
      s.sched.stopping = true := by
  simp only [stopping, Bool.and_eq_true, decide_eq_true_eq, and_assoc]

/-- The set is empty exactly when there is no earliest timer. -/
theorem earliest_eq_none_iff {m : TimerManager Addr Func} (hlive : ∀ p ∈ m.timers, m.Live p) :
    earliest m = none ↔ m.timers = [] := by
  unfold earliest
  cases htimers : m.timers with
  | nil => simp
  | cons p ps =>
    obtain ⟨t, ht⟩ := Option.isSome_iff_exists.mp (hlive p (by simp [htimers]))
    simp [ht]

/-- The stop condition is right exactly when events are pending, or `Scheduler::stopping()` does
not hold, or a timer is pending, unless it is `2 ^ 64 - 1` milliseconds away. The set holds shared
pointers, so each of its members exists; nothing else is asked of it. -/
theorem stopLaw_iff (s : StopState Addr Func F C) (now : UInt64)
    (hlive : ∀ p ∈ s.timers.timers, s.timers.Live p) :
    StopLaw s now ↔ s.pendingEventCount ≠ 0 ∨ s.sched.stopping = false ∨
      ∃ t, earliest s.timers = some t ∧ ¬ (now = 0 ∧ t.next = ~~~0) := by
  have hmax := getNextTimer_eq_max_iff s.timers now
  have hnone := earliest_eq_none_iff hlive
  rw [StopLaw, idleTest_eq_none_iff, stopping_iff, and_self, Drained]
  by_cases hpending : s.pendingEventCount = 0
  · cases hsched : s.sched.stopping with
    | false => simp
    | true =>
      -- what remains is whether the sentinel and the empty set agree
      simp only [hpending, true_and, and_true, ne_eq, not_true_eq_false, Bool.true_eq_false,
        false_or, ← hnone, hmax]
      cases earliest s.timers with
      | none => simp
      | some t => simp
  · simp [hpending]

/-- A timer due in five milliseconds keeps a poller that is otherwise done in its loop. -/
theorem stopLaw_iff_example :
    let m := (TimerManager.new.addTimer 0 5 "f" false 100 : Bool × TimerManager ℕ String).2
    let s : StopState ℕ String ℕ String :=
      { sched := { running := false, autoStop := true, fibers := [], activeThreadNum := 0 }
        timers := m
        pendingEventCount := 0 }
    StopLaw s 100 ↔ s.pendingEventCount ≠ 0 ∨ s.sched.stopping = false ∨
      ∃ t, earliest s.timers = some t ∧ ¬ ((100 : UInt64) = 0 ∧ t.next = ~~~0) := by
  intro m s
  have hwf : m.WF := (TimerManager.addTimer_spec TimerManager.wf_new rfl 5 "f" false 100).1
  exact stopLaw_iff s 100 hwf.live

/-- A drained poller does not stop: with nothing pending and autostop set, the loop goes on with a
timeout of `0`. -/
theorem not_stopLaw_drained :
    let s : StopState ℕ String ℕ String :=
      { sched := { running := false, autoStop := true, fibers := [], activeThreadNum := 0 }
        timers := TimerManager.new
        pendingEventCount := 0 }
    Drained s ∧ idleTest s 100 = some 0 ∧ ¬ StopLaw s 100 := by
  intro s
  have hdrained : Drained s := ⟨rfl, rfl, rfl⟩
  have hidle : idleTest s 100 = some 0 := by decide
  refine ⟨hdrained, hidle, fun hlaw => ?_⟩
  have hnone := hlaw.2.mpr hdrained
  rw [hidle] at hnone
  cases hnone

end EventPoller

end Sylar
