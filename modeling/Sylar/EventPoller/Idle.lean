import Sylar.EventPoller.StopCondition
import Sylar.FdManager.Defs

/-!
# The timeout of `epoll_wait`

`EventPoller::idle` sleeps in `epoll_wait` until the next timer, but no longer than `MAX_TIMEOUT`.
The timeout comes from `getNextTimer`, which returns `0` for a timer that is due and also when there
is no timer, and the loop of `idle` takes `0` for the latter. `sleepLaw_iff` says that the poller
oversleeps exactly when a pending timer is due.
-/

namespace Sylar

variable {Addr Func F C : Type*}

namespace EventPoller

def MAX_TIMEOUT : UInt64 := 3000

/-- What the body of the inner loop of `idle` makes of `next_timeout`. -/
def clamp (next_timeout : UInt64) : UInt64 :=
  if next_timeout = 0 then MAX_TIMEOUT
  else if next_timeout > MAX_TIMEOUT then MAX_TIMEOUT
  else next_timeout

/-- The inner loop of `idle`: the timeouts of its calls of `epoll_wait`, of which the first
`interrupts` ones fail with `EINTR`. -/
def waitLoop : ℕ → UInt64 → List ℤ
  | 0, next_timeout => [intSize (clamp next_timeout).toNat]
  | interrupts + 1, next_timeout =>
    -- `next_timeout` is not computed anew
    intSize (clamp next_timeout).toNat :: waitLoop interrupts (clamp next_timeout)

/-- The timeouts that one iteration of `idle` passes to `epoll_wait`, with the clock reading `now`
in `getNextTimer`. -/
def idleTimeouts (s : StopState Addr Func F C) (now : UInt64) (interrupts : ℕ) : List ℤ :=
  match idleTest s now with
  | none => []
  | some next_timeout => waitLoop interrupts next_timeout

/-- Each timeout is at most `MAX_TIMEOUT`, and at most the time until any pending timer, which is
zero for a timer that is due. -/
def SleepLaw (s : StopState Addr Func F C) (now : UInt64) (interrupts : ℕ) : Prop :=
  ∀ timeout ∈ idleTimeouts s now interrupts, timeout ≤ MAX_TIMEOUT.toNat ∧
    ∀ p ∈ s.timers.timers, ∀ t, s.timers.heap p = some t →
      timeout ≤ max 0 ((t.next.toNat : ℤ) - now.toNat)

/-! ## The inner loop -/

theorem clamp_toNat (next_timeout : UInt64) : (clamp next_timeout).toNat =
    if next_timeout = 0 then 3000 else min next_timeout.toNat 3000 := by
  unfold clamp
  have hmax : MAX_TIMEOUT.toNat = 3000 := rfl
  split_ifs with hzero hgt
  · exact hmax
  · have hlt : MAX_TIMEOUT.toNat < next_timeout.toNat := hgt
    omega
  · have hle : ¬ MAX_TIMEOUT.toNat < next_timeout.toNat := hgt
    omega

/-- Clamping once is enough. -/
theorem clamp_clamp (next_timeout : UInt64) : clamp (clamp next_timeout) = clamp next_timeout := by
  have hpos : clamp next_timeout ≠ 0 := by
    intro hzero
    have hnat := clamp_toNat next_timeout
    rw [hzero, UInt64.toNat_zero] at hnat
    split_ifs at hnat with hne
    have : next_timeout.toNat ≠ 0 := fun h => hne (UInt64.toNat_inj.mp h)
    omega
  apply UInt64.toNat_inj.mp
  have hbound := clamp_toNat next_timeout
  rw [clamp_toNat (clamp next_timeout), if_neg hpos]
  split_ifs at hbound <;> omega

/-- An interrupted call is repeated with the same timeout. -/
theorem waitLoop_eq (interrupts : ℕ) (next_timeout : UInt64) :
    waitLoop interrupts next_timeout =
      List.replicate (interrupts + 1) (intSize (clamp next_timeout).toNat) := by
  induction interrupts generalizing next_timeout with
  | zero => rfl
  | succ interrupts ih => rw [waitLoop, ih, clamp_clamp, ← List.replicate_succ]

theorem mem_waitLoop {interrupts : ℕ} {next_timeout : UInt64} {timeout : ℤ} :
    timeout ∈ waitLoop interrupts next_timeout ↔ timeout = (clamp next_timeout).toNat := by
  have hlt : (clamp next_timeout).toNat < 2 ^ 31 := by
    rw [clamp_toNat]
    split_ifs <;> omega
  rw [waitLoop_eq, List.mem_replicate, intSize_eq hlt]
  simp

/-! ## The next timer -/

section Next

variable [LinearOrder Addr] {m : TimerManager Addr Func} {p : Addr} {t : Timer Func}

/-- No timer comes before the one at the front of the set. -/
theorem earliest_le (hm : m.Ordered) (ht : earliest m = some t) :
    ∀ q ∈ m.timers, ∀ u, m.heap q = some u → t.next ≤ u.next := by
  intro q hq u hu
  unfold earliest at ht
  have hsorted := hm.sorted
  cases htimers : m.timers with
  | nil => simp [htimers] at ht
  | cons p ps =>
    rw [htimers] at hq hsorted
    have hp : m.heap p = some t := by simpa [htimers] using ht
    rcases List.mem_cons.mp hq with rfl | hmem
    · obtain rfl : t = u := Option.some.inj (hp.symm.trans hu)
      exact UInt64.le_refl _
    · have hlt := (TimerManager.lt_iff hp hu).mp (List.rel_of_pairwise_cons hsorted hmem)
      grind

/-- With a timer pending, there is an earliest one. -/
theorem exists_earliest (hm : m.Ordered) (hp : p ∈ m.timers) :
    ∃ q t, earliest m = some t ∧ q ∈ m.timers ∧ m.heap q = some t := by
  have hne : earliest m ≠ none := by
    rw [Ne, earliest_eq_none_iff hm.live]
    exact List.ne_nil_of_mem hp
  obtain ⟨t, ht⟩ := Option.ne_none_iff_exists'.mp hne
  unfold earliest at ht
  obtain ⟨q, hhead, hq⟩ := Option.bind_eq_some_iff.mp ht
  exact ⟨q, t, ht, List.mem_of_mem_head? hhead, hq⟩

omit [LinearOrder Addr] in
theorem getNextTimer_of_earliest (ht : earliest m = some t) (now : UInt64) :
    (m.getNextTimer now).toNat = t.next.toNat - now.toNat := by
  unfold earliest at ht
  simp only [TimerManager.getNextTimer, ht]
  split_ifs with hle
  · exact UInt64.toNat_sub_of_le _ _ hle
  · have hlt : ¬ now.toNat ≤ t.next.toNat := hle
    rw [UInt64.toNat_zero]
    omega

end Next

variable {s : StopState Addr Func F C} {now : UInt64}

/-- While the loop of `idle` goes on, its timeout is that of `getNextTimer`. -/
theorem idleTest_eq_some {next_timeout : UInt64} (h : idleTest s now = some next_timeout) :
    next_timeout = s.timers.getNextTimer now := by
  unfold idleTest at h
  by_cases hstop : (stopping s now).1 = true
  · simp [hstop] at h
  · simp only [hstop] at h
    exact (Option.some.inj h).symm

/-- All timeouts of an iteration are the same. -/
theorem mem_idleTimeouts {interrupts : ℕ} {timeout : ℤ}
    (h : timeout ∈ idleTimeouts s now interrupts) :
    timeout = (clamp (s.timers.getNextTimer now)).toNat := by
  unfold idleTimeouts at h
  cases htest : idleTest s now with
  | none => simp [htest] at h
  | some next_timeout =>
    rw [htest] at h
    rw [← idleTest_eq_some htest]
    exact mem_waitLoop.mp h

/-- When a timer is due, the loop goes on, and takes the zero for the absence of timers. -/
theorem mem_idleTimeouts_of_zero (h : (s.timers.getNextTimer now).toNat = 0) (interrupts : ℕ) :
    (3000 : ℤ) ∈ idleTimeouts s now interrupts := by
  have hstop : ¬ (stopping s now).1 = true := by
    rw [stopping_iff]
    rintro ⟨-, hmax, -⟩
    rw [hmax] at h
    cases h
  have htest : idleTest s now = some (s.timers.getNextTimer now) := by
    unfold idleTest
    simp only [hstop]
    rfl
  unfold idleTimeouts
  rw [htest]
  apply mem_waitLoop.mpr
  rw [clamp_toNat, if_pos (UInt64.toNat_inj.mp h)]
  rfl

/-- The poller does not oversleep exactly when no pending timer is due at the clock reading. -/
theorem sleepLaw_iff [LinearOrder Addr] (s : StopState Addr Func F C) (now : UInt64)
    (interrupts : ℕ) (hm : s.timers.Ordered) :
    SleepLaw s now interrupts ↔
      ∀ p ∈ s.timers.timers, ∀ t, s.timers.heap p = some t → now < t.next := by
  constructor
  · intro hlaw p hp t ht
    obtain ⟨q, e, he, hq, hqe⟩ := exists_earliest hm hp
    have hle : e.next.toNat ≤ t.next.toNat := earliest_le hm he p hp t ht
    by_contra hdue
    have hge : ¬ now.toNat < t.next.toNat := hdue
    have hzero : (s.timers.getNextTimer now).toNat = 0 := by
      rw [getNextTimer_of_earliest he]
      omega
    have hbound := (hlaw 3000 (mem_idleTimeouts_of_zero hzero interrupts)).2 p hp t ht
    omega
  · intro hdue timeout hmem
    have hclamp := clamp_toNat (s.timers.getNextTimer now)
    have hmax : MAX_TIMEOUT.toNat = 3000 := rfl
    rw [mem_idleTimeouts hmem]
    refine ⟨?_, fun p hp t ht => ?_⟩
    · rw [hmax, hclamp]
      split_ifs <;> omega
    · obtain ⟨q, e, he, hq, hqe⟩ := exists_earliest hm hp
      have hle : e.next.toNat ≤ t.next.toNat := earliest_le hm he p hp t ht
      have hlt : now.toNat < e.next.toNat := hdue q hq e hqe
      -- the difference to the earliest timer is not zero, so it is not replaced
      have hnext := getNextTimer_of_earliest he now
      have hne : s.timers.getNextTimer now ≠ 0 := by
        intro hzero
        rw [hzero, UInt64.toNat_zero] at hnext
        omega
      rw [if_neg hne] at hclamp
      omega

/-- Two timers, the earlier one of which is due in five milliseconds, and an interrupted call. -/
theorem sleepLaw_iff_example :
    let m := ((TimerManager.new.addTimer 0 5 "f" false 100).2.addTimer 1 9 "g" true 90 :
      Bool × TimerManager ℕ String).2
    let s : StopState ℕ String ℕ String :=
      { sched := { running := false, autoStop := true, fibers := [], activeThreadNum := 0 }
        timers := m
        pendingEventCount := 0 }
    SleepLaw s 95 1 ↔ ∀ p ∈ m.timers, ∀ t, m.heap p = some t → 95 < t.next := by
  intro m s
  have hfirst : (TimerManager.new.addTimer 0 5 "f" false 100 : Bool × TimerManager ℕ String).2.WF :=
    (TimerManager.addTimer_spec TimerManager.wf_new rfl 5 "f" false 100).1
  exact sleepLaw_iff s 95 1 (TimerManager.addTimer_spec hfirst rfl 9 "g" true 90).1.toOrdered

/-- A timer that is due now is waited for three seconds. -/
theorem not_sleepLaw_due :
    let m := (TimerManager.new.addTimer 0 5 "f" false 100 : Bool × TimerManager ℕ String).2
    let s : StopState ℕ String ℕ String :=
      { sched := { running := false, autoStop := true, fibers := [], activeThreadNum := 0 }
        timers := m
        pendingEventCount := 0 }
    idleTimeouts s 105 0 = [3000] ∧ ¬ SleepLaw s 105 0 := by
  intro m s
  have htimeouts : idleTimeouts s 105 0 = [3000] := by decide
  refine ⟨htimeouts, fun hlaw => ?_⟩
  have hbound : (3000 : ℤ) ≤ max 0 (105 - 105) :=
    (hlaw 3000 (by simp [htimeouts])).2 0 (by decide) (.new 5 "f" false 100) rfl
  omega

end EventPoller

end Sylar
