import Sylar.Timer.Deadline

/-!
# The rate of a recurring timer

A recurring timer is armed again for the clock reading of its delivery, not for the reading at which
it was due, so what every delivery is late adds up. `Clocked` is a manager with a clock that does
not go back and that is read by `listExpiredCb` once at least in every `δ` milliseconds.

`recurring_rate` says that a timer with the period `ms` that has been delivered `n` times was
delivered last between `n * ms` and `n * (ms + δ)` milliseconds after it had been added, and that it
is not overdue behind a call of `listExpiredCb`.
-/

namespace Sylar

namespace TimerManager

variable {Addr Func : Type*} [LinearOrder Addr]

/-- A manager, the reading of the latest `listExpiredCb`, and the latest reading of all. -/
structure Clocked (Addr Func : Type*) where
  manager : TimerManager Addr Func
  polled : ℕ
  clock : ℕ

namespace Clocked

/-- Nothing has been added yet, and the clock shows `now`. -/
def start (now : ℕ) : Clocked Addr Func := { manager := new, polled := now, clock := now }

/-- The clock of an action that reads it, and the end of the interval between two calls of
`listExpiredCb`. -/
def Reads (δ : ℕ) (s s' : Clocked Addr Func) : Event Addr Func → Prop
  | .addTimer _ _ _ _ now => s.clock ≤ now.toNat ∧ s'.clock = now.toNat ∧ s'.polled = s.polled
  | .cancel .. => s'.clock = s.clock ∧ s'.polled = s.polled
  | .listExpiredCb now _ _ =>
    s.clock ≤ now.toNat ∧ now.toNat ≤ s.polled + δ ∧ s'.clock = now.toNat ∧ s'.polled = now.toNat

/-- A step of the manager under its clock. -/
structure Step (δ : ℕ) (s : Clocked Addr Func) (e : Event Addr Func) (s' : Clocked Addr Func) :
    Prop where
  step : TimerManager.Step s.manager e s'.manager
  reads : s.Reads δ s' e

/-! ## The deliveries of one timer -/

/-- A timer has been added once, and its latest delivery is as many periods later as it has been
delivered. -/
structure Rate (δ : ℕ) (ls : List (Event Addr Func)) (s : Clocked Addr Func) (p : Addr)
    (ms : UInt64) : Prop where
  delivered : ∃ cb added, .addTimer p ms cb true added ∈ ls ∧
    added.toNat + deliveries ls p * ms.toNat ≤ (scheduledAt ls p).toNat ∧
    (scheduledAt ls p).toNat ≤ added.toNat + deliveries ls p * (ms.toNat + δ)
  polled : s.polled ≤ (scheduledAt ls p).toNat + ms.toNat
  clock : (scheduledAt ls p).toNat ≤ s.clock

variable {δ : ℕ} {ls : List (Event Addr Func)} {s s' : Clocked Addr Func} {e : Event Addr Func}
  {p : Addr} {t : Timer Func}

theorem deliveries_snoc (ls : List (Event Addr Func)) (e : Event Addr Func) (p : Addr) :
    deliveries (ls ++ [e]) p = deliveries ls p + e.deliveries p := by
  rw [deliveries_append, deliveries_singleton]

theorem scheduledAt_snoc (ls : List (Event Addr Func)) (e : Event Addr Func) (p : Addr) :
    scheduledAt (ls ++ [e]) p = e.scheduledAt p (scheduledAt ls p) :=
  List.foldl_concat ..

/-- A step that does not arm the timer. -/
theorem Rate.spared {ms : UInt64} (h : Rate δ ls s p ms) (hdel : e.deliveries p = 0)
    (hsched : ∀ reading, e.scheduledAt p reading = reading)
    (hpolled : s'.polled ≤ (scheduledAt ls p).toNat + ms.toNat) (hclock : s.clock ≤ s'.clock) :
    Rate δ (ls ++ [e]) s' p ms := by
  obtain ⟨cb, added, hmem, hlow, hhigh⟩ := h.delivered
  have hdeliveries : deliveries (ls ++ [e]) p = deliveries ls p := by
    rw [deliveries_snoc, hdel, Nat.add_zero]
  have hscheduled : scheduledAt (ls ++ [e]) p = scheduledAt ls p := by
    rw [scheduledAt_snoc, hsched]
  constructor
  · rw [hdeliveries, hscheduled]
    exact ⟨cb, added, List.mem_append_left _ hmem, hlow, hhigh⟩
  · rwa [hscheduled]
  · rw [hscheduled]
    exact Nat.le_trans h.clock hclock

/-- A delivery, at a reading at which the timer is due and that is not later than `δ` after it. -/
theorem Rate.again {ms now : UInt64} (h : Rate δ ls s p ms) (hdel : e.deliveries p = 1)
    (hsched : ∀ reading, e.scheduledAt p reading = now)
    (hdue : (scheduledAt ls p).toNat + ms.toNat ≤ now.toNat)
    (hlate : now.toNat ≤ s.polled + δ) (hpolled : s'.polled = now.toNat)
    (hclock : s'.clock = now.toNat) : Rate δ (ls ++ [e]) s' p ms := by
  obtain ⟨cb, added, hmem, hlow, hhigh⟩ := h.delivered
  have hprev := h.polled
  have hdeliveries : deliveries (ls ++ [e]) p = deliveries ls p + 1 := by
    rw [deliveries_snoc, hdel]
  have hscheduled : scheduledAt (ls ++ [e]) p = now := by
    rw [scheduledAt_snoc, hsched]
  constructor
  · rw [hdeliveries, hscheduled, Nat.add_mul, Nat.add_mul, Nat.one_mul, Nat.one_mul]
    exact ⟨cb, added, List.mem_append_left _ hmem, by omega, by omega⟩
  · rw [hscheduled, hpolled]
    exact Nat.le_add_right _ _
  · rw [hscheduled, hclock]

/-- What is known of a state that a run has reached: the rates of the recurring timers that are
pending and whose next sum does not wrap. -/
structure Rated (δ : ℕ) (ls : List (Event Addr Func)) (s : Clocked Addr Func) : Prop where
  history : History ls s.manager
  polled_le : s.polled ≤ s.clock
  rate : ∀ p ∈ s.manager.timers, ∀ t, s.manager.heap p = some t → t.recurring = true →
    s.clock + t.ms.toNat < 2 ^ 64 → Rate δ ls s p t.ms

/-- The set is ordered, and the timers in it have callbacks. -/
theorem sound_of_wf {m : TimerManager Addr Func} (hm : WF m) : Sound m where
  toOrdered := hm.toOrdered
  callback p hp := by
    obtain ⟨t, ht⟩ := Option.isSome_iff_exists.mp (hm.live p hp)
    rw [TimerManager.callback, ht]
    exact (hm.mem_iff p t ht).mp hp

theorem Rated.step (h : Rated δ ls s) (hstep : Step δ s e s') : Rated δ (ls ++ [e]) s' := by
  obtain ⟨hstep, hreads⟩ := hstep
  have hsound := sound_of_wf h.history.toWF
  have hpending := fun q hq => (Turn.event hstep).pending (q := q) hsound hq
  have hhistory := h.history.step hstep
  obtain ⟨m', polled', clock'⟩ := s'
  cases hstep with
  | @addTimer q hfree ms cb recurring now =>
    obtain ⟨hclock, rfl, rfl⟩ := hreads
    refine ⟨hhistory, Nat.le_trans h.polled_le hclock, fun p hp t ht hrec hfits => ?_⟩
    by_cases hpq : p = q
    · subst hpq
      obtain rfl : Timer.new ms cb recurring now = t :=
        Option.some.inj ((set_heap_self s.manager p _).symm.trans ht)
      obtain rfl : recurring = true := hrec
      have hdel : deliveries (ls ++ [.addTimer p ms cb true now]) p = 0 := by
        rw [deliveries_snoc, (h.history.fresh p hfree).1]
        rfl
      have hsched : scheduledAt (ls ++ [.addTimer p ms cb true now]) p = now := by
        rw [scheduledAt_snoc]
        exact if_pos rfl
      constructor
      · rw [hdel, hsched, Nat.zero_mul, Nat.zero_mul]
        exact ⟨cb, now, by simp [Timer.new], Nat.le_refl _, Nat.le_refl _⟩
      · rw [hsched]
        exact Nat.le_trans (Nat.le_trans h.polled_le hclock) (Nat.le_add_right _ _)
      · rw [hsched]
    · have hfits : now.toNat + t.ms.toNat < 2 ^ 64 := hfits
      obtain ⟨_, _, _, ⟨harms, -⟩, -⟩ | ⟨-, hin, heq⟩ := hpending p hp
      · exact absurd harms hpq
      · have hrate := h.rate p hin t (heq ▸ ht) hrec (by omega)
        exact hrate.spared rfl (fun _ => if_neg (Ne.symm hpq)) hrate.polled hclock
  | @cancel q hlive =>
    obtain ⟨rfl, rfl⟩ := hreads
    refine ⟨hhistory, h.polled_le, fun p hp t ht hrec hfits => ?_⟩
    obtain ⟨_, _, _, harms, -⟩ | ⟨-, hin, heq⟩ := hpending p hp
    · exact harms.elim
    · have hrate := h.rate p hin t (heq ▸ ht) hrec hfits
      exact hrate.spared rfl (fun _ => rfl) hrate.polled (Nat.le_refl _)
  | @listExpiredCb probe hfree now cbs =>
    obtain ⟨hclock, hlate, rfl, rfl⟩ := hreads
    refine ⟨hhistory, Nat.le_refl _, fun p hp t ht hrec hfits => ?_⟩
    have hfits : now.toNat + t.ms.toNat < 2 ^ 64 := hfits
    have hexp := (h.history.toOrdered.expired_eq_filter now probe).1
    -- the timer as it was before, and when it was due
    have hnext : ∀ u, p ∈ s.manager.timers → s.manager.heap p = some u → u.recurring = true →
        u.ms = t.ms → Rate δ ls s p t.ms ∧
          u.next.toNat = (scheduledAt ls p).toNat + t.ms.toNat := by
      intro u hin hu hurec hms
      have hrate := h.rate p hin u hu hurec (by rw [hms]; omega)
      rw [hms] at hrate
      have hle := hrate.clock
      refine ⟨hrate, ?_⟩
      rw [h.history.next p u hu hurec, hms, UInt64.toNat_add, Nat.mod_eq_of_lt (by omega)]
    obtain ⟨t', _, _, ⟨hmem, -, u, hu, hurec, rfl⟩, ht', hms, -⟩ | ⟨hnot, hin, heq⟩ :=
      hpending p hp
    · obtain rfl : t' = t := Option.some.inj (ht'.symm.trans ht)
      obtain ⟨hin, hdue⟩ := List.mem_filter.mp (hexp ▸ hmem)
      obtain ⟨hrate, htoNat⟩ := hnext u hin hu hurec hms.symm
      have hcount : (s.manager.expired now probe).count p = 1 := by
        rw [hexp] at hmem ⊢
        exact List.count_eq_one_of_mem (h.history.nodup.filter _) hmem
      have hle : u.next ≤ now := by simpa [due, hu] using hdue
      refine hrate.again hcount (fun _ => if_pos hmem) ?_ hlate rfl rfl
      rw [← htoNat]
      exact UInt64.le_iff_toNat_le.mp hle
    · have hu : s.manager.heap p = some t := heq ▸ ht
      obtain ⟨hrate, htoNat⟩ := hnext t hin hu hrec rfl
      have hout : p ∉ s.manager.expired now probe := fun hmem =>
        hnot now t.ms ⟨hmem, rfl, t, hu, hrec, rfl⟩
      have hlt : now < t.next := by
        rw [hexp] at hout
        have hdue : s.manager.due now p ≠ true := fun hdue =>
          hout (List.mem_filter.mpr ⟨hin, hdue⟩)
        simpa [due, hu] using hdue
      refine hrate.spared (List.count_eq_zero_of_not_mem hout) (fun _ => if_neg hout) ?_ hclock
      have hlt := UInt64.lt_iff_toNat_lt.mp hlt
      show now.toNat ≤ _
      omega

theorem Rated.run {now : ℕ} (hrun : Transition.Run (Step δ) (start now) ls s) : Rated δ ls s := by
  refine hrun.history ⟨history_new, Nat.le_refl _, fun p hp => ?_⟩ fun _ _ _ _ h hst => h.step hst
  exact (List.not_mem_nil hp).elim

/-- The latest delivery of a recurring timer that has been delivered `n` times was between `n * ms`
and `n * (ms + δ)` after it had been added, and at the latest call of `listExpiredCb` it was not
overdue. -/
theorem recurring_rate {now : ℕ} (hrun : Transition.Run (Step δ) (start now) ls s)
    (hp : p ∈ s.manager.timers) (ht : s.manager.heap p = some t) (hrec : t.recurring = true)
    (hfits : s.clock + t.ms.toNat < 2 ^ 64) : Rate δ ls s p t.ms :=
  (Rated.run hrun).rate p hp t ht hrec hfits

/-- A timer with the period 10 under a clock that is read every 10 milliseconds. Its second delivery
is 25 milliseconds after it has been added. -/
theorem recurring_rate_example :
    let ls : List (Event ℕ String) := [.addTimer 7 10 "tick" true 100, .listExpiredCb 105 5 [],
      .listExpiredCb 112 5 [7], .listExpiredCb 118 5 [], .listExpiredCb 125 5 [7]]
    ∃ s, deliveries ls 7 = 2 ∧ scheduledAt ls 7 = 125 ∧ Rate 10 ls s 7 10 := by
  intro ls
  let t : Timer String := { recurring := true, ms := 10, next := 135, cb := some "tick" }
  have hstart : Transition.Run (Step 10) (start 100 : Clocked ℕ String) [] (start 100) := .refl
  refine ⟨⟨_, 125, 125⟩, rfl, rfl, recurring_rate (t := t)
    (.snoc (s := ⟨_, 118, 118⟩) (.snoc (s := ⟨_, 112, 112⟩) (.snoc (s := ⟨_, 105, 105⟩)
      (.snoc (s := ⟨_, 100, 100⟩) (hstart.snoc ⟨.addTimer ?_ 10 "tick" true 100, ?_⟩)
        ⟨.listExpiredCb ?_ 105 [], ?_⟩) ⟨.listExpiredCb ?_ 112 [], ?_⟩)
        ⟨.listExpiredCb ?_ 118 [], ?_⟩) ⟨.listExpiredCb ?_ 125 [], ?_⟩)
    ?_ ?_ rfl ?_⟩
  all_goals
    first
      | rfl
      | decide
      | exact ⟨by decide, rfl, rfl⟩
      | exact ⟨by decide, by decide, rfl, rfl⟩

end Clocked

end TimerManager

end Sylar
