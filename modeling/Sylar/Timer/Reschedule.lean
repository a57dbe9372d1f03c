import Sylar.Timer.Delivery

/-!
# `Timer` — `reset` and `refresh`

Model of `Timer::reset` and `Timer::refresh`, which give a pending timer another deadline. The key
of a timer may change only while it is outside the set, so both functions mean to erase it, to set
`m_next` and to insert it again.

* `reset` does not insert it again: the timer is never delivered (`not_resetLaw`);
* `refresh` leaves when the timer *is* in the set, and otherwise erases `m_timers.end()`, so it does
  what it should only for a timer without a callback (`refreshLaw_iff`).

`refresh` tests the callback in a block of its own, so the state of its second block may be a later
one: `Turn` performs the steps of other threads, with the two functions among them. `Sound` holds in
every state that such a run reaches from the empty manager. After a `reset` a timer can have a
callback without being in the set, so it is weaker than `WF`.
-/

namespace Sylar

namespace TimerManager

variable {Addr Func : Type*} [LinearOrder Addr]

/-! ## Model -/

/-- `Timer::reset(ms, from_now)` on the timer at `p`, at the clock reading `now`. -/
def reset (m : TimerManager Addr Func) (p : Addr) (ms : UInt64) (from_now : Bool) (now : UInt64) :
    Bool × TimerManager Addr Func :=
  match m.heap p with
  | none => (false, m) -- no timer at `p`
  | some t =>
    if ms = t.ms ∧ from_now = false then (true, m)
    else
      match t.cb with
      | none => (false, m)
      | some _ =>
        match OrderedSet.find m.lt p m.timers with
        | none => (false, m)
        | some it =>
          let m := { m with timers := m.timers.erase it }
          let start := if from_now then now else t.next - t.ms
          -- the function returns here, with the timer outside the set
          (true, m.set p { t with ms := ms, next := start + ms })

/-- Undefined behaviour of the set. -/
inductive SetFault
  /-- `m_timers.erase(m_timers.end())`. -/
  | eraseEnd
  deriving DecidableEq, Repr

/-- `m_timers.erase(it)`, where `none` is `m_timers.end()`. -/
def erase (m : TimerManager Addr Func) (it : Option Addr) :
    Except SetFault (TimerManager Addr Func) :=
  match it with
  | none => .error .eraseEnd
  | some q => .ok { m with timers := m.timers.erase q }

/-- The second block of `Timer::refresh()` on the timer at `p`. -/
def refreshExclusive (m : TimerManager Addr Func) (p : Addr) (now : UInt64) :
    Except SetFault (Bool × TimerManager Addr Func) :=
  match m.heap p with
  | none => .ok (false, m) -- no timer at `p`
  | some t =>
    let it := OrderedSet.find m.lt p m.timers
    -- `it != m_timers.end()`
    if it.isSome then .ok (false, m)
    else do
      let m ← m.erase it
      return (true, (m.set p { t with next := now + t.ms }).insert p)

/-- `Timer::refresh()` on the timer at `p`, whose first block finds the state `m₁` and whose second
block finds the state `m₂`. -/
def refresh (m₁ m₂ : TimerManager Addr Func) (p : Addr) (now : UInt64) :
    Except SetFault (Bool × TimerManager Addr Func) :=
  if (m₁.callback p).isSome then m₂.refreshExclusive p now else .ok (false, m₂)

/-- A step of a program that also gives timers other deadlines. -/
inductive Act (Addr Func : Type*)
  | event (e : Event Addr Func)
  | reset (p : Addr) (ms : UInt64) (from_now : Bool) (now : UInt64)
  | refresh (p : Addr) (now : UInt64) (result : Bool)

/-- `reset` and `refresh` are called on a timer that exists, and the latter has found a callback. -/
inductive Turn (m : TimerManager Addr Func) : Act Addr Func → TimerManager Addr Func → Prop
  | event {e : Event Addr Func} {m' : TimerManager Addr Func} (h : Step m e m') :
      Turn m (.event e) m'
  | reset {p : Addr} (hlive : m.Live p) (ms : UInt64) (from_now : Bool) (now : UInt64) :
      Turn m (.reset p ms from_now now) (m.reset p ms from_now now).2
  | refresh {p : Addr} {now : UInt64} {b : Bool} {m' : TimerManager Addr Func}
      (h : m.refreshExclusive p now = .ok (b, m')) : Turn m (.refresh p now b) m'

/-! ## What the functions should do -/

/-- The timers other than the one at `p` have not changed. -/
def SameOthers (p : Addr) (m m' : TimerManager Addr Func) : Prop :=
  ∀ q, q ≠ p → m'.heap q = m.heap q ∧ (q ∈ m'.timers ↔ q ∈ m.timers)

/-- `reset` returns `true`, and the timer is pending once, with the new period and with its deadline
counted from `now` or from where the old period began. -/
structure ResetLaw (m : TimerManager Addr Func) (p : Addr) (t : Timer Func) (ms : UInt64)
    (from_now : Bool) (now : UInt64) : Prop where
  result : (m.reset p ms from_now now).1 = true
  pending : (m.reset p ms from_now now).2.timers.count p = 1
  fields : (m.reset p ms from_now now).2.heap p =
    some { t with ms := ms, next := (if from_now then now else t.next - t.ms) + ms }
  others : SameOthers p m (m.reset p ms from_now now).2
  /-- A later `listExpiredCb` delivers the timer. -/
  delivered : ∀ reading probe, (if from_now then now else t.next - t.ms) + ms ≤ reading →
    p ∈ (m.reset p ms from_now now).2.expired reading probe

/-- `refresh` does not erase the end of the set. A pending timer with a callback is pending
afterwards, once and with its period counted from `now`; for a timer outside the set, it returns
`false` and changes nothing. -/
def RefreshLaw (m₁ m₂ : TimerManager Addr Func) (p : Addr) (now : UInt64) : Prop :=
  ∃ b m', refresh m₁ m₂ p now = .ok (b, m') ∧
    (∀ t, m₂.heap p = some t → t.cb.isSome = true → p ∈ m₂.timers →
      b = true ∧ m'.timers.count p = 1 ∧ m'.heap p = some { t with next := now + t.ms } ∧
        SameOthers p m₂ m') ∧
    (p ∉ m₂.timers → b = false ∧ m' = m₂)

/-! ## Sound managers -/

variable {m m' m₁ m₂ : TimerManager Addr Func} {p q : Addr} {t : Timer Func}

/-- The set is ordered, and the timers in it have callbacks. -/
structure Sound (m : TimerManager Addr Func) : Prop extends Ordered m where
  callback : ∀ p ∈ m.timers, (m.callback p).isSome = true

theorem sound_new : Sound (new : TimerManager Addr Func) where
  toOrdered := wf_new.toOrdered
  callback := by simp [new]

/-- What `reset` does with a pending timer. -/
theorem reset_of_mem (hm : Ordered m) (hmem : p ∈ m.timers) (hp : m.heap p = some t)
    (hcb : t.cb.isSome = true) {ms : UInt64} {from_now : Bool}
    (hchange : ms ≠ t.ms ∨ from_now = true) (now : UInt64) :
    m.reset p ms from_now now = (true, { m.set p { t with
      ms := ms, next := (if from_now then now else t.next - t.ms) + ms } with
      timers := m.timers.erase p }) := by
  obtain ⟨cb, hcb⟩ := Option.isSome_iff_exists.mp hcb
  have hnot : ¬ (ms = t.ms ∧ from_now = false) := by
    rintro ⟨hms, hfrom⟩
    rcases hchange with hne | hnow
    · exact hne hms
    · simp [hfrom] at hnow
  have hfind : OrderedSet.find m.lt p m.timers = some p := by
    rw [hm.find_eq (Live.of_eq hp), if_pos hmem]
  simp only [reset, hp, hnot, if_false, hcb, hfind]
  rfl

/-- `reset` either changes nothing or takes a timer out of the set, with other fields. -/
theorem reset_cases (hm : Ordered m) (p : Addr) (ms : UInt64) (from_now : Bool) (now : UInt64) :
    (m.reset p ms from_now now).2 = m ∨
      ∃ t next, m.heap p = some t ∧ (m.reset p ms from_now now).2 =
        { m.set p { t with ms := ms, next := next } with timers := m.timers.erase p } := by
  cases hp : m.heap p with
  | none => exact Or.inl (by simp only [reset, hp])
  | some t =>
    by_cases hsame : ms = t.ms ∧ from_now = false
    · exact Or.inl (by simp only [reset, hp, hsame, and_self, if_true])
    · cases hcb : t.cb with
      | none => exact Or.inl (by simp only [reset, hp, hsame, if_false, hcb])
      | some cb =>
        by_cases hmem : p ∈ m.timers
        · have hchange : ms ≠ t.ms ∨ from_now = true := by
            simpa [imp_iff_not_or] using hsame
          right
          exact ⟨t, _, rfl, by rw [reset_of_mem hm hmem hp (by simp [hcb]) hchange]⟩
        · have hfind := hm.find_eq (Live.of_eq hp)
          rw [if_neg hmem] at hfind
          exact Or.inl (by simp only [reset, hp, hsame, if_false, hcb, hfind])

/-- The second block of `refresh` never gets further than its test. -/
theorem refreshExclusive_eq (hm : Ordered m) (hp : m.Live p) (now : UInt64) :
    m.refreshExclusive p now = if p ∈ m.timers then .ok (false, m) else .error .eraseEnd := by
  obtain ⟨t, ht⟩ := Option.isSome_iff_exists.mp hp
  have hfind := hm.find_eq hp
  split_ifs at hfind ⊢ with hmem
  · simp [refreshExclusive, ht, hfind]
  · simp only [refreshExclusive, ht, hfind, erase]
    rfl

theorem refreshExclusive_ok (hm : Ordered m) {now : UInt64} {b : Bool}
    (h : m.refreshExclusive p now = .ok (b, m')) : m' = m := by
  cases hp : m.heap p with
  | none =>
    simp only [refreshExclusive, hp, Except.ok.injEq, Prod.mk.injEq] at h
    exact h.2.symm
  | some t =>
    rw [refreshExclusive_eq hm (Live.of_eq hp)] at h
    split_ifs at h
    simp only [Except.ok.injEq, Prod.mk.injEq] at h
    exact h.2.symm

/-! ## Runs -/

/-- Taking a timer out of the set and changing its fields keeps the manager sound. -/
theorem Sound.set_erase (h : Sound m) (p : Addr) (t : Timer Func) :
    Sound { m.set p t with timers := m.timers.erase p } := by
  have hmem : ∀ q, q ∈ m.timers.erase p ↔ q ≠ p ∧ q ∈ m.timers := fun q => h.nodup.mem_erase_iff
  refine ⟨h.toOrdered.sublist List.erase_sublist fun q hq => ?_, fun q hq => ?_⟩
  · exact set_heap_of_ne _ ((hmem q).mp hq).1
  · obtain ⟨hne, hin⟩ := (hmem q).mp hq
    have hcb := h.callback q hin
    unfold TimerManager.callback at hcb ⊢
    rwa [← set_heap_of_ne t hne] at hcb

theorem Sound.addTimer (h : Sound m) (hfree : m.heap p = none) (ms : UInt64) (cb : Func)
    (recurring : Bool) (now : UInt64) : Sound (m.addTimer p ms cb recurring now).2 := by
  obtain ⟨hord, hmem⟩ := h.toOrdered.addTimer_spec hfree ms cb recurring now
  refine ⟨hord, fun q hq => ?_⟩
  by_cases hne : q = p
  · subst hne
    simp [TimerManager.callback, TimerManager.addTimer, Timer.new]
  · have hcb := h.callback q (((hmem q).mp hq).resolve_left hne)
    unfold TimerManager.callback at hcb ⊢
    rwa [← set_heap_of_ne (.new ms cb recurring now) hne] at hcb

theorem Sound.cancel (h : Sound m) (hlive : m.Live p) : Sound (m.cancel p).2 := by
  obtain ⟨t, ht⟩ := Option.isSome_iff_exists.mp hlive
  by_cases hcb : t.cb.isSome = true
  · rw [h.toOrdered.cancel_eq ht hcb]
    exact h.set_erase p _
  · rw [cancel_of_none ht (by simpa using hcb)]
    exact h

theorem Sound.listExpiredCb (h : Sound m) (now : UInt64) (probe : Addr)
    (cbs : List (Option Func)) : Sound (m.listExpiredCb now probe cbs).1 := by
  obtain ⟨m', heq, hord, hheap, hmem⟩ := h.toOrdered.listExpiredCb_spec now probe cbs
  rw [heq]
  refine ⟨hord, fun q hq => ?_⟩
  obtain ⟨hin, hrec⟩ := (hmem q).mp hq
  have hcb := h.callback q hin
  unfold TimerManager.callback at hcb ⊢
  rw [hheap q]
  split_ifs with hdue
  · -- it has been delivered, and is in the set again since it recurs
    obtain ⟨t, ht, hrec⟩ := hrec (List.mem_filter.mp hdue).2
    simpa [ht, Timer.delivered, hrec] using hcb
  · exact hcb

theorem Sound.turn {a : Act Addr Func} (h : Sound m) (hturn : Turn m a m') : Sound m' := by
  cases hturn with
  | event hstep =>
    cases hstep with
    | addTimer hfree ms cb recurring now => exact h.addTimer hfree ms cb recurring now
    | cancel hlive => exact h.cancel hlive
    | listExpiredCb hfree now cbs => exact h.listExpiredCb now _ cbs
  | reset hlive ms from_now now =>
    obtain heq | ⟨t, next, -, heq⟩ := reset_cases h.toOrdered _ ms from_now now
    · rw [heq]
      exact h
    · rw [heq]
      exact h.set_erase _ _
  | refresh hok =>
    rw [refreshExclusive_ok h.toOrdered hok]
    exact h

/-- Every state that a run reaches from a sound one is sound. -/
theorem Sound.run {ls : List (Act Addr Func)} (h : Sound m)
    (hrun : Transition.Run Turn m ls m') : Sound m' :=
  hrun.invariant h fun _ _ _ hs hturn => hs.turn hturn

/-- No timer has disappeared, and none has its callback back. -/
def Kept (m m' : TimerManager Addr Func) : Prop :=
  ∀ p t, m.heap p = some t → ∃ t', m'.heap p = some t' ∧ (t.cb = none → t'.cb = none)

omit [LinearOrder Addr] in
theorem Kept.refl (m : TimerManager Addr Func) : Kept m m := fun _ t ht => ⟨t, ht, id⟩

omit [LinearOrder Addr] in
theorem Kept.trans (h : Kept m m₁) (h' : Kept m₁ m₂) : Kept m m₂ := by
  intro p t ht
  obtain ⟨t₁, ht₁, hcb₁⟩ := h p t ht
  obtain ⟨t₂, ht₂, hcb₂⟩ := h' p t₁ ht₁
  exact ⟨t₂, ht₂, fun hnone => hcb₂ (hcb₁ hnone)⟩

/-- A timer is stored at a free address, or instead of one that had a callback if it has one. -/
theorem Kept.of_set (hq : ∀ u, m.heap q = some u → u.cb = none → t.cb = none)
    (hheap : m'.heap = (m.set q t).heap) : Kept m m' := by
  intro p u hu
  rw [hheap]
  by_cases hne : p = q
  · subst hne
    exact ⟨t, set_heap_self m p t, hq u hu⟩
  · exact ⟨u, (set_heap_of_ne t hne).trans hu, id⟩

theorem Turn.kept {a : Act Addr Func} (hm : Sound m) (hturn : Turn m a m') : Kept m m' := by
  cases hturn with
  | event hstep =>
    cases hstep with
    | addTimer hfree ms cb recurring now =>
      apply Kept.of_set (t := .new ms cb recurring now) _ rfl
      intro u hu
      simp [hfree] at hu
    | @cancel p hlive =>
      obtain ⟨u, hu⟩ := Option.isSome_iff_exists.mp hlive
      by_cases hcb : u.cb.isSome = true
      · rw [hm.toOrdered.cancel_eq hu hcb]
        exact Kept.of_set (fun _ _ _ => rfl) rfl
      · rw [cancel_of_none hu (by simpa using hcb)]
        exact Kept.refl m
    | @listExpiredCb probe hfree now cbs =>
      obtain ⟨m', heq, -, hheap, -⟩ := hm.toOrdered.listExpiredCb_spec now probe cbs
      intro p u hu
      rw [heq, hheap p]
      split_ifs
      · refine ⟨u.delivered now, by rw [hu, Option.map_some], fun hnone => ?_⟩
        unfold Timer.delivered
        split_ifs
        · exact hnone
        · rfl
      · exact ⟨u, hu, id⟩
  | reset hlive ms from_now now =>
    obtain heq | ⟨u, next, hu, heq⟩ := reset_cases hm.toOrdered _ ms from_now now
    · rw [heq]
      exact Kept.refl m
    · rw [heq]
      -- a reset leaves the callback of the timer alone
      apply Kept.of_set (t := { u with ms := ms, next := next }) _ rfl
      intro u' hu' hnone
      obtain rfl : u = u' := Option.some.inj (hu.symm.trans hu')
      exact hnone
  | refresh hok =>
    rw [refreshExclusive_ok hm.toOrdered hok]
    exact Kept.refl m

theorem Kept.of_run {ls : List (Act Addr Func)} (hm : Sound m)
    (hrun : Transition.Run Turn m ls m') : Kept m m' :=
  (hrun.invariant (I := fun m' => Sound m' ∧ Kept m m') ⟨hm, Kept.refl m⟩ fun _ _ _ hs hturn =>
    ⟨hs.1.turn hturn, hs.2.trans (hturn.kept hs.1)⟩).2

/-! ## The laws -/

/-- `reset` gives no pending timer another deadline: whenever there is something to change, the
timer leaves the set and does not come back. -/
theorem not_resetLaw (m : TimerManager Addr Func) (p : Addr) (t : Timer Func) (ms : UInt64)
    (from_now : Bool) (now : UInt64) (hm : Ordered m) (hp : m.heap p = some t)
    (hcb : t.cb.isSome = true) (hmem : p ∈ m.timers) (hchange : ms ≠ t.ms ∨ from_now = true) :
    ¬ ResetLaw m p t ms from_now now := by
  intro hlaw
  have hpending := hlaw.pending
  rw [reset_of_mem hm hmem hp hcb hchange] at hpending
  have hgone : p ∉ m.timers.erase p := hm.nodup.not_mem_erase
  rw [List.count_eq_zero_of_not_mem hgone] at hpending
  cases hpending

/-- A timer added at 100 with a period of 10, to be moved to 20. -/
theorem not_resetLaw_example :
    ¬ ResetLaw ((new : TimerManager ℕ String).addTimer 7 10 "tick" false 100).2 7
      (.new 10 "tick" false 100) 20 false 105 :=
  not_resetLaw _ 7 _ 20 false 105 (sound_new.addTimer rfl 10 "tick" false 100).toOrdered rfl rfl
    (by decide) (by decide)

/-- The timer that was to be due at 120 is not delivered at 200. -/
theorem reset_counterexample :
    let m := ((new : TimerManager ℕ String).addTimer 7 10 "tick" false 100).2
    m.timers = [7] ∧ (m.reset 7 20 false 105).1 = true ∧ (m.reset 7 20 false 105).2.timers = [] ∧
      ((m.reset 7 20 false 105).2.listExpiredCb 200 9 []).2 = [] ∧
      ¬ ResetLaw m 7 (.new 10 "tick" false 100) 20 false 105 := by
  refine ⟨by decide, by decide, by decide, by decide, fun hlaw => ?_⟩
  have hpending : 0 = 1 := hlaw.pending
  cases hpending

/-- `refresh` does what it should exactly on timers that have no callback at its test. With one, it
refuses the timer when it is pending, and erases the end of the set when it is not. -/
theorem refreshLaw_iff (m₁ m₂ : TimerManager Addr Func) (ls : List (Act Addr Func)) (p : Addr)
    (now : UInt64) (hm : Sound m₁) (hlive : m₁.Live p) (hrun : Transition.Run Turn m₁ ls m₂) :
    RefreshLaw m₁ m₂ p now ↔ m₁.callback p = none := by
  have hm₂ := hm.run hrun
  obtain ⟨t, ht⟩ := Option.isSome_iff_exists.mp hlive
  obtain ⟨t', ht', hcb'⟩ := Kept.of_run hm hrun p t ht
  have hcallback : m₁.callback p = t.cb := by rw [callback, ht, Option.bind_some]
  constructor
  · rintro ⟨b, m', heq, hpending, -⟩
    by_contra hsome
    rw [refresh, if_pos (Option.isSome_iff_ne_none.mpr hsome),
      refreshExclusive_eq hm₂.toOrdered (Live.of_eq ht')] at heq
    split_ifs at heq with hmem
    · -- the timer is in the set, and refused
      have hcb := hm₂.callback p hmem
      rw [callback, ht', Option.bind_some] at hcb
      have hresult := (hpending t' ht' hcb hmem).1
      simp [hresult] at heq
  · intro hnone
    refine ⟨false, m₂, by simp [refresh, hnone], fun u hu hcb => ?_, fun _ => ⟨rfl, rfl⟩⟩
    -- the timer has not got a callback since the test
    obtain rfl : t' = u := Option.some.inj (ht'.symm.trans hu)
    rw [hcb' (hcallback ▸ hnone)] at hcb
    cases hcb

/-- A timer cancelled by the same thread. -/
theorem refreshLaw_iff_example :
    let m := (((new : TimerManager ℕ String).addTimer 7 10 "tick" false 100).2.cancel 7).2
    RefreshLaw m m 7 105 ↔ m.callback 7 = none :=
  refreshLaw_iff _ _ [] 7 105 ((sound_new.addTimer rfl 10 "tick" false 100).cancel rfl) rfl .refl

/-- A pending timer is refused, and one that `reset` has left outside the set makes `refresh` erase
the end of the set. -/
theorem refresh_counterexample :
    let m := ((new : TimerManager ℕ String).addTimer 7 10 "tick" false 100).2
    let m' := (m.reset 7 20 false 103).2
    (∃ m'', refresh m m 7 105 = .ok (false, m'') ∧ m''.timers = [7]) ∧
      ¬ RefreshLaw m m 7 105 ∧
      refresh m' m' 7 105 = .error .eraseEnd ∧ ¬ RefreshLaw m' m' 7 105 := by
  refine ⟨⟨_, rfl, rfl⟩, ?_, rfl, ?_⟩
  · rintro ⟨b, m', heq, hpending, -⟩
    have hresult := (hpending (.new 10 "tick" false 100) rfl rfl (by decide)).1
    simp only [hresult] at heq
    cases heq
  · rintro ⟨b, m', heq, -⟩
    cases heq

end TimerManager

end Sylar
