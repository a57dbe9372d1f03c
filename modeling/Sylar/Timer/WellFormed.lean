import Sylar.Timer.Defs

/-!
# The timer set is well formed

The comparison of `m_timers` reads `m_next`, which is mutable; it is a strict total order on the
timers that exist, whatever their fields are.

* `Ordered m` — the set is sorted as the heap stands, and its members exist;
* `WF m` — moreover a timer is in the set exactly while it has a callback;
* `addTimer_spec`, `cancel_spec`, `listExpiredCb_spec` — the operations keep `WF`, with their
  effect on the heap and on the members of the set.
-/

namespace Sylar

namespace TimerManager

variable {Addr Func : Type*} [LinearOrder Addr]
variable {m m' : TimerManager Addr Func} {p q : Addr} {t u : Timer Func}

/-- There is a timer at `p`. -/
def Live (m : TimerManager Addr Func) (p : Addr) : Prop := (m.heap p).isSome = true

omit [LinearOrder Addr] in
theorem Live.of_eq (h : m.heap p = some t) : m.Live p := by
  simp [Live, h]

@[simp] theorem set_heap_self (m : TimerManager Addr Func) (p : Addr) (t : Timer Func) :
    (m.set p t).heap p = some t := by
  simp [set]

theorem set_heap_of_ne (t : Timer Func) (h : q ≠ p) : (m.set p t).heap q = m.heap q := by
  simp [set, h]

@[simp] theorem set_timers (m : TimerManager Addr Func) (p : Addr) (t : Timer Func) :
    (m.set p t).timers = m.timers := rfl

@[simp] theorem insert_heap (m : TimerManager Addr Func) (p : Addr) :
    (m.insert p).heap = m.heap := rfl

/-! ## The order of the set -/

theorem lt_iff (hp : m.heap p = some t) (hq : m.heap q = some u) :
    m.lt p q = true ↔ t.next < u.next ∨ t.next = u.next ∧ p < q := by
  by_cases heq : t.next = u.next
  · simp [lt, ptr, hp, hq, Timer.Comparator, heq]
  · simp [lt, ptr, hp, hq, Timer.Comparator, heq]

/-- What the comparison reads of the timer at `p`. -/
def key (m : TimerManager Addr Func) (p : Addr) : Option UInt64 := (m.heap p).map Timer.next

/-- The comparison reads `m_next` of the two timers compared and nothing else. -/
theorem lt_congr (hp : m'.key p = m.key p) (hq : m'.key q = m.key q) : m'.lt p q = m.lt p q := by
  have hkey : ∀ (m : TimerManager Addr Func), m.lt p q =
      match m.key p, m.key q with
      | none, _ => false
      | some _, none => true
      | some l, some r => if l ≠ r then decide (l < r) else decide (p < q) := by
    -- the timers themselves do not matter, their keys do
    intro m
    unfold lt ptr key Timer.Comparator
    cases m.heap p <;> cases m.heap q <;> rfl
  rw [hkey m', hkey m, hp, hq]

omit [LinearOrder Addr] in
theorem key_congr (h : m'.heap p = m.heap p) : m'.key p = m.key p := by
  rw [key, key, h]

/-- `Timer::Comparator` is a strict total order on the timers that exist. -/
theorem strictOrderOn_lt (m : TimerManager Addr Func) :
    OrderedSet.StrictOrderOn m.lt m.Live where
  irrefl := by
    intro p hp
    obtain ⟨t, ht⟩ := Option.isSome_iff_exists.mp hp
    simp [lt, ptr, ht, Timer.Comparator]
  trans := by
    intro p q r hp hq hr hpq hqr
    obtain ⟨t, ht⟩ := Option.isSome_iff_exists.mp hp
    obtain ⟨u, hu⟩ := Option.isSome_iff_exists.mp hq
    obtain ⟨v, hv⟩ := Option.isSome_iff_exists.mp hr
    rw [lt_iff ht hu] at hpq
    rw [lt_iff hu hv] at hqr
    rw [lt_iff ht hv]
    grind
  total := by
    intro p q hp hq hne
    obtain ⟨t, ht⟩ := Option.isSome_iff_exists.mp hp
    obtain ⟨u, hu⟩ := Option.isSome_iff_exists.mp hq
    rw [lt_iff ht hu, lt_iff hu ht]
    -- equal `m_next` on both sides: the addresses decide
    have := lt_or_gt_of_ne hne
    grind

/-! ## Ordered sets of existing timers -/

/-- The set is sorted as the heap stands, and its members exist. -/
structure Ordered (m : TimerManager Addr Func) : Prop where
  sorted : OrderedSet.Sorted m.lt m.timers
  live : ∀ p ∈ m.timers, m.Live p

theorem Ordered.nodup (hm : Ordered m) : m.timers.Nodup :=
  hm.sorted.nodup (strictOrderOn_lt m) hm.live

/-- Removing members and changing timers outside the set keeps it ordered. -/
theorem Ordered.sublist (hm : Ordered m) (hsub : m'.timers.Sublist m.timers)
    (hheap : ∀ p ∈ m'.timers, m'.heap p = m.heap p) : Ordered m' where
  sorted := (hm.sorted.sublist hsub).congr fun p hp q hq =>
    lt_congr (key_congr (hheap p hp)) (key_congr (hheap q hq))
  live := by
    intro p hp
    rw [Live, hheap p hp]
    exact hm.live p (hsub.subset hp)

theorem Ordered.not_mem (hm : Ordered m) (h : m.heap p = none) : p ∉ m.timers := by
  intro hp
  have := hm.live p hp
  rw [Live, h] at this
  cases this

/-- Inserting a timer that exists keeps the set ordered and adds exactly that timer. -/
theorem Ordered.insert (hm : Ordered m) (hp : m.Live p) :
    Ordered (m.insert p) ∧ ∀ q, q ∈ (m.insert p).timers ↔ q = p ∨ q ∈ m.timers := by
  have hmem : ∀ q, q ∈ (m.insert p).timers ↔ q = p ∨ q ∈ m.timers := fun q =>
    OrderedSet.mem_insert (strictOrderOn_lt m) hp hm.live
  refine ⟨⟨hm.sorted.insert (strictOrderOn_lt m) hp hm.live, fun q hq => ?_⟩, hmem⟩
  rcases (hmem q).mp hq with rfl | hq
  · exact hp
  · exact hm.live q hq

/-- A timer that has just been stored outside the set can be inserted. -/
theorem Ordered.set_insert (hm : Ordered m) (hp : p ∉ m.timers) (t : Timer Func) :
    Ordered ((m.set p t).insert p) ∧
      ∀ q, q ∈ ((m.set p t).insert p).timers ↔ q = p ∨ q ∈ m.timers := by
  -- `p` is not in the set, so no key in it has changed
  have hset : Ordered (m.set p t) := hm.sublist (List.Sublist.refl _) fun q hq =>
    set_heap_of_ne t fun heq => hp (heq ▸ hq)
  exact hset.insert (Live.of_eq (set_heap_self m p t))

/-- A new timer is in the set. -/
theorem Ordered.addTimer_spec (hm : Ordered m) (hp : m.heap p = none) (ms : UInt64) (cb : Func)
    (recurring : Bool) (now : UInt64) :
    Ordered (m.addTimer p ms cb recurring now).2 ∧
      ∀ q, q ∈ (m.addTimer p ms cb recurring now).2.timers ↔ q = p ∨ q ∈ m.timers :=
  hm.set_insert (hm.not_mem hp) (.new ms cb recurring now)

/-! ## Well-formed managers -/

/-- The set is ordered, and a timer is in it exactly while it has a callback. -/
structure WF (m : TimerManager Addr Func) : Prop extends Ordered m where
  mem_iff : ∀ p t, m.heap p = some t → (p ∈ m.timers ↔ t.cb.isSome = true)

theorem wf_new : WF (new : TimerManager Addr Func) where
  sorted := List.Pairwise.nil
  live := by simp [new]
  mem_iff := by simp [new]

theorem addTimer_spec (hm : WF m) (hp : m.heap p = none) (ms : UInt64) (cb : Func)
    (recurring : Bool) (now : UInt64) :
    WF (m.addTimer p ms cb recurring now).2 ∧
      (m.addTimer p ms cb recurring now).2.heap = (m.set p (.new ms cb recurring now)).heap ∧
      ∀ q, q ∈ (m.addTimer p ms cb recurring now).2.timers ↔ q = p ∨ q ∈ m.timers := by
  obtain ⟨hord, hmem⟩ := hm.toOrdered.addTimer_spec hp ms cb recurring now
  refine ⟨⟨hord, fun q t hq => ?_⟩, rfl, hmem⟩
  by_cases heq : q = p
  · -- the new timer has a callback and is in the set
    subst heq
    obtain rfl : Timer.new ms cb recurring now = t := by simpa [addTimer] using hq
    exact ⟨fun _ => rfl, fun _ => (hmem q).mpr (Or.inl rfl)⟩
  · have hq' : m.heap q = some t := (set_heap_of_ne _ heq).symm.trans hq
    rw [hmem q]
    exact (or_iff_right heq).trans (hm.mem_iff q t hq')

/-! ## `cancel` -/

theorem cancel_of_none (hp : m.heap p = some t) (hcb : t.cb = none) : m.cancel p = (false, m) := by
  simp [cancel, hp, hcb]

/-- A timer finds itself in the set, if it is there. -/
theorem Ordered.find_eq (hm : Ordered m) (hp : m.Live p) :
    OrderedSet.find m.lt p m.timers = if p ∈ m.timers then some p else none := by
  split_ifs with hmem
  · exact OrderedSet.find_eq_some (strictOrderOn_lt m) hm.sorted hm.live hmem
  · exact OrderedSet.find_eq_none (strictOrderOn_lt m) hm.live hp hmem

/-- The callback is cleared and the timer, found by its own key if it is in the set, leaves it. -/
theorem Ordered.cancel_eq (hm : Ordered m) (hp : m.heap p = some t) (hcb : t.cb.isSome = true) :
    m.cancel p =
      (true, { m.set p { t with cb := none } with timers := m.timers.erase p }) := by
  obtain ⟨cb, hcb'⟩ := Option.isSome_iff_exists.mp hcb
  -- clearing the callback does not touch the key
  have hlt : (m.set p { t with cb := none }).lt = m.lt := by
    have hkey : ∀ x, (m.set p { t with cb := none }).key x = m.key x := by
      intro x
      by_cases hx : x = p
      · subst hx
        rw [key, key, set_heap_self, hp]
        rfl
      · exact key_congr (set_heap_of_ne _ hx)
    funext x y
    exact lt_congr (hkey x) (hkey y)
  have hfind := hm.find_eq (Live.of_eq hp)
  rw [← hlt] at hfind
  by_cases hmem : p ∈ m.timers
  · rw [if_pos hmem] at hfind
    simp [cancel, hp, hcb', hfind]
  · rw [if_neg hmem] at hfind
    simp only [cancel, hp, hcb', set_timers, hfind, List.erase_of_not_mem hmem]
    rfl

/-- A timer with a callback, which is in the set, leaves it. -/
theorem cancel_of_some (hm : WF m) (hp : m.heap p = some t) (hcb : t.cb.isSome = true) :
    m.cancel p =
      (true, { m.set p { t with cb := none } with timers := m.timers.erase p }) :=
  hm.toOrdered.cancel_eq hp hcb

theorem cancel_wf (hm : WF m) (hp : m.Live p) : WF (m.cancel p).2 := by
  obtain ⟨t, ht⟩ := Option.isSome_iff_exists.mp hp
  by_cases hcb : t.cb.isSome = true
  · rw [cancel_of_some hm ht hcb]
    have hmem : ∀ q, q ∈ m.timers.erase p ↔ q ≠ p ∧ q ∈ m.timers := fun q =>
      hm.nodup.mem_erase_iff
    refine ⟨hm.toOrdered.sublist List.erase_sublist fun q hq => ?_, fun q u hq => ?_⟩
    · exact set_heap_of_ne _ ((hmem q).mp hq).1
    · by_cases heq : q = p
      · subst heq
        obtain rfl : { t with cb := none } = u := by simpa using hq
        simp [hmem]
      · have hq' : m.heap q = some u := (set_heap_of_ne _ heq).symm.trans hq
        simp [hmem, heq, hm.mem_iff q u hq']
  · rw [cancel_of_none ht (by simpa using hcb)]
    exact hm

/-! ## `listExpiredCb` -/

/-- The timer at `p` is due at the clock reading `now`. -/
def due (m : TimerManager Addr Func) (now : UInt64) (p : Addr) : Bool :=
  match m.heap p with
  | none => false
  | some t => t.next ≤ now

/-- The callback of the timer at `p`. -/
def callback (m : TimerManager Addr Func) (p : Addr) : Option Func := (m.heap p).bind Timer.cb

/-- The range erased holds the timers that are due, and the rest stays. -/
theorem Ordered.expired_eq_filter (hm : Ordered m) (now : UInt64) (probe : Addr) :
    m.expired now probe = m.timers.filter (m.due now) ∧
      m.unexpired now probe = m.timers.filter (! m.due now ·) := by
  have hbelow : ∀ p t, m.heap p = some t →
      (m.belowProbe now probe p = true ↔ t.next < now ∨ t.next = now ∧ p < probe) := by
    intro p t hp
    by_cases heq : t.next = now <;>
      simp [belowProbe, ptr, hp, Timer.Comparator, Timer.probe, heq]
  -- what is less than something below the probe is below it, and likewise for being due
  have hdown : m.timers.Pairwise fun p q =>
      (m.belowProbe now probe q = true → m.belowProbe now probe p = true) ∧
        (m.due now q = true → m.due now p = true) := by
    refine List.Pairwise.imp_of_mem (fun {p q} hp hq hpq => ?_) hm.sorted
    obtain ⟨t, ht⟩ := Option.isSome_iff_exists.mp (hm.live p hp)
    obtain ⟨u, hu⟩ := Option.isSome_iff_exists.mp (hm.live q hq)
    have hlt := (lt_iff ht hu).mp hpq
    rw [hbelow p t ht, hbelow q u hu]
    simp only [due, ht, hu, decide_eq_true_eq]
    grind
  -- both predicates hold on a prefix, and the second loop carries the first one on to `due`
  have hdue : m.timers.Pairwise fun p q => m.due now q = true → m.due now p = true :=
    hdown.imp And.right
  obtain ⟨htake, hdrop⟩ := OrderedSet.takeWhile_eq_append (s := m.timers) (q := m.nextIs now)
    (r := m.due now) (hdown.imp And.left)
    (fun p hp hlt => by
      obtain ⟨t, ht⟩ := Option.isSome_iff_exists.mp (hm.live p hp)
      have := (hbelow p t ht).mp hlt
      simp only [due, ht, decide_eq_true_eq]
      grind)
    (fun p hp hge => by
      -- not below the probe means `m_next ≥ now`
      obtain ⟨t, ht⟩ := Option.isSome_iff_exists.mp (hm.live p hp)
      have := (hbelow p t ht).not.mp (by simp [hge])
      simp only [nextIs, due, ht, decide_eq_decide]
      grind)
  exact ⟨htake.trans (OrderedSet.takeWhile_eq_filter hdue),
    hdrop.trans (OrderedSet.dropWhile_eq_filter hdue)⟩

end TimerManager

/-- What the delivery at the clock reading `now` leaves of a timer. -/
def Timer.delivered {Func : Type*} (now : UInt64) (t : Timer Func) : Timer Func :=
  if t.recurring then { t with next := now + t.ms } else { t with cb := none }

namespace TimerManager

variable {Addr Func : Type*} [LinearOrder Addr]
variable {m : TimerManager Addr Func} {p : Addr} {t : Timer Func}

/-- One iteration of the loop: the timer is delivered, and is in the set again if it recurs. -/
theorem expireOne_spec (hm : Ordered m) (hp : m.heap p = some t) (hnot : p ∉ m.timers)
    (now : UInt64) (cbs : List (Option Func)) :
    ∃ m', expireOne now (m, cbs) p = (m', cbs ++ [t.cb]) ∧ Ordered m' ∧
      m'.heap = (m.set p (t.delivered now)).heap ∧
      ∀ q, q ∈ m'.timers ↔ (q = p ∧ t.recurring = true) ∨ q ∈ m.timers := by
  -- a recurring timer gets its new key before it is inserted again
  by_cases hrec : t.recurring = true
  · obtain ⟨hord, hmem⟩ := hm.set_insert hnot { t with next := now + t.ms }
    refine ⟨_, by simp [expireOne, hp, hrec], hord, ?_, by simpa [hrec] using hmem⟩
    simp [Timer.delivered, hrec]
  · refine ⟨m.set p { t with cb := none }, by simp [expireOne, hp, hrec], ?_, ?_, by simp [hrec]⟩
    · exact hm.sublist (List.Sublist.refl _) fun q hq =>
        set_heap_of_ne _ fun heq => hnot (heq ▸ hq)
    · simp [Timer.delivered, hrec]

/-- The loop over timers that have been extracted from the set. -/
theorem foldl_expireOne_spec {es : List Addr} (hm : Ordered m) (hnodup : es.Nodup)
    (hlive : ∀ p ∈ es, m.Live p) (hnot : ∀ p ∈ es, p ∉ m.timers) (now : UInt64)
    (cbs : List (Option Func)) :
    ∃ m', es.foldl (expireOne now) (m, cbs) = (m', cbs ++ es.map m.callback) ∧ Ordered m' ∧
      (∀ q, m'.heap q = if q ∈ es then (m.heap q).map (Timer.delivered now) else m.heap q) ∧
      ∀ q, q ∈ m'.timers ↔
        (q ∈ es ∧ ∃ t, m.heap q = some t ∧ t.recurring = true) ∨ q ∈ m.timers := by
  induction es generalizing m cbs with
  | nil => exact ⟨m, by simp, hm, by simp, by simp⟩
  | cons p es ih =>
    obtain ⟨hpes, hnodup⟩ := List.nodup_cons.mp hnodup
    obtain ⟨t, ht⟩ := Option.isSome_iff_exists.mp (hlive p (by simp))
    obtain ⟨m₁, hone, hord₁, hheap₁, hmem₁⟩ :=
      expireOne_spec hm ht (hnot p (by simp)) now cbs
    -- the iteration touches none of the timers still to come
    have hrest : ∀ q ∈ es, m₁.heap q = m.heap q := by
      intro q hq
      rw [hheap₁, set_heap_of_ne _ (by rintro rfl; exact hpes hq)]
    have hlive₁ : ∀ q ∈ es, m₁.Live q := by
      intro q hq
      rw [Live, hrest q hq]
      exact hlive q (by simp [hq])
    have hnot₁ : ∀ q ∈ es, q ∉ m₁.timers := by
      intro q hq hmem
      rcases (hmem₁ q).mp hmem with ⟨rfl, -⟩ | hmem
      · exact hpes hq
      · exact hnot q (by simp [hq]) hmem
    obtain ⟨m', hloop, hord, hheap, hmem⟩ := ih hord₁ hnodup hlive₁ hnot₁ (cbs ++ [t.cb])
    have hcb : es.map m₁.callback = es.map m.callback :=
      List.map_congr_left fun q hq => by rw [callback, callback, hrest q hq]
    refine ⟨m', ?_, hord, fun q => ?_, fun q => ?_⟩
    · have hp : m.callback p = t.cb := by simp [callback, ht]
      rw [List.foldl_cons, hone, hloop, hcb]
      simp [hp]
    · rw [hheap q, hheap₁]
      by_cases heq : q = p
      · subst heq
        simp [hpes, ht]
      · simp [heq, set_heap_of_ne]
    · rw [hmem q, hmem₁ q]
      by_cases heq : q = p
      · subst heq
        simp [hpes, ht]
      · have hq : m₁.heap q = m.heap q := by rw [hheap₁, set_heap_of_ne _ heq]
        simp [heq, hq]

/-- `listExpiredCb` delivers the timers of the set that are due, and the recurring ones of them
stay in the set. -/
theorem Ordered.listExpiredCb_spec (hm : Ordered m) (now : UInt64) (probe : Addr)
    (cbs : List (Option Func)) :
    ∃ m', m.listExpiredCb now probe cbs =
        (m', cbs ++ (m.timers.filter (m.due now)).map m.callback) ∧ Ordered m' ∧
      (∀ q, m'.heap q =
        if q ∈ m.timers.filter (m.due now) then (m.heap q).map (Timer.delivered now)
        else m.heap q) ∧
      ∀ q, q ∈ m'.timers ↔ q ∈ m.timers ∧
        (m.due now q = true → ∃ t, m.heap q = some t ∧ t.recurring = true) := by
  by_cases hempty : m.timers = []
  · exact ⟨m, by simp [listExpiredCb, hempty], hm, by simp [hempty], by simp [hempty]⟩
  · obtain ⟨hexp, hunexp⟩ := hm.expired_eq_filter now probe
    let m₀ : TimerManager Addr Func := { m with timers := m.unexpired now probe }
    have hmem₀ : ∀ q, q ∈ m₀.timers ↔ q ∈ m.timers ∧ m.due now q = false := by
      intro q
      simp [m₀, hunexp]
    -- erasing the range leaves an ordered set without the timers to deliver
    have hord₀ : Ordered m₀ := hm.sublist
      (by simp only [m₀, hunexp]; exact List.filter_sublist) fun _ _ => rfl
    have hnot₀ : ∀ p ∈ m.timers.filter (m.due now), p ∉ m₀.timers := by
      intro p hp hmem
      simp [((hmem₀ p).mp hmem).2] at hp
    obtain ⟨m', hloop, hord, hheap, hmem⟩ := foldl_expireOne_spec (m := m₀) hord₀
      (hm.nodup.filter _) (fun p hp => hm.live p (List.mem_filter.mp hp).1) hnot₀ now cbs
    refine ⟨m', ?_, hord, hheap, fun q => ?_⟩
    · have hfull : ¬ m.timers.isEmpty = true := by simpa using hempty
      rw [listExpiredCb, if_neg hfull, hexp]
      exact hloop
    · rw [hmem, hmem₀, List.mem_filter]
      by_cases hdue : m.due now q = true
      · simp [m₀, hdue]
      · simp [m₀, hdue]

/-- On a well-formed manager, `listExpiredCb` keeps it well formed. -/
theorem listExpiredCb_spec (hm : WF m) (now : UInt64) (probe : Addr) (cbs : List (Option Func)) :
    ∃ m', m.listExpiredCb now probe cbs =
        (m', cbs ++ (m.timers.filter (m.due now)).map m.callback) ∧ WF m' ∧
      (∀ q, m'.heap q =
        if q ∈ m.timers.filter (m.due now) then (m.heap q).map (Timer.delivered now)
        else m.heap q) := by
  obtain ⟨m', heq, hord, hheap, hmem⟩ := hm.toOrdered.listExpiredCb_spec now probe cbs
  refine ⟨m', heq, ⟨hord, fun q u hq => ?_⟩, hheap⟩
  rw [hheap q] at hq
  rw [hmem]
  by_cases hdel : q ∈ m.timers ∧ m.due now q = true
  · -- a delivered timer had a callback: it keeps it, and its place, if it recurs
    obtain ⟨hin, hdue⟩ := hdel
    obtain ⟨t, ht⟩ := Option.isSome_iff_exists.mp (hm.live q hin)
    have hcb := (hm.mem_iff q t ht).mp hin
    obtain rfl : t.delivered now = u := by simpa [ht, hin, hdue] using hq
    by_cases hrec : t.recurring = true
    · simp [ht, hrec, Timer.delivered, hcb, hin]
    · simp [ht, hrec, Timer.delivered, hdue]
  · -- the other timers keep their callbacks and their places
    have ht : m.heap q = some u := by simpa [hdel] using hq
    rw [← hm.mem_iff q u ht]
    have hstay : q ∈ m.timers → m.due now q = false := by simpa using hdel
    constructor
    · exact And.left
    · intro hin
      refine ⟨hin, fun hdue => ?_⟩
      rw [hstay hin] at hdue
      cases hdue

end TimerManager

end Sylar
