import Sylar.Scheduler.Steps
import Sylar.Scheduler.Ledger

/-!
# When a worker calls `tickle`

The loop of `run` over `m_fibers` sets `needTickle` for the entries that are pinned to another
thread. Behind the loop `needTickle |= (it == m_fibers.end())` is meant for the other entries. But
when an entry has been taken, `it` refers to a node that `erase` has freed, and otherwise `it` is
at the end, even if the queue is empty.

* `pass` — the loop with its flag, and with the entries that it has passed over and those that it
  has not examined; `scan_eq_pass` and `fibers_dequeue` connect it with the model of `run`;
* `tickles_iff` — the flag behind the loop;
* `tickleLaw_iff` — the worker wakes others as it should exactly if it may take no entry and there
  is one pinned to another thread.
-/

namespace Sylar.Scheduler

variable {W F C : Type*}

/-- What the loop over `m_fibers` leaves. -/
structure Pass (F C : Type*) where
  ft : Option (Entry F C)
  /-- The entries passed over. -/
  passed : List (Entry F C)
  /-- The entries not examined. -/
  rest : List (Entry F C)
  needTickle : Bool

/-- What an iterator refers to. -/
inductive Iterator
  /-- A node that `erase` has freed. -/
  | erased
  /-- `m_fibers.end()`. -/
  | atEnd
  deriving DecidableEq, Repr

/-- The loop over `m_fibers` on the thread `tid`. -/
def pass (executing : FiberTask F C → Bool) (tid : ℤ) (needTickle : Bool) :
    List (Entry F C) → Pass F C
  | [] => { ft := none, passed := [], rest := [], needTickle := needTickle }
  | it :: rest =>
    if it.task.thread_id ≠ -1 ∧ it.task.thread_id ≠ tid then
      let r := pass executing tid true rest
      { r with passed := it :: r.passed }
    else if executing it.task then
      let r := pass executing tid needTickle rest
      { r with passed := it :: r.passed }
    else { ft := some it, passed := [], rest := rest, needTickle := needTickle }

namespace Pass

/-- `m_fibers` behind the loop. -/
def fibers (r : Pass F C) : List (Entry F C) := r.passed ++ r.rest

/-- `it` behind the loop: `break` follows `m_fibers.erase(it)`. -/
def it (r : Pass F C) : Iterator := if r.ft.isSome then .erased else .atEnd

/-- `needTickle |= (it == m_fibers.end())`. The comparison of an iterator to a freed node may give
any value `dangling`. -/
def tickles (r : Pass F C) (dangling : Bool) : Bool :=
  r.needTickle ||
    match r.it with
    | .erased => dangling
    | .atEnd => true

end Pass

/-- The entry is pinned to another thread. -/
def Elsewhere (tid : ℤ) (e : Entry F C) : Prop := e.task.thread_id ≠ -1 ∧ e.task.thread_id ≠ tid

/-- The worker calls `tickle` exactly if the queue still holds an entry that it has passed over
because it is pinned to another thread, or one that it has not examined; and it uses no iterator to
a freed node. -/
def State.TickleLaw (s : State W F C) (tid : ℤ) (dangling : Bool) : Prop :=
  let r := pass s.executing tid false s.sched.fibers
  (r.tickles dangling = true ↔ (∃ e ∈ r.passed, Elsewhere tid e) ∨ r.rest ≠ []) ∧ r.it ≠ .erased

/-! ## The loop -/

section Pass

variable {executing : FiberTask F C → Bool} {tid : ℤ} {needTickle : Bool} {q : List (Entry F C)}

/-- The loop takes what the scan takes. -/
theorem scan_eq_pass (needTickle : Bool) :
    scan executing tid q = (pass executing tid needTickle q).ft.map fun ft =>
      (ft, (pass executing tid needTickle q).fibers) := by
  induction q generalizing needTickle with
  | nil => rfl
  | cons it rest ih =>
    rw [scan, pass]
    split_ifs
    · rw [ih true, Option.map_map]
      rfl
    · rw [ih needTickle, Option.map_map]
      rfl
    · rfl

/-- The loop takes nothing only if no entry is eligible. -/
theorem ft_pass_eq_none (needTickle : Bool) :
    (pass executing tid needTickle q).ft = none ↔ ∀ e ∈ q, ¬ Eligible executing tid e := by
  rw [← scan_eq_none, scan_eq_pass needTickle, Option.map_eq_none_iff]

/-- A loop that takes nothing has passed over the whole queue. -/
theorem pass_of_ft_eq_none (h : (pass executing tid needTickle q).ft = none) :
    (pass executing tid needTickle q).passed = q ∧
      (pass executing tid needTickle q).rest = [] := by
  induction q generalizing needTickle with
  | nil => exact ⟨rfl, rfl⟩
  | cons it rest ih =>
    rw [pass] at h ⊢
    split_ifs at h ⊢
    · obtain ⟨hpassed, hrest⟩ := ih h
      exact ⟨congrArg (it :: ·) hpassed, hrest⟩
    · obtain ⟨hpassed, hrest⟩ := ih h
      exact ⟨congrArg (it :: ·) hpassed, hrest⟩

/-- The loop sets its flag for the entries pinned to another thread that it passes over. -/
theorem needTickle_pass :
    (pass executing tid needTickle q).needTickle = true ↔
      needTickle = true ∨ ∃ e ∈ (pass executing tid needTickle q).passed, Elsewhere tid e := by
  induction q generalizing needTickle with
  | nil => simp [pass]
  | cons it rest ih =>
    rw [pass]
    split_ifs with hpinned
    · refine iff_of_true (ih.mpr (Or.inl rfl)) (Or.inr ⟨it, List.mem_cons_self, hpinned⟩)
    · have hnot : ¬ Elsewhere tid it := hpinned
      simp [ih, hnot]
    · simp

/-- `tickle` is called if an entry passed over is pinned to another thread, if nothing has been
taken, or if the freed node compares equal to the end. The entries not examined have no say. -/
theorem tickles_iff {dangling : Bool} :
    (pass executing tid false q).tickles dangling = true ↔
      (∃ e ∈ (pass executing tid false q).passed, Elsewhere tid e) ∨
        (pass executing tid false q).ft = none ∨ dangling = true := by
  rw [Pass.tickles, Bool.or_eq_true, needTickle_pass, Pass.it]
  cases (pass executing tid false q).ft <;> simp

end Pass

/-- The step of the model of `run` leaves the queue that the loop leaves. -/
theorem fibers_dequeue [DecidableEq W] [DecidableEq F] {tid : W → ℤ} {s s' : State W F C} {w : W}
    (needTickle : Bool) (h : step tid s (.dequeue w) = some s') :
    s'.sched.fibers = (pass s.executing (tid w) needTickle s.sched.fibers).fibers := by
  cases stepCase_of_step h with
  | take hw hscan =>
    rw [scan_eq_pass needTickle] at hscan
    obtain ⟨ft, -, heq⟩ := Option.map_eq_some_iff.mp hscan
    exact (Prod.mk.inj heq).2.symm
  | takeNone hw hscan =>
    rw [scan_eq_pass needTickle, Option.map_eq_none_iff] at hscan
    obtain ⟨hpassed, hrest⟩ := pass_of_ft_eq_none hscan
    rw [Pass.fibers, hpassed, hrest, List.append_nil]
    rfl

/-! ## The law -/

/-- A worker wakes others as it should exactly if it may take no entry and there is one pinned to
another thread. -/
theorem tickleLaw_iff (s : State W F C) (tid : ℤ) (dangling : Bool) :
    s.TickleLaw tid dangling ↔
      (∀ e ∈ s.sched.fibers, ¬ Eligible s.executing tid e) ∧
        ∃ e ∈ s.sched.fibers, Elsewhere tid e := by
  rw [← ft_pass_eq_none false]
  constructor
  · rintro ⟨hlaw, hit⟩
    have hft : (pass s.executing tid false s.sched.fibers).ft = none := by
      by_contra hsome
      refine hit (if_pos ?_)
      exact Option.isSome_iff_ne_none.mpr hsome
    obtain ⟨hpassed, hrest⟩ := pass_of_ft_eq_none hft
    refine ⟨hft, ?_⟩
    -- nothing is left unexamined
    have hleft := hlaw.mp (tickles_iff.mpr (Or.inr (Or.inl hft)))
    rw [hpassed, hrest] at hleft
    exact hleft.resolve_right fun hne => hne rfl
  · rintro ⟨hft, helse⟩
    obtain ⟨hpassed, -⟩ := pass_of_ft_eq_none hft
    constructor
    · apply iff_of_true
      · exact tickles_iff.mpr (Or.inr (Or.inl hft))
      · rw [hpassed]
        exact Or.inl helse
    · simp [Pass.it, hft]

/-- With an empty queue a worker calls `tickle`. With two tasks in it that anybody may run, it takes
the first, compares an iterator to a freed node, and calls `tickle` only if that gives `true`. -/
theorem not_tickleLaw :
    ((pass (State.new : State (Fin 1) ℕ ℕ).executing 0 false []).tickles false = true ∧
      ∀ dangling, ¬ (State.new : State (Fin 1) ℕ ℕ).TickleLaw 0 dangling) ∧
    ∃ s : State (Fin 1) ℕ ℕ, s.sched.fibers.length = 2 ∧
      (pass s.executing 0 false s.sched.fibers).rest.length = 1 ∧
      (pass s.executing 0 false s.sched.fibers).it = .erased ∧
      ∀ dangling, (pass s.executing 0 false s.sched.fibers).tickles dangling = dangling ∧
        ¬ s.TickleLaw 0 dangling := by
  refine ⟨⟨rfl, fun dangling hlaw => ?_⟩,
    (State.new.enqueue (.ofCb (some 1) (-1))).enqueue (.ofCb (some 2) (-1)), rfl, rfl, rfl,
    fun dangling => ⟨rfl, fun hlaw => hlaw.2 rfl⟩⟩
  obtain ⟨e, he, -⟩ | hrest := hlaw.1.mp rfl
  · cases he
  · exact hrest rfl

end Sylar.Scheduler
