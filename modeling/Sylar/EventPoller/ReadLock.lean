import Sylar.FdManager.Defs
import Sylar.EventPoller.Defs
import Sylar.Foundation.Run
import Mathlib.Data.Fintype.Basic
import Mathlib.Data.Finset.Card

/-!
# The readers of `m_mtx`

`delEvent`, `cancelEvent` and `cancelAll` look their descriptor up under a `std::shared_lock` on
`m_mtx`. When they have found its context they unlock the mutex itself, behind the back of the lock
object, which unlocks it again when it is destroyed. All three take the same steps on `m_mtx`, at
the exits of `Exit`.

Representation:

* `readers` is the count of shared holds that the mutex keeps. It is an integer, for an unlock too
  many is undefined behaviour;
* a thread that needs the table for itself, as `contextResize` does, takes `m_mtx` exclusively;
* of the table only the size is looked at. The mutexes of contexts are left out: they only delay
  the threads.

`balanceLaw_run_iff` says that the count is right in all states of a run exactly if each call that
has returned had a descriptor outside the table.

The last section is about calls that run at once, for the models in which one step is one call.
`addSection` and `lookup` say which count `addEvent` and the three calls above leave, and when they
return at all: a count that has become negative makes `lock_shared` fail.
-/

namespace Sylar.EventPoller.ReadLock

open Transition

/-- A call that looks a descriptor up and removes events. -/
inductive Call
  | delEvent (fd : ℤ) (event : Event)
  | cancelEvent (fd : ℤ) (event : Event)
  | cancelAll (fd : ℤ)
  deriving DecidableEq, Repr

/-- The descriptor of a call. -/
def Call.fd : Call → ℤ
  | delEvent fd _ => fd
  | cancelEvent fd _ => fd
  | cancelAll fd => fd

/-- The exits of a call. -/
inductive Exit
  /-- `(int)m_fdContexts.size() <= fd`. -/
  | outOfRange
  /-- The event, or any event in `cancelAll`, is not registered. -/
  | unregistered
  /-- `epoll_ctl` fails. -/
  | refused
  | success
  deriving DecidableEq, Repr

/-- Where a thread is. -/
inductive Place
  | idle
  /-- Behind the constructor of `lock`: the read section. -/
  | reading (call : Call)
  /-- Behind `m_mtx.unlock_shared()`. The object `lock` still counts as the owner. -/
  | working (call : Call)
  /-- Under an exclusive lock. -/
  | writing
  deriving DecidableEq, Repr

/-- The thread is in the read section of a call. -/
def Place.reads : Place → Bool
  | reading _ => true
  | _ => false

/-- The mutex and the size of the table, with the places of the threads. `holds` is the number of
times that a thread has acquired a shared hold, less the number of times it has released one. -/
structure State (T : Type*) where
  readers : ℤ
  writer : Option T
  size : ℕ
  place : T → Place
  holds : T → ℤ

/-- What a thread does next. -/
inductive Action (T : Type*)
  /-- `std::shared_lock<MutexType> lock(m_mtx)`. -/
  | call (t : T) (c : Call)
  /-- The descriptor is inside the table, and `m_mtx.unlock_shared()` follows. -/
  | pass (t : T)
  /-- The call returns, and `lock` is destroyed. -/
  | leave (t : T) (exit : Exit)
  | lockExclusive (t : T)
  /-- `m_fdContexts.resize(size)`. -/
  | resize (t : T) (size : ℕ)
  | unlockExclusive (t : T)
  deriving DecidableEq, Repr

namespace State

variable {T : Type*}

/-- Nobody uses the table, which has this size. -/
def start (size : ℕ) : State T where
  readers := 0
  writer := none
  size := size
  place := fun _ => .idle
  holds := fun _ => 0

variable [DecidableEq T]

/-- `lock_shared()` by a thread, which goes to `place`. -/
def acquire (s : State T) (t : T) (place : Place) : State T :=
  { s with
    readers := s.readers + 1
    place := Function.update s.place t place
    holds := Function.update s.holds t (s.holds t + 1) }

/-- `unlock_shared()` by a thread, which goes to `place`. -/
def release (s : State T) (t : T) (place : Place) : State T :=
  { s with
    readers := s.readers - 1
    place := Function.update s.place t place
    holds := Function.update s.holds t (s.holds t - 1) }

/-- The thread goes to `place`. -/
def goto (s : State T) (t : T) (place : Place) : State T :=
  { s with place := Function.update s.place t place }

/-- The state after an action, if the action is possible. -/
def step (s : State T) : Action T → Option (State T)
  | .call t c =>
    if s.place t = .idle ∧ s.writer = none then some (s.acquire t (.reading c)) else none
  | .pass t =>
    match s.place t with
    | .reading c => if c.fd < intSize s.size then some (s.release t (.working c)) else none
    | _ => none
  | .leave t exit =>
    match s.place t with
    | .reading c =>
      if exit = .outOfRange ∧ intSize s.size ≤ c.fd then some (s.release t .idle) else none
    | .working _ => if exit ≠ .outOfRange then some (s.release t .idle) else none
    | _ => none
  | .lockExclusive t =>
    if s.place t = .idle ∧ s.writer = none ∧ s.readers = 0 then
      some ({ s with writer := some t }.goto t .writing)
    else none
  | .resize t size => if s.place t = .writing then some { s with size := size } else none
  | .unlockExclusive t =>
    if s.place t = .writing then some ({ s with writer := none }.goto t .idle) else none

/-- The threads that are in the read section of a call. -/
def inside [Fintype T] (s : State T) : Finset T := Finset.univ.filter fun t => (s.place t).reads

/-- A call has acquired a shared hold that it has not released exactly while it is in its read
section. So the reader count is the number of these calls, and while the mutex is held exclusively
there are none. -/
structure BalanceLaw [Fintype T] (s : State T) : Prop where
  holds : ∀ t, s.holds t = if t ∈ s.inside then 1 else 0
  readers : s.readers = s.inside.card
  writer : s.writer ≠ none → s.inside = ∅

/-- The descriptor of a call that returns is outside the table. -/
def Outside (s : State T) : Action T → Prop
  | .leave t _ => ∃ c, s.place t = .reading c ∧ intSize s.size ≤ c.fd
  | _ => True

/-! ## Steps -/

variable [Fintype T] {s : State T} {t : T} {place : Place}

omit [DecidableEq T] in
theorem mem_inside {u : T} : u ∈ s.inside ↔ (s.place u).reads = true := by
  simp [inside]

/-- Who is in a read section after a thread has gone somewhere. -/
theorem inside_update (s : State T) (t : T) (place : Place) {s' : State T}
    (h : s'.place = Function.update s.place t place) :
    s'.inside = if place.reads then insert t s.inside else s.inside.erase t := by
  ext u
  rw [mem_inside, h]
  by_cases hu : u = t
  · subst hu
    rw [Function.update_self]
    split_ifs with hreads <;> simp [hreads]
  · rw [Function.update_of_ne hu]
    split_ifs <;> simp [hu, mem_inside]

/-- A thread enters its read section. -/
theorem BalanceLaw.acquire (h : BalanceLaw s) (ht : t ∉ s.inside) (hwriter : s.writer = none)
    (c : Call) : BalanceLaw (s.acquire t (.reading c)) := by
  have hinside : (s.acquire t (.reading c)).inside = insert t s.inside := by
    rw [inside_update s t (.reading c) rfl]
    rfl
  refine ⟨fun u => ?_, ?_, fun hne => absurd hwriter hne⟩
  · rw [hinside]
    by_cases hu : u = t
    · subst hu
      simp [State.acquire, h.holds u, ht]
    · simp [State.acquire, h.holds u, hu]
  · rw [hinside, Finset.card_insert_of_notMem ht]
    simp [State.acquire, h.readers]

/-- A release is right exactly when the thread leaves its read section by it. -/
theorem BalanceLaw.release_iff (h : BalanceLaw s) (hplace : place.reads = false) :
    BalanceLaw (s.release t place) ↔ t ∈ s.inside := by
  have hinside : (s.release t place).inside = s.inside.erase t := by
    rw [inside_update s t place rfl, hplace]
    rfl
  constructor
  · intro h'
    by_contra hnot
    -- the thread gives up a hold that it has not got
    have hold := h'.holds t
    rw [hinside, if_neg (Finset.notMem_erase t _)] at hold
    simp [State.release, h.holds t, hnot] at hold
  · intro hin
    refine ⟨fun u => ?_, ?_, fun hne => ?_⟩
    · rw [hinside]
      by_cases hu : u = t
      · subst hu
        simp [State.release, h.holds u, hin]
      · simp [State.release, h.holds u, hu]
    · rw [hinside, Finset.card_erase_of_mem hin]
      have hpos := Finset.card_pos.mpr ⟨t, hin⟩
      have hreaders : (s.release t place).readers = s.inside.card - 1 := by
        rw [← h.readers]
        rfl
      omega
    · have hempty := h.writer hne
      rw [hempty] at hin
      cases hin

/-- A thread that neither comes from a read section nor goes to one, with any change of the writer
that keeps to the law. -/
theorem BalanceLaw.goto (h : BalanceLaw s) (ht : t ∉ s.inside) (hplace : place.reads = false)
    {writer : Option T} (hwriter : writer ≠ none → s.inside = ∅) :
    BalanceLaw ({ s with writer := writer }.goto t place) := by
  have hinside : ({ s with writer := writer }.goto t place).inside = s.inside := by
    rw [inside_update s t place rfl, hplace]
    exact Finset.erase_eq_of_notMem ht
  refine ⟨fun u => ?_, ?_, fun hne => ?_⟩
  · rw [hinside]
    exact h.holds u
  · rw [hinside]
    exact h.readers
  · rw [hinside]
    exact hwriter hne

omit [DecidableEq T] in
theorem not_mem_inside (h : (s.place t).reads = false) : t ∉ s.inside := by
  rw [mem_inside, h]
  exact Bool.false_ne_true

/-- From a state with the law, an action leads to one exactly when it does not end a call whose
descriptor is inside the table. -/
theorem step_iff {s' : State T} {a : Action T} (h : BalanceLaw s) (hstep : s.step a = some s') :
    Outside s a ↔ BalanceLaw s' := by
  cases a with
  | call t c =>
    simp only [step] at hstep
    split_ifs at hstep with hfree
    obtain rfl := Option.some.inj hstep
    have ht : t ∉ s.inside := not_mem_inside (by rw [hfree.1]; rfl)
    exact iff_of_true trivial (h.acquire ht hfree.2 c)
  | pass t =>
    simp only [step] at hstep
    split at hstep
    · rename_i c hplace
      split_ifs at hstep
      obtain rfl := Option.some.inj hstep
      apply iff_of_true trivial
      rw [h.release_iff rfl, mem_inside, hplace]
      rfl
    · cases hstep
  | leave t exit =>
    simp only [step] at hstep
    split at hstep
    · rename_i c hplace
      split_ifs at hstep with hexit
      obtain rfl := Option.some.inj hstep
      rw [h.release_iff rfl, mem_inside, hplace]
      exact iff_of_true ⟨c, hplace, hexit.2⟩ rfl
    · -- `lock` releases what has been released before
      rename_i c hplace
      split_ifs at hstep with hexit
      obtain rfl := Option.some.inj hstep
      rw [h.release_iff rfl, mem_inside, hplace]
      apply iff_of_false _ Bool.false_ne_true
      rintro ⟨c', hplace', -⟩
      rw [hplace] at hplace'
      cases hplace'
    · cases hstep
  | lockExclusive t =>
    simp only [step] at hstep
    split_ifs at hstep with hfree
    obtain rfl := Option.some.inj hstep
    obtain ⟨hidle, -, hreaders⟩ := hfree
    have hempty : s.inside = ∅ := by
      have hcard := h.readers
      rw [hreaders] at hcard
      exact Finset.card_eq_zero.mp (by omega)
    have ht : t ∉ s.inside := not_mem_inside (by rw [hidle]; rfl)
    exact iff_of_true trivial (h.goto ht rfl fun _ => hempty)
  | resize t size =>
    simp only [step] at hstep
    split_ifs at hstep
    obtain rfl := Option.some.inj hstep
    exact iff_of_true trivial ⟨h.holds, h.readers, h.writer⟩
  | unlockExclusive t =>
    simp only [step] at hstep
    split_ifs at hstep with hplace
    obtain rfl := Option.some.inj hstep
    have ht : t ∉ s.inside := not_mem_inside (by rw [hplace]; rfl)
    exact iff_of_true trivial (h.goto ht rfl fun hne => absurd rfl hne)

theorem start_balanceLaw (size : ℕ) : BalanceLaw (start size : State T) where
  holds := by simp [start, inside, Place.reads]
  readers := by simp [start, inside, Place.reads]
  writer := by simp [start]

/-- The law holds in every state of a run exactly if no call returns whose descriptor was inside
the table, whatever its event and the outcome of `epoll_ctl` are. -/
theorem balanceLaw_run_iff (size : ℕ) (ls : List (Action T)) (s : State T) :
    Run (Guarded Outside (ofFun step)) (start size) ls s ↔
      Run (Keeping BalanceLaw (ofFun step)) (start size) ls s := by
  apply Run.guarded_iff_keeping (I := fun _ => True) trivial (start_balanceLaw size)
  · intro _ _ _ _ _
    trivial
  · intro s a s' _ h hstep
    exact step_iff h hstep

/-- A thread cancels an event that is not registered while another one reads the table: a third one
is granted the table for itself. -/
theorem balanceLaw_counterexample : ∃ s : State (Fin 3),
    Run (ofFun step) (start 32)
      [.call 0 (.cancelEvent 5 .READ), .pass 0, .call 1 (.delEvent 7 .WRITE),
        .leave 0 .unregistered, .lockExclusive 2] s ∧
      s.writer = some 2 ∧ 1 ∈ s.inside ∧ ¬ BalanceLaw s := by
  refine ⟨_, Run.of_exec rfl, rfl, by decide, fun h => ?_⟩
  have hempty := h.writer (by decide)
  revert hempty
  decide

end State

/-! ## Calls that run at once -/

/-- `lock_shared()`, and the count it leaves. As long as the count with the new hold would be
negative, glibc takes it for an overflow and fails with `EAGAIN`, upon which libstdc++ tries again:
the call does not return. -/
def lock_shared (readers : ℤ) : Option ℤ :=
  if 0 ≤ readers + 1 then some (readers + 1) else none

/-- `unlock_shared()`, by an object that owns a hold or by nobody. -/
def unlock_shared (readers : ℤ) : ℤ := readers - 1

/-- `readlock` in `addEvent`: one hold, released once. -/
def addSection (readers : ℤ) : Option ℤ := (lock_shared readers).map unlock_shared

/-- `lock` in `delEvent`, `cancelEvent` and `cancelAll`, for a descriptor inside the table or
outside. -/
def lookup (inside : Bool) (readers : ℤ) : Option ℤ :=
  (lock_shared readers).map fun readers =>
    -- `m_mtx.unlock_shared()`, and then the destructor
    unlock_shared (if inside then unlock_shared readers else readers)

/-- A hold is granted from a count of -1 on. -/
theorem lock_shared_eq_some {readers readers' : ℤ} :
    lock_shared readers = some readers' ↔ -1 ≤ readers ∧ readers' = readers + 1 := by
  rw [lock_shared]
  split_ifs with h
  · rw [Option.some_inj]
    omega
  · refine iff_of_false nofun ?_
    omega

/-- `addEvent` keeps the count. -/
theorem addSection_eq_some {readers readers' : ℤ} :
    addSection readers = some readers' ↔ -1 ≤ readers ∧ readers' = readers := by
  simp only [addSection, Option.map_eq_some_iff, lock_shared_eq_some, unlock_shared]
  constructor
  · rintro ⟨held, ⟨hle, rfl⟩, rfl⟩
    exact ⟨hle, by omega⟩
  · rintro ⟨hle, rfl⟩
    exact ⟨_, ⟨hle, rfl⟩, by omega⟩

/-- A lookup inside the table takes one off. -/
theorem lookup_eq_some {inside : Bool} {readers readers' : ℤ} :
    lookup inside readers = some readers' ↔
      -1 ≤ readers ∧ readers' = readers - if inside then 1 else 0 := by
  simp only [lookup, Option.map_eq_some_iff, lock_shared_eq_some, unlock_shared]
  constructor
  · rintro ⟨held, ⟨hle, rfl⟩, rfl⟩
    refine ⟨hle, ?_⟩
    split_ifs <;> omega
  · rintro ⟨hle, rfl⟩
    refine ⟨_, ⟨hle, rfl⟩, ?_⟩
    split_ifs <;> omega

/-- `lookup` is what the steps of a call come to, when no other thread takes one in between. -/
theorem run_lookup {T : Type*} [DecidableEq T] {s : State T} {t : T} (c : Call)
    (hidle : s.place t = .idle) (hwriter : s.writer = none) {readers : ℤ}
    (hlookup : lookup (decide (c.fd < intSize s.size)) s.readers = some readers) :
    ∃ ls s', Run (ofFun State.step) s ls s' ∧ s'.readers = readers ∧ s'.place t = .idle ∧
      s'.writer = none ∧ s'.size = s.size := by
  obtain ⟨-, rfl⟩ := lookup_eq_some.1 hlookup
  have hcall : s.step (.call t c) = some (s.acquire t (.reading c)) := if_pos ⟨hidle, hwriter⟩
  have hplace : (s.acquire t (.reading c)).place t = .reading c := Function.update_self ..
  by_cases hfd : c.fd < intSize s.size
  · let s₁ := (s.acquire t (.reading c)).release t (.working c)
    have hpass : (s.acquire t (.reading c)).step (.pass t) = some s₁ := by
      rw [State.step, hplace]
      exact if_pos hfd
    have hleave : s₁.step (.leave t .success) = some (s₁.release t .idle) := by
      have hworking : s₁.place t = .working c := Function.update_self ..
      rw [State.step, hworking]
      exact if_pos nofun
    refine ⟨_, _, ((Run.single hcall).snoc hpass).snoc hleave, ?_, Function.update_self .., hwriter,
      rfl⟩
    -- one hold, and two releases
    simp only [hfd, decide_true, if_true, s₁, State.release, State.acquire]
    omega
  · have hleave : (s.acquire t (.reading c)).step (.leave t .outOfRange) =
        some ((s.acquire t (.reading c)).release t .idle) := by
      rw [State.step, hplace]
      exact if_pos ⟨rfl, not_lt.1 hfd⟩
    refine ⟨_, _, (Run.single hcall).snoc hleave, ?_, Function.update_self .., hwriter, rfl⟩
    simp only [hfd, decide_false, Bool.false_eq_true, if_false, State.release, State.acquire]
    omega

end Sylar.EventPoller.ReadLock
