import Sylar.Foundation.Run
import Sylar.Foundation.SharedMutex

/-!
# `TimerManager` — the lock of the timer set

The calls of `timer/timer.{h,cpp}` as they use `m_mtx` and `m_timers`, on any set of threads. A
call is a list of instructions (`Call.program`): take the lock in one of its modes, read or modify
`m_timers`, release the lock. What the tests of a call yield is an argument of it, and any
outcome is possible.

`addTimer` inserts under a shared lock; the other calls modify the set under an exclusive one.
`TimerLaw` says that nobody uses the set while a thread modifies it, and `timer_law` that it holds
as long as `addTimer` takes its lock only when no other holder has an access to come, and nobody
else takes a shared lock while a holder of one has an insertion to come.
-/

namespace Sylar.TimerManager.SetLock

open Locking Transition

/-- A step of a call. -/
inductive Instr
  /-- `std::shared_lock` or `std::unique_lock` on `m_mtx`. -/
  | lock (mode : Mode)
  /-- A read of `m_timers`, shared, or a modification, exclusive. -/
  | access (mode : Mode)
  /-- The end of the block of the lock. -/
  | unlock
  deriving DecidableEq, Repr

/-- The calls, with what their tests yield. -/
inductive Call
  /-- `TimerManager::addTimer(ms, cb, recurring)`. -/
  | addTimer
  | hasTimer
  | getNextTimer (empty : Bool)
  /-- The loop passes over `passed` timers; `recurring` of the expired ones are inserted again. -/
  | listExpiredCb (empty : Bool) (passed recurring : ℕ)
  /-- `m_cb` is set or not, and `find` finds the timer or not. -/
  | cancel (active found : Bool)
  /-- `unchanged` is `ms == m_ms && !from_now`. -/
  | reset (unchanged active found : Bool)
  deriving DecidableEq, Repr

/-- `m_timers.find(..)`, and `m_timers.erase(it)` if the timer is found. -/
def findErase (found : Bool) : List Instr :=
  .access .shared :: if found then [.access .exclusive] else []

/-- The steps of a call. -/
def Call.program : Call → List Instr
  | .addTimer =>
    -- `insert`, then `begin`
    [.lock .shared, .access .exclusive, .access .shared, .unlock]
  | .hasTimer => [.lock .shared, .access .shared, .unlock]
  | .getNextTimer empty =>
    [.lock .shared, .access .shared] ++ (if empty then [] else [.access .shared]) ++ [.unlock]
  | .listExpiredCb empty passed recurring =>
    [.lock .shared, .access .shared, .unlock] ++
      if empty then []
      else
        -- `lower_bound`, the tests of the loop, the copy, `erase`, and the insertions
        [.lock .exclusive, .access .shared] ++ List.replicate (passed + 1) (.access .shared) ++
          [.access .shared, .access .exclusive] ++
          List.replicate recurring (.access .exclusive) ++ [.unlock]
  | .cancel active found =>
    [.lock .exclusive] ++ (if active then findErase found else []) ++ [.unlock]
  | .reset unchanged active found =>
    if unchanged then []
    else [.lock .exclusive] ++ (if active then findErase found else []) ++ [.unlock]

/-- The lock, and what is left of the call of each thread. -/
structure State (T : Type*) where
  mutex : SharedMutex T
  rest : T → List Instr

/-- What a thread does next. -/
inductive Action (T : Type*)
  | call (t : T) (c : Call)
  | next (t : T)

variable {T : Type*} [DecidableEq T]

/-- No call is in progress. -/
def State.new : State T where
  mutex := .free
  rest := fun _ => []

/-- The thread goes on with these instructions. -/
def State.goto (s : State T) (t : T) (rest : List Instr) : State T :=
  { s with rest := Function.update s.rest t rest }

/-- The state after an action, if the action is possible. -/
def step (s : State T) : Action T → Option (State T)
  | .call t c =>
    match s.rest t with
    | [] => some (s.goto t c.program)
    | _ => none
  | .next t =>
    match s.rest t with
    | [] => none
    | .lock m :: rest =>
      (s.mutex.lock t m).map fun mutex => { s with mutex := mutex }.goto t rest
    | .access _ :: rest => some (s.goto t rest)
    | .unlock :: rest => some ({ s with mutex := s.mutex.unlock t }.goto t rest)

/-- What the thread does with the set at the moment. -/
def State.accessing (s : State T) (t : T) : Option Mode :=
  match s.rest t with
  | .access m :: _ => some m
  | _ => none

/-- While a thread modifies the set, no other thread reads or modifies it. -/
def TimerLaw (s : State T) : Prop :=
  ∀ t u, t ≠ u → s.accessing t = some .exclusive → s.accessing u = none

/-- The accesses to come before the next step on the lock. -/
def pending : List Instr → Option Mode
  | .access .exclusive :: _ => some .exclusive
  | .access .shared :: rest =>
    if pending rest = some .exclusive then some .exclusive else some .shared
  | _ => none

/-- What a thread may still do under the lock that it holds. -/
def State.pending (s : State T) (t : T) : Option Mode := SetLock.pending (s.rest t)

/-- A shared lock is taken only when the accesses to come under it are compatible with those that
other holders have to come. -/
def LocksApart (s : State T) : Action T → Prop
  | .call _ _ => True
  | .next t =>
    match s.rest t with
    | .lock .shared :: rest =>
      ∀ m, SetLock.pending rest = some m → Admits s.pending t m
    | _ => True

/-! ## Programs -/

/-- The set is accessed under the lock only, which is released at the end. -/
def Bracketed : Bool → List Instr → Prop
  | held, [] => held = false
  | held, .lock _ :: rest => held = false ∧ Bracketed true rest
  | held, .access _ :: rest => held = true ∧ Bracketed true rest
  | held, .unlock :: rest => held = true ∧ Bracketed false rest

theorem bracketed_replicate (k : ℕ) (m : Mode) {rest : List Instr} (h : Bracketed true rest) :
    Bracketed true (List.replicate k (.access m) ++ rest) := by
  induction k with
  | zero => exact h
  | succ k ih => exact ⟨rfl, ih⟩

theorem bracketed_findErase (found : Bool) {rest : List Instr} (h : Bracketed true rest) :
    Bracketed true (findErase found ++ rest) := by
  cases found
  · exact ⟨rfl, h⟩
  · exact ⟨rfl, rfl, h⟩

/-- Every call accesses the set under the lock only. -/
theorem bracketed_program (c : Call) : Bracketed false c.program := by
  have hunlock : Bracketed true [.unlock] := ⟨rfl, rfl⟩
  cases c with
  | addTimer => exact ⟨rfl, rfl, rfl, hunlock⟩
  | hasTimer => exact ⟨rfl, rfl, hunlock⟩
  | getNextTimer empty =>
    cases empty
    · exact ⟨rfl, rfl, rfl, hunlock⟩
    · exact ⟨rfl, rfl, hunlock⟩
  | listExpiredCb empty passed recurring =>
    cases empty
    · refine ⟨rfl, rfl, rfl, rfl, rfl, ?_⟩
      have hinsert := bracketed_replicate recurring .exclusive hunlock
      have herase : Bracketed true ([.access .shared, .access .exclusive] ++
          (List.replicate recurring (.access .exclusive) ++ [.unlock])) := ⟨rfl, rfl, hinsert⟩
      simpa using bracketed_replicate (passed + 1) .shared herase
    · exact ⟨rfl, rfl, rfl, rfl⟩
  | cancel active found =>
    cases active
    · exact ⟨rfl, hunlock⟩
    · exact ⟨rfl, bracketed_findErase found hunlock⟩
  | reset unchanged active found =>
    cases unchanged
    · cases active
      · exact ⟨rfl, hunlock⟩
      · exact ⟨rfl, bracketed_findErase found hunlock⟩
    · rfl

/-- Outside the lock nothing is to come. -/
theorem pending_eq_none {rest : List Instr} (h : Bracketed false rest) : pending rest = none := by
  cases rest with
  | nil => rfl
  | cons i rest =>
    cases i with
    | lock m => rfl
    | access m => cases h.1
    | unlock => rfl

theorem pending_access (m : Mode) (rest : List Instr) :
    Weaker (pending rest) (pending (.access m :: rest)) := by
  intro m' hm'
  cases m with
  | exclusive => exact Or.inr rfl
  | shared =>
    cases m' with
    | exclusive => exact Or.inr (by rw [pending, if_pos hm'])
    | shared => exact Or.inl (by rw [pending, if_neg (by simp [hm'])])

/-! ## The invariant -/

/-- Threads use the set under the lock, and what they may still do is compatible. -/
structure Inv (s : State T) : Prop where
  bracketed : ∀ t, Bracketed (s.mutex.mode t).isSome (s.rest t)
  exclusive : Exclusive s.pending

theorem pending_goto (s : State T) (t : T) (rest : List Instr) :
    (s.goto t rest).pending = Function.update s.pending t (pending rest) := by
  ext u : 1
  by_cases hu : u = t
  · subst hu
    simp [State.pending, State.goto]
  · simp [State.pending, State.goto, hu]

/-- What a step of a thread has to keep to. -/
theorem Inv.goto {s : State T} (h : Inv s) {t : T} {mutex : SharedMutex T} {o : Option Mode}
    {rest : List Instr} (hmode : mutex.mode = Function.update s.mutex.mode t o)
    (hrest : Bracketed o.isSome rest)
    (huse : Exclusive (Function.update s.pending t (pending rest))) :
    Inv ({ s with mutex := mutex }.goto t rest) := by
  refine ⟨fun u => ?_, by rwa [pending_goto]⟩
  by_cases hu : u = t
  · subst hu
    simpa [State.goto, hmode] using hrest
  · simpa [State.goto, hmode, hu] using h.bracketed u

/-- Where a lock is taken exclusively, nobody else has an access to come. -/
theorem Inv.admits_exclusive {s : State T} (h : Inv s) {t : T} {mutex : SharedMutex T}
    (hlock : s.mutex.lock t .exclusive = some mutex) (use : Mode) : Admits s.pending t use := by
  obtain ⟨-, halone, -⟩ := SharedMutex.lock_eq_some hlock
  intro u hu m' hm'
  have hout : Bracketed (s.mutex.mode u).isSome (s.rest u) := h.bracketed u
  cases hmode : s.mutex.mode u with
  | none =>
    rw [hmode] at hout
    rw [State.pending, pending_eq_none hout] at hm'
    cases hm'
  | some k => cases (halone u hu k hmode).1

/-- A lock may be taken where the accesses to come under it are admitted. -/
theorem Inv.lock {s : State T} (h : Inv s) {t : T} {m : Mode} {mutex : SharedMutex T}
    {rest : List Instr} (hlock : s.mutex.lock t m = some mutex) (hrest : Bracketed true rest)
    (hadmits : ∀ use, pending rest = some use → Admits s.pending t use) :
    Inv ({ s with mutex := mutex }.goto t rest) := by
  obtain ⟨-, -, hmode⟩ := SharedMutex.lock_eq_some hlock
  refine h.goto (o := some m) hmode hrest ?_
  cases huse : pending rest with
  | none => exact h.exclusive.weaken (weaker_none _)
  | some use => exact h.exclusive.enter (hadmits use huse)

/-- One step, when no lock is taken beside a conflicting holder. -/
theorem inv_step {s s' : State T} {a : Action T} (h : Inv s) (hapart : LocksApart s a)
    (hst : step s a = some s') : Inv s' := by
  cases a with
  | call t c =>
    rw [step] at hst
    split at hst
    · rename_i hrest
      cases hst
      -- between its calls a thread does not hold the lock
      have hmode : s.mutex.mode t = none := by
        have hidle := h.bracketed t
        rw [hrest] at hidle
        simpa [Bracketed] using hidle
      refine h.goto (o := none) ?_ (bracketed_program c) ?_
      · rw [← hmode, Function.update_eq_self]
      · rw [pending_eq_none (bracketed_program c)]
        exact h.exclusive.weaken (weaker_none _)
    · cases hst
  | next t =>
    have hheld := h.bracketed t
    have hpending : s.pending t = pending (s.rest t) := rfl
    rw [step] at hst
    cases hrest : s.rest t with
    | nil => simp [hrest] at hst
    | cons i rest =>
      rw [hrest] at hst hheld hpending
      cases i with
      | lock m =>
        obtain ⟨mutex, hmutex, rfl⟩ := Option.map_eq_some_iff.1 hst
        refine h.lock hmutex hheld.2 fun use huse => ?_
        cases m with
        | shared =>
          -- the lock does not keep other readers out, but the condition does
          simp only [LocksApart, hrest] at hapart
          exact hapart use huse
        | exclusive => exact h.admits_exclusive hmutex use
      | access m =>
        cases hst
        obtain ⟨hsome, hrest'⟩ := hheld
        refine h.goto (o := s.mutex.mode t) ?_ (by rwa [hsome]) ?_
        · rw [Function.update_eq_self]
        · refine h.exclusive.weaken ?_
          rw [hpending]
          exact pending_access m rest
      | unlock =>
        cases hst
        refine h.goto (o := none) (s.mutex.mode_unlock t) hheld.2 ?_
        rw [pending_eq_none hheld.2]
        exact h.exclusive.weaken (weaker_none _)

theorem new_inv : Inv (State.new : State T) :=
  ⟨fun _ => rfl, fun _ _ _ _ _ h _ => (nomatch h)⟩

/-! ## The law -/

theorem pending_access_ne_none (m : Mode) (rest : List Instr) :
    pending (.access m :: rest) ≠ none := by
  cases m with
  | exclusive => exact nofun
  | shared =>
    rw [pending]
    split <;> simp

/-- Those who use the set are compatible. -/
theorem Inv.timerLaw {s : State T} (h : Inv s) : TimerLaw s := by
  intro t u htu hmodify
  have ht : s.pending t = some .exclusive := by
    rw [State.accessing] at hmodify
    split at hmodify
    · rename_i hrest
      obtain rfl := Option.some_inj.1 hmodify
      rw [State.pending, hrest]
      rfl
    · cases hmodify
  have hu : pending (s.rest u) = none := h.exclusive.eq_none ht (Ne.symm htu)
  rw [State.accessing]
  split
  · rename_i m rest hrest
    rw [hrest] at hu
    exact absurd hu (pending_access_ne_none m rest)
  · rfl

/-- In every run whose locks are taken apart, the law holds in every state reached. -/
theorem timer_law {actions : List (Action T)} {s : State T}
    (hrun : Run (Guarded LocksApart (ofFun step)) State.new actions s) : TimerLaw s := by
  have hinv : Inv s := hrun.invariant new_inv fun _ _ _ h hst => inv_step h hst.1 hst.2
  exact hinv.timerLaw

/-- Two threads read the set beside each other. -/
theorem timer_law_example : ∃ s : State Bool,
    Run (Guarded LocksApart (ofFun step)) State.new
      [.call true .hasTimer, .call false .hasTimer, .next true, .next false] s ∧
      (∀ t, s.accessing t = some .shared) ∧ TimerLaw s := by
  have hrun : ∃ s : State Bool, Run (Guarded LocksApart (ofFun step)) State.new
      [.call true .hasTimer, .call false .hasTimer, .next true, .next false] s ∧
      ∀ t, s.accessing t = some .shared := by
    refine ⟨_, .cons ⟨trivial, rfl⟩ (.cons ⟨trivial, rfl⟩ (.cons ⟨?_, rfl⟩ (.cons ⟨?_, rfl⟩
      .refl))), ?_⟩
    · rintro m - u hu m' hm'
      obtain rfl : u = false := by simpa using hu
      cases hm'
    · rintro m hm u hu m' hm'
      obtain rfl : u = true := by simpa using hu
      exact ⟨(Option.some_inj.1 hm).symm, (Option.some_inj.1 hm').symm⟩
    · rintro (_ | _) <;> rfl
  obtain ⟨s, hrun, haccess⟩ := hrun
  exact ⟨s, hrun, haccess, timer_law hrun⟩

/-- Two threads insert a timer at the same time. -/
theorem not_timerLaw_addTimer : ∃ (actions : List (Action Bool)) (s : State Bool),
    Run (ofFun step) State.new actions s ∧ ¬ TimerLaw s := by
  refine ⟨[.call true .addTimer, .call false .addTimer, .next true, .next false], _,
    Run.of_exec rfl, fun h => ?_⟩
  cases h true false (by decide) rfl

end Sylar.TimerManager.SetLock
