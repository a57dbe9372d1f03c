import Sylar.Hook.Defs
import Sylar.Hook.Waits

/-!
# `do_io`

The retry loop of the hooks that read and write, over a finite script of the results of the wrapped
call. An interrupted call is repeated at once. After `EAGAIN` the fiber waits (`LockedPoller.wait`)
and the call is repeated, unless the wait was refused or timed out.

* `Attempt.outcome` — the result with which an attempt ends the loop, if it does;
* `DoIoLaw` — `do_io` returns the first such result, has waited once for each `EAGAIN` on the way,
  and leaves neither a timer nor a registration behind;
* `Admitted` — the call and those who wake it get every hold on `m_mtx` that they ask for;
* `doIoLaw_iff` — the law holds exactly if the descriptor lies inside the table of contexts and the
  call is admitted, or if `addEvent` is not reached. Outside the table, `addEvent` locks `m_mtx`
  again and does not return.

A script that ends before the loop does stands for a call that has not returned yet.
-/

namespace Sylar.Hook

open EventPoller TimerManager

/-- One call of the wrapped function. On `EAGAIN` a wait follows; `errno` is what `errno` holds
after `addEvent` has failed. -/
structure Attempt (Addr : Type*) where
  n : SysResult
  round : Round Addr
  errno : Errno
  deriving DecidableEq, Repr

/-- The arguments of `do_io`, and the scheduler and the fiber of the calling thread. -/
structure IoCall (S F : Type*) where
  fd : ℕ
  event : Event
  timeout_so : FdCtx.Timeout
  scheduler : S
  fiber : F

/-- The waits of the call, with the timeout found in the context. -/
def IoCall.call {S F : Type*} (io : IoCall S F) (ctx : FdCtx) : Call S F where
  fd := io.fd
  event := io.event
  timeout := ctx.getTimeout io.timeout_so
  scheduler := io.scheduler
  fiber := io.fiber

/-- How far a call has got: what it has returned, if it has, and how often it has waited. -/
structure Outcome (Addr S F C : Type*) where
  ret : Option SysResult
  waits : ℕ
  poller : LockedPoller Addr S F C

variable {Addr S F C : Type*} [LinearOrder Addr] [DecidableEq F]

/-- `do_io` from the label `retry` on. -/
def retry (call : Call S F) (script : List (Attempt Addr)) (waits cancelled : ℕ)
    (poller : LockedPoller Addr S F C) : Except Stuck (Outcome Addr S F C) :=
  match script with
  | [] => .ok ⟨none, waits, poller⟩
  | a :: script =>
    match a.n with
    | .returns n => .ok ⟨some (.returns n), waits, poller⟩
    | .fails errno =>
      -- `while(n == -1 && errno == EINTR)`
      if errno = EINTR then retry call script waits cancelled poller
      else if errno = EAGAIN then
        match poller.wait call waits cancelled a.round with
        | .error stuck => .error stuck
        | .ok (.refused, poller) => .ok ⟨some (.fails a.errno), waits, poller⟩
        | .ok (.resumed cancelled, poller) =>
          if h : cancelled ≠ 0 then .ok ⟨some (.fails ⟨cancelled, h⟩), waits + 1, poller⟩
          else retry call script (waits + 1) cancelled poller -- `goto retry`
      else .ok ⟨some (.fails errno), waits, poller⟩

/-- `do_io`, on a thread with or without hooks, with the contexts in `m`. -/
def do_io (hook_enable : Bool) (m : FdManager) (io : IoCall S F) (script : List (Attempt Addr))
    (poller : LockedPoller Addr S F C) : Except Stuck (Outcome Addr S F C) :=
  let plain := Except.ok ⟨script.head?.map Attempt.n, 0, poller⟩
  if !hook_enable then plain
  else
    match m.lookup io.fd with
    | none => plain
    | some (_, ctx) =>
      if ctx.isClosed then .ok ⟨some (.fails EBADF), 0, poller⟩
      else if !ctx.isSocket || ctx.userNonblock then plain
      else retry (io.call ctx) script 0 0 poller

/-! ## What a script asks for -/

namespace Attempt

variable (a : Attempt Addr)

/-- The result with which the attempt ends the call, if it does. -/
def outcome : Option SysResult :=
  if a.n = .fails EINTR then none
  else if a.n = .fails EAGAIN then
    if !a.round.granted then some (.fails a.errno)
    else if a.round.wake.timesOut then some (.fails ETIMEDOUT)
    else none
  else some a.n

/-- The attempt makes the fiber wait. -/
def waits : Bool := a.n = .fails EAGAIN && a.round.granted

/-- The attempt can happen: a timer lies at an address that is free, and a wait is woken as it can
be. -/
def Possible (call : Call S F) (timers : TimerManager Addr Callback) : Prop :=
  a.n = .fails EAGAIN → (call.timeout ≠ -1 → timers.heap a.round.p = none) ∧
    (a.round.granted = true → a.round.wake.Possible call a.round.now)

/-- The wait of the attempt, if there is one, gets its holds on `m_mtx` from this reader count. -/
def Admits (readers : ℤ) : Prop := a.n = .fails EAGAIN → a.round.Admits readers

/-- The reader count that the attempt leaves. -/
def leaves (readers : ℤ) : ℤ := if a.n = .fails EAGAIN then a.round.leaves readers else readers

end Attempt

/-- Every wait up to the end of the call gets its holds on `m_mtx`, begun at this reader count. -/
def Admitted (readers : ℤ) : List (Attempt Addr) → Prop
  | [] => True
  | a :: script => a.Admits readers ∧ (a.outcome = none → Admitted (a.leaves readers) script)

/-- The attempts up to the one that ends the call. -/
def performed : List (Attempt Addr) → List (Attempt Addr)
  | [] => []
  | a :: script => if a.outcome.isSome then [a] else a :: performed script

/-- The first result of the wrapped function that is not `EINTR`. -/
def firstResult (script : List (Attempt Addr)) : Option SysResult :=
  (script.map Attempt.n).find? (· ≠ .fails EINTR)

/-- The call gets on. It has returned the outcome of the first attempt that has one, it has waited
once for each `EAGAIN` on the way for which `addEvent` succeeded, no timer is pending that was not
pending before, and its event is not registered. -/
def DoIoLaw (io : IoCall S F) (script : List (Attempt Addr)) (poller : LockedPoller Addr S F C)
    (result : Except Stuck (Outcome Addr S F C)) : Prop :=
  ∃ out, result = .ok out ∧ out.ret = script.findSome? Attempt.outcome ∧
    out.waits = (performed script).countP Attempt.waits ∧
    (∀ p ∈ out.poller.timers.timers, p ∈ poller.timers.timers) ∧
    ¬ out.poller.events.HasBit io.fd io.event

/-! ## The loop -/

section Loop

variable {call : Call S F} {script : List (Attempt Addr)} {poller : LockedPoller Addr S F C}
  {a : Attempt Addr}

/-- One attempt, whose wait gets its holds. -/
theorem retry_cons (h : poller.Ready call) (ha : a.Possible call poller.timers)
    (hadmits : a.Admits poller.readers) (script : List (Attempt Addr)) (waits : ℕ) :
    ∃ poller' : LockedPoller Addr S F C,
      retry call (a :: script) waits 0 poller =
        (match a.outcome with
        | some ret => .ok ⟨some ret, waits + if a.waits then 1 else 0, poller'⟩
        | none => retry call script (waits + if a.waits then 1 else 0) 0 poller') ∧
      poller'.Ready call ∧ Settled poller.timers poller'.timers ∧
      poller'.readers = a.leaves poller.readers := by
  have hstay : poller.Ready call ∧ Settled poller.timers poller.timers := ⟨h, .refl h.timers⟩
  cases hn : a.n with
  | returns n =>
    exact ⟨poller, by simp [retry, Attempt.outcome, Attempt.waits, hn], hstay.1, hstay.2,
      by simp [Attempt.leaves, hn]⟩
  | fails errno =>
    by_cases hintr : errno = EINTR
    · subst hintr
      have hne : EINTR ≠ EAGAIN := by decide
      exact ⟨poller, by simp [retry, Attempt.outcome, Attempt.waits, hn, hne], hstay.1, hstay.2,
        by simp [Attempt.leaves, hn, hne]⟩
    · by_cases hagain : errno = EAGAIN
      · -- a wait, after which the call is over or repeated
        subst hagain
        obtain ⟨hp, hwake⟩ := ha hn
        obtain ⟨poller', heq, hready, hsettled, hreaders⟩ :=
          LockedPoller.wait_spec h hp hwake (hadmits hn) waits
        refine ⟨poller', ?_, hready, hsettled, by simp [Attempt.leaves, hn, hreaders]⟩
        have hne : EAGAIN ≠ EINTR := by decide
        cases hgranted : a.round.granted with
        | false => simp [retry, Attempt.outcome, Attempt.waits, hn, hne, heq, Round.ends, hgranted]
        | true =>
          cases hcause : a.round.wake <;>
            simp [retry, Attempt.outcome, Attempt.waits, hn, hne, heq, Round.ends, hgranted,
              hcause, Wake.flag, Wake.timesOut, ETIMEDOUT]
      · exact ⟨poller, by simp [retry, Attempt.outcome, Attempt.waits, hn, hintr, hagain],
          hstay.1, hstay.2, by simp [Attempt.leaves, hn, hagain]⟩

/-- One attempt, whose wait does not. -/
theorem retry_cons_of_not_admits (h : poller.Ready call) (ha : a.Possible call poller.timers)
    (hnot : ¬ a.Admits poller.readers) (script : List (Attempt Addr)) (waits : ℕ) :
    retry call (a :: script) waits 0 poller = .error .lock := by
  obtain ⟨hn, hstuck⟩ := Classical.not_imp.1 hnot
  obtain ⟨hp, hwake⟩ := ha hn
  have hne : EAGAIN ≠ EINTR := by decide
  simp [retry, hn, hne, LockedPoller.wait_of_not_admits h hp hwake hstuck waits]

omit [DecidableEq F] in
/-- The addresses of the later timers are still free after an attempt. -/
theorem possible_of_settled {timers timers' : TimerManager Addr Callback}
    (hpossible : ∀ b ∈ a :: script, b.Possible call timers) (hsettled : Settled timers timers') :
    ∀ b ∈ script, b.Possible call timers' := by
  intro b hb hn
  obtain ⟨hp, hwake⟩ := hpossible b (by simp [hb]) hn
  exact ⟨fun hto => hsettled.free _ (hp hto), hwake⟩

/-- The loop, where every wait gets its holds. -/
theorem retry_spec (h : poller.Ready call)
    (hpossible : ∀ a ∈ script, a.Possible call poller.timers)
    (hadmitted : Admitted poller.readers script) (waits : ℕ) :
    ∃ out, retry call script waits 0 poller = .ok out ∧
      out.ret = script.findSome? Attempt.outcome ∧
      out.waits = waits + (performed script).countP Attempt.waits ∧
      out.poller.Ready call ∧ Settled poller.timers out.poller.timers := by
  induction script generalizing waits poller with
  | nil => exact ⟨_, rfl, rfl, rfl, h, .refl h.timers⟩
  | cons a script ih =>
    obtain ⟨hadmits, hadmitted⟩ := hadmitted
    obtain ⟨poller', heq, hready, hsettled, hreaders⟩ :=
      retry_cons h (hpossible a (by simp)) hadmits script waits
    cases hout : a.outcome with
    | some ret =>
      refine ⟨_, by rw [heq, hout], ?_, ?_, hready, hsettled⟩
      · simp [hout]
      · simp [performed, hout, List.countP_cons]
    | none =>
      obtain ⟨out, hok, hret, hwaits, hready', hsettled'⟩ :=
        ih hready (possible_of_settled hpossible hsettled) (hreaders ▸ hadmitted hout)
          (waits + if a.waits then 1 else 0)
      refine ⟨out, by rw [heq, hout, hok], ?_, ?_, hready', hsettled.trans hsettled'⟩
      · rw [hret, List.findSome?_cons, hout]
      · rw [hwaits, performed, hout, Option.isSome_none, if_neg Bool.false_ne_true,
          List.countP_cons]
        omega

/-- Where some wait does not, the loop ends there. -/
theorem retry_of_not_admitted (h : poller.Ready call)
    (hpossible : ∀ a ∈ script, a.Possible call poller.timers)
    (hnot : ¬ Admitted poller.readers script) (waits : ℕ) :
    retry call script waits 0 poller = .error .lock := by
  induction script generalizing waits poller with
  | nil => exact absurd trivial hnot
  | cons a script ih =>
    have ha := hpossible a (by simp)
    by_cases hadmits : a.Admits poller.readers
    · obtain ⟨poller', heq, hready, hsettled, hreaders⟩ := retry_cons h ha hadmits script waits
      -- the wait that does not is a later one
      simp only [Admitted, hadmits, true_and, Classical.not_imp] at hnot
      obtain ⟨hout, hnot⟩ := hnot
      rw [heq, hout]
      exact ih hready (possible_of_settled hpossible hsettled) (hreaders ▸ hnot) _
    · exact retry_cons_of_not_admits h ha hadmits script waits

/-- A call whose first result is not `EAGAIN` returns it without a wait. -/
theorem retry_of_firstResult (h : firstResult script ≠ some (.fails EAGAIN))
    (waits cancelled : ℕ) :
    retry call script waits cancelled poller = .ok ⟨firstResult script, waits, poller⟩ := by
  induction script with
  | nil => rfl
  | cons a script ih =>
    cases hn : a.n with
    | returns n => simp [retry, firstResult, hn]
    | fails errno =>
      by_cases hintr : errno = EINTR
      · subst hintr
        have hfirst : firstResult (a :: script) = firstResult script := by simp [firstResult, hn]
        rw [hfirst] at h ⊢
        simp [retry, hn, ih h]
      · by_cases hagain : errno = EAGAIN
        · subst hagain
          exact absurd (by simp [firstResult, hn, hintr]) h
        · simp [retry, firstResult, hn, hintr, hagain]

/-- Outside the table of contexts, the loop gets as far as the first `EAGAIN`. -/
theorem retry_of_length_le (h : poller.events.fdContexts.length ≤ call.fd)
    (hfirst : firstResult script = some (.fails EAGAIN)) (waits cancelled : ℕ) :
    ∃ stuck, retry call script waits cancelled poller = .error stuck := by
  induction script with
  | nil => cases hfirst
  | cons a script ih =>
    cases hn : a.n with
    | returns n => simp [firstResult, hn] at hfirst
    | fails errno =>
      by_cases hintr : errno = EINTR
      · subst hintr
        have hrest : firstResult (a :: script) = firstResult script := by simp [firstResult, hn]
        obtain ⟨stuck, heq⟩ := ih (hrest ▸ hfirst)
        exact ⟨stuck, by simp [retry, hn, heq]⟩
      · obtain rfl : errno = EAGAIN := by simpa [firstResult, hn, hintr] using hfirst
        obtain ⟨stuck, heq⟩ := LockedPoller.wait_of_length_le h waits cancelled a.round
        exact ⟨stuck, by simp [retry, hn, hintr, heq]⟩

omit [LinearOrder Addr] in
/-- What such a call should return, and how often it should wait. -/
theorem findSome?_outcome (h : firstResult script ≠ some (.fails EAGAIN)) :
    script.findSome? Attempt.outcome = firstResult script ∧
      (performed script).countP Attempt.waits = 0 := by
  induction script with
  | nil => exact ⟨rfl, rfl⟩
  | cons a script ih =>
    by_cases hintr : a.n = .fails EINTR
    · have hfirst : firstResult (a :: script) = firstResult script := by simp [firstResult, hintr]
      have hne : EINTR ≠ EAGAIN := by decide
      obtain ⟨hsome, hcount⟩ := ih (hfirst ▸ h)
      rw [hfirst, ← hsome, ← hcount]
      simp [Attempt.outcome, Attempt.waits, performed, hintr, hne]
    · have hfirst : firstResult (a :: script) = some a.n := by simp [firstResult, hintr]
      have hagain : a.n ≠ .fails EAGAIN := fun heq => h (hfirst.trans (congrArg some heq))
      rw [hfirst]
      simp [Attempt.outcome, Attempt.waits, performed, hintr, hagain]

end Loop

/-! ## The law -/

section Law

variable {m : FdManager} {io : IoCall S F} {p : ℕ} {ctx : FdCtx} {script : List (Attempt Addr)}
  {poller : LockedPoller Addr S F C}

/-- On an open socket in blocking mode, hooks run the loop. -/
theorem do_io_eq_retry (hctx : m.lookup io.fd = some (p, ctx)) (hopen : ctx.isClosed = false)
    (hsocket : ctx.isSocket = true) (hblocking : ctx.userNonblock = false) :
    do_io true m io script poller = retry (io.call ctx) script 0 0 poller := by
  simp [do_io, hctx, hopen, hsocket, hblocking]

/-- The choice of `do_io` is that of the model in which sockets stay non-blocking. -/
theorem do_io_eq_doIo (w : World) (io : IoCall S F) (script : List (Attempt Addr))
    (poller : LockedPoller Addr S F C) :
    match w.doIo io.fd with
    | .fails => do_io true w.manager io script poller = .ok ⟨some (.fails EBADF), 0, poller⟩
    | .calls =>
      do_io true w.manager io script poller = .ok ⟨script.head?.map Attempt.n, 0, poller⟩
    | .waits => ∃ p ctx, w.manager.lookup io.fd = some (p, ctx) ∧
      do_io true w.manager io script poller = retry (io.call ctx) script 0 0 poller := by
  unfold World.doIo
  cases hctx : w.manager.lookup io.fd with
  | none => simp [do_io, hctx]
  | some found =>
    obtain ⟨p, ctx⟩ := found
    cases hclosed : ctx.isClosed with
    | true => simp [do_io, hctx, hclosed]
    | false =>
      by_cases hplain : (!ctx.isSocket || ctx.userNonblock) = true
      · simp [do_io, hctx, hclosed, hplain]
      · simp [do_io, hctx, hclosed, hplain]

/-- On an open socket in blocking mode that has a context and whose event is not registered, in
every state of the poller in which no timer of the call is pending, the law holds exactly if the
descriptor has a context in the poller and every wait gets its holds on `m_mtx`, or the first result
that is not `EINTR` is not `EAGAIN`. -/
theorem doIoLaw_iff (hctx : m.lookup io.fd = some (p, ctx)) (hopen : ctx.isClosed = false)
    (hsocket : ctx.isSocket = true) (hblocking : ctx.userNonblock = false)
    (hevents : WF poller.events) (hbit : ¬ poller.events.HasBit io.fd io.event)
    (htimers : WF poller.timers) (hquiet : Quiet poller.timers)
    (hpossible : ∀ a ∈ script, a.Possible (io.call ctx) poller.timers) :
    DoIoLaw io script poller (do_io true m io script poller) ↔
      io.fd < poller.events.fdContexts.length ∧ Admitted poller.readers script ∨
        firstResult script ≠ some (.fails EAGAIN) := by
  rw [do_io_eq_retry hctx hopen hsocket hblocking]
  by_cases hfirst : firstResult script = some (.fails EAGAIN)
  · rw [or_iff_left (not_not.2 hfirst)]
    by_cases hfd : io.fd < poller.events.fdContexts.length
    · have hready : poller.Ready (io.call ctx) := ⟨hevents.idle hfd hbit, htimers, hquiet⟩
      rw [and_iff_right hfd]
      by_cases hadmitted : Admitted poller.readers script
      -- every attempt leaves the poller as the next one needs it
      · refine iff_of_true ?_ hadmitted
        obtain ⟨out, hok, hret, hwaits, hready', hsettled⟩ :=
          retry_spec hready hpossible hadmitted 0
        exact ⟨out, hok, hret, hwaits.trans (Nat.zero_add _), fun q hq => (hsettled.pending q hq).1,
          hready'.events.not_hasBit⟩
      · rw [retry_of_not_admitted hready hpossible hadmitted]
        refine iff_of_false ?_ hadmitted
        rintro ⟨out, hok, -⟩
        cases hok
    -- the first `EAGAIN` is the last result that the loop sees
    · have hle : poller.events.fdContexts.length ≤ (io.call ctx).fd := not_lt.1 hfd
      obtain ⟨stuck, heq⟩ := retry_of_length_le hle hfirst 0 0
      rw [heq]
      refine iff_of_false ?_ fun hin => hfd hin.1
      rintro ⟨out, hok, -⟩
      cases hok
  · obtain ⟨hsome, hcount⟩ := findSome?_outcome hfirst
    rw [retry_of_firstResult hfirst]
    exact iff_of_true ⟨_, rfl, hsome.symm, hcount.symm, fun _ hq => hq, hbit⟩ (Or.inr hfirst)

end Law

/-- A call is interrupted, waits until data arrives, and waits again until the timeout, while
another fiber's wait times out and takes a hold too many from `m_mtx`. -/
theorem doIoLaw_iff_example : ∃ (m : FdManager) (script : List (Attempt ℕ))
    (poller : LockedPoller ℕ Unit ℕ Unit),
    DoIoLaw ⟨5, .READ, .SO_RCVTIMEO, (), 7⟩ script poller
        (do_io true m ⟨5, .READ, .SO_RCVTIMEO, (), 7⟩ script poller) ↔
      5 < poller.events.fdContexts.length ∧ Admitted poller.readers script ∨
        firstResult script ≠ some (.fails EAGAIN) := by
  let ctx := (initSocket 5).setTimeout .SO_RCVTIMEO 1000
  refine ⟨((FdManager.new.getExclusive 5 ctx).get rfl).2,
    [⟨.fails EINTR, ⟨0, 0, true, .cancelled, 0, 0⟩, EBADF⟩,
      ⟨.fails EAGAIN, ⟨0, 10, true, .ready EPOLLIN, 0, 0⟩, EBADF⟩,
      ⟨.fails EAGAIN, ⟨0, 20, true, .expired 1020 1, -1, 0⟩, EBADF⟩], ⟨⟨.new 32, .new⟩, 0⟩, ?_⟩
  refine doIoLaw_iff (show _ = some (0, ctx) by decide) rfl rfl rfl (EventPoller.wf_new 32)
    (not_hasBit_new 32 5 .READ) TimerManager.wf_new (fun q hq => ?_) (fun a ha => ?_)
  · cases hq
  · simp only [List.mem_cons, List.not_mem_nil, or_false] at ha
    rcases ha with rfl | rfl | rfl
    · exact fun hn => absurd hn (by decide)
    · exact fun _ => ⟨fun _ => rfl, fun _ => (by decide : Mask.Wakes EPOLLIN .READ)⟩
    · exact fun _ => ⟨fun _ => rfl, fun _ => ⟨by decide, by decide⟩⟩

/-- A socket outside the table of contexts has nothing to read yet. -/
theorem not_doIoLaw_outside : ∃ (m : FdManager) (script : List (Attempt ℕ))
    (poller : LockedPoller ℕ Unit ℕ Unit),
    m.lookup 40 = some (0, initSocket 40) ∧ WF poller.events ∧ ¬ poller.events.HasBit 40 .READ ∧
      WF poller.timers ∧ Quiet poller.timers ∧
      (∀ a ∈ script,
        a.Possible (IoCall.call ⟨40, .READ, .SO_RCVTIMEO, (), 7⟩ (initSocket 40)) poller.timers) ∧
      ¬ DoIoLaw ⟨40, .READ, .SO_RCVTIMEO, (), 7⟩ script poller
        (do_io true m ⟨40, .READ, .SO_RCVTIMEO, (), 7⟩ script poller) := by
  refine ⟨((FdManager.new.getExclusive 40 (initSocket 40)).get rfl).2,
    [⟨.fails EAGAIN, ⟨0, 10, true, .ready EPOLLIN, 0, 0⟩, EBADF⟩], ⟨⟨.new 32, .new⟩, 0⟩,
    by decide, EventPoller.wf_new 32, not_hasBit_new 32 40 .READ, TimerManager.wf_new,
    fun q hq => ?_, fun a ha => ?_, ?_⟩
  · cases hq
  · obtain rfl := List.mem_singleton.1 ha
    exact fun _ => ⟨fun _ => rfl, fun _ => (by decide : Mask.Wakes EPOLLIN .READ)⟩
  · rintro ⟨out, hok, -⟩
    cases hok

end Sylar.Hook
