import Sylar.Hook.Defs
import Sylar.Hook.Waits

/-!
# `connect_with_timeout`

A connection that cannot be established at once is waited for like data (`LockedPoller.wait`), and
then judged by `SO_ERROR`, which is 0 unless the connection has failed.

* `ConnectLaw` — the function returns 0 for an established connection only, and else -1 with an
  error;
* `connectLaw_iff` — the conditions under which it does. A failed `addEvent` and another fiber's
  `cancelEvent` both lead to the check of `SO_ERROR` while the connection may be in progress, which
  then counts as success; and a wait that does not get its holds on `m_mtx` does not return.
-/

namespace Sylar.Hook

open EventPoller TimerManager

/-- The state of a connection in the kernel. -/
inductive Conn
  | inProgress
  | established
  | failed (errno : Errno)
  deriving DecidableEq, Repr

/-- The value of `SO_ERROR`. -/
def Conn.so_error : Conn → ℕ
  | .inProgress => 0
  | .established => 0
  | .failed errno => errno

/-- What the kernel and other fibers contribute to a call: the error of `connect_f`, unless it
returns 0, the wait, the connection when `SO_ERROR` is read, and the error of `getsockopt`, unless
it succeeds. -/
structure Connecting (Addr : Type*) where
  connect_f : Option Errno
  round : Round Addr
  conn : Conn
  getsockopt : Option Errno
  deriving DecidableEq, Repr

/-- The connection when the call returns. A `connect_f` that returns 0 has established it. -/
def Connecting.final {Addr : Type*} (k : Connecting Addr) : Conn :=
  if k.connect_f = none then .established else k.conn

/-- The arguments of `connect_with_timeout`, and the scheduler and the fiber of the calling
thread. -/
structure ConnectCall (S F : Type*) where
  fd : ℕ
  timeout_ms : UInt64
  scheduler : S
  fiber : F

/-- The wait of the call. -/
def ConnectCall.call {S F : Type*} (c : ConnectCall S F) : Call S F where
  fd := c.fd
  event := .WRITE
  timeout := c.timeout_ms
  scheduler := c.scheduler
  fiber := c.fiber

/-- The result of a function that returns 0 or -1. -/
def resultOf (error : Option Errno) : SysResult :=
  match error with
  | none => .returns 0
  | some errno => .fails errno

variable {Addr S F C : Type*}

/-- The check of `SO_ERROR` at the end. -/
def checkError (k : Connecting Addr) : SysResult :=
  match k.getsockopt with
  | some errno => .fails errno
  | none => if h : k.conn.so_error ≠ 0 then .fails ⟨k.conn.so_error, h⟩ else .returns 0

/-- `connect_with_timeout`, on a thread with or without hooks, with the contexts in `m`. -/
def connect_with_timeout [LinearOrder Addr] [DecidableEq F] (hook_enable : Bool) (m : FdManager)
    (c : ConnectCall S F) (k : Connecting Addr) (poller : LockedPoller Addr S F C) :
    Except Stuck (SysResult × LockedPoller Addr S F C) :=
  let plain := Except.ok (resultOf k.connect_f, poller)
  if !hook_enable then plain
  else
    match m.lookup c.fd with
    | none => .ok (.fails EBADF, poller)
    | some (_, ctx) =>
      if ctx.isClosed then .ok (.fails EBADF, poller)
      else if !ctx.isSocket then plain
      else if ctx.userNonblock then plain
      else if k.connect_f ≠ some EINPROGRESS then plain
      else
        -- the first and only wait of the call
        match poller.wait c.call 0 0 k.round with
        | .error stuck => .error stuck
        | .ok (.resumed cancelled, poller) =>
          if h : cancelled ≠ 0 then .ok (.fails ⟨cancelled, h⟩, poller)
          else .ok (checkError k, poller)
        -- the failure is logged, and the check made all the same
        | .ok (.refused, poller) => .ok (checkError k, poller)

/-- The call returns, with 0 if the connection is established, or with -1 and an error. -/
def ConnectLaw (k : Connecting Addr) (result : Except Stuck (SysResult × LockedPoller Addr S F C)) :
    Prop :=
  ∃ ret poller', result = .ok (ret, poller') ∧
    (ret = .returns 0 ∧ k.final = .established ∨ ∃ errno, ret = .fails errno)

section Law

variable {k : Connecting Addr} {poller : LockedPoller Addr S F C} {ret : SysResult}

@[simp]
theorem connectLaw_ok : ConnectLaw k (.ok (ret, poller)) ↔
    ret = .returns 0 ∧ k.final = .established ∨ ∃ errno, ret = .fails errno := by
  constructor
  · rintro ⟨ret', poller', heq, hret⟩
    cases heq
    exact hret
  · exact fun hret => ⟨ret, poller, rfl, hret⟩

@[simp]
theorem not_connectLaw_error (stuck : Stuck) :
    ¬ ConnectLaw k (.error stuck : Except Stuck (SysResult × LockedPoller Addr S F C)) := by
  rintro ⟨ret, poller', heq, -⟩
  cases heq

/-- Without a wait, `connect_f` decides. -/
theorem connectLaw_connect_f : ConnectLaw k (.ok (resultOf k.connect_f, poller)) := by
  rw [connectLaw_ok]
  cases hk : k.connect_f with
  | none => exact Or.inl ⟨rfl, if_pos hk⟩
  | some errno => exact Or.inr ⟨errno, rfl⟩

/-- The check is right unless the connection is in progress and `getsockopt` succeeds. -/
theorem connectLaw_checkError (hk : k.connect_f ≠ none) :
    ConnectLaw k (.ok (checkError k, poller)) ↔ k.conn ≠ .inProgress ∨ k.getsockopt ≠ none := by
  rw [connectLaw_ok, checkError, Connecting.final, if_neg hk]
  cases hsock : k.getsockopt with
  | some errno => simp
  | none =>
    cases hconn : k.conn with
    | inProgress => simp [Conn.so_error]
    | established => simp [Conn.so_error]
    | failed errno => simp [Conn.so_error, errno.2]

variable [LinearOrder Addr] [DecidableEq F] {m : FdManager} {c : ConnectCall S F} {p : ℕ}
  {ctx : FdCtx}

/-- On an open socket in blocking mode that has a context, in every state of the poller in which no
timer of the call is pending, the law holds exactly if the connection does not have to be waited
for, or the wait starts, in a context of the poller where nobody waits for `WRITE`, gets its holds
on `m_mtx`, and either times out or is followed by a check that finds the connection decided. -/
theorem connectLaw_iff (hctx : m.lookup c.fd = some (p, ctx)) (hopen : ctx.isClosed = false)
    (hsocket : ctx.isSocket = true) (hblocking : ctx.userNonblock = false)
    (hevents : WF poller.events) (htimers : WF poller.timers) (hquiet : Quiet poller.timers)
    (hp : c.timeout_ms ≠ -1 → poller.timers.heap k.round.p = none)
    (hwake : k.round.granted = true → k.round.wake.Possible c.call k.round.now) :
    ConnectLaw k (connect_with_timeout true m c k poller) ↔
      k.connect_f ≠ some EINPROGRESS ∨
      (c.fd < poller.events.fdContexts.length ∧ ¬ poller.events.HasBit c.fd .WRITE ∧
        k.round.Admits poller.readers ∧
        (k.round.granted = true ∧ k.round.wake.timesOut = true ∨
          k.conn ≠ .inProgress ∨ k.getsockopt ≠ none)) := by
  by_cases hk : k.connect_f = some EINPROGRESS
  · have hnone : k.connect_f ≠ none := by simp [hk]
    have hconnect : connect_with_timeout true m c k poller =
        match poller.wait c.call 0 0 k.round with
        | .error stuck => .error stuck
        | .ok (.resumed cancelled, poller) =>
          if h : cancelled ≠ 0 then .ok (.fails ⟨cancelled, h⟩, poller)
          else .ok (checkError k, poller)
        | .ok (.refused, poller) => .ok (checkError k, poller) := by
      simp [connect_with_timeout, hctx, hopen, hsocket, hblocking, hk]
    rw [hconnect, or_iff_right (not_not.2 hk)]
    -- the ways in which the wait can end: it gets on, or it is stuck
    by_cases hfd : c.fd < poller.events.fdContexts.length
    · by_cases hbit : poller.events.HasBit c.fd .WRITE
      · -- another fiber waits to write
        have hcall : poller.events.HasBit c.call.fd c.call.event := hbit
        obtain ⟨stuck, hwait⟩ := LockedPoller.wait_of_hasBit hcall 0 0 k.round
        simp [hwait, hbit]
      · have hready : poller.Ready c.call := ⟨hevents.idle hfd hbit, htimers, hquiet⟩
        rw [and_iff_right hfd, and_iff_right hbit]
        by_cases hadmits : k.round.Admits poller.readers
        · obtain ⟨poller', heq, -⟩ := LockedPoller.wait_spec hready hp hwake hadmits 0
          rw [heq, and_iff_right hadmits]
          -- only the timeout ends the call without the check
          cases hgranted : k.round.granted with
          | false => simp [Round.ends, hgranted, connectLaw_checkError hnone]
          | true =>
            cases hout : k.round.wake.timesOut with
            | false => simp [Round.ends, hgranted, Wake.flag, hout, connectLaw_checkError hnone]
            | true => simp [Round.ends, hgranted, Wake.flag, hout, ETIMEDOUT]
        · -- `addEvent`, or the `cancelEvent` that should wake the fiber, does not get its hold
          have hwait := LockedPoller.wait_of_not_admits hready hp hwake hadmits 0
          simp [hwait, hadmits]
    · have hcall : poller.events.fdContexts.length ≤ c.call.fd := not_lt.1 hfd
      obtain ⟨stuck, hwait⟩ := LockedPoller.wait_of_length_le hcall 0 0 k.round
      simp [hwait, hfd]
  · have hplain : connect_with_timeout true m c k poller = .ok (resultOf k.connect_f, poller) := by
      simp [connect_with_timeout, hctx, hopen, hsocket, hblocking, hk]
    rw [hplain]
    exact iff_of_true connectLaw_connect_f (Or.inl hk)

end Law

/-- The connection is refused while the fiber waits. -/
theorem connectLaw_iff_example : ∃ (m : FdManager) (k : Connecting ℕ)
    (poller : LockedPoller ℕ Unit ℕ Unit),
    ConnectLaw k (connect_with_timeout true m ⟨5, 3000, (), 7⟩ k poller) ↔
      k.connect_f ≠ some EINPROGRESS ∨
      (5 < poller.events.fdContexts.length ∧ ¬ poller.events.HasBit 5 .WRITE ∧
        k.round.Admits poller.readers ∧
        (k.round.granted = true ∧ k.round.wake.timesOut = true ∨
          k.conn ≠ .inProgress ∨ k.getsockopt ≠ none)) := by
  refine ⟨((FdManager.new.getExclusive 5 (initSocket 5)).get rfl).2,
    ⟨some EINPROGRESS, ⟨0, 10, true, .ready (EPOLLOUT ||| EPOLLERR), 0, 0⟩,
      .failed ⟨111, by decide⟩, none⟩,
    ⟨⟨.new 32, .new⟩, 0⟩, ?_⟩
  refine connectLaw_iff (show _ = some (0, initSocket 5) by decide) rfl rfl rfl
    (EventPoller.wf_new 32) TimerManager.wf_new (fun q hq => ?_) (fun _ => rfl) (fun _ => ?_)
  · cases hq
  · exact (by decide : Mask.Wakes (EPOLLOUT ||| EPOLLERR) .WRITE)

/-- Another fiber calls `cancelEvent(fd, WRITE)`, as `Socket::cancelWrite` does, while the
connection is in progress. -/
theorem not_connectLaw_cancelled : ∃ (m : FdManager) (k : Connecting ℕ)
    (poller : LockedPoller ℕ Unit ℕ Unit),
    m.lookup 5 = some (0, initSocket 5) ∧ WF poller.events ∧ WF poller.timers ∧
      Quiet poller.timers ∧ poller.timers.heap k.round.p = none ∧
      k.round.wake.Possible (ConnectCall.call ⟨5, 3000, (), 7⟩) k.round.now ∧
      k.final = .inProgress ∧
      (∃ poller', connect_with_timeout true m ⟨5, 3000, (), 7⟩ k poller =
        .ok (.returns 0, poller')) ∧
      ¬ ConnectLaw k (connect_with_timeout true m ⟨5, 3000, (), 7⟩ k poller) := by
  have hret : connect_with_timeout true ((FdManager.new.getExclusive 5 (initSocket 5)).get rfl).2
      ⟨5, 3000, (), 7⟩ ⟨some EINPROGRESS, ⟨0, 10, true, .cancelled, 0, 0⟩, .inProgress, none⟩
      (⟨⟨.new 32, .new⟩, 0⟩ : LockedPoller ℕ Unit ℕ Unit) = .ok (.returns 0, _) := rfl
  refine ⟨_, ⟨some EINPROGRESS, ⟨0, 10, true, .cancelled, 0, 0⟩, .inProgress, none⟩,
    ⟨⟨.new 32, .new⟩, 0⟩, by decide, EventPoller.wf_new 32, TimerManager.wf_new, fun q hq => ?_,
    rfl, trivial, rfl, ⟨_, hret⟩, ?_⟩
  · cases hq
  · rw [hret, connectLaw_ok]
    rintro (⟨-, hfinal⟩ | ⟨errno, herr⟩)
    · cases hfinal
    · cases herr

end Sylar.Hook
