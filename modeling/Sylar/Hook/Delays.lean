import Sylar.Hook.DoIo

/-!
# Delays asked for in other units

Timers count milliseconds. The hooks `sleep`, `usleep` and `nanosleep` convert what they are asked
for, and so does the hook `setsockopt` for `SO_RCVTIMEO` and `SO_SNDTIMEO`, whose timeout `do_io`
takes from the context of the descriptor when it has to wait.

* `long` — the arithmetic of `long`, which is undefined when it overflows;
* `sleep`, `usleep`, `nanosleep`, `setsockopt` — the hooks, on threads with hooking enabled;
* `Request.Fits` — the requests that the conversions do not cut short;
* `delayLaw_iff` — these are the requests whose timer takes at least as long as asked for.
-/

namespace Sylar.Hook

open TimerManager

/-! ## Conversions -/

/-- A result of the arithmetic of `long`. There is none when it overflows. -/
def long (x : ℤ) : Option ℤ := if -2 ^ 63 ≤ x ∧ x < 2 ^ 63 then some x else none

/-- `sec * 1000 + rest`, in `long`. -/
def millis (sec rest : ℤ) : Option ℤ := do
  let ms ← long (sec * 1000)
  long (ms + rest)

/-- `struct timespec`. -/
structure Timespec where
  tv_sec : Int64
  tv_nsec : Int64
  deriving DecidableEq

/-- `struct timeval`. -/
structure Timeval where
  tv_sec : Int64
  tv_usec : Int64
  deriving DecidableEq

/-- `req->tv_sec * 1000 + req->tv_nsec / 1000 / 1000`. -/
def Timespec.ms (req : Timespec) : Option ℤ :=
  millis req.tv_sec.toInt ((req.tv_nsec.toInt.tdiv 1000).tdiv 1000)

/-- `v->tv_sec * 1000 + v->tv_usec / 1000`. -/
def Timeval.ms (v : Timeval) : Option ℤ := millis v.tv_sec.toInt (v.tv_usec.toInt.tdiv 1000)

/-- A result in `long` that fits it, for operands that are not negative. -/
theorem millis_eq {sec rest : ℤ} (hsec : 0 ≤ sec) (hrest : 0 ≤ rest) :
    millis sec rest =
      if sec * 1000 + rest < 2 ^ 63 then some (sec * 1000 + rest) else none := by
  by_cases hlt : sec * 1000 + rest < 2 ^ 63
  · rw [if_pos hlt, millis, long, if_pos (by omega)]
    exact if_pos (by omega)
  · rw [if_neg hlt, millis, long]
    split
    · exact if_neg (by omega)
    · rfl

/-! ## The hooks -/

section Hooks

variable {Addr S F C : Type*} [LinearOrder Addr]

/-- `ep->addTimer(ms, [ep, fiber]() { ep->schedule(fiber); })`, before `yieldToHold`. -/
def Poller.addWakeup (ep : Poller Addr S F C) (p : Addr) (now ms : UInt64) : Poller Addr S F C :=
  { ep with timers := (ep.timers.addTimer p ms .other false now).2 }

/-- `sleep(secs)`. -/
def sleep (ep : Poller Addr S F C) (p : Addr) (now : UInt64) (secs : UInt32) : Poller Addr S F C :=
  ep.addWakeup p now (secs * 1000).toUInt64

/-- `usleep(usec)`. -/
def usleep (ep : Poller Addr S F C) (p : Addr) (now : UInt64) (usec : UInt32) :
    Poller Addr S F C :=
  ep.addWakeup p now (usec / 1000).toUInt64

/-- `nanosleep(req, rem)`. -/
def nanosleep (ep : Poller Addr S F C) (p : Addr) (now : UInt64) (req : Timespec) :
    Option (Poller Addr S F C) :=
  req.ms.map fun ms =>
    let timeout_ms : ℤ := ms.bmod (2 ^ 32) -- an `int`
    ep.addWakeup p now (UInt64.ofInt timeout_ms)

/-- `setsockopt(sockfd, SOL_SOCKET, optname, v)`. -/
def setsockopt (m : FdManager) (sockfd : ℕ) (optname : FdCtx.Timeout) (v : Timeval) :
    Option FdManager :=
  match m.lookup sockfd with
  | none => some m
  | some (p, _) => v.ms.map fun ms => m.modify p (·.setTimeout optname (UInt64.ofInt ms))

/-- What a fiber may ask for. -/
inductive Request
  | sleep (secs : UInt32)
  | usleep (usec : UInt32)
  | nanosleep (req : Timespec)
  /-- The timeout `v`, set before the call of `do_io` has to wait. -/
  | timeout (v : Timeval)

/-- The place of a request: a free address for the timer, the clock, and for `timeout` the call of
`do_io`, whose descriptor has a context. -/
structure Site (Addr S F C : Type*) [LinearOrder Addr] where
  fds : FdManager
  poller : Poller Addr S F C
  p : Addr
  now : UInt64
  io : IoCall S F
  wait : ℕ
  free : poller.timers.heap p = none
  tracked : (fds.lookup io.fd).isSome = true

/-- A thread that has added no timers, about to receive from a new socket. -/
def Site.socket : Site ℕ Unit ℕ Unit where
  fds := ((FdManager.new.getExclusive 5 (initSocket 5)).get rfl).2
  poller := ⟨.new 32, .new⟩
  p := 1
  now := 1000
  io := ⟨5, .READ, .SO_RCVTIMEO, (), 7⟩
  wait := 0
  free := rfl
  tracked := by decide

namespace Site

/-- `setsockopt`, and then `do_io` up to `addEvent`, after the wrapped function has failed with
`EAGAIN`. -/
def ioTimeout (x : Site Addr S F C) (v : Timeval) : Option (Poller Addr S F C) :=
  (setsockopt x.fds x.io.fd x.io.timeout_so v).map fun fds =>
    match fds.lookup x.io.fd with
    | none => x.poller
    | some (_, ctx) => x.poller.arm (x.io.call ctx) x.wait x.p x.now

/-- The poller when the fiber waits. -/
def run (x : Site Addr S F C) : Request → Option (Poller Addr S F C)
  | .sleep secs => some (Hook.sleep x.poller x.p x.now secs)
  | .usleep usec => some (Hook.usleep x.poller x.p x.now usec)
  | .nanosleep req => Hook.nanosleep x.poller x.p x.now req
  | .timeout v => x.ioTimeout v

end Site

end Hooks

/-! ## The law -/

namespace Request

/-- The arguments are those of the callers: durations, and for `nanosleep` with less than a second
in `tv_nsec`. -/
def Valid : Request → Prop
  | sleep _ => True
  | usleep _ => True
  | nanosleep req => 0 ≤ req.tv_sec.toInt ∧ 0 ≤ req.tv_nsec.toInt ∧ req.tv_nsec.toInt < 10 ^ 9
  | timeout v => 0 ≤ v.tv_sec.toInt ∧ 0 ≤ v.tv_usec.toInt

/-- The duration asked for, in nanoseconds. -/
def duration : Request → ℤ
  | sleep secs => secs.toNat * 10 ^ 9
  | usleep usec => usec.toNat * 10 ^ 3
  | nanosleep req => req.tv_sec.toInt * 10 ^ 9 + req.tv_nsec.toInt
  | timeout v => v.tv_sec.toInt * 10 ^ 9 + v.tv_usec.toInt * 10 ^ 3

/-- No timeout at all: both fields of the `timeval` are 0. -/
def Unlimited : Request → Prop
  | timeout v => v.tv_sec.toInt = 0 ∧ v.tv_usec.toInt = 0
  | _ => False

/-- The conversions do not cut the duration short. In `nanosleep` a number of milliseconds with bit
31 set becomes a negative `int`, which stands for a delay next to `2 ^ 64`. -/
def Fits : Request → Prop
  | sleep secs => secs.toNat * 1000 < 2 ^ 32
  | usleep usec => usec.toNat % 1000 = 0
  | nanosleep req =>
    let ms := req.tv_sec.toInt * 1000 + req.tv_nsec.toInt / 10 ^ 6
    ms < 2 ^ 31 ∧ req.tv_nsec.toInt % 10 ^ 6 = 0 ∨ ms < 2 ^ 63 ∧ 2 ^ 31 ≤ ms % 2 ^ 32
  | timeout v =>
    v.tv_sec.toInt * 1000 + v.tv_usec.toInt / 1000 < 2 ^ 63 ∧ v.tv_usec.toInt % 1000 = 0 ∧
      ¬ (v.tv_sec.toInt = 0 ∧ v.tv_usec.toInt = 0)

instance : (req : Request) → Decidable req.Fits
  | sleep secs => inferInstanceAs (Decidable (secs.toNat * 1000 < 2 ^ 32))
  | usleep usec => inferInstanceAs (Decidable (usec.toNat % 1000 = 0))
  | nanosleep _ => inferInstanceAs (Decidable (_ ∧ _ ∨ _ ∧ _))
  | timeout _ => inferInstanceAs (Decidable (_ ∧ _ ∧ _))

end Request

variable {Addr S F C : Type*} [LinearOrder Addr]

/-- The conversions are defined, a timer that is added has a delay of at least the duration asked
for, and without a timeout none is added. -/
def Site.DelayLaw (x : Site Addr S F C) (req : Request) : Prop :=
  ∃ poller, x.run req = some poller ∧
    (∀ t, poller.timers.heap x.p = some t → req.duration ≤ t.ms.toNat * 10 ^ 6) ∧
    (req.Unlimited → poller.timers = x.poller.timers)

/-! ## Delays of timers -/

theorem toNat_ofInt (x : ℤ) : ((UInt64.ofInt x).toNat : ℤ) = x % 2 ^ 64 := by
  have hnonneg : 0 ≤ x % 2 ^ 64 := Int.emod_nonneg x (by decide)
  have hlt : x % 2 ^ 64 < 2 ^ 64 := Int.emod_lt_of_pos x (by decide)
  have hsize : (x % 2 ^ 64).toNat < UInt64.size := by
    rw [UInt64.size]
    omega
  rw [UInt64.ofInt, UInt64.toNat_ofNat_of_lt' hsize, Int.toNat_of_nonneg hnonneg]

/-- An `int` as a delay. -/
theorem toNat_ofInt_bmod (x : ℤ) : ((UInt64.ofInt (x.bmod (2 ^ 32))).toNat : ℤ) =
    if x % 2 ^ 32 < 2 ^ 31 then x % 2 ^ 32 else x % 2 ^ 32 + 2 ^ 64 - 2 ^ 32 := by
  rw [toNat_ofInt, Int.bmod_def]
  split_ifs <;> omega

theorem heap_addTimer (m : TimerManager Addr Callback) (p : Addr) (ms : UInt64) (cb : Callback)
    (recurring : Bool) (now : UInt64) :
    (m.addTimer p ms cb recurring now).2.heap p = some (.new ms cb recurring now) := by
  simp [addTimer, TimerManager.insert, TimerManager.set]

variable {x : Site Addr S F C} {req : Request} {poller : Poller Addr S F C}

/-- Where a timer is added, the law is about its delay. -/
theorem Site.delayLaw_of_run {t : Timer Callback} (hrun : x.run req = some poller)
    (ht : poller.timers.heap x.p = some t) :
    x.DelayLaw req ↔ req.duration ≤ t.ms.toNat * 10 ^ 6 ∧ ¬ req.Unlimited := by
  constructor
  · rintro ⟨poller', hrun', hdelay, hnone⟩
    obtain rfl : poller = poller' := Option.some.inj (hrun.symm.trans hrun')
    refine ⟨hdelay t ht, fun hunlimited => ?_⟩
    rw [hnone hunlimited, x.free] at ht
    cases ht
  · rintro ⟨hdelay, hlimited⟩
    refine ⟨poller, hrun, fun t' ht' => ?_, fun hunlimited => absurd hunlimited hlimited⟩
    obtain rfl : t = t' := Option.some.inj (ht.symm.trans ht')
    exact hdelay

/-- Where the timer schedules the fiber. -/
theorem Site.delayLaw_of_wakeup {ms : UInt64}
    (hrun : x.run req = some (x.poller.addWakeup x.p x.now ms)) (hlimited : ¬ req.Unlimited) :
    x.DelayLaw req ↔ req.duration ≤ ms.toNat * 10 ^ 6 := by
  rw [Site.delayLaw_of_run hrun (heap_addTimer _ _ _ _ _ _)]
  exact and_iff_left hlimited

theorem Site.not_delayLaw (hrun : x.run req = none) : ¬ x.DelayLaw req := by
  rintro ⟨poller, hrun', -⟩
  rw [hrun] at hrun'
  cases hrun'

/-- The timer that `do_io` adds after `setsockopt`, where the conversion is defined. -/
theorem Site.ioTimeout_spec (x : Site Addr S F C) {v : Timeval} {ms : ℤ} (hms : v.ms = some ms)
    (hnonneg : 0 ≤ ms) (hlt : ms < 2 ^ 63) : ∃ poller t, x.ioTimeout v = some poller ∧
      poller.timers.heap x.p = some t ∧ (t.ms.toNat : ℤ) = ms := by
  obtain ⟨⟨c, ctx⟩, hctx⟩ := Option.isSome_iff_exists.mp x.tracked
  have hdelay : ((UInt64.ofInt ms).toNat : ℤ) = ms := by
    rw [toNat_ofInt, Int.emod_eq_of_lt hnonneg (by omega)]
  let ctx' := ctx.setTimeout x.io.timeout_so (UInt64.ofInt ms)
  have hto : (x.io.call ctx').timeout = UInt64.ofInt ms := by
    show (ctx.setTimeout x.io.timeout_so _).getTimeout x.io.timeout_so = _
    cases x.io.timeout_so <;> rfl
  have hne : (x.io.call ctx').timeout ≠ -1 := by
    rw [hto]
    intro heq
    rw [heq] at hdelay
    have hmax : ((-1 : UInt64).toNat : ℤ) = 2 ^ 64 - 1 := by decide
    omega
  have hrun : x.ioTimeout v = some (x.poller.arm (x.io.call ctx') x.wait x.p x.now) := by
    rw [Site.ioTimeout, setsockopt, hctx]
    simp only [hms, Option.map_some, FdManager.lookup_modify, hctx, if_true]
    rfl
  refine ⟨_, .new (UInt64.ofInt ms) (.timeout x.wait) false x.now, hrun, ?_, hdelay⟩
  rw [Poller.arm, if_pos hne, hto]
  exact heap_addTimer _ _ _ _ _ _

/-! ## The requests that fit -/

theorem delayLaw_sleep (x : Site Addr S F C) (secs : UInt32) :
    x.DelayLaw (.sleep secs) ↔ (Request.sleep secs).Fits := by
  have hrun : x.run (.sleep secs) =
      some (x.poller.addWakeup x.p x.now (secs * 1000).toUInt64) := rfl
  have hms : (secs * 1000).toUInt64.toNat = secs.toNat * 1000 % 2 ^ 32 := by simp
  rw [Site.delayLaw_of_wakeup hrun not_false, hms]
  simp only [Request.duration, Request.Fits]
  omega

theorem delayLaw_usleep (x : Site Addr S F C) (usec : UInt32) :
    x.DelayLaw (.usleep usec) ↔ (Request.usleep usec).Fits := by
  have hrun : x.run (.usleep usec) =
      some (x.poller.addWakeup x.p x.now (usec / 1000).toUInt64) := rfl
  have hms : (usec / 1000).toUInt64.toNat = usec.toNat / 1000 := by simp
  rw [Site.delayLaw_of_wakeup hrun not_false, hms]
  simp only [Request.duration, Request.Fits]
  omega

theorem delayLaw_nanosleep (x : Site Addr S F C) {req : Timespec}
    (h : (Request.nanosleep req).Valid) :
    x.DelayLaw (.nanosleep req) ↔ (Request.nanosleep req).Fits := by
  obtain ⟨hsec, hnsec, hlt⟩ := h
  have hdiv : (req.tv_nsec.toInt.tdiv 1000).tdiv 1000 = req.tv_nsec.toInt / 10 ^ 6 := by
    rw [Int.tdiv_eq_ediv_of_nonneg hnsec, Int.tdiv_eq_ediv_of_nonneg (by omega)]
    omega
  have hms : req.ms = if req.tv_sec.toInt * 1000 + req.tv_nsec.toInt / 10 ^ 6 < 2 ^ 63 then
      some (req.tv_sec.toInt * 1000 + req.tv_nsec.toInt / 10 ^ 6) else none := by
    rw [Timespec.ms, hdiv, millis_eq hsec (by omega)]
  simp only [Request.Fits]
  split_ifs at hms with hfits
  · have hrun : x.run (.nanosleep req) = some (x.poller.addWakeup x.p x.now (UInt64.ofInt
        ((req.tv_sec.toInt * 1000 + req.tv_nsec.toInt / 10 ^ 6).bmod (2 ^ 32)))) := by
      rw [Site.run, nanosleep, hms]
      rfl
    rw [Site.delayLaw_of_wakeup hrun not_false, toNat_ofInt_bmod]
    simp only [Request.duration]
    split_ifs <;> omega
  · have hrun : x.run (.nanosleep req) = none := by
      rw [Site.run, nanosleep, hms]
      rfl
    refine iff_of_false (Site.not_delayLaw hrun) ?_
    omega

theorem delayLaw_timeout (x : Site Addr S F C) {v : Timeval} (h : (Request.timeout v).Valid) :
    x.DelayLaw (.timeout v) ↔ (Request.timeout v).Fits := by
  obtain ⟨hsec, husec⟩ := h
  have hms : v.ms = if v.tv_sec.toInt * 1000 + v.tv_usec.toInt / 1000 < 2 ^ 63 then
      some (v.tv_sec.toInt * 1000 + v.tv_usec.toInt / 1000) else none := by
    rw [Timeval.ms, Int.tdiv_eq_ediv_of_nonneg husec, millis_eq hsec (by omega)]
  simp only [Request.Fits]
  split_ifs at hms with hfits
  · obtain ⟨poller, t, hrun, ht, hdelay⟩ := x.ioTimeout_spec hms (by omega) hfits
    have hrun' : x.run (.timeout v) = some poller := hrun
    rw [Site.delayLaw_of_run hrun' ht, hdelay]
    simp only [Request.duration, Request.Unlimited]
    omega
  · have hrun : x.run (.timeout v) = none := by
      obtain ⟨⟨c, ctx⟩, hctx⟩ := Option.isSome_iff_exists.mp x.tracked
      rw [Site.run, Site.ioTimeout, setsockopt, hctx, hms]
      rfl
    refine iff_of_false (Site.not_delayLaw hrun) ?_
    omega

/-- A request waits at least as long as asked for, and without limit if no timeout is asked for,
exactly if it fits the conversions. -/
theorem delayLaw_iff (x : Site Addr S F C) (req : Request) (h : req.Valid) :
    x.DelayLaw req ↔ req.Fits := by
  cases req with
  | sleep secs => exact delayLaw_sleep x secs
  | usleep usec => exact delayLaw_usleep x usec
  | nanosleep req => exact delayLaw_nanosleep x h
  | timeout v => exact delayLaw_timeout x h

/-- A receive timeout of one and a half seconds. -/
theorem delayLaw_iff_example : Site.socket.DelayLaw (.timeout ⟨1, 500000⟩) := by
  rw [delayLaw_iff Site.socket (.timeout ⟨1, 500000⟩) ⟨by decide, by decide⟩]
  exact ⟨by decide, by decide, by decide⟩

/-- Durations cut short: `sleep` takes 704 ms for 4294968 seconds, `usleep` 0 ms for 999
microseconds, and `nanosleep` 0 ms for one nanosecond and 704 ms for 4294968 seconds. A receive
timeout of 0, which stands for none, becomes a timer of 0 ms. -/
theorem not_delayLaw_short :
    (∃ t, (Hook.sleep Site.socket.poller 1 1000 4294968).timers.heap 1 = some t ∧ t.ms = 704) ∧
    ¬ Site.socket.DelayLaw (.sleep 4294968) ∧ ¬ Site.socket.DelayLaw (.usleep 999) ∧
    ¬ Site.socket.DelayLaw (.nanosleep ⟨0, 1⟩) ∧
    ¬ Site.socket.DelayLaw (.nanosleep ⟨4294968, 0⟩) ∧
    (∃ poller t, Site.socket.ioTimeout ⟨0, 0⟩ = some poller ∧ poller.timers.heap 1 = some t ∧
      t.ms = 0) ∧
    ¬ Site.socket.DelayLaw (.timeout ⟨0, 0⟩) := by
  refine ⟨⟨_, heap_addTimer _ _ _ _ _ _, rfl⟩, ?_, ?_, ?_, ?_, ⟨_, _, rfl, rfl, rfl⟩, ?_⟩
  · rw [delayLaw_sleep]
    decide
  · rw [delayLaw_usleep]
    decide
  · rw [delayLaw_nanosleep _ ⟨by decide, by decide, by decide⟩]
    decide
  · rw [delayLaw_nanosleep _ ⟨by decide, by decide, by decide⟩]
    decide
  · rw [delayLaw_timeout _ ⟨by decide, by decide⟩]
    decide

end Sylar.Hook
