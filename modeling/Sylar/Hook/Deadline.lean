import Sylar.Timer.Deadline
import Sylar.Hook.DoIo

/-!
# Delays and deadlines

The delay of a timer comes from a caller of `addTimer`, or from the timeout that `do_io` finds in
the context of a descriptor, where `Socket::setSendTimeout` and `setRecvTimeout` store a signed
number. On the way it is converted to `uint64_t`, and `m_next` is its sum with a clock reading.

`noEarly_run_iff` says that a timer can be delivered before its deadline in some state of a run
exactly when the run contains a step for which that sum wraps. A negative timeout other than -1
stands for a delay next to `2 ^ 64`, whose sum wraps at once.
-/

namespace Sylar

namespace Socket

/-- The common body of the two functions below, for a socket with the descriptor `sock`. -/
def setTimeout (type : FdCtx.Timeout) (m : FdManager) (sock : ℕ) (v : Int64) : FdManager :=
  match m.lookup sock with
  | none => m
  | some (p, _) => m.modify p fun ctx => ctx.setTimeout type v.toUInt64

/-- `Socket::setSendTimeout(v)`. -/
def setSendTimeout : FdManager → ℕ → Int64 → FdManager := setTimeout .SO_SNDTIMEO

/-- `Socket::setRecvTimeout(v)`. -/
def setRecvTimeout : FdManager → ℕ → Int64 → FdManager := setTimeout .SO_RCVTIMEO

/-- What a call finds afterwards. -/
theorem lookup_setTimeout {m : FdManager} {sock p : ℕ} {ctx : FdCtx}
    (h : m.lookup sock = some (p, ctx)) (type : FdCtx.Timeout) (v : Int64) :
    (setTimeout type m sock v).lookup sock = some (p, ctx.setTimeout type v.toUInt64) := by
  rw [setTimeout, h]
  simp only [FdManager.lookup_modify, h, Option.map_some, if_true]

end Socket

namespace Hook

open EventPoller TimerManager

variable {Addr S F C : Type*} [LinearOrder Addr]

/-- The contexts of descriptors and the poller of a thread, with the deadlines of its timers. -/
structure Clocked (Addr S F C : Type*) where
  fds : FdManager
  poller : Poller Addr S F C
  deadline : Addr → ℕ

/-- A step of the program. -/
inductive Label (Addr S F : Type*)
  /-- A call on the timers, `addTimer` with any delay among them. -/
  | timers (a : Act Addr Callback)
  /-- The last `Timer::Ptr` to the timer at `p` goes. -/
  | release (p : Addr)
  | setSendTimeout (sock : ℕ) (v : Int64)
  | setRecvTimeout (sock : ℕ) (v : Int64)
  /-- `do_io` adds the timer of the wait with this number, if it has a timeout. -/
  | do_io (io : IoCall S F) (wait : ℕ) (p : Addr) (now : UInt64)
  /-- Contexts and registrations change in any other way. -/
  | other

namespace Clocked

/-- No timer has been added. -/
def new (fds : FdManager) (events : EventPoller S F C) : Clocked Addr S F C where
  fds := fds
  poller := ⟨events, .new⟩
  deadline := fun _ => 0

/-- The timers with their deadlines. -/
def dated (s : Clocked Addr S F C) : Dated Addr Callback := ⟨s.poller.timers, s.deadline⟩

/-- The deadlines after `do_io` has added its timer. -/
def armed (s : Clocked Addr S F C) (timeout : UInt64) (p : Addr) (now : UInt64) : Addr → ℕ :=
  if timeout ≠ -1 then Function.update s.deadline p (now.toNat + timeout.toNat) else s.deadline

/-- The steps. A new timer may lie at any address that is not in use. -/
inductive Step (s : Clocked Addr S F C) : Label Addr S F → Clocked Addr S F C → Prop
  | timers {a : Act Addr Callback} {d : Dated Addr Callback} (h : Dated.Step s.dated a d) :
      Step s (.timers a)
        { s with poller := { s.poller with timers := d.manager }, deadline := d.deadline }
  | release {p : Addr} (hp : p ∉ s.poller.timers.timers) :
      Step s (.release p)
        { s with poller := { s.poller with timers := s.poller.timers.release p } }
  | setSendTimeout (sock : ℕ) (v : Int64) :
      Step s (.setSendTimeout sock v) { s with fds := Socket.setSendTimeout s.fds sock v }
  | setRecvTimeout (sock : ℕ) (v : Int64) :
      Step s (.setRecvTimeout sock v) { s with fds := Socket.setRecvTimeout s.fds sock v }
  | do_io {io : IoCall S F} {c : ℕ} {ctx : FdCtx} {p : Addr}
      (hctx : s.fds.lookup io.fd = some (c, ctx)) (hfree : s.poller.timers.heap p = none)
      (wait : ℕ) (now : UInt64) :
      Step s (.do_io io wait p now)
        { s with
          poller := s.poller.arm (io.call ctx) wait p now
          deadline := s.armed (ctx.getTimeout io.timeout_so) p now }
  | other (fds : FdManager) (events : EventPoller S F C) :
      Step s .other { s with fds := fds, poller := { s.poller with events := events } }

/-- No `listExpiredCb` delivers a timer at a clock reading before its deadline. -/
def NoEarly (s : Clocked Addr S F C) : Prop := s.dated.NoEarly

/-- No sum of a clock reading and a delay wraps: not when a timer is added, by whichever call, nor
when a recurring timer is delivered. -/
def NoWrap (s : Clocked Addr S F C) : Label Addr S F → Prop
  | .timers a => s.dated.NoWrap a
  | .do_io io _ _ now => ∀ c ctx, s.fds.lookup io.fd = some (c, ctx) →
      ctx.getTimeout io.timeout_so ≠ -1 →
        now.toNat + (ctx.getTimeout io.timeout_so).toNat < 2 ^ 64
  | _ => True

/-! ## Steps -/

variable {s s' : Clocked Addr S F C} {l : Label Addr S F} {io : IoCall S F} {ctx : FdCtx}
  {p : Addr}

/-- With a timeout, `do_io` adds a timer like any other. -/
theorem arm_step (hfree : s.poller.timers.heap p = none)
    (hto : ctx.getTimeout io.timeout_so ≠ -1) (wait : ℕ) (now : UInt64) :
    Dated.Step s.dated
      (.event (.addTimer p (ctx.getTimeout io.timeout_so) (.timeout wait) false now))
      ⟨(s.poller.arm (io.call ctx) wait p now).timers,
        s.armed (ctx.getTimeout io.timeout_so) p now⟩ := by
  have harm : (s.poller.arm (io.call ctx) wait p now).timers =
      (s.poller.timers.addTimer p (ctx.getTimeout io.timeout_so) (.timeout wait) false now).2 := by
    rw [Poller.arm, if_pos (show (io.call ctx).timeout ≠ -1 from hto)]
    rfl
  rw [harm, armed, if_pos hto]
  exact ⟨.event (.addTimer hfree _ _ _ _), rfl⟩

/-- Without a timeout, it adds none. -/
theorem arm_eq (hto : ¬ ctx.getTimeout io.timeout_so ≠ -1) (wait : ℕ) (now : UInt64) :
    (s.poller.arm (io.call ctx) wait p now).timers = s.poller.timers ∧
      s.armed (ctx.getTimeout io.timeout_so) p now = s.deadline := by
  rw [Poller.arm, if_neg (show ¬ (io.call ctx).timeout ≠ -1 from hto), armed, if_neg hto]
  exact ⟨rfl, rfl⟩

/-- The release of a timer outside the set does not touch the timers in it. -/
theorem release_step (h : s.dated.Honest) (hp : p ∉ s.poller.timers.timers) :
    Dated.Honest ⟨s.poller.timers.release p, s.deadline⟩ ∧
      (s.dated.NoEarly → Dated.NoEarly ⟨s.poller.timers.release p, s.deadline⟩) := by
  have hother : ∀ q ∈ s.poller.timers.timers,
      (s.poller.timers.release p).heap q = s.poller.timers.heap q := by
    intro q hq
    apply Function.update_of_ne
    rintro rfl
    exact hp hq
  have hord : Ordered (s.poller.timers.release p) :=
    h.sound.toOrdered.sublist (List.Sublist.refl _) hother
  refine ⟨⟨⟨hord, fun q hq => ?_⟩, fun q hq t ht => ?_⟩, fun hearly => ?_⟩
  · rw [callback_congr (hother q hq)]
    exact h.sound.callback q hq
  · exact h.period q hq t ((hother q hq).symm.trans ht)
  · rw [Dated.noEarly_iff hord]
    rw [Dated.noEarly_iff h.sound.toOrdered] at hearly
    exact fun q hq t ht => hearly q hq t ((hother q hq).symm.trans ht)

/-- What every step keeps, and when it leads to a state without early deliveries. -/
theorem step_spec (h : s.dated.Honest) (hstep : Step s l s') :
    s'.dated.Honest ∧ (s.NoEarly → (s.NoWrap l ↔ s'.NoEarly)) := by
  cases hstep with
  | timers hturn => exact ⟨h.step hturn, fun hearly => Dated.step_iff h hearly hturn⟩
  | release hp =>
    obtain ⟨hhonest, hkeep⟩ := release_step h hp
    exact ⟨hhonest, fun hearly => iff_of_true trivial (hkeep hearly)⟩
  | setSendTimeout sock v => exact ⟨h, fun hearly => iff_of_true trivial hearly⟩
  | setRecvTimeout sock v => exact ⟨h, fun hearly => iff_of_true trivial hearly⟩
  | @do_io io c ctx p hctx hfree wait now =>
    have hguard : s.NoWrap (.do_io io wait p now) ↔ (ctx.getTimeout io.timeout_so ≠ -1 →
        now.toNat + (ctx.getTimeout io.timeout_so).toNat < 2 ^ 64) := by
      simp only [NoWrap, hctx, Option.some.injEq, Prod.mk.injEq, and_imp]
      exact ⟨fun hall => hall c ctx rfl rfl, by rintro hto c ctx rfl rfl; exact hto⟩
    by_cases hto : ctx.getTimeout io.timeout_so ≠ -1
    · have hturn := arm_step hfree hto wait now
      refine ⟨h.step hturn, fun hearly => ?_⟩
      rw [hguard, NoEarly]
      refine Iff.trans ?_ (Dated.step_iff h hearly hturn)
      constructor
      · rintro hsum q now' ms ⟨rfl, rfl, rfl⟩
        exact hsum hto
      · intro hwrap _
        exact hwrap p now _ ⟨rfl, rfl, rfl⟩
    · -- without a timeout there is no timer to add
      obtain ⟨htimers, hdeadline⟩ := arm_eq (s := s) (p := p) hto wait now
      have hdated : dated { s with
          poller := s.poller.arm (io.call ctx) wait p now
          deadline := s.armed (ctx.getTimeout io.timeout_so) p now } = s.dated := by
        rw [dated, htimers, hdeadline, dated]
      refine ⟨?_, fun hearly => iff_of_true (hguard.mpr fun h => absurd h hto) ?_⟩
      · rw [hdated]
        exact h
      · rw [NoEarly, hdated]
        exact hearly
  | other fds events => exact ⟨h, fun hearly => iff_of_true trivial hearly⟩

/-- At the start there is no timer. -/
theorem honest_new (fds : FdManager) (events : EventPoller S F C) :
    (new fds events : Clocked Addr S F C).dated.Honest ∧
      (new fds events : Clocked Addr S F C).NoEarly := by
  have hhonest : (new fds events : Clocked Addr S F C).dated.Honest := by
    refine ⟨sound_new, fun p hp => ?_⟩
    cases hp
  refine ⟨hhonest, (Dated.noEarly_iff hhonest.sound.toOrdered).mpr fun p hp => ?_⟩
  cases hp

/-- In a run that starts without timers, no sum of a clock reading and a delay wraps exactly if in
no state of the run a timer can be delivered before its deadline. -/
theorem noEarly_run_iff (fds : FdManager) (events : EventPoller S F C)
    (ls : List (Label Addr S F)) (s : Clocked Addr S F C) :
    Transition.Run (Transition.Guarded NoWrap Step) (new fds events) ls s ↔
      Transition.Run (Transition.Keeping NoEarly Step) (new fds events) ls s := by
  obtain ⟨hhonest, hearly⟩ :
      (new fds events : Clocked Addr S F C).dated.Honest ∧
        (new fds events : Clocked Addr S F C).NoEarly := honest_new fds events
  apply Transition.Run.guarded_iff_keeping (I := fun s => s.dated.Honest) hhonest hearly
  · intro s l s' h hstep
    exact (step_spec h hstep).1
  · intro s l s' h hearly hstep
    exact (step_spec h hstep).2 hearly

/-- The longest delay, meant never to end, added at the clock reading 1000: the timer can be
delivered at 999. The same happens to a socket with the receive timeout -2 that has nothing to
read, at 998. -/
theorem noEarly_counterexample :
    ∃ s s' : Clocked ℕ Unit ℕ Unit,
      Transition.Run Step (new .new (.new 32))
        [.timers (.event (.addTimer 1 (-1) .other false 1000))] s ∧
      1 ∈ s.poller.timers.expired 999 2 ∧ ¬ s.NoEarly ∧
      Transition.Run Step (new ((FdManager.new.getExclusive 5 (initSocket 5)).get rfl).2 (.new 32))
        [.setRecvTimeout 5 (-2), .do_io ⟨5, .READ, .SO_RCVTIMEO, (), 7⟩ 0 1 1000] s' ∧
      1 ∈ s'.poller.timers.expired 998 2 ∧ ¬ s'.NoEarly := by
  let m : TimerManager ℕ Callback := (TimerManager.new.addTimer 1 (-1) .other false 1000).2
  have hadd : Dated.Step (new .new (.new 32) : Clocked ℕ Unit ℕ Unit).dated
      (.event (.addTimer 1 (-1) .other false 1000))
      ⟨m, Function.update (fun _ => 0) 1 (1000 + (2 ^ 64 - 1))⟩ :=
    ⟨.event (.addTimer rfl (-1) Callback.other false 1000), rfl⟩
  have hsocket : ((FdManager.new.getExclusive 5 (initSocket 5)).get rfl).2.lookup 5 =
      some (0, initSocket 5) := by
    decide
  have hctx : (Socket.setRecvTimeout ((FdManager.new.getExclusive 5 (initSocket 5)).get rfl).2 5
      (-2)).lookup 5 = some (0, (initSocket 5).setTimeout .SO_RCVTIMEO (-2)) :=
    Socket.lookup_setTimeout hsocket .SO_RCVTIMEO (-2)
  refine ⟨_, _, .single (.timers hadd), by decide, fun hearly => ?_,
    .cons (.setRecvTimeout 5 (-2)) (.single (.do_io hctx rfl 0 1000)), by decide,
    fun hearly => ?_⟩
  · have hle : 1000 + (2 ^ 64 - 1) ≤ 999 := hearly 999 2 1 (by decide)
    omega
  · have hle : 1000 + (2 ^ 64 - 2) ≤ 998 := hearly 998 2 1 (by decide)
    omega

end Clocked

end Hook

end Sylar
