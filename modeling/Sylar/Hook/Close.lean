import Sylar.Hook.Defs
import Sylar.EventPoller.ReadLock
import Sylar.EventPoller.Waiting

/-!
# `close` and the waiters of a socket

Any finite number of pollers, `addEvent` on the threads of each, and the hooks `socket` and
`close`. A fiber that waits for a socket is registered with the poller of its own thread, while
`close` cancels the events of the calling thread's poller only. `Released` says that no poller has
a bit left and that all waiters ever registered have been scheduled; `close_law` that a `close` that
has returned has come to this exactly if no other poller had a bit set for the descriptor. A bit
left over makes `addEvent` fail for the next user of the descriptor (`addEvent_of_hasBit`).

One step is one call that returns. Each poller has the reader count of its `m_mtx`: `cancelAll`
takes one off in every `close` of a descriptor inside the table, and a call that finds the count
below -1 never gets its shared hold (`close_isSome_iff`). The kernel takes a closed descriptor out
of all interest sets. The waiters registered and scheduled so far are recorded for each descriptor.
-/

namespace Sylar.Hook

open Transition EventPoller

/-- The descriptors, the pollers with the reader counts of their `m_mtx`, and the record. -/
structure Server (P F C : Type*) where
  world : World
  poller : P → EventPoller P F C
  readers : P → ℤ
  registered : ℕ → Multiset (Waiter P F C)
  scheduled : ℕ → Multiset (Waiter P F C)

/-- A call on the thread of a poller. -/
inductive ServerCall (P F C : Type*)
  | socket (fd : ℕ) (flags : BitVec 32)
  /-- By the fiber that runs on a thread of the poller. -/
  | addEvent (p : P) (fd : ℕ) (event : Event) (cb : Option C) (fiber : F) (granted : Bool)
  | close (p : P) (fd : ℕ)

namespace Server

variable {P F C : Type*}

/-- No event is registered. -/
def new (world : World) (size : P → ℕ) : Server P F C where
  world := world
  poller := fun p => .new (size p)
  readers := fun _ => 0
  registered := fun _ => 0
  scheduled := fun _ => 0

/-- The effect of `close_f(fd)` on the interest sets. -/
def forget (s : Server P F C) (fd : ℕ) : Server P F C :=
  { s with poller := fun q => (s.poller q).setInterest fd none }

/-- The descriptor has a context. -/
def Tracked (s : Server P F C) (fd : ℕ) : Prop := (s.world.manager.lookup fd).isSome

/-- No poller has a bit set, and every waiter has been scheduled as often as it was registered. -/
def Released (s : Server P F C) (fd : ℕ) : Prop :=
  (∀ p e, ¬ (s.poller p).HasBit fd e) ∧ s.scheduled fd = s.registered fd

/-- No other poller has a bit set for the descriptor. -/
def NoOther (s : Server P F C) (p : P) (fd : ℕ) : Prop :=
  ∀ q, q ≠ p → ∀ e, ¬ (s.poller q).HasBit fd e

/-- A descriptor is closed on the only poller that has a bit set for it; without a context, no
poller has one. -/
def ClosesAlone (s : Server P F C) : ServerCall P F C → Prop
  | .close p fd => s.NoOther p fd ∧ (¬ s.Tracked fd → ∀ e, ¬ (s.poller p).HasBit fd e)
  | .socket _ _ | .addEvent .. => True

section Calls

variable [DecidableEq P]

/-- `addEvent(fd, event, cb)` on poller `p`. -/
def addEvent (s : Server P F C) (p : P) (fd : ℕ) (event : Event) (cb : Option C) (fiber : F)
    (granted : Bool) : Option (Server P F C) :=
  match ReadLock.addSection (s.readers p) with
  | none => none -- `readlock` never gets its hold
  | some readers =>
    match (s.poller p).addEvent fd event cb ⟨some p, fiber, .EXEC⟩ granted with
    | .error _ => none
    | .ok (ret, ep) =>
      let registered := if ret = 0 then {waiterOf p fiber cb} else 0
      some { s with
        poller := Function.update s.poller p ep
        readers := Function.update s.readers p readers
        registered := Function.update s.registered fd (s.registered fd + registered) }

/-- The poller has a context for the descriptor. -/
def inside (s : Server P F C) (p : P) (fd : ℕ) : Bool := fd < (s.poller p).fdContexts.length

/-- `close(fd)` on a thread of poller `p`, where `epoll_ctl` succeeds. -/
def close (s : Server P F C) (p : P) (fd : ℕ) : Option (Server P F C) :=
  match s.world.manager.lookup fd with
  | none => some ({ s with world := s.world.close fd }.forget fd)
  | some _ =>
    -- `EventPoller::getThis()->cancelAll(fd)`, and then `close_f(fd)`
    match ReadLock.lookup (s.inside p fd) (s.readers p) with
    | none => none
    | some readers =>
      match (s.poller p).cancelAll fd true with
      | .error _ => none
      | .ok (_, scheduled, ep) =>
        let s := { s with
          world := s.world.close fd
          poller := Function.update s.poller p ep
          readers := Function.update s.readers p readers
          scheduled := Function.update s.scheduled fd (s.scheduled fd + (scheduled : Multiset _)) }
        some (s.forget fd)

/-- The state after a call. -/
def step (mask : Settable) (s : Server P F C) : ServerCall P F C → Option (Server P F C)
  | .socket fd flags => (s.world.socket mask fd flags).map fun world => { s with world := world }
  | .addEvent p fd event cb fiber granted => s.addEvent p fd event cb fiber granted
  | .close p fd => s.close p fd

end Calls

/-! ## The invariant -/

section Invariant

variable [Fintype P]

/-- The pollers are well formed, and every waiter registered waits or has been scheduled. -/
structure Inv (s : Server P F C) : Prop where
  wf : ∀ p, (s.poller p).WF
  accounted : ∀ fd, s.registered fd = s.scheduled fd + ∑ p, (s.poller p).waitersOn fd

theorem new_inv (world : World) (size : P → ℕ) : Inv (new world size : Server P F C) where
  wf := fun p => wf_new (size p)
  accounted := by
    intro fd
    have hzero : ∀ p, (EventPoller.new (size p) : EventPoller P F C).waitersOn fd = 0 := by
      intro p
      rw [waitersOn, EventPoller.new, List.getElem?_map]
      cases (List.range (size p))[fd]? <;> rfl
    have hsum : ∑ p, (EventPoller.new (size p) : EventPoller P F C).waitersOn fd = 0 :=
      Finset.sum_eq_zero fun p _ => hzero p
    exact ((zero_add _).trans hsum).symm

/-- A descriptor without bits may be closed. -/
theorem Inv.forget {s : Server P F C} {fd : ℕ} (h : Inv s)
    (hnot : ∀ q e, ¬ (s.poller q).HasBit fd e) : Inv (s.forget fd) where
  wf := fun q => (h.wf q).setInterest_none (hnot q)
  accounted := h.accounted

/-- If no other poller has a bit, all waiters wait at the one. -/
theorem Inv.sum_waitersOn {s : Server P F C} {p : P} {fd : ℕ} (h : Inv s)
    (hother : s.NoOther p fd) : ∑ q, (s.poller q).waitersOn fd = (s.poller p).waitersOn fd :=
  Finset.sum_eq_single_of_mem p (Finset.mem_univ p) fun q _ hq =>
    (h.wf q).waitersOn_eq_zero (hother q hq)

end Invariant

variable [Fintype P] [DecidableEq P] {s s' : Server P F C} {p : P} {fd : ℕ}

/-- One poller is replaced. Its descriptor `fd` gains the waiters `new` and loses the waiters
`old`; the other descriptors keep theirs. -/
theorem Inv.update (h : Inv s) (world : World) (readers : P → ℤ) {ep : EventPoller P F C}
    {new old : Multiset (Waiter P F C)} (hwf : ep.WF)
    (hself : ep.waitersOn fd + old = (s.poller p).waitersOn fd + new)
    (hother : ∀ fd' ≠ fd, ep.waitersOn fd' = (s.poller p).waitersOn fd') :
    Inv { world := world
          poller := Function.update s.poller p ep
          readers := readers
          registered := Function.update s.registered fd (s.registered fd + new)
          scheduled := Function.update s.scheduled fd (s.scheduled fd + old) } where
  wf := by
    intro q
    by_cases hq : q = p
    · subst hq
      simpa using hwf
    · simpa [hq] using h.wf q
  accounted := by
    intro fd'
    have hold := h.accounted fd'
    by_cases hfd : fd' = fd
    · subst hfd
      have hsum := Table.sum_update_add (·.waitersOn fd') s.poller p hself
      simp only [Function.update_self]
      rw [hold, add_assoc, ← hsum]
      ac_rfl
    · -- the total of another descriptor stays
      have hsame : ep.waitersOn fd' + 0 = (s.poller p).waitersOn fd' + 0 := by
        rw [hother fd' hfd]
      have hsum := Table.sum_update_add (·.waitersOn fd') s.poller p hsame
      simp only [Function.update_of_ne hfd]
      rw [hold]
      simpa using hsum.symm

namespace Inv

/-- `addEvent` registers the waiter that it reports as registered. -/
theorem addEvent (h : Inv s) {event : Event} {cb : Option C} {fiber : F} {granted : Bool}
    (hst : s.addEvent p fd event cb fiber granted = some s') : Inv s' := by
  rw [Server.addEvent] at hst
  split at hst
  · cases hst
  · rename_i readers hreaders
    split at hst
    · cases hst
    · rename_i ret ep hadd
      cases hst
      obtain ⟨hwf, hself, hother⟩ := (h.wf p).addEvent_waitersOn rfl rfl hadd
      -- the waiter counts as registered only if `addEvent` has returned 0
      have hgain : ep.waitersOn fd + 0 =
          (s.poller p).waitersOn fd + if ret = 0 then {waiterOf p fiber cb} else 0 := by
        obtain ⟨hret, hep⟩ | ⟨hret, hep⟩ := hself
        · rw [if_pos hret, add_zero, hep]
        · rw [if_neg hret, hep]
      simpa using h.update s.world (Function.update s.readers p readers) hwf hgain hother

/-- `close` of a descriptor with a context schedules the waiters of the caller's poller, once
`cancelAll` has got its hold. -/
theorem close_eq (h : Inv s) (htracked : s.Tracked fd) (p : P) :
    ∃ ep : EventPoller P F C, ep.WF ∧ (∀ e, ¬ ep.HasBit fd e) ∧
      (∀ fd' ≠ fd, ep.waitersOn fd' = (s.poller p).waitersOn fd') ∧
      s.close p fd = (ReadLock.lookup (s.inside p fd) (s.readers p)).map fun readers =>
        Server.forget
          { world := s.world.close fd
            poller := Function.update s.poller p ep
            readers := Function.update s.readers p readers
            registered := s.registered
            scheduled := Function.update s.scheduled fd
              (s.scheduled fd + (s.poller p).waitersOn fd) } fd := by
  obtain ⟨ret, scheduled, ep, hcancel, hwf, hnot, hscheduled, hother⟩ :=
    (h.wf p).cancelAll_waitersOn fd
  refine ⟨ep, hwf, hnot, hother, ?_⟩
  obtain ⟨ctx, hlookup⟩ := Option.isSome_iff_exists.1 htracked
  simp only [Server.close, hlookup, hcancel, hscheduled]
  cases ReadLock.lookup (s.inside p fd) (s.readers p) <;> rfl

/-- `close` returns exactly if `cancelAll` gets its hold. -/
theorem close_isSome_iff (h : Inv s) (htracked : s.Tracked fd) :
    (s.close p fd).isSome ↔ -1 ≤ s.readers p := by
  obtain ⟨ep, -, -, -, heq⟩ := h.close_eq htracked p
  rw [heq, Option.isSome_map, Option.isSome_iff_exists]
  constructor
  · rintro ⟨readers, hreaders⟩
    exact (ReadLock.lookup_eq_some.1 hreaders).1
  · exact fun hle => ⟨_, ReadLock.lookup_eq_some.2 ⟨hle, rfl⟩⟩

/-- A descriptor may be closed where no other poller has a bit for it. -/
theorem close (h : Inv s) (halone : s.ClosesAlone (.close p fd)) (hst : s.close p fd = some s') :
    Inv s' := by
  obtain ⟨hother, huntracked⟩ := halone
  by_cases htracked : s.Tracked fd
  · obtain ⟨ep, hwf, hnot, hsame, heq⟩ := h.close_eq htracked p
    obtain ⟨readers, -, rfl⟩ := Option.map_eq_some_iff.1 (heq.symm.trans hst)
    -- all waiters of the poller are scheduled
    have hloss : ep.waitersOn fd + (s.poller p).waitersOn fd = (s.poller p).waitersOn fd + 0 := by
      rw [hwf.waitersOn_eq_zero hnot, zero_add, add_zero]
    have hinv :=
      h.update (s.world.close fd) (Function.update s.readers p readers) hwf hloss hsame
    rw [add_zero, Function.update_eq_self] at hinv
    refine hinv.forget fun q => ?_
    by_cases hq : q = p
    · subst hq
      simpa using hnot
    · simpa [hq] using hother q hq
  · -- no event is cancelled, but then there is none
    have hlookup : s.world.manager.lookup fd = none := by simpa [Tracked] using htracked
    rw [Server.close, hlookup] at hst
    cases hst
    refine Inv.forget ⟨h.wf, h.accounted⟩ fun q => ?_
    by_cases hq : q = p
    · subst hq
      exact huntracked htracked
    · exact hother q hq

theorem step (h : Inv s) {mask : Settable} {call : ServerCall P F C}
    (halone : s.ClosesAlone call) (hst : s.step mask call = some s') : Inv s' := by
  cases call with
  | socket fd flags =>
    obtain ⟨world, -, rfl⟩ := Option.map_eq_some_iff.1 hst
    exact ⟨h.wf, h.accounted⟩
  | addEvent p fd event cb fiber granted => exact h.addEvent hst
  | close p fd => exact h.close halone hst

/-- What has been closed is released exactly if no other poller had a bit. -/
theorem released_iff (h : Inv s) (htracked : s.Tracked fd) (hclose : s.close p fd = some s') :
    s'.Released fd ↔ s.NoOther p fd := by
  obtain ⟨ep, hwf, hnot, hsame, heq⟩ := h.close_eq htracked p
  obtain ⟨readers, -, rfl⟩ := Option.map_eq_some_iff.1 (heq.symm.trans hclose)
  constructor
  · rintro ⟨hbits, -⟩ q hq e hbit
    -- the other pollers keep their bits
    exact hbits q e (by simpa [Server.forget, hq] using hbit)
  · intro hother
    refine ⟨fun q e => ?_, ?_⟩
    · by_cases hq : q = p
      · subst hq
        simpa [Server.forget] using hnot e
      · simpa [Server.forget, hq] using hother q hq e
    · -- what has not been scheduled waits at the poller that closes
      have hold := h.accounted fd
      rw [h.sum_waitersOn hother] at hold
      simpa [Server.forget] using hold.symm

end Inv

end Server

/-! ## Runs -/

/-- In every run in which descriptors are closed alone, the next `close` of a descriptor with a
context that returns, on any poller, has released it exactly if no other poller had a bit set for
it. -/
theorem close_law {P F C : Type*} [Fintype P] [DecidableEq P] (mask : Settable) {world : World}
    {size : P → ℕ} {calls : List (ServerCall P F C)} {s s' : Server P F C}
    (hrun : Run (Guarded Server.ClosesAlone (ofFun (Server.step mask))) (.new world size) calls s)
    (p : P) {fd : ℕ} (htracked : s.Tracked fd) (hclose : s.close p fd = some s') :
    s'.Released fd ↔ s.NoOther p fd := by
  have hinv : s.Inv := hrun.invariant (Server.new_inv world size)
    fun _ _ _ h hst => h.step hst.1 hst.2
  exact hinv.released_iff htracked hclose

/-- A reader and a writer wait for a socket at the poller that closes it. -/
theorem close_law_example : ∃ s s' : Server Bool ℕ ℕ,
    Run (Guarded Server.ClosesAlone (ofFun (Server.step ⟨O_NONBLOCK, by decide⟩)))
      (.new (.new fun _ => none) fun _ => 8)
      [.socket 5 2, .addEvent true 5 .READ none 1 true, .addEvent true 5 .WRITE (some 3) 2 true]
      s ∧ s.close true 5 = some s' ∧ s'.Released 5 := by
  have hrun : ∃ s s' : Server Bool ℕ ℕ,
      Run (Guarded Server.ClosesAlone (ofFun (Server.step ⟨O_NONBLOCK, by decide⟩)))
        (.new (.new fun _ => none) fun _ => 8)
        [.socket 5 2, .addEvent true 5 .READ none 1 true, .addEvent true 5 .WRITE (some 3) 2 true]
        s ∧ s.Tracked 5 ∧ s.close true 5 = some s' ∧ s.NoOther true 5 := by
    refine ⟨_, _, .cons ⟨trivial, rfl⟩ (.cons ⟨trivial, rfl⟩ (.cons ⟨trivial, rfl⟩ .refl)),
      by unfold Server.Tracked; decide, rfl, ?_⟩
    rintro (_ | _) hq e ⟨c, hc, hhas⟩
    · obtain rfl : c = .new 5 := (Option.some_inj.1 hc).symm
      cases e <;> exact hhas (by decide)
    · exact absurd rfl hq
  obtain ⟨s, s', hrun, htracked, hclose, hother⟩ := hrun
  exact ⟨s, s', hrun, hclose, (close_law _ hrun true htracked hclose).2 hother⟩

/-- A fiber waits for a socket at one poller, and a thread of another closes it. -/
theorem not_released_other : ∃ (calls : List (ServerCall Bool ℕ ℕ)) (s s' : Server Bool ℕ ℕ),
    Run (ofFun (Server.step ⟨O_NONBLOCK, by decide⟩)) (.new (.new fun _ => none) fun _ => 8)
      calls s ∧ s.Tracked 5 ∧ s.close true 5 = some s' ∧ ¬ s'.Released 5 := by
  refine ⟨[.socket 5 2, .addEvent false 5 .READ none 1 true], _, _, Run.of_exec rfl,
    by unfold Server.Tracked; decide, rfl, ?_⟩
  rintro ⟨hbits, -⟩
  exact hbits false .READ ⟨_, rfl, by decide⟩

end Sylar.Hook
