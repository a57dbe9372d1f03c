import Sylar.EventPoller.WellFormed
import Sylar.FdManager.Defs
import Sylar.Foundation.SharedMutex

/-!
# The table of contexts

`m_fdContexts` holds pointers to the contexts of descriptors, and `m_mtx` guards it. `addEvent`
looks its descriptor up under a shared lock. If the table is too short, it takes an exclusive lock
and calls `contextResize`, which takes the lock once more: undefined behaviour, and with libstdc++
and glibc an exception (`EDEADLK`).

Representation:

* a pointer is an index into `heap`, and the null pointer is `none`;
* only the calling thread is looked at: how it holds `m_mtx`, and the mutex of which context it
  holds;
* `FdContext.addEvent` is the part of `addEvent` under the mutex of the context (`addEvent_def`).

`growLaw_iff` says that `addEvent` returns exactly for the descriptors inside the table. The helper
alone does what it should (`contextResize_spec`).
-/

namespace Sylar.EventPoller

open Locking

variable {S F C : Type}

/-! ## Model -/

/-- Ways in which a call on the table does not return. -/
inductive TableFault
  /-- `m_mtx` is locked by the thread that holds it already. -/
  | relock
  /-- A slot behind the end of the table, or a null pointer in it. -/
  | wildPointer
  | body (fault : Fault)
  deriving DecidableEq, Repr

/-- The table, the contexts that its pointers point to, and the locks of the calling thread. -/
structure Table (S F C : Type) where
  slots : List (Option ℕ)
  heap : List (FdContext S F C)
  pendingEventCount : ℕ
  interest : ℕ → Option Mask
  held : Option Mode
  fdHeld : Option ℕ

/-- Operations on the table. -/
abbrev TableOp (S F C : Type) := EStateM TableFault (Table S F C)

/-- The part of `EventPoller::addEvent(fd, event, cb)` that runs under the mutex of the context:
what it returns, the context, the interest that the kernel has, and `m_pendingEventCount`. -/
def FdContext.addEvent (fd_ctx : FdContext S F C) (interest : Option Mask) (pending : ℕ)
    (event : Event) (cb : Option C) (this : Caller S F) (granted : Bool) :
    Except Fault (ℤ × FdContext S F C × Option Mask × ℕ) :=
  if fd_ctx.events &&& event.mask ≠ 0 then .error .assertion
  else
    let op := addOp fd_ctx.events
    match epoll_ctl op (EPOLLET ||| fd_ctx.events ||| event.mask) interest granted with
    | none => .ok (-1, fd_ctx, interest, pending)
    | some interest =>
      let fd_ctx := { fd_ctx with events := fd_ctx.events ||| event.mask }
      let event_ctx := fd_ctx.getContext event
      if event_ctx.scheduler.isSome || event_ctx.fiber.isSome || event_ctx.cb.isSome then
        .error .assertion
      else
        match cb with
        | some cb =>
          let event_ctx := { event_ctx with scheduler := this.scheduler, cb := some cb }
          .ok (0, fd_ctx.setContext event_ctx event, interest, pending + 1)
        | none =>
          let event_ctx := { event_ctx with scheduler := this.scheduler, fiber := some this.fiber }
          if this.state ≠ .EXEC then .error .assertion
          else .ok (0, fd_ctx.setContext event_ctx event, interest, pending + 1)

namespace Table

/-- A lock object on `m_mtx` is constructed. -/
def lock (mode : Mode) : TableOp S F C Unit := fun s =>
  if s.held.isSome then .error .relock s else .ok () { s with held := some mode }

/-- The lock object unlocks `m_mtx`, when it is told to or destroyed. -/
def unlock : TableOp S F C Unit := fun s => .ok () { s with held := none }

/-- `m_fdContexts[fd]`, to be dereferenced. -/
def slot (fd : ℕ) : TableOp S F C ℕ := fun s =>
  match s.slots[fd]?.join with
  | none => .error .wildPointer s
  | some p => .ok p s

/-- The loop of `contextResize`, with `n` rounds to come from the index `i` on. -/
def fillLoop : ℕ → ℕ → Table S F C → Table S F C
  | 0, _, s => s
  | n + 1, i, s =>
    match s.slots[i]?.join with
    | some _ => fillLoop n (i + 1) s
    | none =>
      fillLoop n (i + 1) { s with
        slots := s.slots.set i (some s.heap.length)
        heap := s.heap ++ [.new i] }

/-- `EventPoller::contextResize(size)`. -/
def contextResize (size : ℕ) : TableOp S F C Unit := do
  lock .exclusive
  if size ≤ (← get).slots.length then unlock
  else
    modify fun s => fillLoop size 0 { s with slots := resize size s.slots }
    unlock

/-- The first part of `addEvent(fd, ..)`, up to the pointer `fd_ctx`. -/
def findContext (fd : ℕ) : TableOp S F C ℕ := do
  lock .shared
  if intSize (← get).slots.length > fd then
    let fd_ctx ← slot fd
    unlock
    return fd_ctx
  else
    unlock
    lock .exclusive
    contextResize (fd * 3 / 2) -- `fd * 1.5`, converted to `size_t`
    let fd_ctx ← slot fd
    unlock -- the end of the block of `writelock`
    return fd_ctx

/-- The second part of `addEvent(fd, ..)`, on the context at `p`. -/
def register (fd p : ℕ) (event : Event) (cb : Option C) (this : Caller S F) (granted : Bool) :
    TableOp S F C ℤ := fun s =>
  match s.heap[p]? with
  | none => .error .wildPointer s
  | some fd_ctx =>
    match fd_ctx.addEvent (s.interest fd) s.pendingEventCount event cb this granted with
    | .error fault => .error (.body fault) s
    | .ok (rt, fd_ctx, interest, pending) =>
      .ok rt { s with
        heap := s.heap.set p fd_ctx
        pendingEventCount := pending
        interest := fun fd' => if fd' = fd then interest else s.interest fd' }

/-- `EventPoller::addEvent(fd, event, cb)`. -/
def addEvent (fd : ℕ) (event : Event) (cb : Option C) (this : Caller S F) (granted : Bool) :
    TableOp S F C ℤ := do
  let fd_ctx ← findContext fd
  modify fun s => { s with fdHeld := some fd_ctx }
  let rt ← register fd fd_ctx event cb this granted
  modify fun s => { s with fdHeld := none }
  return rt

/-- No poller exists yet: the table is empty, and the thread holds no lock. -/
def new : Table S F C where
  slots := []
  heap := []
  pendingEventCount := 0
  interest := fun _ => none
  held := none
  fdHeld := none

/-! ## What `addEvent` should do -/

/-- The slot `i` holds a pointer to a context that carries the number `i`. -/
def HasContext (s : Table S F C) (i : ℕ) : Prop :=
  ∃ p c, s.slots[i]? = some (some p) ∧ s.heap[p]? = some c ∧ c.fd = i

/-- `addEvent` returns. There is a context for the descriptor and in every slot, the contexts that
existed are where they were, and the thread holds no lock. -/
def GrowLaw (s : Table S F C) (fd : ℕ) (event : Event) (cb : Option C) (this : Caller S F)
    (granted : Bool) : Prop :=
  ∃ rt s', (addEvent fd event cb this granted).run s = .ok rt s' ∧
    fd < s'.slots.length ∧ (∀ i < s'.slots.length, s'.HasContext i) ∧
    (∀ i < s.slots.length, s'.slots[i]? = s.slots[i]?) ∧ s'.held = none ∧ s'.fdHeld = none

/-- Every slot has a context, all contexts are well formed, and the thread holds no lock. -/
structure Filled (s : Table S F C) : Prop where
  slot : ∀ i < s.slots.length, s.HasContext i
  wf : ∀ c ∈ s.heap, c.WF
  held : s.held = none
  fdHeld : s.fdHeld = none

/-- The event is not registered on the descriptor. -/
def Unregistered (s : Table S F C) (fd : ℕ) (event : Event) : Prop :=
  ∀ p c, s.slots[fd]? = some (some p) → s.heap[p]? = some c → ¬ Mask.Has c.events event

end Table

/-! ## The second part -/

theorem FdContext.new_wf (fd : ℕ) : (FdContext.new fd : FdContext S F C).WF := by
  have hnot : ∀ e, ¬ Mask.Has NONE e := (Mask.Valid.eq_none_iff (Or.inl rfl)).mp rfl
  refine ⟨Or.inl rfl, fun e he => absurd he (hnot e), fun e _ => ?_⟩
  cases e <;> rfl

/-- `FdContext.addEvent` is what `addEvent` does with the context that it has found. -/
theorem addEvent_def (ep : EventPoller S F C) (fd : ℕ) (event : Event) (cb : Option C)
    (this : Caller S F) (granted : Bool) :
    ep.addEvent fd event cb this granted =
      match ep.fdContexts[fd]? with
      | none => .error .selfDeadlock
      | some c =>
        (c.addEvent (ep.interest fd) ep.pendingEventCount event cb this granted).map
          fun (rt, c, interest, pending) =>
            (rt, if rt = 0 then (ep.update fd c pending).setInterest fd interest else ep) := by
  cases hfd : ep.fdContexts[fd]? with
  | none => simp only [EventPoller.addEvent, hfd]
  | some c =>
    simp only [EventPoller.addEvent, hfd, FdContext.addEvent]
    by_cases hset : c.events &&& event.mask ≠ 0
    · rw [if_pos hset, if_pos hset]
      rfl
    · rw [if_neg hset, if_neg hset]
      cases epoll_ctl (addOp c.events) (EPOLLET ||| c.events ||| event.mask) (ep.interest fd)
          granted with
      | none => rfl
      | some interest =>
        cases cb with
        | some cb =>
          dsimp only
          split_ifs <;> rfl
        | none =>
          dsimp only
          split_ifs <;> rfl

/-- On a well-formed context, an event that is not registered is added or refused. -/
theorem FdContext.WF.addEvent_ok {c : FdContext S F C} (hc : c.WF) {event : Event}
    (hnot : ¬ Mask.Has c.events event) (interest : Option Mask) (pending : ℕ) (cb : Option C)
    {this : Caller S F} (hexec : cb = none → this.state = .EXEC) (granted : Bool) :
    ∃ rt c' interest' pending',
      c.addEvent interest pending event cb this granted = .ok (rt, c', interest', pending') ∧
        c'.fd = c.fd := by
  have hset : ¬ c.events &&& event.mask ≠ 0 := hnot
  cases hctl : epoll_ctl (addOp c.events) (EPOLLET ||| c.events ||| event.mask) interest
      granted with
  | none =>
    refine ⟨-1, c, interest, pending, ?_, rfl⟩
    simp only [FdContext.addEvent, if_neg hset, hctl]
  | some interest' =>
    -- the slot of the event was empty
    simp only [FdContext.addEvent, if_neg hset, hctl, getContext_events, hc.empty event hnot,
      EventContext.new]
    cases cb with
    | some cb => exact ⟨_, _, _, _, rfl, setContext_fd _ _ _⟩
    | none =>
      simp only [hexec rfl]
      exact ⟨_, _, _, _, rfl, setContext_fd _ _ _⟩

namespace Table

variable {s : Table S F C} {fd : ℕ} {event : Event} {cb : Option C} {this : Caller S F}

/-! ## Locks -/

theorem lock_run (h : s.held = none) (mode : Mode) :
    (lock mode).run s = .ok () { s with held := some mode } := by
  simp [EStateM.run, lock, h]

/-- The mutex is not recursive. -/
theorem lock_run_held {m : Mode} (h : s.held = some m) (mode : Mode) :
    (lock mode).run s = .error .relock s := by
  simp [EStateM.run, lock, h]

theorem unlock_run (s : Table S F C) : (unlock : TableOp S F C Unit).run s =
    .ok () { s with held := none } := rfl

/-- A lock that was taken and released has left nothing behind. -/
theorem with_held_none (h : s.held = none) : { s with held := none } = s := by
  rw [← h]

/-! ## The helper -/

/-- A context stays in its slot when only slots without a pointer are filled and contexts are only
added. -/
theorem HasContext.mono {s s' : Table S F C} {i : ℕ} (h : s.HasContext i)
    (hslots : ∀ j p : ℕ, s.slots[j]? = some (some p) → s'.slots[j]? = some (some p))
    (hheap : s.heap <+: s'.heap) : s'.HasContext i := by
  obtain ⟨p, c, hp, hc, hfd⟩ := h
  obtain ⟨rest, hrest⟩ := hheap
  refine ⟨p, c, hslots i p hp, ?_, hfd⟩
  rw [← hrest, List.getElem?_append_left (List.getElem?_eq_some_iff.mp hc).1]
  exact hc

/-- The loop gives a context to every slot from `i` on, and changes nothing else. -/
theorem fillLoop_spec (n : ℕ) {i : ℕ} {s : Table S F C} (hlen : s.slots.length = i + n)
    (hslot : ∀ j p : ℕ, s.slots[j]? = some (some p) → s.HasContext j)
    (hdone : ∀ j < i, s.HasContext j) (hwf : ∀ c ∈ s.heap, c.WF) :
    (fillLoop n i s).slots.length = i + n ∧
      (∀ j < i + n, (fillLoop n i s).HasContext j) ∧
      (∀ j p : ℕ, s.slots[j]? = some (some p) → (fillLoop n i s).slots[j]? = some (some p)) ∧
      (∀ c ∈ (fillLoop n i s).heap, c.WF) ∧ (fillLoop n i s).held = s.held ∧
      (fillLoop n i s).fdHeld = s.fdHeld := by
  induction n generalizing i s with
  | zero => exact ⟨hlen, hdone, fun _ _ => id, hwf, rfl, rfl⟩
  | succ n ih =>
    have hsucc : i + (n + 1) = i + 1 + n := by omega
    rw [hsucc] at hlen ⊢
    cases hjoin : s.slots[i]?.join with
    | some p =>
      have hi : s.HasContext i := hslot i p (Option.join_eq_some_iff.mp hjoin)
      rw [fillLoop, hjoin]
      refine ih hlen hslot (fun j hj => ?_) hwf
      rcases Nat.lt_succ_iff_lt_or_eq.mp hj with hlt | rfl
      · exact hdone j hlt
      · exact hi
    | none =>
      let s₁ : Table S F C := { s with
        slots := s.slots.set i (some s.heap.length)
        heap := s.heap ++ [.new i] }
      -- a pointer that was there is not overwritten
      have hkeep : ∀ j p : ℕ, s.slots[j]? = some (some p) → s₁.slots[j]? = some (some p) := by
        intro j p hj
        have hne : i ≠ j := by
          rintro rfl
          simp [hj] at hjoin
        exact (List.getElem?_set_ne hne).trans hj
      have hnew : s₁.HasContext i := by
        refine ⟨s.heap.length, .new i, List.getElem?_set_self (by omega), ?_, rfl⟩
        simp [s₁]
      have hslot₁ : ∀ j p : ℕ, s₁.slots[j]? = some (some p) → s₁.HasContext j := by
        intro j p hj
        by_cases hne : i = j
        · exact hne ▸ hnew
        · rw [List.getElem?_set_ne hne] at hj
          exact (hslot j p hj).mono hkeep ⟨_, rfl⟩
      have hdone₁ : ∀ j < i + 1, s₁.HasContext j := by
        intro j hj
        rcases Nat.lt_succ_iff_lt_or_eq.mp hj with hlt | rfl
        · exact (hdone j hlt).mono hkeep ⟨_, rfl⟩
        · exact hnew
      have hwf₁ : ∀ c ∈ s₁.heap, c.WF := by
        intro c hc
        rcases List.mem_append.mp hc with hold | hone
        · exact hwf c hold
        · rw [List.mem_singleton.mp hone]
          exact FdContext.new_wf i
      obtain ⟨hlen', hall, hkeep', hwf', hheld, hfdHeld⟩ :=
        ih (s := s₁) (by rw [List.length_set, hlen]) hslot₁ hdone₁ hwf₁
      rw [fillLoop, hjoin]
      exact ⟨hlen', hall, fun j p hj => hkeep' j p (hkeep j p hj), hwf', hheld, hfdHeld⟩

/-- Called by a thread that holds no lock, `contextResize` gives the table the size asked for, with
a context in every slot, and keeps those that existed. -/
theorem contextResize_spec (h : Filled s) (size : ℕ) :
    ∃ s', (contextResize size).run s = .ok () s' ∧ Filled s' ∧
      s'.slots.length = max size s.slots.length ∧
      ∀ i < s.slots.length, s'.slots[i]? = s.slots[i]? := by
  by_cases hsize : size ≤ s.slots.length
  · refine ⟨s, ?_, h, (max_eq_right hsize).symm, fun _ _ => rfl⟩
    rw [contextResize, EStateM.run_bind, lock_run h.held]
    simp only [EStateM.run_bind, EStateM.run_get, hsize, if_true, unlock_run]
    rw [with_held_none h.held]
  · let s₀ : Table S F C := { s with held := some .exclusive, slots := resize size s.slots }
    -- the slots that the vector has gained hold null pointers
    have hold : ∀ j p : ℕ, s₀.slots[j]? = some (some p) → s.slots[j]? = some (some p) := by
      intro j p hj
      have hjoin : s₀.slots[j]?.join = some p := by rw [hj]; rfl
      have hlt : j < size := by
        have := (List.getElem?_eq_some_iff.mp hj).1
        rwa [length_resize] at this
      rw [getElem?_resize_join s.slots hlt] at hjoin
      exact Option.join_eq_some_iff.mp hjoin
    have hslot : ∀ j p : ℕ, s₀.slots[j]? = some (some p) → s₀.HasContext j := by
      intro j p hj
      obtain ⟨q, c, hq, hc, hfd⟩ := h.slot j (List.getElem?_eq_some_iff.mp (hold j p hj)).1
      obtain rfl : p = q := by simpa [hold j p hj] using hq
      exact ⟨p, c, hj, hc, hfd⟩
    obtain ⟨hlen, hall, hkeep, hwf, hheld, hfdHeld⟩ :=
      fillLoop_spec size (i := 0) (s := s₀) (by simp [s₀]) hslot (by simp) h.wf
    refine ⟨{ fillLoop size 0 s₀ with held := none }, ?_, ⟨?_, hwf, rfl, ?_⟩, ?_, ?_⟩
    · rw [contextResize, EStateM.run_bind, lock_run h.held]
      simp only [EStateM.run_bind, EStateM.run_get, hsize, if_false]
      rfl
    · exact fun i hi => hall i (hlen ▸ hi)
    · exact hfdHeld.trans h.fdHeld
    · change (fillLoop size 0 s₀).slots.length = _
      omega
    · intro i hi
      obtain ⟨p, c, hp, -⟩ := h.slot i hi
      have hjoin : s₀.slots[i]?.join = some p := by
        rw [getElem?_resize_join s.slots (by omega), hp]
        rfl
      exact (hkeep i p (Option.join_eq_some_iff.mp hjoin)).trans hp.symm

/-- The table that the constructor of the poller makes with `contextResize(32)`. -/
theorem exists_filled (S F C : Type) (size : ℕ) :
    ∃ s : Table S F C, Filled s ∧ s.slots.length = size ∧
      (contextResize size).run (new : Table S F C) = .ok () s := by
  have hnew : Filled (new : Table S F C) := by
    refine ⟨fun i hi => ?_, fun c hc => ?_, rfl, rfl⟩
    · cases hi
    · cases hc
  obtain ⟨s, hrun, hfilled, hlen, -⟩ := contextResize_spec hnew size
  exact ⟨s, hfilled, hlen.trans (Nat.max_zero size), hrun⟩

/-! ## The first part -/

/-- A descriptor inside the table is looked up under the shared lock. -/
theorem findContext_inside (h : Filled s) (hfd : (fd : ℤ) < intSize s.slots.length) :
    ∃ p c, (findContext fd).run s = .ok p s ∧ s.slots[fd]? = some (some p) ∧
      s.heap[p]? = some c ∧ c.fd = fd := by
  have hle := intSize_le s.slots.length
  obtain ⟨p, c, hp, hc, hcfd⟩ := h.slot fd (by omega)
  have hslot : (slot fd).run { s with held := some .shared } =
      .ok p { s with held := some .shared } := by
    simp [EStateM.run, slot, hp]
  refine ⟨p, c, ?_, hp, hc, hcfd⟩
  rw [findContext, EStateM.run_bind, lock_run h.held]
  dsimp only
  rw [EStateM.run_bind, EStateM.run_get]
  dsimp only
  rw [if_pos hfd, EStateM.run_bind, hslot]
  dsimp only
  rw [EStateM.run_bind, unlock_run]
  dsimp only
  rw [with_held_none h.held, EStateM.run_pure]

/-- For any other descriptor, the helper finds the lock held by its own caller. -/
theorem findContext_outside (h : Filled s) (hfd : ¬ (fd : ℤ) < intSize s.slots.length) :
    (findContext fd).run s = .error .relock { s with held := some .exclusive } := by
  have hresize : (contextResize (fd * 3 / 2)).run { s with held := some .exclusive } =
      .error .relock { s with held := some .exclusive } := by
    rw [contextResize, EStateM.run_bind, lock_run_held rfl]
  rw [findContext, EStateM.run_bind, lock_run h.held]
  dsimp only
  rw [EStateM.run_bind, EStateM.run_get]
  dsimp only
  rw [if_neg hfd, EStateM.run_bind, unlock_run]
  dsimp only
  rw [EStateM.run_bind, lock_run rfl]
  dsimp only
  rw [EStateM.run_bind, hresize]

/-! ## The law -/

/-- The second part stores a context with the same number at the same place. -/
theorem register_ok (h : ∀ c ∈ s.heap, c.WF) {p : ℕ} {c : FdContext S F C}
    (hc : s.heap[p]? = some c) (hnot : ¬ Mask.Has c.events event)
    (hexec : cb = none → this.state = .EXEC) (granted : Bool) :
    ∃ rt s', (register fd p event cb this granted).run s = .ok rt s' ∧ s'.slots = s.slots ∧
      (∀ i, s.HasContext i → s'.HasContext i) ∧ s'.held = s.held := by
  have hwf : c.WF := h c (List.mem_of_getElem? hc)
  obtain ⟨rt, c', interest', pending', hadd, hfd⟩ :=
    hwf.addEvent_ok hnot (s.interest fd) s.pendingEventCount cb hexec granted
  have hrun : (register fd p event cb this granted).run s = .ok rt { s with
      heap := s.heap.set p c'
      pendingEventCount := pending'
      interest := fun fd' => if fd' = fd then interest' else s.interest fd' } := by
    simp only [EStateM.run, register, hc, hadd]
  refine ⟨rt, _, hrun, rfl, fun i hi => ?_, rfl⟩
  obtain ⟨q, d, hq, hd, hdfd⟩ := hi
  by_cases hne : p = q
  · subst hne
    obtain rfl : c = d := Option.some.inj (hc.symm.trans hd)
    refine ⟨p, c', hq, ?_, hfd.trans hdfd⟩
    exact List.getElem?_set_self (List.getElem?_eq_some_iff.mp hc).1
  · exact ⟨q, d, hq, (List.getElem?_set_ne hne).trans hd, hdfd⟩

/-- `addEvent` of an event that is not registered does what it should exactly when the descriptor
lies inside the table, whose size is converted to `int` for the comparison. Otherwise it locks
`m_mtx` a second time. -/
theorem growLaw_iff (s : Table S F C) (fd : ℕ) (event : Event) (cb : Option C) (this : Caller S F)
    (granted : Bool) (h : Filled s) (hnot : Unregistered s fd event)
    (hexec : cb = none → this.state = .EXEC) :
    GrowLaw s fd event cb this granted ↔ (fd : ℤ) < intSize s.slots.length := by
  constructor
  · rintro ⟨rt, s', hrun, -⟩
    by_contra hfd
    rw [addEvent, EStateM.run_bind, findContext_outside h hfd] at hrun
    cases hrun
  · intro hfd
    obtain ⟨p, c, hfind, hp, hc, -⟩ := findContext_inside h hfd
    have hle := intSize_le s.slots.length
    -- the mutex of the context is held while it changes
    obtain ⟨rt, s', hrun, hslots, hcontext, hheld⟩ :=
      register_ok (s := { s with fdHeld := some p }) h.wf hc (hnot p c hp hc) hexec granted
    refine ⟨rt, { s' with fdHeld := none }, ?_, ?_, fun i hi => ?_, fun i _ => ?_, ?_, rfl⟩
    · rw [addEvent, EStateM.run_bind, hfind]
      dsimp only
      rw [EStateM.run_bind, EStateM.run_modify]
      dsimp only
      rw [EStateM.run_bind, hrun]
      rfl
    · rw [hslots]
      change fd < s.slots.length
      omega
    · apply hcontext i
      apply h.slot
      rwa [← hslots]
    · rw [hslots]
    · exact hheld.trans h.held

/-- The second of two descriptors. -/
theorem growLaw_iff_example :
    let s : Table Unit ℕ ℕ :=
      { (new : Table Unit ℕ ℕ) with slots := [some 0, some 1], heap := [.new 0, .new 1] }
    GrowLaw s 1 .READ none ⟨some (), 7, .EXEC⟩ true ↔ ((1 : ℕ) : ℤ) < intSize s.slots.length := by
  refine growLaw_iff _ 1 .READ none ⟨some (), 7, .EXEC⟩ true
    ⟨fun i hi => ?_, fun c hc => ?_, rfl, rfl⟩ ?_ fun _ => rfl
  · obtain rfl | rfl : i = 0 ∨ i = 1 := Nat.le_one_iff_eq_zero_or_eq_one.mp (Nat.le_of_lt_succ hi)
    · exact ⟨0, .new 0, rfl, rfl, rfl⟩
    · exact ⟨1, .new 1, rfl, rfl, rfl⟩
  · simp only [List.mem_cons, List.not_mem_nil, or_false] at hc
    rcases hc with rfl | rfl
    · exact FdContext.new_wf 0
    · exact FdContext.new_wf 1
  · rintro p c hp hc
    cases hp
    cases hc
    exact (Mask.Valid.eq_none_iff (Or.inl rfl)).mp rfl .READ

/-- The first descriptor behind a table of 32 contexts: the thread waits for itself. -/
theorem not_growLaw_outside : ∃ s : Table Unit ℕ ℕ, Filled s ∧ s.slots.length = 32 ∧
    Unregistered s 32 .READ ∧ (∃ s', (addEvent 32 .READ none ⟨some (), 7, .EXEC⟩ true).run s =
      .error .relock s') ∧ ¬ GrowLaw s 32 .READ none ⟨some (), 7, .EXEC⟩ true := by
  obtain ⟨s, hfilled, hlen, -⟩ := exists_filled Unit ℕ ℕ 32
  have hsize : ¬ ((32 : ℕ) : ℤ) < intSize s.slots.length := by
    rw [hlen, intSize_eq (by decide)]
    decide
  have hfind := findContext_outside hfilled hsize
  have hrun : (addEvent 32 .READ none ⟨some (), 7, .EXEC⟩ true).run s =
      .error .relock { s with held := some .exclusive } := by
    rw [addEvent, EStateM.run_bind, hfind]
  refine ⟨s, hfilled, hlen, fun p c hp _ => ?_, ⟨_, hrun⟩, ?_⟩
  · simp [hlen] at hp
  · rintro ⟨rt, s', hok, -⟩
    rw [hrun] at hok
    cases hok

end Table

end Sylar.EventPoller
