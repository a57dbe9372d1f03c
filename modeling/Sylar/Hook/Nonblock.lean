import Sylar.Hook.Defs
import Sylar.Foundation.Run

/-!
# Sockets with a context stay non-blocking

Runs of the hooks `socket`, `accept`, `fcntl` with `F_SETFL`, `ioctl` with `FIONBIO` and `close`.
`FdCtx::init` makes a socket non-blocking in the kernel, and `F_SETFL` translates what the user
asks for so that it stays so; `FIONBIO` does not translate. `StaysNonblock` is what `do_io` relies
on. It holds in every state of a run unless `FIONBIO` is called with 0 on a socket with a context,
which breaks it at once (`stays_nonblock`). Runs keep the vector of contexts at a size that fits
an `int`.
-/

namespace Sylar.Hook

open Transition

/-- A call of a hook. -/
inductive HookCall
  | socket (fd : ℕ) (flags : BitVec 32)
  | accept (s fd : ℕ) (flags : BitVec 32)
  | setfl (fd : ℕ) (arg : BitVec 32)
  | fionbio (fd : ℕ) (v : BitVec 32)
  | close (fd : ℕ)
  deriving DecidableEq, Repr

namespace World

/-- The world after a call. -/
def step (mask : Settable) (w : World) : HookCall → Option World
  | .socket fd flags => w.socket mask fd flags
  | .accept s fd flags => w.accept mask s fd flags
  | .setfl fd arg => w.fcntlSetfl mask fd arg
  | .fionbio fd v => w.ioctlFionbio fd v
  | .close fd => some (w.close fd)

/-- Open sockets whose context says so do not block, and `do_io` does not block on them. -/
def StaysNonblock (w : World) : Prop :=
  ∀ fd p ctx file, w.kernel fd = some file → w.manager.lookup fd = some (p, ctx) →
    ctx.isSocket = true → ctx.sysNonblock = true →
    nonblock file.flags = true ∧ ¬ w.doIoBlocks fd

/-- `FIONBIO` with 0 is not called on a socket that is to stay non-blocking, and the vector of
contexts is to have less than `2 ^ 31` slots. -/
def Meets (w : World) : HookCall → Prop
  | .socket fd _ | .accept _ fd _ => fd * 3 / 2 < 2 ^ 31
  | .fionbio fd v => v = 0 → ∀ p ctx, w.socketCtx fd = some (p, ctx) → ctx.sysNonblock = false
  | .setfl _ _ | .close _ => True

/-! ## The invariant -/

/-- The context in a slot. -/
def slotCtx (w : World) (fd : ℕ) : Option FdCtx :=
  (w.manager.slot fd).bind fun p => w.manager.ctxs[p]?

/-- Only open descriptors have contexts, and sockets with a context are non-blocking. -/
structure Inv (w : World) : Prop where
  size : w.manager.datas.length < 2 ^ 31
  opened : ∀ fd p, w.manager.slot fd = some p → w.kernel fd ≠ none
  nonblock : ∀ fd ctx file, w.slotCtx fd = some ctx → w.kernel fd = some file →
    ctx.isSocket = true → ctx.sysNonblock = true → nonblock file.flags = true
  notClosed : ∀ ctx ∈ w.manager.ctxs, ctx.isClosed = false

variable {mask : Settable} {w w' : World} {fd : ℕ}

theorem slotCtx_of_lookup (h : w.manager.datas.length < 2 ^ 31) {p : ℕ} {ctx : FdCtx}
    (hlookup : w.manager.lookup fd = some (p, ctx)) : w.slotCtx fd = some ctx := by
  rw [FdManager.lookup_eq h] at hlookup
  obtain ⟨q, hq, hctx⟩ := Option.bind_eq_some_iff.1 hlookup
  obtain ⟨ctx', hctx', hpair⟩ := Option.map_eq_some_iff.1 hctx
  obtain ⟨-, rfl⟩ := Prod.mk.inj hpair
  rw [slotCtx, hq, Option.bind_some, hctx']

theorem Inv.staysNonblock (h : Inv w) : StaysNonblock w := by
  intro fd p ctx file hfile hlookup hsocket hsys
  have hnonblock := h.nonblock fd ctx file (slotCtx_of_lookup h.size hlookup) hfile hsocket hsys
  refine ⟨hnonblock, ?_⟩
  rintro ⟨-, file', hfile', hblock⟩
  obtain rfl := Option.some_inj.1 (hfile.symm.trans hfile')
  rw [hnonblock] at hblock
  cases hblock

theorem new_inv (kernel : ℕ → Option File) : Inv (.new kernel) := by
  have hslot : ∀ fd, (World.new kernel).manager.slot fd = none := by
    intro fd
    change (List.replicate 64 (none : Option ℕ))[fd]?.join = none
    rw [List.getElem?_replicate]
    split <;> rfl
  refine ⟨(by decide : FdManager.new.datas.length < 2 ^ 31), fun fd p hp => ?_,
    fun fd ctx file hctx => ?_, fun ctx hctx => ?_⟩
  · rw [hslot] at hp
    cases hp
  · rw [slotCtx, hslot] at hctx
    cases hctx
  · cases hctx

/-! ## `close` -/

theorem close_ctxs (w : World) (fd : ℕ) : (w.close fd).manager.ctxs = w.manager.ctxs := by
  rw [World.close]
  cases w.manager.lookup fd <;> rfl

theorem close_length (w : World) (fd : ℕ) :
    (w.close fd).manager.datas.length = w.manager.datas.length := by
  rw [World.close]
  cases w.manager.lookup fd with
  | none => rfl
  | some ctx => exact FdManager.length_del w.manager fd

theorem close_slot (h : w.manager.datas.length < 2 ^ 31) (fd fd' : ℕ) :
    (w.close fd).manager.slot fd' = if fd' = fd then none else w.manager.slot fd' := by
  rw [World.close]
  cases hlookup : w.manager.lookup fd with
  | none =>
    -- the slot is empty already
    have hnone := FdManager.slot_eq_none_of_lookup h hlookup
    by_cases hfd : fd' = fd
    · rw [if_pos hfd, hfd]
      exact hnone
    · rw [if_neg hfd]
  | some ctx => exact FdManager.slot_del h fd fd'

/-! ## The invariant after a call -/

namespace Inv

/-- A file may change as long as it does not block. -/
theorem setFile (h : Inv w) (file : File)
    (hfile : ∀ ctx, w.slotCtx fd = some ctx → ctx.isSocket = true → ctx.sysNonblock = true →
      Hook.nonblock file.flags = true) : Inv (w.setFile fd (some file)) := by
  refine ⟨h.size, fun fd' p hp => ?_, fun fd' ctx file' hctx hkernel => ?_, h.notClosed⟩
  · by_cases hfd : fd' = fd
    · subst hfd
      simp
    · simpa [hfd] using h.opened fd' p hp
  · by_cases hfd : fd' = fd
    · subst hfd
      obtain rfl : file = file' := by simpa using hkernel
      exact hfile ctx hctx
    · exact h.nonblock fd' ctx file' hctx (by simpa [hfd] using hkernel)

/-- What the user asked for is not part of the invariant. -/
theorem setUserNonblock (h : Inv w) (p : ℕ) (v : Bool) :
    Inv { w with manager := w.manager.modify p (·.setUserNonblock v) } := by
  refine ⟨h.size, h.opened, fun fd ctx file hctx => ?_, fun ctx hctx => ?_⟩
  · obtain ⟨q, hq, hctx⟩ := Option.bind_eq_some_iff.1 hctx
    obtain ⟨ctx', hctx', hsame⟩ : ∃ ctx', w.manager.ctxs[q]? = some ctx' ∧
        ctx.isSocket = ctx'.isSocket ∧ ctx.sysNonblock = ctx'.sysNonblock := by
      have hget : (w.manager.ctxs.modify p (·.setUserNonblock v))[q]? = some ctx := hctx
      rw [List.getElem?_modify] at hget
      obtain ⟨ctx', hctx', rfl⟩ := Option.map_eq_some_iff.1 hget
      refine ⟨ctx', hctx', ?_⟩
      split <;> exact ⟨rfl, rfl⟩
    have hslot : w.slotCtx fd = some ctx' := by
      rw [slotCtx, show w.manager.slot fd = some q from hq, Option.bind_some, hctx']
    rw [hsame.1, hsame.2]
    exact h.nonblock fd ctx' file hslot
  · obtain ⟨q, hq⟩ := List.mem_iff_getElem?.1 hctx
    have hget : (w.manager.ctxs.modify p (·.setUserNonblock v))[q]? = some ctx := hq
    rw [List.getElem?_modify] at hget
    obtain ⟨ctx', hctx', rfl⟩ := Option.map_eq_some_iff.1 hget
    have hold := h.notClosed ctx' (List.mem_of_getElem? hctx')
    split <;> exact hold

/-- A new descriptor gets a context, and its socket is made non-blocking. -/
theorem getCreate (h : Inv w) (hfree : w.kernel fd = none) (hfd : fd * 3 / 2 < 2 ^ 31)
    {flags : BitVec 32}
    (hget : (w.setFile fd (some ⟨true, flags⟩)).getCreate mask fd = some w') : Inv w' := by
  -- a descriptor that was not open has no context, so the call goes on to the second section
  have hslot : w.manager.slot fd = none := by
    cases hp : w.manager.slot fd with
    | none => rfl
    | some p => exact absurd hfree (h.opened fd p hp)
  have hshared : w.manager.getShared fd true = none := by
    rw [FdManager.getShared_eq h.size]
    simp [hslot]
  have hopen : (w.setFile fd (some ⟨true, flags⟩)).kernel fd = some ⟨true, flags⟩ := by simp
  obtain ⟨file, hfile, hnonblock⟩ := initCtx_socket mask fd flags
  simp only [World.getCreate, hshared, hopen, hfile, setFile_manager] at hget
  obtain ⟨⟨p, m⟩, hexclusive, rfl⟩ := Option.map_eq_some_iff.1 hget
  obtain ⟨hp, hslot', hctxs⟩ := FdManager.getExclusive_eq_some hexclusive
  have hother : ∀ {fd'}, fd' ≠ fd → m.slot fd' = w.manager.slot fd' := fun hne =>
    FdManager.slot_getExclusive h.size hexclusive hne
  refine ⟨FdManager.length_getExclusive h.size hexclusive hfd, fun fd' q hq => ?_,
    fun fd' ctx file' hctx hkernel => ?_, fun ctx hctx => ?_⟩
  · by_cases hne : fd' = fd
    · subst hne
      simp
    · simpa [hne] using h.opened fd' q ((hother hne).symm.trans hq)
  · by_cases hne : fd' = fd
    · subst hne
      obtain rfl : file = file' := by simpa using hkernel
      exact fun _ _ => hnonblock
    · obtain ⟨q, hq, hctx⟩ := Option.bind_eq_some_iff.1 hctx
      have hold : w.manager.slot fd' = some q := (hother hne).symm.trans hq
      have hget : (w.manager.ctxs ++ [_])[q]? = some ctx := hctxs ▸ hctx
      rw [List.getElem?_append_left (w.manager.slot_lt hold)] at hget
      refine h.nonblock fd' ctx file' ?_ (by simpa [hne] using hkernel)
      rw [slotCtx, hold, Option.bind_some, hget]
  · have hmem : ctx ∈ w.manager.ctxs ++ [_] := hctxs ▸ hctx
    obtain hmem | hmem := List.mem_append.1 hmem
    · exact h.notClosed ctx hmem
    · rw [List.mem_singleton.1 hmem]
      exact initCtx_isClosed mask fd _

/-- A closed descriptor has no context. -/
theorem close (h : Inv w) (fd : ℕ) : Inv (w.close fd) := by
  have hkernel : (w.close fd).kernel = Function.update w.kernel fd none := rfl
  refine ⟨by rw [close_length]; exact h.size, fun fd' p hp => ?_,
    fun fd' ctx file hctx hfile => ?_, fun ctx hctx => ?_⟩
  · rw [close_slot h.size] at hp
    split at hp
    · cases hp
    · rw [hkernel, Function.update_of_ne ‹_›]
      exact h.opened fd' p hp
  · rw [slotCtx, close_slot h.size, close_ctxs] at hctx
    split at hctx
    · cases hctx
    · rw [hkernel, Function.update_of_ne ‹_›] at hfile
      exact h.nonblock fd' ctx file hctx hfile
  · rw [close_ctxs] at hctx
    exact h.notClosed ctx hctx

/-- A descriptor with which the hooks work as with any other file has no socket in its slot. -/
theorem isSocket_eq_false (h : Inv w) (hnone : w.socketCtx fd = none) {ctx : FdCtx}
    (hctx : w.slotCtx fd = some ctx) : ctx.isSocket = false := by
  obtain ⟨p, hp, hget⟩ := Option.bind_eq_some_iff.1 hctx
  have hlookup : w.manager.lookup fd = some (p, ctx) := by
    rw [FdManager.lookup_eq h.size, hp, Option.bind_some, hget]
    rfl
  have hopen := h.notClosed ctx (List.mem_of_getElem? hget)
  simpa [socketCtx, hlookup, Option.filter, hopen] using hnone

/-- A hook of flags stores the file of a descriptor, which is non-blocking if the descriptor has the
context of a non-blocking socket. -/
theorem setFlags (h : Inv w) (file : File)
    (hfile : ∀ p ctx, w.socketCtx fd = some (p, ctx) → ctx.sysNonblock = true →
      Hook.nonblock file.flags = true) : Inv (w.setFile fd (some file)) := by
  apply h.setFile
  intro ctx hslot hsocket hsys
  cases hctx : w.socketCtx fd with
  | none =>
    rw [h.isSocket_eq_false hctx hslot] at hsocket
    cases hsocket
  | some pctx =>
    have hslot' := slotCtx_of_lookup h.size (lookup_of_socketCtx hctx).1
    obtain rfl := Option.some_inj.1 (hslot.symm.trans hslot')
    exact hfile pctx.1 pctx.2 hctx hsys

/-- `F_SETFL` leaves `O_NONBLOCK` set. -/
theorem fcntlSetfl (h : Inv w) {arg : BitVec 32} (hst : w.fcntlSetfl mask fd arg = some w') :
    Inv w' := by
  obtain ⟨file, -, rfl⟩ := Option.map_eq_some_iff.1 hst
  cases hctx : w.socketCtx fd with
  | none => exact h.setFlags _ fun p ctx hctx' => by simp [hctx] at hctx'
  | some pctx =>
    obtain ⟨p, ctx⟩ := pctx
    refine Inv.setUserNonblock (h.setFlags _ fun q ctx' hctx' hsys => ?_) p _
    obtain ⟨rfl, rfl⟩ := Prod.mk.inj (Option.some_inj.1 (hctx.symm.trans hctx'))
    rw [if_pos hsys, File.nonblock_setfl, nonblock_or]

/-- `FIONBIO` stores what it is given. -/
theorem ioctlFionbio (h : Inv w) {v : BitVec 32} (hmeets : w.Meets (.fionbio fd v))
    (hst : w.ioctlFionbio fd v = some w') : Inv w' := by
  obtain ⟨file, -, rfl⟩ := Option.map_eq_some_iff.1 hst
  have hstored : Inv (w.setFile fd (some (file.fionbio v))) := by
    refine h.setFlags _ fun p ctx hctx hsys => ?_
    rw [File.nonblock_fionbio, decide_eq_true_iff]
    intro hv
    rw [hmeets hv p ctx hctx] at hsys
    cases hsys
  cases hctx : w.socketCtx fd with
  | none => exact hstored
  | some pctx => exact hstored.setUserNonblock pctx.1 _

end Inv

/-! ## The law -/

theorem inv_step {call : HookCall} (h : Inv w) (hmeets : w.Meets call)
    (hst : w.step mask call = some w') : Inv w' := by
  cases call with
  | socket fd flags =>
    rw [step, socket] at hst
    split at hst
    · cases hst
    · exact h.getCreate ‹_› hmeets hst
  | accept s fd flags =>
    rw [step, accept] at hst
    split at hst
    · cases hst
    -- with or without waiting, the system call is made
    all_goals
      split at hst
      · exact h.getCreate ‹_› hmeets hst
      · cases hst
  | setfl fd arg => exact h.fcntlSetfl hst
  | fionbio fd v => exact h.ioctlFionbio hmeets hst
  | close fd =>
    cases hst
    exact h.close fd

/-- `FIONBIO` with 0 on a socket with a context makes it block. -/
theorem not_staysNonblock {p : ℕ} {ctx : FdCtx} (hctx : w.socketCtx fd = some (p, ctx))
    (hsys : ctx.sysNonblock = true) (hst : w.ioctlFionbio fd 0 = some w') :
    ¬ w'.StaysNonblock := by
  obtain ⟨file, -, rfl⟩ := Option.map_eq_some_iff.1 hst
  simp only [hctx]
  intro h
  -- the context still is that of a non-blocking socket
  obtain ⟨hlookup, -, hsocket⟩ := lookup_of_socketCtx (socketCtx_modify hctx _ _)
  have hblock := (h fd _ _ (file.fionbio 0) (by simp) hlookup hsocket hsys).1
  rw [File.nonblock_fionbio] at hblock
  cases hblock

end World

/-- In every run of hooked calls that meet the condition, whatever files are open at the start, the
sockets with a context are non-blocking in every state reached. There, a call of `FIONBIO` with 0
on one of them makes it block. -/
theorem stays_nonblock (mask : Settable) (kernel : ℕ → Option File) {calls : List HookCall}
    {w : World} (hrun : Run (Guarded World.Meets (ofFun (World.step mask))) (.new kernel) calls w) :
    w.StaysNonblock ∧ ∀ fd p ctx w', w.socketCtx fd = some (p, ctx) → ctx.sysNonblock = true →
      w.step mask (.fionbio fd 0) = some w' → ¬ w'.StaysNonblock := by
  have hinv : w.Inv := hrun.invariant (World.new_inv kernel)
    fun _ _ _ h hst => World.inv_step h hst.1 hst.2
  exact ⟨hinv.staysNonblock, fun _ _ _ _ hctx hsys hst => World.not_staysNonblock hctx hsys hst⟩

/-- The user of a new socket asks for blocking mode with `F_SETFL`, then for non-blocking mode with
`FIONBIO`. -/
theorem stays_nonblock_example : ∃ w,
    Run (Guarded World.Meets (ofFun (World.step ⟨O_NONBLOCK, by decide⟩))) (.new fun _ => none)
      [.socket 5 2, .setfl 5 0, .fionbio 5 1] w ∧ w.StaysNonblock := by
  have hrun : ∃ w, Run (Guarded World.Meets (ofFun (World.step ⟨O_NONBLOCK, by decide⟩)))
      (.new fun _ => none) [.socket 5 2, .setfl 5 0, .fionbio 5 1] w :=
    ⟨_, .cons ⟨(by decide : 5 * 3 / 2 < 2 ^ 31), rfl⟩ (.cons ⟨trivial, rfl⟩
      (.cons ⟨fun hv => absurd hv (by decide), rfl⟩ .refl))⟩
  obtain ⟨w, hrun⟩ := hrun
  exact ⟨w, hrun, (stays_nonblock _ _ hrun).1⟩

/-- The user of a new socket asks for blocking mode with `FIONBIO`. -/
theorem not_staysNonblock_fionbio : ∃ calls w,
    Run (ofFun (World.step ⟨O_NONBLOCK, by decide⟩)) (.new fun _ => none) calls w ∧
      ¬ w.StaysNonblock := by
  refine ⟨[.socket 5 2, .fionbio 5 0], _, Run.of_exec rfl, fun h => ?_⟩
  have hblock := (h 5 0 ⟨true, true, true, false, false, 5, -1, -1⟩ ⟨true, 2⟩ (by decide)
    (by decide) rfl rfl).1
  cases hblock

end Sylar.Hook
