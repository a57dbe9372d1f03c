import Sylar.FdManager.Defs
import Mathlib.Logic.Function.Basic

/-!
# The hooks on the flags of sockets

Model of `FdCtx::init` and of the hooks `socket`, `accept`, `fcntl` with `F_SETFL` and `F_GETFL`,
`ioctl` with `FIONBIO`, and `close` of `util/hook.cpp`, on threads with hooking enabled. What
`close` does to the event poller is left out.

The kernel keeps for each open descriptor whether it is a socket, and its file flags. `F_SETFL`
stores the bits of a mask that contains `O_NONBLOCK`, `FIONBIO` stores `O_NONBLOCK`, and `F_GETFL`
returns the flags. A hook is a partial function on the world: `none` where a system call fails, or
where `m_datas` is written behind its end.
-/

namespace Sylar.Hook

/-! ## The kernel -/

/-- `O_NONBLOCK`. -/
def O_NONBLOCK : BitVec 32 := 0x800

/-- `flags & O_NONBLOCK`, as a condition. -/
def nonblock (flags : BitVec 32) : Bool := flags &&& O_NONBLOCK ≠ 0

/-- An open file. -/
structure File where
  isSocket : Bool
  flags : BitVec 32
  deriving DecidableEq, Repr

/-- The flags that `F_SETFL` can change. -/
abbrev Settable := { mask : BitVec 32 // O_NONBLOCK &&& mask = O_NONBLOCK }

/-- The system call `fcntl(F_SETFL, arg)`. -/
def File.setfl (mask : Settable) (file : File) (arg : BitVec 32) : File :=
  { file with flags := (file.flags &&& ~~~mask.1) ||| (arg &&& mask.1) }

/-- The system call `ioctl(FIONBIO, v)`. -/
def File.fionbio (file : File) (v : BitVec 32) : File :=
  { file with flags :=
      if v ≠ 0 then file.flags ||| O_NONBLOCK else file.flags &&& ~~~O_NONBLOCK }

/-- The open files and the contexts. -/
structure World where
  kernel : ℕ → Option File
  manager : FdManager

/-- No descriptor has a context. -/
def World.new (kernel : ℕ → Option File) : World where
  kernel := kernel
  manager := .new

/-! ## Contexts -/

/-- `FdCtx::FdCtx(fd)` with `init()`, and the file as `init` leaves it. -/
def initCtx (mask : Settable) (fd : ℕ) (file : Option File) : FdCtx × Option File :=
  let ctx (isInit isSocket : Bool) : FdCtx :=
    { isInit := isInit
      isSocket := isSocket
      sysNonblock := isSocket
      userNonblock := false
      isClosed := false
      fd := fd
      recvTimeout := -1
      sendTimeout := -1 }
  match file with
  | none => (ctx false false, none) -- `fstat` fails
  | some file =>
    if file.isSocket then
      (ctx true true,
        some (if !nonblock file.flags then file.setfl mask (file.flags ||| O_NONBLOCK) else file))
    else (ctx true false, some file)

/-- The context of a new socket, which `init` makes non-blocking for the kernel only. -/
def initSocket (fd : ℕ) : FdCtx :=
  (initCtx ⟨O_NONBLOCK, by decide⟩ fd (some { isSocket := true, flags := 0 })).1

namespace World

variable {w : World} {fd p : ℕ} {ctx : FdCtx}

/-- Store a file. -/
def setFile (w : World) (fd : ℕ) (file : Option File) : World :=
  { w with kernel := Function.update w.kernel fd file }

/-- A system call does not touch `FdMgr`. -/
@[simp]
theorem setFile_manager (w : World) (fd : ℕ) (file : Option File) :
    (w.setFile fd file).manager = w.manager := rfl

/-- It changes one descriptor. -/
@[simp]
theorem setFile_kernel (w : World) (fd : ℕ) (file : Option File) :
    (w.setFile fd file).kernel = Function.update w.kernel fd file := rfl

/-- `FdMgr::getInstance()->get(fd, true)`. -/
def getCreate (mask : Settable) (w : World) (fd : ℕ) : Option World :=
  match w.manager.getShared fd true with
  | some _ => some w
  | none =>
    let (ctx, file) := initCtx mask fd (w.kernel fd)
    (w.manager.getExclusive fd ctx).map fun (_, m) => { w.setFile fd file with manager := m }

/-- The context with which the hooks of flags work: those that fail
`!ctx || ctx->isClose() || !ctx->isSocket()` get the plain system call. -/
def socketCtx (w : World) (fd : ℕ) : Option (ℕ × FdCtx) :=
  (w.manager.lookup fd).filter fun (_, ctx) => !ctx.isClosed && ctx.isSocket

/-! ## Hooks -/

/-- `socket`, for which the kernel chooses the descriptor `fd` and the flags. -/
def socket (mask : Settable) (w : World) (fd : ℕ) (flags : BitVec 32) : Option World :=
  match w.kernel fd with
  | some _ => none
  | none => (w.setFile fd (some { isSocket := true, flags := flags })).getCreate mask fd

/-- What `do_io` does with its system call. -/
inductive Io
  /-- `errno = EBADF`, without a call. -/
  | fails
  /-- The plain call. -/
  | calls
  /-- The call, and on `EAGAIN` the fiber waits for the event and calls again. -/
  | waits
  deriving DecidableEq, Repr

/-- The choice of `do_io`. -/
def doIo (w : World) (fd : ℕ) : Io :=
  match w.manager.lookup fd with
  | none => .calls
  | some (_, ctx) =>
    if ctx.isClosed then .fails
    else if !ctx.isSocket || ctx.userNonblock then .calls
    else .waits

/-- The system call of `do_io` may block the thread. -/
def doIoBlocks (w : World) (fd : ℕ) : Prop :=
  w.doIo fd ≠ .fails ∧ ∃ file, w.kernel fd = some file ∧ nonblock file.flags = false

/-- `accept` on `s`, for which the kernel chooses the descriptor `fd` and the flags. -/
def accept (mask : Settable) (w : World) (s fd : ℕ) (flags : BitVec 32) : Option World :=
  match w.doIo s with
  | .fails => none
  | .calls | .waits =>
    match w.kernel s, w.kernel fd with
    | some _, none =>
      (w.setFile fd (some { isSocket := true, flags := flags })).getCreate mask fd
    | _, _ => none

/-- `fcntl(fd, F_SETFL, arg)`. -/
def fcntlSetfl (mask : Settable) (w : World) (fd : ℕ) (arg : BitVec 32) : Option World :=
  (w.kernel fd).map fun file =>
    match w.socketCtx fd with
    | none => w.setFile fd (some (file.setfl mask arg))
    | some (p, ctx) =>
      let m := w.manager.modify p (·.setUserNonblock (nonblock arg))
      let arg := if ctx.sysNonblock then arg ||| O_NONBLOCK else arg &&& ~~~O_NONBLOCK
      { w.setFile fd (some (file.setfl mask arg)) with manager := m }

/-- `fcntl(fd, F_GETFL)`. -/
def fcntlGetfl (w : World) (fd : ℕ) : Option (BitVec 32) :=
  (w.kernel fd).map fun file =>
    match w.socketCtx fd with
    | none => file.flags
    | some (_, ctx) =>
      if ctx.userNonblock then file.flags ||| O_NONBLOCK else file.flags &&& ~~~O_NONBLOCK

/-- `ioctl(d, FIONBIO, &v)`. -/
def ioctlFionbio (w : World) (d : ℕ) (v : BitVec 32) : Option World :=
  (w.kernel d).map fun file =>
    match w.socketCtx d with
    | none => w.setFile d (some (file.fionbio v))
    | some (p, _) =>
      { w.setFile d (some (file.fionbio v)) with
        manager := w.manager.modify p (·.setUserNonblock (v ≠ 0)) }

/-- `close(fd)`. -/
def close (w : World) (fd : ℕ) : World :=
  let m := match w.manager.lookup fd with
    | none => w.manager
    | some _ => w.manager.del fd
  { w.setFile fd none with manager := m }

/-- The hooks find only open sockets. -/
theorem lookup_of_socketCtx (h : w.socketCtx fd = some (p, ctx)) :
    w.manager.lookup fd = some (p, ctx) ∧ ctx.isClosed = false ∧ ctx.isSocket = true := by
  obtain ⟨hlookup, htest⟩ := Option.filter_eq_some_iff.1 h
  simp only [Bool.and_eq_true, Bool.not_eq_true'] at htest
  exact ⟨hlookup, htest⟩

/-- The context of a socket after `setUserNonblock`. -/
theorem socketCtx_modify (h : w.socketCtx fd = some (p, ctx)) (kernel : ℕ → Option File)
    (v : Bool) : (World.mk kernel (w.manager.modify p (·.setUserNonblock v))).socketCtx fd =
      some (p, ctx.setUserNonblock v) := by
  obtain ⟨hlookup, htest⟩ := Option.filter_eq_some_iff.1 h
  rw [socketCtx, FdManager.lookup_modify, hlookup]
  simpa [FdCtx.setUserNonblock] using htest

end World

/-! ## Flags -/

/-- `O_NONBLOCK` is bit 11. -/
theorem nonblock_eq (flags : BitVec 32) : nonblock flags = flags.getLsbD 11 := by
  have hpow : O_NONBLOCK = BitVec.twoPow 32 11 := by decide
  rw [nonblock, hpow, BitVec.and_twoPow]
  cases flags.getLsbD 11 <;> decide

/-- It is this bit alone. -/
theorem getLsbD_O_NONBLOCK (i : ℕ) : O_NONBLOCK.getLsbD i = decide (i = 11) := by
  have hpow : O_NONBLOCK = BitVec.twoPow 32 11 := by decide
  rw [hpow, BitVec.getLsbD_twoPow]
  by_cases hi : i = 11
  · simp [hi]
  · simp [hi, Ne.symm hi]

/-- `F_SETFL` can set `O_NONBLOCK`. -/
theorem Settable.getLsbD (mask : Settable) : mask.1.getLsbD 11 = true := by
  have h := congrArg (·.getLsbD 11) mask.2
  simpa [BitVec.getLsbD_and, getLsbD_O_NONBLOCK] using h

/-- `flags | O_NONBLOCK` does not block. -/
@[simp]
theorem nonblock_or (flags : BitVec 32) : nonblock (flags ||| O_NONBLOCK) = true := by
  simp [nonblock_eq, getLsbD_O_NONBLOCK]

/-- `flags & ~O_NONBLOCK` blocks. -/
@[simp]
theorem nonblock_and_not (flags : BitVec 32) : nonblock (flags &&& ~~~O_NONBLOCK) = false := by
  simp [nonblock_eq, getLsbD_O_NONBLOCK]

/-- No other flag changes with `O_NONBLOCK`. -/
theorem getLsbD_or_of_ne {i : ℕ} (hi : i ≠ 11) (flags : BitVec 32) :
    (flags ||| O_NONBLOCK).getLsbD i = flags.getLsbD i := by
  simp [getLsbD_O_NONBLOCK, hi]

/-- The other flags stay as they are. -/
theorem getLsbD_and_not_of_ne {i : ℕ} (hi : i ≠ 11) (flags : BitVec 32) :
    (flags &&& ~~~O_NONBLOCK).getLsbD i = flags.getLsbD i := by
  simp only [BitVec.getLsbD_and, BitVec.getLsbD_not, getLsbD_O_NONBLOCK, hi, decide_false,
    Bool.not_false, Bool.and_true]
  cases hbit : flags.getLsbD i with
  | false => simp
  | true => simp [BitVec.lt_of_getLsbD hbit]

namespace File

/-- A settable bit is stored as given. -/
theorem getLsbD_setfl {mask : Settable} {i : ℕ} (hi : mask.1.getLsbD i = true) (file : File)
    (arg : BitVec 32) : (file.setfl mask arg).flags.getLsbD i = arg.getLsbD i := by
  simp [setfl, BitVec.getLsbD_or, BitVec.getLsbD_and, hi]

/-- After `F_SETFL` the file blocks as the argument says. -/
@[simp]
theorem nonblock_setfl (mask : Settable) (file : File) (arg : BitVec 32) :
    nonblock (file.setfl mask arg).flags = nonblock arg := by
  rw [nonblock_eq, nonblock_eq, getLsbD_setfl mask.getLsbD]

/-- `FIONBIO` leaves the other flags as they are. -/
theorem getLsbD_fionbio {i : ℕ} (hi : i ≠ 11) (file : File) (v : BitVec 32) :
    (file.fionbio v).flags.getLsbD i = file.flags.getLsbD i := by
  rw [fionbio]
  split
  · exact getLsbD_or_of_ne hi _
  · exact getLsbD_and_not_of_ne hi _

/-- After `FIONBIO` the file blocks if the value is 0. -/
@[simp]
theorem nonblock_fionbio (file : File) (v : BitVec 32) :
    nonblock (file.fionbio v).flags = decide (v ≠ 0) := by
  by_cases hv : v = 0#32
  · simp [fionbio, hv]
  · simp [fionbio, hv]

end File

/-- `init` makes a socket non-blocking. -/
theorem initCtx_socket (mask : Settable) (fd : ℕ) (flags : BitVec 32) :
    ∃ file, (initCtx mask fd (some ⟨true, flags⟩)).2 = some file ∧
      nonblock file.flags = true := by
  refine ⟨_, rfl, ?_⟩
  split
  · rw [File.nonblock_setfl, nonblock_or]
  · rename_i hset
    simpa using hset

/-- A context is open when it has been made. -/
theorem initCtx_isClosed (mask : Settable) (fd : ℕ) (file : Option File) :
    (initCtx mask fd file).1.isClosed = false := by
  cases file with
  | none => rfl
  | some file =>
    rw [initCtx]
    split <;> rfl

end Sylar.Hook
