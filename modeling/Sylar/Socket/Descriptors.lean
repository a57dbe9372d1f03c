import Mathlib.Data.Nat.Notation
import Mathlib.Logic.Function.Basic

/-!
# Descriptors of sockets, step by step

Model of the functions by which a `Socket` gets and gives up its descriptor: `newSock` in `bind` and
`connect`, `accept` with `init`, `close`, and the destructor, on any number of sockets and threads.
The calls of `socket`, `accept` and `close` go to the hooks of `util/hook.cpp`, which are cut into
steps at their accesses to the kernel and to `FdMgr`.

Representation:

* files are numbered in the order in which the program opens them, and `kernel` says which file is
  open as a descriptor, so that a descriptor that is used again can be told apart; `file` of a
  socket, `files` and `leaked` are kept only to state the results;
* `FdMgr` is a map from descriptors to contexts, and a context is the number of the file that its
  `init` has found. Contexts are made of sockets only;
* calls on one socket do not overlap, and `pc` says where the one in progress is; only a call of
  `accept` may go on while the listening socket is closed, or its descriptor is used again. The
  socket with which `bind` tries whether a path is in use is a socket like the others;
* the rest of the program has descriptors of its own in `others`, none of them with a context of its
  own. System calls that fail change nothing and are left out.
-/

namespace Sylar.Socket.Ownership

/-- Where a call on a socket is. -/
inductive Pc
  | idle
  /-- In `newSock`, in the hook `socket`: `get(fd, true)` is next. -/
  | opened (fd : ℕ)
  /-- In `accept`, in the hook `accept`: `get(fd, true)` is next. -/
  | accepted (fd : ℕ)
  /-- At the head of `init(fd)`. -/
  | initializing (fd : ℕ)
  /-- In the hook `close`, which has found a context: `del(fd)` is next. -/
  | deleting (fd : ℕ)
  /-- `close_f(fd)` is next. -/
  | closing (fd : ℕ)
  /-- In `close`, behind `::close`. -/
  | closed
  deriving DecidableEq, Repr

/-- A socket, with `-1` as `none`. `dead` says that its destructor has been called. -/
structure Obj where
  m_sock : Option ℕ
  m_Connected : Bool
  pc : Pc
  dead : Bool
  file : ℕ
  deriving DecidableEq, Repr

/-- `Socket(family, type, protocol)`. -/
def Obj.new : Obj where
  m_sock := none
  m_Connected := false
  pc := .idle
  dead := false
  file := 0

/-- The open descriptors, their contexts, and the sockets. -/
structure State (O : Type*) where
  files : ℕ
  kernel : ℕ → Option ℕ
  ctx : ℕ → Option ℕ
  sock : O → Option Obj
  others : ℕ → Option ℕ
  leaked : List ℕ

/-- What may happen. A thread with `hooked` has hooking enabled. -/
inductive Action (O : Type*)
  | create (o : O)
  /-- `newSock()` up to the return of `socket_f`. -/
  | socket (o : O) (fd : ℕ) (hooked : Bool)
  /-- `get(fd, true)` in the hooks `socket` and `accept`, up to their return. -/
  | get (o : O)
  /-- `connect` succeeds. -/
  | connected (o : O)
  /-- `accept()`, with `m_sock` read as `listening`, up to the return of `accept_f`, for a socket
  that will be at `o`. -/
  | accept (listening : ℕ) (o : O) (fd : ℕ)
  /-- `init(sockFd)`. -/
  | init (o : O)
  /-- `close()`, up to the first change of the kernel or of the contexts. -/
  | close (o : O) (hooked : Bool)
  /-- `~Socket()`, which calls `close()`. -/
  | destroy (o : O) (hooked : Bool)
  | del (o : O)
  | close_f (o : O)
  /-- `m_sock = -1`, and the end of `close()`. -/
  | reset (o : O)
  /-- The rest of the program opens a descriptor. -/
  | openOther (fd : ℕ)
  /-- And closes it. -/
  | closeOther (fd : ℕ) (hooked : Bool)
  deriving Repr

variable {O : Type*}

/-- A program without descriptors. -/
def State.new : State O where
  files := 0
  kernel := fun _ => none
  ctx := fun _ => none
  sock := fun _ => none
  others := fun _ => none
  leaked := []

/-- The kernel opens a file. -/
def State.openFile (s : State O) (fd : ℕ) : State O :=
  { s with files := s.files + 1, kernel := Function.update s.kernel fd (some s.files) }

/-- `FdMgr::getInstance()->get(fd, true)`. -/
def State.getCreate (s : State O) (fd : ℕ) : State O :=
  match s.ctx fd with
  | some _ => s
  | none => { s with ctx := Function.update s.ctx fd (s.kernel fd) }

/-- `FdMgr::getInstance()->del(fd)`. -/
def State.delCtx (s : State O) (fd : ℕ) : State O :=
  { s with ctx := Function.update s.ctx fd none }

/-- `close_f(fd)`. -/
def State.closeFile (s : State O) (fd : ℕ) : State O :=
  { s with kernel := Function.update s.kernel fd none }

/-- Store a file of the rest of the program. -/
def State.setOther (s : State O) (fd : ℕ) (file : Option ℕ) : State O :=
  { s with others := Function.update s.others fd file }

variable [DecidableEq O]

/-- Store a socket, or destroy it. -/
def State.setSock (s : State O) (o : O) (obj : Option Obj) : State O :=
  { s with sock := Function.update s.sock o obj }

/-- A socket whose `close` is over. -/
def State.returned (s : State O) (o : O) (obj : Obj) : State O :=
  if obj.dead then s.setSock o none else s.setSock o (some { obj with pc := .idle })

/-- `close()`. -/
def State.close (s : State O) (o : O) (obj : Obj) (hooked : Bool) : State O :=
  let obj := { obj with m_Connected := false }
  match obj.m_sock with
  | none => s.returned o obj
  | some fd =>
    if hooked ∧ (s.ctx fd).isSome then s.setSock o (some { obj with pc := .deleting fd })
    else s.setSock o (some { obj with pc := .closing fd })

/-- The state after an action, if the action is possible. -/
def step (s : State O) : Action O → Option (State O)
  | .create o =>
    match s.sock o with
    | none => some (s.setSock o (some .new))
    | some _ => none
  | .socket o fd hooked =>
    (s.sock o).bind fun obj =>
      -- `!isValid()`
      if obj.pc = .idle ∧ obj.m_sock = none ∧ s.kernel fd = none then
        let obj := { obj with file := s.files }
        if hooked then some ((s.openFile fd).setSock o (some { obj with pc := .opened fd }))
        else some ((s.openFile fd).setSock o (some { obj with m_sock := some fd }))
      else none
  | .get o =>
    (s.sock o).bind fun obj =>
      match obj.pc with
      | .opened fd =>
        some ((s.getCreate fd).setSock o (some { obj with m_sock := some fd, pc := .idle }))
      | .accepted fd => some ((s.getCreate fd).setSock o (some { obj with pc := .initializing fd }))
      | _ => none
  | .connected o =>
    (s.sock o).bind fun obj =>
      if obj.pc = .idle ∧ obj.m_sock ≠ none then
        some (s.setSock o (some { obj with m_Connected := true }))
      else none
  | .accept listening o fd =>
    if s.kernel listening ≠ none ∧ s.sock o = none ∧ s.kernel fd = none then
      some ((s.openFile fd).setSock o (some { Obj.new with pc := .accepted fd, file := s.files }))
    else none
  | .init o =>
    (s.sock o).bind fun obj =>
      match obj.pc with
      | .initializing fd =>
        match s.ctx fd with
        | some _ =>
          some (s.setSock o (some { obj with m_sock := some fd, m_Connected := true, pc := .idle }))
        -- `return nullptr`, without `close`
        | none => some { s.setSock o none with leaked := s.leaked ++ [fd] }
      | _ => none
  | .close o hooked =>
    (s.sock o).bind fun obj =>
      if obj.pc = .idle ∧ (obj.m_Connected ∨ obj.m_sock ≠ none) then some (s.close o obj hooked)
      else none
  | .destroy o hooked =>
    (s.sock o).bind fun obj =>
      if obj.pc = .idle then some (s.close o { obj with dead := true } hooked) else none
  | .del o =>
    (s.sock o).bind fun obj =>
      match obj.pc with
      | .deleting fd => some ((s.delCtx fd).setSock o (some { obj with pc := .closing fd }))
      | _ => none
  | .close_f o =>
    (s.sock o).bind fun obj =>
      match obj.pc with
      | .closing fd => some ((s.closeFile fd).setSock o (some { obj with pc := .closed }))
      | _ => none
  | .reset o =>
    (s.sock o).bind fun obj =>
      match obj.pc with
      | .closed => some (s.returned o { obj with m_sock := none })
      | _ => none
  | .openOther fd =>
    match s.kernel fd with
    | none => some ((s.openFile fd).setOther fd (some s.files))
    | some _ => none
  | .closeOther fd hooked =>
    match s.others fd with
    | some _ =>
      if hooked then some (((s.delCtx fd).closeFile fd).setOther fd none)
      else some ((s.closeFile fd).setOther fd none)
    | none => none

/-! ## The paths of a step -/

/-- The paths of a step. -/
inductive StepCase (s : State O) : Action O → State O → Prop
  | create {o : O} (hnone : s.sock o = none) : StepCase s (.create o) (s.setSock o (some .new))
  | opened {o : O} {obj : Obj} {fd : ℕ} (hsock : s.sock o = some obj) (hpc : obj.pc = .idle)
      (hm : obj.m_sock = none) (hfree : s.kernel fd = none) :
      StepCase s (.socket o fd true) ((s.openFile fd).setSock o
        (some { obj with file := s.files, pc := .opened fd }))
  | socket {o : O} {obj : Obj} {fd : ℕ} (hsock : s.sock o = some obj) (hpc : obj.pc = .idle)
      (hm : obj.m_sock = none) (hfree : s.kernel fd = none) :
      StepCase s (.socket o fd false) ((s.openFile fd).setSock o
        (some { obj with file := s.files, m_sock := some fd }))
  | getOpened {o : O} {obj : Obj} {fd : ℕ} (hsock : s.sock o = some obj)
      (hpc : obj.pc = .opened fd) :
      StepCase s (.get o) ((s.getCreate fd).setSock o
        (some { obj with m_sock := some fd, pc := .idle }))
  | getAccepted {o : O} {obj : Obj} {fd : ℕ} (hsock : s.sock o = some obj)
      (hpc : obj.pc = .accepted fd) :
      StepCase s (.get o) ((s.getCreate fd).setSock o (some { obj with pc := .initializing fd }))
  | connected {o : O} {obj : Obj} (hsock : s.sock o = some obj) (hpc : obj.pc = .idle)
      (hm : obj.m_sock ≠ none) :
      StepCase s (.connected o) (s.setSock o (some { obj with m_Connected := true }))
  | accept {o : O} {listening fd : ℕ} (hnone : s.sock o = none) (hfree : s.kernel fd = none) :
      StepCase s (.accept listening o fd) ((s.openFile fd).setSock o
        (some { Obj.new with pc := .accepted fd, file := s.files }))
  | init {o : O} {obj : Obj} {fd : ℕ} (hsock : s.sock o = some obj)
      (hpc : obj.pc = .initializing fd) (hctx : s.ctx fd ≠ none) :
      StepCase s (.init o) (s.setSock o
        (some { obj with m_sock := some fd, m_Connected := true, pc := .idle }))
  | leak {o : O} {obj : Obj} {fd : ℕ} (hsock : s.sock o = some obj)
      (hpc : obj.pc = .initializing fd) (hctx : s.ctx fd = none) :
      StepCase s (.init o) { s.setSock o none with leaked := s.leaked ++ [fd] }
  | close {o : O} {obj : Obj} {hooked : Bool} (hsock : s.sock o = some obj)
      (hpc : obj.pc = .idle) : StepCase s (.close o hooked) (s.close o obj hooked)
  | destroy {o : O} {obj : Obj} {hooked : Bool} (hsock : s.sock o = some obj)
      (hpc : obj.pc = .idle) :
      StepCase s (.destroy o hooked) (s.close o { obj with dead := true } hooked)
  | del {o : O} {obj : Obj} {fd : ℕ} (hsock : s.sock o = some obj) (hpc : obj.pc = .deleting fd) :
      StepCase s (.del o) ((s.delCtx fd).setSock o (some { obj with pc := .closing fd }))
  | close_f {o : O} {obj : Obj} {fd : ℕ} (hsock : s.sock o = some obj)
      (hpc : obj.pc = .closing fd) :
      StepCase s (.close_f o) ((s.closeFile fd).setSock o (some { obj with pc := .closed }))
  | reset {o : O} {obj : Obj} (hsock : s.sock o = some obj) (hpc : obj.pc = .closed) :
      StepCase s (.reset o) (s.returned o { obj with m_sock := none })
  | openOther {fd : ℕ} (hfree : s.kernel fd = none) :
      StepCase s (.openOther fd) ((s.openFile fd).setOther fd (some s.files))
  | closeHooked {fd file : ℕ} (hother : s.others fd = some file) :
      StepCase s (.closeOther fd true) (((s.delCtx fd).closeFile fd).setOther fd none)
  | closeOther {fd file : ℕ} (hother : s.others fd = some file) :
      StepCase s (.closeOther fd false) ((s.closeFile fd).setOther fd none)

theorem stepCase_of_step {s s' : State O} {a : Action O} (h : step s a = some s') :
    StepCase s a s' := by
  cases a with
  | create o =>
    simp only [step] at h
    split at h
    · cases h
      exact .create ‹_›
    · cases h
  | socket o fd hooked =>
    simp only [step, Option.bind_eq_some_iff, Option.ite_none_right_eq_some] at h
    obtain ⟨obj, hsock, ⟨hpc, hm, hfree⟩, h⟩ := h
    cases hooked with
    | true =>
      cases h
      exact .opened hsock hpc hm hfree
    | false =>
      cases h
      exact .socket hsock hpc hm hfree
  | get o =>
    simp only [step, Option.bind_eq_some_iff] at h
    obtain ⟨obj, hsock, h⟩ := h
    split at h
    · cases h
      exact .getOpened hsock ‹_›
    · cases h
      exact .getAccepted hsock ‹_›
    · cases h
  | connected o =>
    simp only [step, Option.bind_eq_some_iff, Option.ite_none_right_eq_some,
      Option.some.injEq] at h
    obtain ⟨obj, hsock, ⟨hpc, hm⟩, rfl⟩ := h
    exact .connected hsock hpc hm
  | accept listening o fd =>
    simp only [step, Option.ite_none_right_eq_some, Option.some.injEq] at h
    obtain ⟨⟨-, hnone, hfree⟩, rfl⟩ := h
    exact .accept hnone hfree
  | init o =>
    simp only [step, Option.bind_eq_some_iff] at h
    obtain ⟨obj, hsock, h⟩ := h
    split at h
    · rename_i fd hpc
      split at h
      · rename_i hctx
        cases h
        exact .init hsock hpc (by simp [hctx])
      · rename_i hctx
        cases h
        exact .leak hsock hpc hctx
    · cases h
  | close o hooked =>
    simp only [step, Option.bind_eq_some_iff, Option.ite_none_right_eq_some,
      Option.some.injEq] at h
    obtain ⟨obj, hsock, ⟨hpc, -⟩, rfl⟩ := h
    exact .close hsock hpc
  | destroy o hooked =>
    simp only [step, Option.bind_eq_some_iff, Option.ite_none_right_eq_some,
      Option.some.injEq] at h
    obtain ⟨obj, hsock, hpc, rfl⟩ := h
    exact .destroy hsock hpc
  | del o =>
    simp only [step, Option.bind_eq_some_iff] at h
    obtain ⟨obj, hsock, h⟩ := h
    split at h
    · cases h
      exact .del hsock ‹_›
    · cases h
  | close_f o =>
    simp only [step, Option.bind_eq_some_iff] at h
    obtain ⟨obj, hsock, h⟩ := h
    split at h
    · cases h
      exact .close_f hsock ‹_›
    · cases h
  | reset o =>
    simp only [step, Option.bind_eq_some_iff] at h
    obtain ⟨obj, hsock, h⟩ := h
    split at h
    · cases h
      exact .reset hsock ‹_›
    · cases h
  | openOther fd =>
    simp only [step] at h
    split at h
    · cases h
      exact .openOther ‹_›
    · cases h
  | closeOther fd hooked =>
    simp only [step] at h
    split at h
    · rename_i hother
      cases hooked with
      | true =>
        cases h
        exact .closeHooked hother
      | false =>
        cases h
        exact .closeOther hother
    · cases h

end Sylar.Socket.Ownership
