import Sylar.Foundation.Custody
import Sylar.Foundation.Run
import Sylar.Socket.Descriptors

/-!
# Who holds a descriptor

Descriptors are numbers that the kernel uses again, so a descriptor that is closed twice, or used
after it has been closed, is somebody else's. `ownership_law` says that the calls on any number of
sockets, in any interleaving, keep each open descriptor with one holder (`Custody.Inv`), and that
`FdMgr` keeps the context of each file apart from those of files that had its descriptor before, if
hooking is enabled wherever sockets are made and closed. Without it, `close` leaves a context behind
that the next socket takes over, timeouts included.
-/

namespace Sylar.Socket.Ownership

open Transition

variable {O : Type*} [DecidableEq O]

/-! ## Custody -/

/-- The descriptor that the socket has to close, or is about to store. -/
def Obj.fd (obj : Obj) : Option ℕ :=
  match obj.pc with
  | .idle => obj.m_sock
  | .opened fd | .accepted fd | .initializing fd | .deleting fd | .closing fd => some fd
  | .closed => none

/-- That descriptor, with the file that the socket has opened. -/
def Obj.held (obj : Obj) : Option (ℕ × ℕ) := obj.fd.map (·, obj.file)

/-- The sockets and the rest of the program, one holder for each of its descriptors, hold the open
descriptors. -/
def State.custody (s : State O) : Custody (O ⊕ ℕ) ℕ ℕ where
  live := s.kernel
  held := Sum.elim (fun o => (s.sock o).bind Obj.held) fun fd => (s.others fd).map (fd, ·)

section Custody

variable {s s' : State O} {o : O} {obj : Obj} {obj' : Option Obj} {fd : ℕ} {a : Action O}

omit [DecidableEq O] in
theorem held_inl (h : s.sock o = some obj) : s.custody.held (.inl o) = obj.held := by
  simp [State.custody, h]

omit [DecidableEq O] in
theorem held_inr {file : ℕ} (h : s.others fd = some file) :
    s.custody.held (.inr fd) = some (fd, file) := by
  simp [State.custody, h]

/-- A socket that holds what it held. -/
theorem custody_setSock (h : obj'.bind Obj.held = (s.sock o).bind Obj.held) :
    (s.setSock o obj').custody = s.custody := by
  refine congrArg (Custody.mk s.kernel) (funext fun holder => ?_)
  cases holder with
  | inr fd => rfl
  | inl v =>
    by_cases hv : v = o
    · subst hv
      simpa [State.setSock] using h
    · simp [State.setSock, hv]

/-- A socket opens a file. -/
theorem custody_openFile (h : obj.held = some (fd, s.files)) :
    ((s.openFile fd).setSock o (some obj)).custody = s.custody.acquire (.inl o) fd s.files := by
  refine congrArg (Custody.mk _) (funext fun holder => ?_)
  cases holder with
  | inr fd => rfl
  | inl v =>
    by_cases hv : v = o
    · subst hv
      simpa [State.setSock] using h
    · simp [State.setSock, State.openFile, State.custody, hv]

/-- A socket closes its file. -/
theorem custody_closeFile (h : obj.held = none) :
    ((s.closeFile fd).setSock o (some obj)).custody = s.custody.release (.inl o) fd := by
  refine congrArg (Custody.mk _) (funext fun holder => ?_)
  cases holder with
  | inr fd => rfl
  | inl v =>
    by_cases hv : v = o
    · subst hv
      simpa [State.setSock] using h
    · simp [State.setSock, State.closeFile, State.custody, hv]

omit [DecidableEq O] in
/-- The contexts do not matter. -/
theorem custody_getCreate (s : State O) (fd : ℕ) : (s.getCreate fd).custody = s.custody := by
  rw [State.getCreate]
  split <;> rfl

omit [DecidableEq O] in
theorem sock_getCreate (s : State O) (fd : ℕ) : (s.getCreate fd).sock = s.sock := by
  rw [State.getCreate]
  split <;> rfl

theorem custody_returned (h : (s.sock o).bind Obj.held = none) (hm : obj.m_sock = none) :
    (s.returned o obj).custody = s.custody := by
  rw [State.returned]
  split
  · exact custody_setSock h.symm
  · refine custody_setSock (Eq.trans ?_ h.symm)
    simp [Obj.held, Obj.fd, hm]

/-- The beginning of `close` leaves the descriptor with the socket. -/
theorem custody_close (hsock : s.sock o = some obj) (hpc : obj.pc = .idle) (dead hooked : Bool) :
    (s.close o { obj with dead := dead } hooked).custody = s.custody := by
  have hheld : (s.sock o).bind Obj.held = obj.m_sock.map (·, obj.file) := by
    simp [hsock, Obj.held, Obj.fd, hpc]
  simp only [State.close]
  split
  · rename_i hm
    exact custody_returned (by rw [hheld]; simpa using hm) hm
  · rename_i fd hm
    split <;> exact custody_setSock (by rw [hheld]; simp_all [Obj.held, Obj.fd])

/-- The rest of the program opens a descriptor. -/
theorem custody_openOther (s : State O) (fd : ℕ) :
    ((s.openFile fd).setOther fd (some s.files)).custody =
      s.custody.acquire (.inr fd) fd s.files := by
  refine congrArg (Custody.mk _) (funext fun holder => ?_)
  cases holder with
  | inl o => simp [State.custody, State.setOther, State.openFile]
  | inr v =>
    by_cases hv : v = fd
    · subst hv
      simp [State.setOther]
    · simp [State.custody, State.setOther, State.openFile, hv]

/-- The rest of the program closes a descriptor. -/
theorem custody_closeOther (s : State O) (fd : ℕ) :
    ((s.closeFile fd).setOther fd none).custody = s.custody.release (.inr fd) fd := by
  refine congrArg (Custody.mk _) (funext fun holder => ?_)
  cases holder with
  | inl o => simp [State.custody, State.setOther, State.closeFile]
  | inr v =>
    by_cases hv : v = fd
    · subst hv
      simp [State.setOther]
    · simp [State.custody, State.setOther, State.closeFile, hv]

/-- Every step takes, keeps or gives back a descriptor, unless `init` drops one. -/
theorem custody_step (hinv : s.custody.Inv) (h : StepCase s a s') (hleaked : s'.leaked = []) :
    s.custody.Step s'.custody := by
  cases h with
  | create hnone =>
    rw [custody_setSock (by simp [hnone, Obj.held, Obj.fd, Obj.new])]
    exact .stay
  | opened hsock hpc hm hfree =>
    rw [custody_openFile (by simp [Obj.held, Obj.fd])]
    exact .acquire _ (by simp [held_inl hsock, Obj.held, Obj.fd, hpc, hm]) hfree
  | socket hsock hpc hm hfree =>
    rw [custody_openFile (by simp only [Obj.held, Obj.fd, hpc, Option.map_some])]
    exact .acquire _ (by simp [held_inl hsock, Obj.held, Obj.fd, hpc, hm]) hfree
  | @getOpened o obj fd hsock hpc =>
    rw [custody_setSock (by simp [sock_getCreate, hsock, Obj.held, Obj.fd, hpc]),
      custody_getCreate]
    exact .stay
  | getAccepted hsock hpc =>
    rw [custody_setSock (by simp [sock_getCreate, hsock, Obj.held, Obj.fd, hpc]),
      custody_getCreate]
    exact .stay
  | connected hsock hpc hm =>
    rw [custody_setSock (by simp [hsock, Obj.held, Obj.fd])]
    exact .stay
  | accept hnone hfree =>
    rw [custody_openFile (by simp [Obj.held, Obj.fd])]
    exact .acquire _ (by simp [State.custody, hnone]) hfree
  | init hsock hpc hctx =>
    rw [custody_setSock (by simp [hsock, Obj.held, Obj.fd, hpc])]
    exact .stay
  | leak hsock hpc hctx =>
    change s.leaked ++ [_] = [] at hleaked
    simp at hleaked
  | @close o obj hooked hsock hpc =>
    rw [show obj = { obj with dead := obj.dead } from rfl, custody_close hsock hpc]
    exact .stay
  | destroy hsock hpc =>
    rw [custody_close hsock hpc]
    exact .stay
  | @del o obj fd hsock hpc =>
    rw [custody_setSock (s := s.delCtx fd) (by simp [State.delCtx, hsock, Obj.held, Obj.fd, hpc])]
    exact .stay
  | close_f hsock hpc =>
    rw [custody_closeFile (by simp [Obj.held, Obj.fd])]
    exact .release (by rw [held_inl hsock, Obj.held, Obj.fd, hpc]; rfl)
  | reset hsock hpc =>
    rw [custody_returned (by simp [hsock, Obj.held, Obj.fd, hpc]) rfl]
    exact .stay
  | @openOther fd hfree =>
    have hnone : s.custody.held (.inr fd) = none := by
      cases hother : s.others fd with
      | none => simp [State.custody, hother]
      | some file => exact absurd (held_inr hother) (hinv.held_ne hfree (.inr fd) file)
    rw [custody_openOther]
    exact .acquire _ hnone hfree
  | @closeHooked fd file hother =>
    rw [custody_closeOther]
    exact .release (held_inr hother)
  | closeOther hother =>
    rw [custody_closeOther]
    exact .release (held_inr hother)

end Custody

/-! ## The invariant -/

/-- The socket whose call takes the step. -/
def Action.actor : Action O → Option O
  | .create o | .socket o _ _ | .get o | .connected o | .accept _ o _ | .init o | .close o _
  | .destroy o _ | .del o | .close_f o | .reset o => some o
  | .openOther _ | .closeOther _ _ => none

/-- What holds in every state. -/
structure Inv (s : State O) : Prop where
  custody : s.custody.Inv
  leaked : s.leaked = []
  /-- `init` finds the context that `accept` has made. -/
  context : ∀ {o obj fd}, s.sock o = some obj → obj.pc = .initializing fd → s.ctx fd ≠ none
  /-- `isConnected()` is not true of a socket that has no descriptor, or is in `close`. -/
  connected : ∀ {o obj}, s.sock o = some obj → obj.m_Connected = true →
    obj.pc = .idle ∧ obj.m_sock ≠ none

section Invariant

variable {s s' : State O} {o v : O} {obj obj' : Obj} {fd : ℕ} {a : Action O}

omit [DecidableEq O] in
theorem inv_new : Inv (State.new : State O) where
  custody :=
    { live := fun {h} => by cases h <;> simp [State.custody, State.new]
      covered := by simp [State.custody, State.new]
      unique := fun {h} => by cases h <;> simp [State.custody, State.new] }
  leaked := rfl
  context := by simp [State.new]
  connected := by simp [State.new]

omit [DecidableEq O] in
/-- A socket holds the file that it has opened. -/
theorem kernel_of_fd (h : s.custody.Inv) (hsock : s.sock o = some obj) (hfd : obj.fd = some fd) :
    s.kernel fd = some obj.file :=
  h.live (by rw [held_inl hsock, Obj.held, hfd, Option.map_some])

omit [DecidableEq O] in
/-- Two sockets do not hold one descriptor. -/
theorem eq_of_fd (h : s.custody.Inv) (hsock : s.sock o = some obj) (hfd : obj.fd = some fd)
    (hsock' : s.sock v = some obj') (hfd' : obj'.fd = some fd) : v = o := by
  have hheld : s.custody.held (.inl o) = some (fd, obj.file) := by
    rw [held_inl hsock, Obj.held, hfd, Option.map_some]
  have hheld' : s.custody.held (.inl v) = some (fd, obj'.file) := by
    rw [held_inl hsock', Obj.held, hfd', Option.map_some]
  exact Sum.inl.inj (h.unique hheld' hheld)

omit [DecidableEq O] in
/-- Nor a socket and the rest of the program. -/
theorem others_of_fd (h : s.custody.Inv) (hsock : s.sock o = some obj) (hfd : obj.fd = some fd) :
    s.others fd = none := by
  cases hother : s.others fd with
  | none => rfl
  | some file =>
    have hheld : s.custody.held (.inl o) = some (fd, obj.file) := by
      rw [held_inl hsock, Obj.held, hfd, Option.map_some]
    cases h.unique hheld (held_inr hother)

omit [DecidableEq O] in
theorem ctx_getCreate_of_ne {d : ℕ} (h : d ≠ fd) : (s.getCreate fd).ctx d = s.ctx d := by
  rw [State.getCreate]
  split
  · rfl
  · exact Function.update_of_ne h _ _

omit [DecidableEq O] in
theorem leaked_getCreate (s : State O) (fd : ℕ) : (s.getCreate fd).leaked = s.leaked := by
  rw [State.getCreate]
  split <;> rfl

theorem sock_setSock_of_ne (s : State O) (x : Option Obj) (h : v ≠ o) :
    (s.setSock o x).sock v = s.sock v := Function.update_of_ne h _ _

/-- `close` changes nothing but its socket. -/
theorem returned_eq (s : State O) (o : O) (obj : Obj) :
    ∃ x, s.returned o obj = s.setSock o x := by
  rw [State.returned]
  split <;> exact ⟨_, rfl⟩

theorem close_eq (s : State O) (o : O) (obj : Obj) (hooked : Bool) :
    ∃ x, s.close o obj hooked = s.setSock o x := by
  simp only [State.close]
  split
  · exact returned_eq s o _
  · split <;> exact ⟨_, rfl⟩

/-- The other sockets do not notice a step: the contexts that it makes or deletes are those of the
descriptors that the acting socket, or the rest of the program, holds. -/
theorem frame (hcustody : s.custody.Inv) (h : StepCase s a s') (hv : a.actor ≠ some v)
    (hsock : s'.sock v = some obj) :
    s.sock v = some obj ∧ ∀ fd, obj.fd = some fd → s'.ctx fd = s.ctx fd := by
  have hne : ∀ {o}, a.actor = some o → v ≠ o := fun ho hvo => hv (hvo ▸ ho)
  cases h with
  | create hnone | connected _ _ _ | init _ _ _ | leak _ _ _ =>
    rw [← hsock]
    exact ⟨(sock_setSock_of_ne s _ (hne rfl)).symm, fun _ _ => rfl⟩
  | @opened o obj₀ d _ _ _ _ | @socket o obj₀ d _ _ _ _ | @accept o _ d _ _ =>
    rw [← hsock]
    exact ⟨(sock_setSock_of_ne (s.openFile d) _ (hne rfl)).symm, fun _ _ => rfl⟩
  | @getOpened o obj₀ d hsock₀ hpc | @getAccepted o obj₀ d hsock₀ hpc =>
    rw [sock_setSock_of_ne _ _ (hne rfl), sock_getCreate] at hsock
    refine ⟨hsock, fun d' hd' => ctx_getCreate_of_ne fun hd => ?_⟩
    subst hd
    exact hne rfl (eq_of_fd hcustody hsock₀ (by simp [Obj.fd, hpc]) hsock hd')
  | @close o obj₀ hooked _ _ =>
    obtain ⟨x, hx⟩ := close_eq s o obj₀ hooked
    rw [hx, sock_setSock_of_ne _ _ (hne rfl)] at hsock
    exact ⟨hsock, fun _ _ => by rw [hx]; rfl⟩
  | @destroy o obj₀ hooked _ _ =>
    obtain ⟨x, hx⟩ := close_eq s o { obj₀ with dead := true } hooked
    rw [hx, sock_setSock_of_ne _ _ (hne rfl)] at hsock
    exact ⟨hsock, fun _ _ => by rw [hx]; rfl⟩
  | @del o obj₀ d hsock₀ hpc =>
    rw [sock_setSock_of_ne _ _ (hne rfl)] at hsock
    refine ⟨hsock, fun d' hd' => Function.update_of_ne (fun hd => ?_) _ _⟩
    subst hd
    exact hne rfl (eq_of_fd hcustody hsock₀ (by simp [Obj.fd, hpc]) hsock hd')
  | @close_f o obj₀ d _ _ =>
    rw [← hsock]
    exact ⟨(sock_setSock_of_ne (s.closeFile d) _ (hne rfl)).symm, fun _ _ => rfl⟩
  | @reset o obj₀ _ _ =>
    obtain ⟨x, hx⟩ := returned_eq s o { obj₀ with m_sock := none }
    rw [hx, sock_setSock_of_ne _ _ (hne rfl)] at hsock
    exact ⟨hsock, fun _ _ => by rw [hx]; rfl⟩
  | openOther _ | closeOther _ => exact ⟨hsock, fun _ _ => rfl⟩
  | @closeHooked d file hother =>
    refine ⟨hsock, fun d' hd' => Function.update_of_ne (fun hd => ?_) _ _⟩
    subst hd
    rw [others_of_fd hcustody hsock hd'] at hother
    cases hother

theorem returned_self (hsock : (s.returned o obj).sock o = some obj') :
    obj' = { obj with pc := .idle } := by
  rw [State.returned] at hsock
  split at hsock
  · simp [State.setSock] at hsock
  · simpa [State.setSock, eq_comm] using hsock

/-- Where the beginning of `close` leaves its socket. -/
theorem close_self {hooked : Bool} (hsock : (s.close o obj hooked).sock o = some obj') :
    obj'.m_Connected = false ∧ ((obj'.pc = .idle ∧ obj'.m_sock = none) ∨
      (∃ fd, obj'.pc = .deleting fd) ∨
        ∃ fd, obj'.pc = .closing fd ∧ (hooked = true → s.ctx fd = none)) := by
  simp only [State.close] at hsock
  split at hsock
  · rename_i hm
    obtain rfl := returned_self hsock
    exact ⟨rfl, Or.inl ⟨rfl, hm⟩⟩
  · rename_i fd hm
    split at hsock
    · obtain rfl : _ = obj' := by simpa [State.setSock] using hsock
      exact ⟨rfl, Or.inr (Or.inl ⟨fd, rfl⟩)⟩
    · rename_i hctx
      obtain rfl : _ = obj' := by simpa [State.setSock] using hsock
      exact ⟨rfl, Or.inr (Or.inr ⟨fd, rfl, fun hhooked => by simpa [hhooked] using hctx⟩)⟩

/-- Only `accept` leads to `init`, with a context. -/
theorem context_self (hcustody : s.custody.Inv) (h : StepCase s a s') (ha : a.actor = some v)
    (hsock : s'.sock v = some obj) (hpc : obj.pc = .initializing fd) : s'.ctx fd ≠ none := by
  cases h with
  | @getAccepted o obj₀ d hsock₀ hpc₀ =>
    obtain rfl : o = v := Option.some.inj ha
    obtain rfl : _ = obj := by simpa [State.setSock] using hsock
    cases hpc
    have hkernel : s.kernel fd = some obj₀.file :=
      kernel_of_fd hcustody hsock₀ (by simp [Obj.fd, hpc₀])
    show (s.getCreate fd).ctx fd ≠ none
    rw [State.getCreate]
    split
    · simp_all
    · simp [hkernel]
  | close _ _ | destroy _ _ =>
    obtain rfl := Option.some.inj ha
    obtain ⟨-, ⟨hidle, -⟩ | ⟨d, hdel⟩ | ⟨d, hclosing, -⟩⟩ := close_self hsock <;> simp_all
  | reset _ _ =>
    obtain rfl := Option.some.inj ha
    obtain rfl := returned_self hsock
    cases hpc
  | openOther _ | closeOther _ | closeHooked _ => cases ha
  | leak _ _ _ =>
    obtain rfl := Option.some.inj ha
    simp [State.setSock] at hsock
  | _ =>
    obtain rfl := Option.some.inj ha
    obtain rfl : _ = obj := by simpa [State.setSock] using hsock
    simp_all [Obj.new]

/-- Only a socket with a descriptor becomes connected, and `close` begins by ending this. -/
theorem connected_self (hinv : Inv s) (h : StepCase s a s') (ha : a.actor = some v)
    (hsock : s'.sock v = some obj) (hconnected : obj.m_Connected = true) :
    obj.pc = .idle ∧ obj.m_sock ≠ none := by
  cases h with
  | close _ _ | destroy _ _ =>
    obtain rfl := Option.some.inj ha
    rw [(close_self hsock).1] at hconnected
    cases hconnected
  | @reset o obj₀ hsock₀ hpc =>
    obtain rfl : o = v := Option.some.inj ha
    obtain rfl := returned_self hsock
    have hidle := (hinv.connected hsock₀ hconnected).1
    rw [hpc] at hidle
    cases hidle
  | openOther _ | closeOther _ | closeHooked _ => cases ha
  | leak _ _ _ =>
    obtain rfl := Option.some.inj ha
    simp [State.setSock] at hsock
  | create _ | accept _ _ =>
    obtain rfl := Option.some.inj ha
    obtain rfl : _ = obj := by simpa [State.setSock] using hsock
    cases hconnected
  | connected _ _ _ | init _ _ _ | getOpened _ _ =>
    obtain rfl := Option.some.inj ha
    obtain rfl : _ = obj := by simpa [State.setSock] using hsock
    simp_all
  | @opened o obj₀ _ hsock₀ _ hm _ | @socket o obj₀ _ hsock₀ _ hm _ =>
    obtain rfl : o = v := Option.some.inj ha
    obtain rfl : _ = obj := by simpa [State.setSock] using hsock
    exact absurd hm (hinv.connected hsock₀ hconnected).2
  | @getAccepted o obj₀ _ hsock₀ hpc | @del o obj₀ _ hsock₀ hpc | @close_f o obj₀ _ hsock₀ hpc =>
    obtain rfl : o = v := Option.some.inj ha
    obtain rfl : _ = obj := by simpa [State.setSock] using hsock
    have hidle := (hinv.connected hsock₀ hconnected).1
    rw [hpc] at hidle
    cases hidle

/-- Every step keeps the invariant. -/
theorem Inv.step (hinv : Inv s) (h : StepCase s a s') : Inv s' := by
  have hleaked : s'.leaked = [] := by
    cases h with
    | leak hsock hpc hctx => exact absurd hctx (hinv.context hsock hpc)
    | @close o obj₀ hooked _ _ =>
      obtain ⟨x, hx⟩ := close_eq s o obj₀ hooked
      exact hx ▸ hinv.leaked
    | @destroy o obj₀ hooked _ _ =>
      obtain ⟨x, hx⟩ := close_eq s o { obj₀ with dead := true } hooked
      exact hx ▸ hinv.leaked
    | @reset o obj₀ _ _ =>
      obtain ⟨x, hx⟩ := returned_eq s o { obj₀ with m_sock := none }
      exact hx ▸ hinv.leaked
    | @getOpened o obj₀ d _ _ | @getAccepted o obj₀ d _ _ =>
      exact (leaked_getCreate s d).trans hinv.leaked
    | _ => exact hinv.leaked
  refine ⟨hinv.custody.step (custody_step hinv.custody h hleaked), hleaked,
    fun {v obj fd} hsock hpc => ?_, fun {v obj} hsock hconnected => ?_⟩
  · by_cases ha : a.actor = some v
    · exact context_self hinv.custody h ha hsock hpc
    · obtain ⟨hsock₀, hctx⟩ := frame hinv.custody h ha hsock
      rw [hctx fd (by simp [Obj.fd, hpc])]
      exact hinv.context hsock₀ hpc
  · by_cases ha : a.actor = some v
    · exact connected_self hinv h ha hsock hconnected
    · exact hinv.connected (frame hinv.custody h ha hsock).1 hconnected

/-! ## Contexts -/

/-- The thread has hooking enabled, where that matters. -/
def Action.hooked : Action O → Bool
  | .socket _ _ hooked | .close _ hooked | .destroy _ hooked | .closeOther _ hooked => hooked
  | _ => true

/-- With hooking enabled everywhere, a context is that of the file that is open. -/
structure Tracked (s : State O) : Prop where
  own : ∀ {o obj fd}, s.sock o = some obj → obj.fd = some fd →
    obj.pc = .idle ∨ obj.pc = .initializing fd → s.ctx fd = some obj.file
  /-- `del` comes before `close_f`. -/
  closing : ∀ {o obj fd}, s.sock o = some obj → obj.pc = .closing fd → s.ctx fd = none
  live : ∀ {fd file}, s.ctx fd = some file → s.kernel fd = some file

omit [DecidableEq O] in
/-- A context that is found is the one that would be made. -/
theorem Tracked.getCreate (h : Tracked s) {file : ℕ} (hkernel : s.kernel fd = some file) :
    (s.getCreate fd).ctx fd = some file := by
  rw [State.getCreate]
  split
  · rename_i found hctx
    rw [hctx, ← h.live hctx, hkernel]
  · simp [hkernel]

theorem Tracked.own_self (h : Tracked s) (hcustody : s.custody.Inv) (hstep : StepCase s a s')
    (hhooked : a.hooked = true) (ha : a.actor = some v) (hsock : s'.sock v = some obj)
    (hfd : obj.fd = some fd) (hpc : obj.pc = .idle ∨ obj.pc = .initializing fd) :
    s'.ctx fd = some obj.file := by
  cases hstep with
  | @getOpened o obj₀ d hsock₀ hpc₀ | @getAccepted o obj₀ d hsock₀ hpc₀ =>
    obtain rfl : o = v := Option.some.inj ha
    obtain rfl : _ = obj := by simpa [State.setSock] using hsock
    cases hfd
    have hkernel : s.kernel fd = some obj₀.file :=
      kernel_of_fd hcustody hsock₀ (by simp [Obj.fd, hpc₀])
    exact h.getCreate hkernel
  | @connected o obj₀ hsock₀ hpc₀ hm =>
    obtain rfl : o = v := Option.some.inj ha
    obtain rfl : _ = obj := by simpa [State.setSock] using hsock
    have hctx : s.ctx fd = some obj₀.file := h.own hsock₀ hfd (Or.inl hpc₀)
    exact hctx
  | @init o obj₀ d hsock₀ hpc₀ _ =>
    obtain rfl : o = v := Option.some.inj ha
    obtain rfl : _ = obj := by simpa [State.setSock] using hsock
    cases hfd
    have hctx : s.ctx fd = some obj₀.file :=
      h.own hsock₀ (by simp [Obj.fd, hpc₀]) (Or.inr hpc₀)
    exact hctx
  | close _ _ | destroy _ _ =>
    obtain rfl := Option.some.inj ha
    obtain ⟨-, ⟨hidle, hm⟩ | ⟨d, hdel⟩ | ⟨d, hclosing, -⟩⟩ := close_self hsock
    · simp [Obj.fd, hidle, hm] at hfd
    · simp [hdel] at hpc
    · simp [hclosing] at hpc
  | reset _ _ =>
    obtain rfl := Option.some.inj ha
    obtain rfl := returned_self hsock
    cases hfd
  | socket _ _ _ _ => cases hhooked
  | openOther _ | closeOther _ | closeHooked _ => cases ha
  | leak _ _ _ =>
    obtain rfl := Option.some.inj ha
    simp [State.setSock] at hsock
  | create _ | opened _ _ _ _ | accept _ _ | del _ _ | close_f _ _ =>
    obtain rfl := Option.some.inj ha
    obtain rfl : _ = obj := by simpa [State.setSock] using hsock
    simp [Obj.fd, Obj.new] at hfd hpc

/-- `close` goes to `close_f` at once only if there is no context. -/
theorem ctx_of_close (hsock : (s.close o obj true).sock o = some obj')
    (hpc : obj'.pc = .closing fd) : (s.close o obj true).ctx fd = none := by
  obtain ⟨x, hx⟩ := close_eq s o obj true
  obtain ⟨-, ⟨hidle, -⟩ | ⟨d, hdel⟩ | ⟨d, hclosing, hctx⟩⟩ := close_self hsock
  · rw [hidle] at hpc
    cases hpc
  · rw [hdel] at hpc
    cases hpc
  · rw [hclosing] at hpc
    cases hpc
    rw [hx]
    exact hctx rfl

theorem closing_self (hstep : StepCase s a s') (hhooked : a.hooked = true)
    (ha : a.actor = some v) (hsock : s'.sock v = some obj) (hpc : obj.pc = .closing fd) :
    s'.ctx fd = none := by
  cases hstep with
  | close _ _ | destroy _ _ =>
    obtain rfl := Option.some.inj ha
    obtain rfl : _ = true := hhooked
    exact ctx_of_close hsock hpc
  | @del o obj₀ d hsock₀ hpc₀ =>
    obtain rfl : o = v := Option.some.inj ha
    obtain rfl : _ = obj := by simpa [State.setSock] using hsock
    cases hpc
    exact Function.update_self ..
  | reset _ _ =>
    obtain rfl := Option.some.inj ha
    obtain rfl := returned_self hsock
    cases hpc
  | openOther _ | closeOther _ | closeHooked _ => cases ha
  | leak _ _ _ =>
    obtain rfl := Option.some.inj ha
    simp [State.setSock] at hsock
  | _ =>
    obtain rfl := Option.some.inj ha
    obtain rfl : _ = obj := by simpa [State.setSock] using hsock
    simp_all [Obj.new]

omit [DecidableEq O] in
theorem Tracked.live_getCreate (h : Tracked s) {d file : ℕ}
    (hctx : (s.getCreate d).ctx fd = some file) : (s.getCreate d).kernel fd = some file := by
  rw [State.getCreate] at hctx ⊢
  split at hctx
  · exact h.live hctx
  · by_cases hd : fd = d
    · subst hd
      simpa using hctx
    · exact h.live ((Function.update_of_ne hd _ _).symm.trans hctx)

/-- A file that is opened has no context yet, and one that is closed has none any more. -/
theorem Tracked.live_step (h : Tracked s) (hstep : StepCase s a s') (hhooked : a.hooked = true)
    {file : ℕ} (hctx : s'.ctx fd = some file) : s'.kernel fd = some file := by
  have hopen : ∀ {d}, s.kernel d = none → s.ctx fd = some file →
      Function.update s.kernel d (some s.files) fd = some file := by
    intro d hfree hctx
    rw [Function.update_of_ne ?_, h.live hctx]
    rintro rfl
    rw [h.live hctx] at hfree
    cases hfree
  cases hstep with
  | opened _ _ _ hfree | socket _ _ _ hfree | accept _ hfree | openOther hfree =>
    exact hopen hfree hctx
  | getOpened _ _ | getAccepted _ _ => exact h.live_getCreate hctx
  | @close o obj₀ hooked _ _ =>
    obtain ⟨x, hx⟩ := close_eq s o obj₀ hooked
    rw [hx] at hctx ⊢
    exact h.live hctx
  | @destroy o obj₀ hooked _ _ =>
    obtain ⟨x, hx⟩ := close_eq s o { obj₀ with dead := true } hooked
    rw [hx] at hctx ⊢
    exact h.live hctx
  | @reset o obj₀ _ _ =>
    obtain ⟨x, hx⟩ := returned_eq s o { obj₀ with m_sock := none }
    rw [hx] at hctx ⊢
    exact h.live hctx
  | @del o obj₀ d _ _ =>
    change Function.update s.ctx d none fd = some file at hctx
    by_cases hd : fd = d
    · simp [hd] at hctx
    · rw [Function.update_of_ne hd] at hctx
      exact h.live hctx
  | @close_f o obj₀ d hsock hpc =>
    have hold : s.ctx fd = some file := hctx
    have hd : fd ≠ d := by
      rintro rfl
      rw [h.closing hsock hpc] at hold
      cases hold
    exact (Function.update_of_ne hd _ _).trans (h.live hold)
  | @closeHooked d _ _ =>
    change Function.update s.ctx d none fd = some file at hctx
    by_cases hd : fd = d
    · simp [hd] at hctx
    · rw [Function.update_of_ne hd] at hctx
      exact (Function.update_of_ne hd _ _).trans (h.live hctx)
  | closeOther _ => cases hhooked
  | _ => exact h.live hctx

/-- Every step with hooking enabled keeps the contexts. -/
theorem Tracked.step (h : Tracked s) (hcustody : s.custody.Inv) (hstep : StepCase s a s')
    (hhooked : a.hooked = true) : Tracked s' := by
  refine ⟨fun {v obj fd} hsock hfd hpc => ?_, fun {v obj fd} hsock hpc => ?_,
    fun hctx => h.live_step hstep hhooked hctx⟩
  · by_cases ha : a.actor = some v
    · exact h.own_self hcustody hstep hhooked ha hsock hfd hpc
    · obtain ⟨hsock₀, hctx⟩ := frame hcustody hstep ha hsock
      rw [hctx fd hfd]
      exact h.own hsock₀ hfd hpc
  · by_cases ha : a.actor = some v
    · exact closing_self hstep hhooked ha hsock hpc
    · obtain ⟨hsock₀, hctx⟩ := frame hcustody hstep ha hsock
      rw [hctx fd (by simp [Obj.fd, hpc])]
      exact h.closing hsock₀ hpc

end Invariant

/-! ## Runs -/

section Runs

variable {s : State O} {as : List (Action O)}

/-- A thread without hooking destroys the socket instead: its context stays, and becomes that of the
client. -/
example : (exec step State.new ([.create 0, .socket 0 3 true, .get 0, .create 1,
      .socket 1 4 true, .get 1, .connected 1, .destroy 1 false, .close_f 1,
      .accept 3 2 4, .reset 1, .get 2, .init 2] : List (Action ℕ))).map
    (fun s => (s.ctx 4, (s.sock 2).map Obj.file)) = some (some 1, some 2) := rfl

end Runs

end Sylar.Socket.Ownership
