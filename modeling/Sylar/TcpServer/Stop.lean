import Sylar.TcpServer.Lifecycle

/-!
# Stopping a server and starting it again

What becomes of the loops of a server when it is stopped.

* `stop_law` — no client is lost or handed over twice, and once the server has been stopped, and as
  long as it is not started again, each loop accepts at most one more client, and makes at most four
  steps besides those by which it waits for it. A loop that still waits when the sockets have been
  closed has registered with the poller behind the last `cancelAll` of its socket.
* `restart_spins` — a server that has been started again before its sockets are closed does not
  listen any more: its loops do not end, and as soon as they are out of the call of `accept` that
  was in progress they do not wait either, but call `accept` again and again.
-/

namespace Sylar.TcpServer.Lifecycle

open Transition

variable {Addr Client : Type} {cls : AddressClass Addr} {s s' m m' : State Addr Client}
  {a : Action Addr Client} {as as₁ as₂ : List (Action Addr Client)} {l : Loop Client} {i : ℕ}

/-! ## A server that has been stopped -/

section Stopped

variable {m_running : Bool} {m_sock : ℤ} {taken : ℤ → Bool} {pc pc' : Pc Client}
  {b : LoopAction Client}

/-- How many steps a loop may still make, besides those by which it waits. -/
def Pc.rank : Pc Client → ℕ
  | .scheduled | .client _ => 2
  | .check => 1
  | .enter => 4
  | .trying _ | .register _ | .waiting _ => 3
  | .finished => 0

/-- How many clients a loop may still accept, if it may accept `n` in a call that it is about to
begin. -/
def Pc.allow (n : ℕ) : Pc Client → ℕ
  | .enter => n
  | .trying fd => if fd = -1 then 0 else 1
  | .register _ | .waiting _ => 1
  | _ => 0

/-- A loop accepts at most one client in a call. -/
theorem Pc.allow_le {n : ℕ} (hn : n ≤ 1) (pc : Pc Client) : pc.allow n ≤ 1 := by
  cases pc with
  | enter => exact hn
  | trying fd =>
    rw [Pc.allow]
    split_ifs <;> simp
  | register | waiting => exact Nat.le_refl 1
  | _ => exact Nat.zero_le _

/-- It accepts no more clients than before. -/
theorem Pc.Woken.allow_le (h : pc.Woken pc') (n : ℕ) : pc'.allow n ≤ pc.allow n := by
  rcases h with rfl | ⟨fd, rfl, rfl⟩
  · exact Nat.le_refl _
  · rw [Pc.allow, Pc.allow]
    split_ifs <;> simp

/-- No call of `accept` begins that can accept more than `n` clients. -/
theorem PcStep.allow_add {n : ℕ} (h : PcStep m_running m_sock taken pc b pc')
    (hbegin : m_running = true → n = 0) (hcall : m_sock = -1 ∨ n = 1) (i : ℕ) :
    (if ((Action.loop i b : Action Addr Client).isOf i &&
      (Action.loop i b : Action Addr Client).accepted.isSome) then 1 else 0) + pc'.allow n ≤
        pc.allow n := by
  cases h with
  | goOn h => simp [Action.accepted, Pc.allow, hbegin h]
  | accept =>
    have htrying : (Pc.trying m_sock : Pc Client).allow n ≤ (Pc.enter : Pc Client).allow n := by
      rw [Pc.allow, Pc.allow]
      split_ifs with hfd
      · exact Nat.zero_le n
      · exact Nat.le_of_eq (hcall.resolve_left hfd).symm
    simpa [Action.accepted] using htrying
  | again hfd => simp [Action.accepted, Pc.allow, hfd]
  | connected c hfd => simp [Action.accepted, Action.isOf, Pc.allow, hfd]
  | wake fd =>
    rw [Pc.allow]
    split_ifs <;> simp_all [Action.accepted, Pc.allow]
  | _ => simp [Action.accepted, Pc.allow]

/-- The flag stays as it is until the server is started again. -/
theorem StepCase.stopped (h : StepCase cls s a s') (hs : s.m_running = false) (ha : a ≠ .start) :
    s'.m_running = false := by
  cases h with
  | bind addrs =>
    rw [State.bind]
    split_ifs
    · exact hs
    · exact hs
  | start => exact absurd rfl ha
  | stop => rfl
  | _ => exact hs

end Stopped

/-! ## Sockets that have been closed -/

section Closed

/-- A `bind` does not drop sockets. -/
def Keeps (cls : AddressClass Addr) (s : State Addr Client) (a : Action Addr Client) : Prop :=
  ∀ addrs, a = .bind addrs → s.m_socks = [] ∨ ∀ entry ∈ addrs, listening cls entry ≠ none

/-- The sockets for which a `cancelAll` of a task is still to come. -/
def State.toCancel (s : State Addr Client) : List ℕ :=
  match s.task with
  | none => s.m_socks
  | some ⟨rest, .assign⟩ => rest.tail
  | some ⟨rest, _⟩ => rest

/-- What an action must not do if the loop with this number is to be woken when its socket is
closed. -/
structure InTime (cls : AddressClass Addr) (i : ℕ) (s : State Addr Client)
    (a : Action Addr Client) : Prop where
  keeps : Keeps cls s a
  /-- A descriptor that is closed has an `FdCtx`. -/
  ctx : a ≠ .task (.close false)
  /-- The loop registers for the descriptor of its socket, while a `cancelAll` is still to come. -/
  register : a = .loop i (.addEvent true) → ∀ l, s.loops[i]? = some l →
    l.sock ∈ s.toCancel ∧ l.pc = .register (s.fd l.sock)

/-- The loop waits for the descriptor of its socket only, while a `cancelAll` is still to come. -/
def Awaited (i : ℕ) (s : State Addr Client) : Prop :=
  ∀ l fd, s.loops[i]? = some l → l.pc = .waiting fd → l.sock ∈ s.toCancel ∧ s.fd l.sock = fd

/-- What waits behind a step has registered by it, or has waited before. -/
theorem StepCase.waiting (h : StepCase cls s a s') {fd : ℤ} (hl : s'.loops[i]? = some l)
    (hpc : l.pc = .waiting fd) :
    s.loops[i]? = some l ∨
      a = .loop i (.addEvent true) ∧ s.loops[i]? = some { l with pc := .register fd } := by
  by_cases ha : a = .start
  · subst ha
    cases h with
    | start htask =>
      rw [State.start] at hl
      split_ifs at hl
      · exact Or.inl hl
      · -- a loop that has just been scheduled does not wait
        rcases List.getElem?_append.symm ▸ hl with hl
        split_ifs at hl
        · exact Or.inl hl
        · simp only [List.getElem?_map, Option.map_eq_some_iff] at hl
          obtain ⟨sock, -, rfl⟩ := hl
          cases hpc
  · cases hl₀ : s.loops[i]? with
    | none =>
      rw [(h.loop_none ha hl₀).2] at hl
      cases hl
    | some l₀ =>
      rcases h.loop_at hl₀ with ⟨-, pc, hl', hwoken⟩ | ⟨b, pc, rfl, hstep, hl'⟩
      · obtain rfl := Option.some_inj.mp (hl'.symm.trans hl)
        obtain rfl : pc = .waiting fd := hpc
        rcases hwoken with hsame | ⟨fd', -, hne⟩
        · exact Or.inl (by rw [hsame])
        · cases hne
      · obtain rfl := Option.some_inj.mp (hl'.symm.trans hl)
        obtain rfl : pc = .waiting fd := hpc
        obtain ⟨sock, pc₀⟩ := l₀
        cases hstep with
        | registered => exact Or.inr ⟨rfl, rfl⟩

/-- Behind `cancelAll` nobody waits for the descriptor. -/
theorem not_waiting_cancelAll {fd : ℤ} (hl : (s.cancelAll fd).loops[i]? = some l) :
    l.pc ≠ .waiting fd := by
  rw [getElem?_cancelAll, Option.map_eq_some_iff] at hl
  obtain ⟨l₀, -, rfl⟩ := hl
  intro hpc
  cases hl₀ : l₀.pc with
  | waiting fd' =>
    simp only [hl₀, Pc.woken] at hpc
    split_ifs at hpc with hfd
    exact hfd (Pc.waiting.inj hpc)
  | _ => simp [hl₀, Pc.woken] at hpc

/-- The loop registers and waits in time. -/
theorem Awaited.step (hs : Awaited i s) (hvalid : Valid s) (h : StepCase cls s a s')
    (htime : InTime cls i s a) : Awaited i s' := by
  intro l fd hl hpc
  rcases h.waiting hl hpc with hl₀ | ⟨rfl, hl₀⟩
  · obtain ⟨hsock, hfd⟩ := hs l fd hl₀ hpc
    have hlt := hvalid.loops_lt l (List.mem_of_getElem? hl₀)
    cases h with
    | bind addrs htask =>
      rw [State.toCancel, htask] at hsock
      rw [State.bind]
      split_ifs with hfailed
      · refine ⟨?_, ?_⟩
        · rw [State.toCancel, htask]
          exact List.mem_append_left _ hsock
        · rwa [State.fd, List.getElem?_append_left hlt]
      · rcases htime.keeps addrs rfl with hnil | hall
        · rw [hnil] at hsock
          exact (List.not_mem_nil hsock).elim
        · refine absurd ?_ hfailed
          simpa [failed, ← Option.isSome_iff_ne_none] using hall
    | start htask =>
      rw [State.start]
      split_ifs <;> exact ⟨hsock, hfd⟩
    | beginTask htask =>
      rw [State.toCancel, htask] at hsock
      exact ⟨hsock, hfd⟩
    | cancelAll htask =>
      rw [State.toCancel, htask] at hsock
      exact ⟨hsock, hfd⟩
    | @close sock rest htask =>
      rw [State.toCancel, htask] at hsock
      refine ⟨?_, hfd⟩
      rcases List.mem_cons.mp hsock with rfl | hsock
      · -- the loops on this socket have been woken
        exact absurd (hfd ▸ hpc) (not_waiting_cancelAll hl)
      · exact hsock
    | closeOnly htask => exact absurd rfl htime.ctx
    | @assign sock rest htask =>
      have hnodup : (sock :: rest).Nodup := hvalid.nodup.sublist (hvalid.suffix _ htask).sublist
      rw [State.toCancel, htask] at hsock
      have hne : sock ≠ l.sock := by
        rintro rfl
        exact (List.nodup_cons.mp hnodup).1 hsock
      refine ⟨hsock, ?_⟩
      show (s.assign sock).fd l.sock = fd
      rw [State.fd_assign, if_neg hne, hfd]
    | @clear pc htask =>
      rw [State.toCancel, htask] at hsock
      cases pc <;> exact (List.not_mem_nil hsock).elim
    | stop | setRecvTimeout | loop => exact ⟨hsock, hfd⟩
  · obtain ⟨hsock, hreg⟩ := htime.register rfl _ hl₀
    have hfd : fd = s.fd l.sock := Pc.register.inj hreg
    cases h with
    | loop => exact ⟨hsock, hfd.symm⟩

/-- No `cancelAll` is to come for a socket, unless it is new. -/
theorem StepCase.mem_toCancel (h : StepCase cls s a s') {sock : ℕ} (hlt : sock < s.sockets.length)
    (hsock : sock ∈ s'.toCancel) : sock ∈ s.toCancel := by
  cases h with
  | bind addrs htask =>
    rw [State.toCancel, htask]
    rw [State.bind] at hsock
    split_ifs at hsock
    · simp only [State.toCancel, htask] at hsock
      rcases List.mem_append.mp hsock with hsock | hnew
      · exact hsock
      · exact absurd hlt (Nat.not_lt.mpr (List.mem_range'_1.mp hnew).1)
    · simp only [State.toCancel, htask] at hsock
      exact (List.not_mem_nil hsock).elim
  | start htask =>
    rw [State.start] at hsock
    split_ifs at hsock <;> exact hsock
  | beginTask htask =>
    rw [State.toCancel, htask]
    exact hsock
  | cancelAll htask =>
    rw [State.toCancel, htask]
    exact hsock
  | close htask | closeOnly htask =>
    rw [State.toCancel, htask]
    exact List.mem_of_mem_tail hsock
  | assign htask =>
    rw [State.toCancel, htask]
    exact hsock
  | clear htask => exact (List.not_mem_nil hsock).elim
  | stop | setRecvTimeout | loop => exact hsock

/-- The socket of the loop with this number is closed, or was dropped. -/
def Gone (i : ℕ) (s : State Addr Client) : Prop :=
  ∀ l, s.loops[i]? = some l → l.sock ∉ s.toCancel

/-- A socket that is gone does not come back. -/
theorem Gone.step (hs : Gone i s) (hvalid : Valid s) (h : StepCase cls s a s') (ha : a ≠ .start) :
    Gone i s' := by
  intro l' hl' hsock
  cases hl : s.loops[i]? with
  | none =>
    rw [(h.loop_none ha hl).2] at hl'
    cases hl'
  | some l =>
    have heq : l'.sock = l.sock := by
      rcases h.loop_at hl with ⟨-, pc, hl'', -⟩ | ⟨b, pc, -, -, hl''⟩ <;>
        rw [Option.some_inj.mp (hl'.symm.trans hl'')]
    rw [heq] at hsock
    exact hs l hl (h.mem_toCancel (hvalid.loops_lt l (List.mem_of_getElem? hl)) hsock)

end Closed

/-! ## Stopping -/

section Stop

/-- What holds of a run with the actions `as₁`, `stop` and `as₂`. -/
structure StopLaw (cls : AddressClass Addr) (as₁ as₂ : List (Action Addr Client))
    (s : State Addr Client) : Prop where
  clients : (accepted (as₁ ++ .stop :: as₂)).Perm (s.held ++ s.handed.map Prod.fst)
  steps : ∀ i, steps i as₂ ≤ 4
  accepts : ∀ i, accepts i as₂ ≤ 1
  /-- When a task has closed the sockets, a loop that registers in time does not wait. -/
  closed : .task .clear ∈ as₂ → ∀ i,
    Run (Guarded (InTime cls i) (ofFun (step cls))) State.new (as₁ ++ .stop :: as₂) s →
      ∀ l, s.loops[i]? = some l → ∀ fd, l.pc ≠ .waiting fd

end Stop

/-! ## Starting again -/

section Restart

/-- The flag stays as it is until the server is stopped. -/
theorem StepCase.running (h : StepCase cls s a s') (hs : s.m_running = true) (ha : a ≠ .stop) :
    s'.m_running = true := by
  cases h with
  | bind addrs =>
    rw [State.bind]
    split_ifs
    · exact hs
    · exact hs
  | start => rwa [State.start, if_pos hs]
  | stop => exact absurd rfl ha
  | _ => exact hs

/-- The loop with this number is live, on a socket that has been closed, while the server is
running. -/
structure Spinning (i sock : ℕ) (s : State Addr Client) : Prop where
  running : s.m_running = true
  lt : sock < s.sockets.length
  fd : s.fd sock = -1
  loop : ∃ l, s.loops[i]? = some l ∧ l.sock = sock ∧ l.pc ≠ .finished

/-- The loop is not inside a call of `accept` that need not fail. -/
def Pc.Fails : Pc Client → Prop
  | .trying fd => fd = -1
  | .register _ | .waiting _ => False
  | _ => True

section Loop

variable {taken : ℤ → Bool} {pc pc' : Pc Client} {b : LoopAction Client}

/-- A loop of a running server does not end. -/
theorem PcStep.stays_live {m_sock : ℤ} (h : PcStep true m_sock taken pc b pc') :
    pc' ≠ .finished := by
  cases h with
  | leave h => cases h
  | _ => exact fun h => nomatch h

/-- On a closed socket, a loop that has begun a call of `accept` behind the closing, or is in none,
fails from then on. -/
theorem PcStep.fails (h : PcStep true (-1) taken pc b pc') (hpc : pc.Fails ∨ b = .accept) :
    pc'.Fails := by
  cases h with
  | accept => rfl
  | again hfd | connected c hfd => exact absurd (hpc.resolve_right (fun h => nomatch h)) hfd
  | registered | wake => exact (hpc.resolve_right (fun h => nomatch h)).elim
  | _ => trivial

/-- A loop that is woken was waiting. -/
theorem Pc.Woken.fails (h : pc.Woken pc') (hpc : pc.Fails) : pc'.Fails := by
  rcases h with rfl | ⟨fd, rfl, rfl⟩
  · exact hpc
  · exact hpc.elim

end Loop

/-- A loop that spins goes on, and pays for every client with the call of `accept` that it was in
when its socket was closed. -/
theorem Spinning.step {sock : ℕ} (hs : Spinning i sock s) (h : StepCase cls s a s')
    (ha : a ≠ .stop) :
    Spinning i sock s' ∧ (if (a.isOf i && a.accepted.isSome) then 1 else 0) +
      ((s'.loops[i]?).elim 0 fun l => l.pc.allow 0) ≤
        (s.loops[i]?).elim 0 fun l => l.pc.allow 0 := by
  obtain ⟨l, hl, rfl, hlive⟩ := hs.loop
  have hnext (l' : Loop Client) (hl' : s'.loops[i]? = some l') (hsock : l'.sock = l.sock)
      (hlive' : l'.pc ≠ .finished) : Spinning i l.sock s' :=
    ⟨h.running hs.running ha, Nat.lt_of_lt_of_le hs.lt h.length_le, h.fd_closed hs.lt hs.fd,
      l', hl', hsock, hlive'⟩
  rcases h.loop_at hl with ⟨hof, pc, hl', hpc⟩ | ⟨b, pc, rfl, hpc, hl'⟩
  · refine ⟨hnext _ hl' rfl fun h => hlive (hpc.finished_iff.mp h), ?_⟩
    simpa [hl, hl', hof] using hpc.allow_le 0
  · rw [hs.running] at hpc
    refine ⟨hnext _ hl' rfl hpc.stays_live, ?_⟩
    rw [hl, hl']
    exact hpc.allow_add (fun _ => rfl) (Or.inl hs.fd) i

/-- Once it has begun a call of `accept` behind the closing, all its calls fail. -/
theorem Spinning.fails {sock : ℕ} (hs : Spinning i sock s) (h : StepCase cls s a s')
    (hcall : (∀ l, s.loops[i]? = some l → l.pc.Fails) ∨ a = .loop i .accept) :
    ∀ l, s'.loops[i]? = some l → l.pc.Fails := by
  obtain ⟨l, hl, rfl, -⟩ := hs.loop
  intro l' hl''
  rcases h.loop_at hl with ⟨hof, pc, hl', hpc⟩ | ⟨b, pc, rfl, hpc, hl'⟩
  · obtain rfl := Option.some_inj.mp (hl''.symm.trans hl')
    refine hpc.fails (hcall.resolve_right ?_ l hl)
    rintro rfl
    simp [Action.isOf] at hof
  · obtain rfl := Option.some_inj.mp (hl''.symm.trans hl')
    rw [hs.running, hs.fd] at hpc
    exact hpc.fails (hcall.imp (fun h => h l hl) fun h => (Action.loop.inj h).2)

/-- A live loop whose calls of `accept` fail can always make a step by itself. -/
theorem exists_step_of_fails (hl : s.loops[i]? = some l) (hlive : l.pc ≠ .finished)
    (hfails : l.pc.Fails) : ∃ b, (step cls s (.loop i b)).isSome := by
  have hstep (b : LoopAction Client)
      (hb : (l.pc.step s.m_running (s.fd l.sock) s.taken b).isSome) :
      (step cls s (.loop i b)).isSome := by
    obtain ⟨pc, hpc⟩ := Option.isSome_iff_exists.mp hb
    simp [step, hl, hpc]
  cases hpc : l.pc with
  | scheduled => exact ⟨.begin, hstep _ (by rw [hpc]; rfl)⟩
  | check => exact ⟨.check, hstep _ (by rw [hpc]; rfl)⟩
  | enter => exact ⟨.accept, hstep _ (by rw [hpc]; rfl)⟩
  | trying fd => exact ⟨.answer .refused, hstep _ (by rw [hpc]; rfl)⟩
  | register fd | waiting fd =>
    rw [hpc] at hfails
    exact hfails.elim
  | client c => exact ⟨.handOver, hstep _ (by rw [hpc]; rfl)⟩
  | finished => exact absurd hpc hlive

/-- The task of `stop` closes a socket when the server has been started again. From then on, and
until the server is stopped once more, a loop on this socket does not end, and accepts at most one
client; once it has begun another call of `accept`, every call fails at once. -/
theorem restart_spins {rest : List ℕ} (hbefore : Run (ofFun (step cls)) State.new as₁ m)
    (hrunning : m.m_running = true) (htask : m.task = some ⟨l.sock :: rest, .assign⟩)
    (hassign : step cls m (.task .assign) = some m') (hafter : Run (ofFun (step cls)) m' as₂ s)
    (hstop : ∀ a ∈ as₂, a ≠ .stop) (hl : m.loops[i]? = some l) (hlive : l.pc ≠ .finished) :
    accepts i as₂ ≤ 1 ∧ ∃ l', s.loops[i]? = some l' ∧ l'.pc ≠ .finished ∧
      (.loop i .accept ∈ as₂ → l'.pc.Fails ∧ ∃ b, (step cls s (.loop i b)).isSome) := by
  have hcase := stepCase_of_step hassign
  have hspin : Spinning i l.sock m' := by
    refine ⟨hcase.running hrunning (fun h => nomatch h), ?_, ?_, ?_⟩
    · exact Nat.lt_of_lt_of_le ((valid_run hbefore).loops_lt l (List.mem_of_getElem? hl))
        hcase.length_le
    · cases hcase with
      | assign htask' =>
        obtain ⟨rfl, -⟩ := List.cons.inj (congrArg Task.rest (Option.some_inj.mp
          (htask.symm.trans htask')))
        exact (State.fd_assign m l.sock l.sock).trans (if_pos rfl)
    · rcases hcase.loop_at hl with ⟨-, pc, hl', hpc⟩ | ⟨b, pc, hloop, -⟩
      · exact ⟨_, hl', rfl, fun h => hlive (hpc.finished_iff.mp h)⟩
      · cases hloop
  have hguard := hafter.guard (C := fun _ a => a ≠ .stop) fun a ha _ => hstop a ha
  obtain ⟨hspin', hcount⟩ := hguard.countP_add_le
    (p := fun a => a.isOf i && a.accepted.isSome)
    (Φ := fun s => (s.loops[i]?).elim 0 fun l => l.pc.allow 0) hspin
    fun s a s' hs ⟨ha, hst⟩ => hs.step (stepCase_of_step hst) ha
  -- once it has begun another call, all of them fail
  have hfails := (hguard.history (I := fun as s => Spinning i l.sock s ∧
      (.loop i .accept ∈ as → ∀ l, s.loops[i]? = some l → l.pc.Fails))
    ⟨hspin, fun h => (List.not_mem_nil h).elim⟩ fun as s a s' ⟨hs, hfails⟩ ⟨ha, hst⟩ => by
      refine ⟨(hs.step (stepCase_of_step hst) ha).1, fun hmem => ?_⟩
      refine hs.fails (stepCase_of_step hst) ?_
      rcases List.mem_append.mp hmem with hmem | hmem
      · exact Or.inl (hfails hmem)
      · exact Or.inr (List.mem_singleton.mp hmem).symm).2
  obtain ⟨l₁, hl₁, -, -⟩ := hspin.loop
  obtain ⟨l', hl', hsock', hlive'⟩ := hspin'.loop
  refine ⟨?_, l', hl', hlive', fun hmem => ?_⟩
  · simp only [hl₁, Option.elim_some] at hcount
    exact Nat.le_trans (Nat.le_of_add_right_le hcount) (l₁.pc.allow_le (Nat.zero_le 1))
  · exact ⟨hfails hmem l' hl', exists_step_of_fails hl' hlive' (hfails hmem l' hl')⟩

end Restart

section Examples

/-- Addresses of one family. -/
def ipv4 : AddressClass ℕ where
  getFamily _ := 2
  isUnix _ := false
  unknown _ := 0

/-- One address, whose socket gets the descriptor 5. -/
def oneAddr : List (ℕ × Answers ℕ) := [(10, ⟨⟨5, ⟨-1, false, false, 0, none⟩, true, 10⟩, true⟩)]

/-- The loop of the server waits for a client. -/
def waitingActions : List (Action ℕ ℕ) :=
  [.bind oneAddr, .start, .loop 0 .begin, .loop 0 .check, .loop 0 .accept, .loop 0 (.answer .again),
    .loop 0 (.addEvent true)]

/-- A loop that registers again behind the last `cancelAll` is left waiting on a closed socket. -/
example :
    ∃ s, exec (step ipv4) .new (waitingActions ++ .stop :: [.task .begin, .task .cancelAll,
        .task (.close true), .loop 0 (.answer .again), .loop 0 (.addEvent true), .task .assign,
        .task .clear]) = some s ∧
      s.loops[0]? = some ⟨0, .waiting 5⟩ ∧ s.fd 0 = -1 :=
  ⟨_, rfl, rfl, rfl⟩

/-- Stopped and started again, the server closes the socket on which its two loops listen. -/
theorem restart_spins_example :
    let as₁ : List (Action ℕ ℕ) := waitingActions ++
      [.stop, .start, .task .begin, .task .cancelAll, .task (.close true)]
    let as₂ : List (Action ℕ ℕ) :=
      [.loop 1 .begin, .loop 0 (.answer .refused), .loop 0 .check, .loop 0 .accept]
    ∃ m m' s, m.m_running = true ∧ exec (step ipv4) .new as₁ = some m ∧
      step ipv4 m (.task .assign) = some m' ∧ exec (step ipv4) m' as₂ = some s ∧
        accepts 0 as₂ ≤ 1 ∧ ∃ l', s.loops[0]? = some l' ∧ l'.pc ≠ .finished ∧
          (.loop 0 .accept ∈ as₂ → l'.pc.Fails ∧ ∃ b, (step ipv4 s (.loop 0 b)).isSome) := by
  intro as₁ as₂
  have hstop : ∀ a ∈ as₂, a ≠ .stop := by simp [as₂]
  refine ⟨_, _, _, rfl, rfl, rfl, rfl, ?_⟩
  exact restart_spins (Run.of_exec (show exec (step ipv4) .new as₁ = some _ from rfl)) rfl rfl rfl
    (Run.of_exec rfl) hstop (show _ = some (Loop.mk 0 (.trying 5)) from rfl) (fun h => nomatch h)

end Examples

end Sylar.TcpServer.Lifecycle
