import Sylar.Foundation.Run
import Sylar.TcpServer.Bind
import Mathlib.Algebra.Order.Group.Multiset
import Mathlib.Data.List.Perm.Basic
import Mathlib.Tactic.Abel

/-!
# Starting and stopping a server

Model of `start`, `stop` and `startListen` from `server/TCPserver.cpp`, over `bind`. `start`
schedules a loop for each socket, which hands the clients that it accepts over to the worker; `stop`
clears the flag that the loops check, and schedules a task that closes the sockets. The loops and
these tasks run on any number of threads of the listener.

* `clients_run` — every client that has been accepted is held by a loop or has been handed over to
  the worker, once.
* `socks_bind` — the sockets of the server are those of `TcpServer.bind`.

Representation:

* a socket is known by its place among all sockets that have been made to listen, and `m_socks`
  holds these places;
* a call of `accept` reads `m_sock` when it begins, and is `do_io` from then on: as long as the
  kernel answers `EAGAIN`, it registers with the poller and waits for an event, which `cancelAll`
  reports as well. What the kernel answers is left open, since a descriptor may be closed, and its
  number used again, while a loop is inside `accept`; only the descriptor `-1` always fails;
* the task of `stop` goes over the sockets, and closes each of them in three steps: `cancelAll`, the
  `cancelAll` of the hooked `::close` with `close_f` behind it, and the assignment to `m_sock`;
* `bind`, `start` and the task of `stop` use `m_socks` without a lock. They do not overlap here;
* the calls of the poller are those that return, and without a failed assertion.
-/

namespace Sylar.TcpServer.Lifecycle

open Transition

variable {Addr Client : Type}

/-- Where a call of `startListen` is. -/
inductive Pc (Client : Type) where
  /-- In the queue of the listener. -/
  | scheduled
  /-- At the condition of the loop. -/
  | check
  /-- At the call of `accept`. -/
  | enter
  /-- In `do_io` with this descriptor, at `retry`. -/
  | trying (fd : ℤ)
  /-- Behind `EAGAIN`, at `addEvent`. -/
  | register (fd : ℤ)
  /-- Registered with the poller, at `yieldToHold`. -/
  | waiting (fd : ℤ)
  /-- About to hand over a client. -/
  | client (c : Client)
  | finished

/-- A call of `startListen(sock)`. -/
structure Loop (Client : Type) where
  sock : ℕ
  pc : Pc Client

/-- The answer to `accept_f`. A client whose socket `init` refuses is dropped, and its descriptor
remains open. -/
inductive Answer (Client : Type) where
  | refused
  /-- `EAGAIN`. -/
  | again
  | uninitialised
  | connected (c : Client)

/-- The steps of a loop. -/
inductive LoopAction (Client : Type) where
  | begin
  | check
  | accept
  | answer (k : Answer Client)
  | addEvent (ok : Bool)
  /-- The poller reports an event. -/
  | wake
  /-- The timer has cancelled the event. -/
  | timeout
  | handOver

/-- The steps of the task that `stop` schedules. -/
inductive TaskAction where
  | begin
  | cancelAll
  /-- `::close`, where the descriptor has an `FdCtx` or not. -/
  | close (ctx : Bool)
  | assign
  | clear

inductive Action (Addr Client : Type) where
  | bind (addrs : List (Addr × Answers Addr))
  | start
  | stop
  /-- A step of a task that `stop` has scheduled. -/
  | task (a : TaskAction)
  | setRecvTimeout (timeout : UInt64)
  /-- A step of the loop with this number. -/
  | loop (i : ℕ) (a : LoopAction Client)

/-- Where the task of `stop` is with the socket that it closes. -/
inductive TaskPc where
  | cancelAll
  | close
  /-- At `m_sock = -1`. -/
  | assign

/-- A task of `stop`, with the sockets that it has not closed. -/
structure Task where
  rest : List ℕ
  pc : TaskPc

/-- The server, its sockets and loops, the number of tasks of `stop` that have not begun, the one
that runs, and the clients in the queue of the worker, with their receive timeouts. -/
structure State (Addr Client : Type) where
  sockets : List (Socket Addr)
  m_socks : List ℕ
  m_running : Bool
  m_recvTimeout : UInt64
  loops : List (Loop Client)
  closing : ℕ
  task : Option Task
  handed : List (Client × UInt64)

namespace State

/-- A server after its construction. -/
def new : State Addr Client where
  sockets := []
  m_socks := []
  m_running := false
  m_recvTimeout := 120000
  loops := []
  closing := 0
  task := none
  handed := []

/-- The descriptor of a socket. -/
def fd (s : State Addr Client) (sock : ℕ) : ℤ := (s.sockets[sock]?.map Socket.m_sock).getD (-1)

/-- `bind(addrs, fails, ssl)`. -/
def bind (cls : AddressClass Addr) (addrs : List (Addr × Answers Addr)) (s : State Addr Client) :
    State Addr Client :=
  if (failed cls addrs).isEmpty then
    let socks := addrs.filterMap (listening cls)
    { s with
      sockets := s.sockets ++ socks
      m_socks := s.m_socks ++ List.range' s.sockets.length socks.length }
  else { s with m_socks := [] }

/-- `start()`. -/
def start (s : State Addr Client) : State Addr Client :=
  if s.m_running then s
  else
    { s with
      m_running := true
      loops := s.loops ++ s.m_socks.map fun sock => ⟨sock, .scheduled⟩ }

/-- `stop()`. -/
def stop (s : State Addr Client) : State Addr Client :=
  { s with m_running := false, closing := s.closing + 1 }

end State

/-- What an event for `fd` makes of a loop. -/
def Pc.woken (fd : ℤ) : Pc Client → Pc Client
  | .waiting fd' => if fd' = fd then .trying fd' else .waiting fd'
  | pc => pc

/-- The loop waits for an event of `fd`. -/
def Pc.waitsFor (fd : ℤ) : Pc Client → Bool
  | .waiting fd' => fd' = fd
  | _ => false

namespace State

/-- `cancelAll(fd)`: the loop that waits for an event of `fd` goes on. -/
def cancelAll (s : State Addr Client) (fd : ℤ) : State Addr Client :=
  { s with loops := s.loops.map fun l => { l with pc := l.pc.woken fd } }

/-- A loop has registered for an event of `fd`. -/
def taken (s : State Addr Client) (fd : ℤ) : Bool := s.loops.any fun l => l.pc.waitsFor fd

/-- The `m_sock` of a socket is overwritten. -/
def assign (s : State Addr Client) (sock : ℕ) : State Addr Client :=
  { s with sockets := s.sockets.modify sock fun socket => socket.close.2 }

/-- A step of the task that `stop` schedules. -/
def taskStep (s : State Addr Client) : TaskAction → Option (State Addr Client)
  | .begin =>
    if 0 < s.closing ∧ s.task.isNone then
      some { s with closing := s.closing - 1, task := some ⟨s.m_socks, .cancelAll⟩ }
    else none
  | .cancelAll =>
    match s.task with
    | some ⟨sock :: rest, .cancelAll⟩ =>
      some { s.cancelAll (s.fd sock) with task := some ⟨sock :: rest, .close⟩ }
    | _ => none
  | .close ctx =>
    match s.task with
    | some ⟨sock :: rest, .close⟩ =>
      let s' := if ctx then s.cancelAll (s.fd sock) else s
      some { s' with task := some ⟨sock :: rest, .assign⟩ }
    | _ => none
  | .assign =>
    match s.task with
    | some ⟨sock :: rest, .assign⟩ => some { s.assign sock with task := some ⟨rest, .cancelAll⟩ }
    | _ => none
  | .clear =>
    match s.task with
    | some ⟨[], _⟩ => some { s with m_socks := [], task := none }
    | _ => none

end State

/-- A step of `startListen`, with the flag, the `m_sock` of the socket and the descriptors that
loops have registered for, as they are. -/
def Pc.step (m_running : Bool) (m_sock : ℤ) (taken : ℤ → Bool) :
    Pc Client → LoopAction Client → Option (Pc Client)
  | .scheduled, .begin => some .check
  | .check, .check => some (if m_running then .enter else .finished)
  | .enter, .accept => some (.trying m_sock)
  | .trying _, .answer .refused => some .check
  | .trying fd, .answer .again => if fd = -1 then none else some (.register fd)
  | .trying fd, .answer .uninitialised => if fd = -1 then none else some .check
  | .trying fd, .answer (.connected c) => if fd = -1 then none else some (.client c)
  -- the assertion `!(fd_ctx->events & event)`
  | .register fd, .addEvent true => if taken fd then none else some (.waiting fd)
  | .register _, .addEvent false => some .check
  | .waiting fd, .wake => some (.trying fd)
  | .waiting _, .timeout => some .check
  | .client _, .handOver => some .check
  | _, _ => none

/-- The client that a loop holds. -/
def Pc.held : Pc Client → Option Client
  | .client c => some c
  | _ => none

/-- What a step hands over to the worker. -/
def Pc.handed (timeout : UInt64) : Pc Client → LoopAction Client → List (Client × UInt64)
  | .client c, .handOver => [(c, timeout)]
  | _, _ => []

/-- A step of the server and its loops. -/
def step (cls : AddressClass Addr) (s : State Addr Client) :
    Action Addr Client → Option (State Addr Client)
  | .bind addrs => if s.task.isNone then some (s.bind cls addrs) else none
  | .start => if s.task.isNone then some s.start else none
  | .stop => some s.stop
  | .task a => s.taskStep a
  | .setRecvTimeout timeout => some { s with m_recvTimeout := timeout }
  | .loop i a => do
    let l ← s.loops[i]?
    let pc ← l.pc.step s.m_running (s.fd l.sock) s.taken a
    some { s with
      loops := s.loops.set i { l with pc }
      handed := s.handed ++ l.pc.handed s.m_recvTimeout a }

/-! ## What is counted -/

/-- The client that an action accepts. -/
def Action.accepted : Action Addr Client → Option Client
  | .loop _ (.answer (.connected c)) => some c
  | _ => none

/-- The action is a step of this loop. -/
def Action.isOf (i : ℕ) : Action Addr Client → Bool
  | .loop j _ => j = i
  | _ => false

/-- The loop goes on waiting for a client. -/
def LoopAction.waits : LoopAction Client → Bool
  | .answer .again => true
  | .addEvent ok => ok
  | .wake => true
  | _ => false

/-- The action is a step of this loop that brings it on. -/
def Action.advances (i : ℕ) : Action Addr Client → Bool
  | .loop j b => j = i && !b.waits
  | _ => false

/-- The number of steps of a loop, without those by which it waits for a client. -/
def steps (i : ℕ) (as : List (Action Addr Client)) : ℕ := as.countP fun a => a.advances i

/-- The number of clients that a loop accepts. -/
def accepts (i : ℕ) (as : List (Action Addr Client)) : ℕ :=
  as.countP fun a => a.isOf i && a.accepted.isSome

/-! ## What a step does -/

variable {cls : AddressClass Addr} {s s' m m' : State Addr Client} {a : Action Addr Client}
  {as as₁ as₂ : List (Action Addr Client)} {l : Loop Client} {i : ℕ}

section Step

/-- The steps of `startListen`. -/
inductive PcStep (m_running : Bool) (m_sock : ℤ) (taken : ℤ → Bool) :
    Pc Client → LoopAction Client → Pc Client → Prop
  | begin : PcStep m_running m_sock taken .scheduled .begin .check
  | goOn (h : m_running = true) : PcStep m_running m_sock taken .check .check .enter
  | leave (h : m_running = false) : PcStep m_running m_sock taken .check .check .finished
  | accept : PcStep m_running m_sock taken .enter .accept (.trying m_sock)
  | refused (fd : ℤ) : PcStep m_running m_sock taken (.trying fd) (.answer .refused) .check
  | again {fd : ℤ} (h : fd ≠ -1) :
      PcStep m_running m_sock taken (.trying fd) (.answer .again) (.register fd)
  | uninitialised {fd : ℤ} (h : fd ≠ -1) :
      PcStep m_running m_sock taken (.trying fd) (.answer .uninitialised) .check
  | connected {fd : ℤ} (c : Client) (h : fd ≠ -1) :
      PcStep m_running m_sock taken (.trying fd) (.answer (.connected c)) (.client c)
  | registered {fd : ℤ} (h : taken fd = false) :
      PcStep m_running m_sock taken (.register fd) (.addEvent true) (.waiting fd)
  | unregistered (fd : ℤ) : PcStep m_running m_sock taken (.register fd) (.addEvent false) .check
  | wake (fd : ℤ) : PcStep m_running m_sock taken (.waiting fd) .wake (.trying fd)
  | timeout (fd : ℤ) : PcStep m_running m_sock taken (.waiting fd) .timeout .check
  | handOver (c : Client) : PcStep m_running m_sock taken (.client c) .handOver .check

/-- `PcStep` lists the steps of `Pc.step`. -/
theorem pcStep_of_step {m_running : Bool} {m_sock : ℤ} {taken : ℤ → Bool} {pc pc' : Pc Client}
    {b : LoopAction Client} (h : pc.step m_running m_sock taken b = some pc') :
    PcStep m_running m_sock taken pc b pc' := by
  unfold Pc.step at h
  split at h
  · cases h
    exact .begin
  · cases h
    cases m_running with
    | true => exact .goOn rfl
    | false => exact .leave rfl
  · cases h
    exact .accept
  · cases h
    exact .refused _
  · split_ifs at h with hfd
    cases h
    exact .again hfd
  · split_ifs at h with hfd
    cases h
    exact .uninitialised hfd
  · split_ifs at h with hfd
    cases h
    exact .connected _ hfd
  · split_ifs at h with htaken
    cases h
    exact .registered (Bool.eq_false_iff.mpr htaken)
  · cases h
    exact .unregistered _
  · cases h
    exact .wake _
  · cases h
    exact .timeout _
  · cases h
    exact .handOver _
  · cases h

/-- The state behind a step of a loop. -/
def State.move (s : State Addr Client) (i : ℕ) (l : Loop Client) (b : LoopAction Client)
    (pc : Pc Client) : State Addr Client :=
  { s with
    loops := s.loops.set i { l with pc }
    handed := s.handed ++ l.pc.handed s.m_recvTimeout b }

/-- The state in which the task of `stop` is at another place. -/
def State.setTask (s : State Addr Client) (rest : List ℕ) (pc : TaskPc) : State Addr Client :=
  { s with task := some ⟨rest, pc⟩ }

/-- The steps of the server and its loops. -/
inductive StepCase (cls : AddressClass Addr) (s : State Addr Client) :
    Action Addr Client → State Addr Client → Prop
  | bind (addrs : List (Addr × Answers Addr)) (htask : s.task = none) :
      StepCase cls s (.bind addrs) (s.bind cls addrs)
  | start (htask : s.task = none) : StepCase cls s .start s.start
  | stop : StepCase cls s .stop s.stop
  | beginTask (htask : s.task = none) : StepCase cls s (.task .begin)
      ({ s with closing := s.closing - 1 }.setTask s.m_socks .cancelAll)
  | cancelAll {sock : ℕ} {rest : List ℕ} (htask : s.task = some ⟨sock :: rest, .cancelAll⟩) :
      StepCase cls s (.task .cancelAll) ((s.cancelAll (s.fd sock)).setTask (sock :: rest) .close)
  | close {sock : ℕ} {rest : List ℕ} (htask : s.task = some ⟨sock :: rest, .close⟩) :
      StepCase cls s (.task (.close true))
        ((s.cancelAll (s.fd sock)).setTask (sock :: rest) .assign)
  | closeOnly {sock : ℕ} {rest : List ℕ} (htask : s.task = some ⟨sock :: rest, .close⟩) :
      StepCase cls s (.task (.close false)) (s.setTask (sock :: rest) .assign)
  | assign {sock : ℕ} {rest : List ℕ} (htask : s.task = some ⟨sock :: rest, .assign⟩) :
      StepCase cls s (.task .assign) ((s.assign sock).setTask rest .cancelAll)
  | clear {pc : TaskPc} (htask : s.task = some ⟨[], pc⟩) :
      StepCase cls s (.task .clear) { s with m_socks := [], task := none }
  | setRecvTimeout (timeout : UInt64) :
      StepCase cls s (.setRecvTimeout timeout) { s with m_recvTimeout := timeout }
  | loop {i : ℕ} {b : LoopAction Client} {l : Loop Client} {pc : Pc Client}
      (hl : s.loops[i]? = some l) (hpc : PcStep s.m_running (s.fd l.sock) s.taken l.pc b pc) :
      StepCase cls s (.loop i b) (s.move i l b pc)

/-- The steps of the task of `stop`. -/
theorem stepCase_of_taskStep {b : TaskAction} (h : s.taskStep b = some s') :
    StepCase cls s (.task b) s' := by
  cases b with
  | begin =>
    simp only [State.taskStep, Option.ite_none_right_eq_some, Option.some_inj,
      Option.isNone_iff_eq_none] at h
    obtain ⟨⟨-, htask⟩, rfl⟩ := h
    exact .beginTask htask
  | cancelAll =>
    simp only [State.taskStep] at h
    split at h
    · rename_i htask
      exact Option.some_inj.mp h ▸ .cancelAll htask
    · cases h
  | close ctx =>
    simp only [State.taskStep] at h
    split at h
    · rename_i htask
      cases ctx with
      | true => exact Option.some_inj.mp h ▸ .close htask
      | false => exact Option.some_inj.mp h ▸ .closeOnly htask
    · cases h
  | assign =>
    simp only [State.taskStep] at h
    split at h
    · rename_i htask
      exact Option.some_inj.mp h ▸ .assign htask
    · cases h
  | clear =>
    simp only [State.taskStep] at h
    split at h
    · rename_i htask
      exact Option.some_inj.mp h ▸ .clear htask
    · cases h

/-- `StepCase` lists the steps of `step`. -/
theorem stepCase_of_step (h : step cls s a = some s') : StepCase cls s a s' := by
  cases a with
  | bind addrs =>
    simp only [step, Option.ite_none_right_eq_some, Option.some_inj,
      Option.isNone_iff_eq_none] at h
    obtain ⟨htask, rfl⟩ := h
    exact .bind addrs htask
  | start =>
    simp only [step, Option.ite_none_right_eq_some, Option.some_inj,
      Option.isNone_iff_eq_none] at h
    obtain ⟨htask, rfl⟩ := h
    exact .start htask
  | stop => exact Option.some_inj.mp h ▸ .stop
  | task b => exact stepCase_of_taskStep h
  | setRecvTimeout timeout => exact Option.some_inj.mp h ▸ .setRecvTimeout timeout
  | loop i b =>
    simp only [step, Bind.bind, Option.bind_eq_some_iff, Option.some_inj] at h
    obtain ⟨l, hl, pc, hpc, rfl⟩ := h
    exact .loop hl (pcStep_of_step hpc)

/-- What may become of a loop without a step of its own: it is woken. -/
def Pc.Woken (pc pc' : Pc Client) : Prop :=
  pc' = pc ∨ ∃ fd, pc = .waiting fd ∧ pc' = .trying fd

/-- `cancelAll` wakes a loop or leaves it alone. -/
theorem woken_woken (fd : ℤ) (pc : Pc Client) : pc.Woken (pc.woken fd) := by
  cases pc with
  | waiting fd' =>
    rw [Pc.woken]
    split_ifs
    · exact Or.inr ⟨fd', rfl, rfl⟩
    · exact Or.inl rfl
  | _ => exact Or.inl rfl

/-- A loop that is woken is live. -/
theorem Pc.Woken.finished_iff {pc pc' : Pc Client} (h : pc.Woken pc') :
    pc' = .finished ↔ pc = .finished := by
  rcases h with rfl | ⟨fd, rfl, rfl⟩ <;> simp

/-- The loops behind `cancelAll`. -/
theorem getElem?_cancelAll (s : State Addr Client) (fd : ℤ) (i : ℕ) :
    (s.cancelAll fd).loops[i]? = (s.loops[i]?).map fun l => { l with pc := l.pc.woken fd } :=
  List.getElem?_map

/-- What becomes of one loop in a step. -/
theorem StepCase.loop_at (h : StepCase cls s a s') (hl : s.loops[i]? = some l) :
    (a.isOf i = false ∧ ∃ pc, s'.loops[i]? = some { l with pc } ∧ l.pc.Woken pc) ∨
      ∃ b pc, a = .loop i b ∧ PcStep s.m_running (s.fd l.sock) s.taken l.pc b pc ∧
        s'.loops[i]? = some { l with pc } := by
  have hcancel (fd : ℤ) : ∃ pc, (s.cancelAll fd).loops[i]? = some { l with pc } ∧ l.pc.Woken pc :=
    ⟨_, by rw [getElem?_cancelAll, hl]; rfl, woken_woken fd l.pc⟩
  cases h with
  | bind addrs =>
    refine Or.inl ⟨rfl, l.pc, ?_, Or.inl rfl⟩
    rw [State.bind]
    split_ifs
    · exact hl
    · exact hl
  | start =>
    refine Or.inl ⟨rfl, l.pc, ?_, Or.inl rfl⟩
    rw [State.start]
    split_ifs
    · exact hl
    · have hi := (List.getElem?_eq_some_iff.mp hl).1
      exact (List.getElem?_append_left hi).trans hl
  | stop | beginTask | closeOnly | assign | clear | setRecvTimeout =>
    exact Or.inl ⟨rfl, l.pc, hl, Or.inl rfl⟩
  | cancelAll | close => exact Or.inl ⟨rfl, hcancel _⟩
  | @loop j b l' pc hl' hpc =>
    by_cases hij : j = i
    · subst hij
      obtain rfl := Option.some_inj.mp (hl'.symm.trans hl)
      have hi := (List.getElem?_eq_some_iff.mp hl).1
      exact Or.inr ⟨b, pc, rfl, hpc, List.getElem?_set_self hi⟩
    · exact Or.inl ⟨decide_eq_false hij, l.pc, (List.getElem?_set_ne hij).trans hl, Or.inl rfl⟩

/-- Only `start` adds loops. -/
theorem StepCase.loop_none (h : StepCase cls s a s') (ha : a ≠ .start)
    (hl : s.loops[i]? = none) : a.isOf i = false ∧ s'.loops[i]? = none := by
  cases h with
  | bind addrs =>
    refine ⟨rfl, ?_⟩
    rw [State.bind]
    split_ifs
    · exact hl
    · exact hl
  | start => exact absurd rfl ha
  | stop | beginTask | closeOnly | assign | clear | setRecvTimeout => exact ⟨rfl, hl⟩
  | cancelAll | close => exact ⟨rfl, (getElem?_cancelAll s _ i).trans (by rw [hl]; rfl)⟩
  | @loop j b l pc hl' hpc =>
    have hij : j ≠ i := by
      rintro rfl
      cases hl.symm.trans hl'
    exact ⟨decide_eq_false hij, (List.getElem?_set_ne hij).trans hl⟩

end Step

/-! ## Clients -/

section Clients

/-- The clients that loops hold. -/
def State.held (s : State Addr Client) : List Client := s.loops.filterMap fun l => l.pc.held

/-- The clients that have been accepted. -/
def accepted (as : List (Action Addr Client)) : List Client := as.filterMap Action.accepted

/-- An entry of a list is exchanged for another one. -/
theorem filterMap_set_perm {α β : Type} {f : α → Option β} {xs : List α} {i : ℕ} {x y : α}
    (h : xs[i]? = some x) :
    ((xs.set i y).filterMap f ++ (f x).toList).Perm (xs.filterMap f ++ (f y).toList) := by
  have hcons (z : α) (zs : List α) : (z :: zs).filterMap f = (f z).toList ++ zs.filterMap f := by
    cases hz : f z with
    | none => rw [List.filterMap_cons_none hz, Option.toList_none, List.nil_append]
    | some w => rw [List.filterMap_cons_some hz, Option.toList_some, List.singleton_append]
  induction xs generalizing i with
  | nil => cases h
  | cons z xs ih =>
    cases i with
    | zero =>
      obtain rfl := Option.some_inj.mp h
      rw [List.set_cons_zero, hcons, hcons, List.append_assoc]
      exact List.perm_append_comm.trans (List.perm_append_comm.append_right _)
    | succ i =>
      rw [List.set_cons_succ, hcons, hcons, List.append_assoc, List.append_assoc]
      exact (ih h).append_left _

/-- A step of a loop neither loses a client nor adds one. -/
theorem PcStep.clients {m_running : Bool} {m_sock : ℤ} {taken : ℤ → Bool} {pc pc' : Pc Client}
    {b : LoopAction Client} (h : PcStep m_running m_sock taken pc b pc') (timeout : UInt64)
    (i : ℕ) :
    pc.held.toList ++ ((Action.loop i b : Action Addr Client).accepted).toList =
      pc'.held.toList ++ (pc.handed timeout b).map Prod.fst := by
  cases h <;> rfl

/-- A loop that is woken holds no client. -/
theorem held_cancelAll (s : State Addr Client) (fd : ℤ) : (s.cancelAll fd).held = s.held := by
  rw [State.held, State.cancelAll, List.filterMap_map]
  refine List.filterMap_congr fun l _ => ?_
  show (l.pc.woken fd).held = l.pc.held
  rcases woken_woken fd l.pc with h | ⟨fd', h, h'⟩
  · rw [h]
  · rw [h', h]
    rfl

/-- A step neither loses a client nor adds one, besides the one that it accepts. -/
theorem StepCase.clients (h : StepCase cls s a s') :
    (s'.held ++ s'.handed.map Prod.fst).Perm
      (s.held ++ s.handed.map Prod.fst ++ a.accepted.toList) := by
  have hsame : ∀ {t : State Addr Client}, t.held = s.held → t.handed = s.handed →
      (t.held ++ t.handed.map Prod.fst).Perm (s.held ++ s.handed.map Prod.fst ++ []) := by
    rintro t hheld hhanded
    rw [hheld, hhanded, List.append_nil]
  cases h with
  | bind addrs =>
    refine hsame ?_ ?_ <;> (rw [State.bind]; split_ifs <;> rfl)
  | start =>
    refine hsame ?_ ?_
    · rw [State.start]
      split_ifs
      · rfl
      · rw [State.held, State.held, List.filterMap_append]
        simp [List.filterMap_map, Pc.held]
    · rw [State.start]
      split_ifs <;> rfl
  | cancelAll | close => exact hsame (held_cancelAll s _) rfl
  | stop | beginTask | closeOnly | assign | clear | setRecvTimeout => exact hsame rfl rfl
  | @loop i b l pc hl hpc =>
    have hset := filterMap_set_perm (f := fun l => l.pc.held) (y := { l with pc }) hl
    have hpc : ((l.pc.held.toList : List Client) : Multiset Client) +
        ((Action.loop i b : Action Addr Client).accepted).toList =
          pc.held.toList + (l.pc.handed s.m_recvTimeout b).map Prod.fst :=
      congrArg (fun xs : List Client => (xs : Multiset Client)) (hpc.clients s.m_recvTimeout i)
    rw [← Multiset.coe_eq_coe, ← Multiset.coe_add, ← Multiset.coe_add] at hset
    rw [← Multiset.coe_eq_coe, State.move, State.held, State.held, List.map_append]
    simp only [← Multiset.coe_add]
    refine add_right_cancel (b := ((l.pc.held.toList : List Client) : Multiset Client)) ?_
    calc (((s.loops.set i { l with pc }).filterMap fun l => l.pc.held : List Client) :
            Multiset Client) + (s.handed.map Prod.fst +
              (l.pc.handed s.m_recvTimeout b).map Prod.fst) + l.pc.held.toList
        = ((s.loops.set i { l with pc }).filterMap fun l => l.pc.held : List Client) +
            l.pc.held.toList + s.handed.map Prod.fst +
              (l.pc.handed s.m_recvTimeout b).map Prod.fst := by abel
      _ = (s.loops.filterMap fun l => l.pc.held : List Client) + s.handed.map Prod.fst +
            (pc.held.toList + (l.pc.handed s.m_recvTimeout b).map Prod.fst) := by
        rw [hset]
        abel
      _ = _ := by
        rw [← hpc]
        abel

end Clients

/-! ## Sockets -/

section Sockets

/-- Places are those of sockets, and the task closes sockets of the server, each of them once. -/
structure Valid (s : State Addr Client) : Prop where
  socks_lt : ∀ sock ∈ s.m_socks, sock < s.sockets.length
  nodup : s.m_socks.Nodup
  loops_lt : ∀ l ∈ s.loops, l.sock < s.sockets.length
  suffix : ∀ t, s.task = some t → t.rest <:+ s.m_socks

/-- No socket is taken out of the list of all sockets. -/
theorem StepCase.length_le (h : StepCase cls s a s') : s.sockets.length ≤ s'.sockets.length := by
  cases h with
  | bind addrs =>
    rw [State.bind]
    split_ifs
    · simp
    · exact Nat.le_refl _
  | start =>
    rw [State.start]
    split_ifs <;> exact Nat.le_refl _
  | assign => exact Nat.le_of_eq (List.length_modify _ _ _).symm
  | _ => exact Nat.le_refl _

/-- The sockets of loops that `cancelAll` leaves behind. -/
theorem exists_mem_of_mem_cancelAll {fd : ℤ} (hl : l ∈ (s.cancelAll fd).loops) :
    ∃ l₀ ∈ s.loops, l₀.sock = l.sock := by
  obtain ⟨l₀, hl₀, rfl⟩ := List.mem_map.mp hl
  exact ⟨l₀, hl₀, rfl⟩

/-- A place is in range after a step of the task as it was before it. -/
theorem Valid.task_step (hs : Valid s) (hsockets : s.sockets.length ≤ s'.sockets.length)
    (hsocks : s'.m_socks = s.m_socks) (hloops : ∀ l ∈ s'.loops, ∃ l₀ ∈ s.loops, l₀.sock = l.sock)
    (hsuffix : ∀ t, s'.task = some t → t.rest <:+ s.m_socks) : Valid s' := by
  refine ⟨fun sock hsock => ?_, hsocks ▸ hs.nodup, fun l hl => ?_, hsocks ▸ hsuffix⟩
  · rw [hsocks] at hsock
    exact Nat.lt_of_lt_of_le (hs.socks_lt sock hsock) hsockets
  · obtain ⟨l₀, hl₀, hsock⟩ := hloops l hl
    exact hsock ▸ Nat.lt_of_lt_of_le (hs.loops_lt l₀ hl₀) hsockets

/-- The places of the sockets that a call of `bind` adds are new. -/
theorem nodup_bind (hs : Valid s) (n : ℕ) :
    (s.m_socks ++ List.range' s.sockets.length n).Nodup := by
  refine List.Nodup.append hs.nodup List.nodup_range' fun sock hsock hnew => ?_
  exact Nat.lt_irrefl _ (Nat.lt_of_lt_of_le (hs.socks_lt sock hsock) (List.mem_range'_1.mp hnew).1)

/-- Every step keeps places valid. -/
theorem Valid.step (hs : Valid s) (h : StepCase cls s a s') : Valid s' := by
  have hle := h.length_le
  have hsame : ∀ l ∈ s.loops, ∃ l₀ ∈ s.loops, l₀.sock = l.sock := fun l hl => ⟨l, hl, rfl⟩
  cases h with
  | bind addrs htask =>
    have hnone : ∀ t, s.task = some t → t.rest <:+ ([] : List ℕ) := by simp [htask]
    rw [State.bind] at hle ⊢
    split_ifs at hle ⊢
    · refine ⟨fun sock hsock => ?_, nodup_bind hs _,
        fun l hl => Nat.lt_of_lt_of_le (hs.loops_lt l hl) hle, by simp [htask]⟩
      rcases List.mem_append.mp hsock with hsock | hsock
      · exact Nat.lt_of_lt_of_le (hs.socks_lt sock hsock) hle
      · rw [List.length_append]
        exact (List.mem_range'_1.mp hsock).2
    · exact ⟨fun sock hsock => (List.not_mem_nil hsock).elim, List.nodup_nil, hs.loops_lt, hnone⟩
  | start =>
    rw [State.start]
    split_ifs
    · exact hs
    · refine ⟨hs.socks_lt, hs.nodup, fun l hl => ?_, hs.suffix⟩
      rcases List.mem_append.mp hl with hl | hl
      · exact hs.loops_lt l hl
      · obtain ⟨sock, hsock, rfl⟩ := List.mem_map.mp hl
        exact hs.socks_lt sock hsock
  | stop | setRecvTimeout => exact ⟨hs.socks_lt, hs.nodup, hs.loops_lt, hs.suffix⟩
  | beginTask =>
    refine hs.task_step hle rfl hsame ?_
    rintro t ⟨⟩
    exact List.suffix_refl _
  | cancelAll htask | close htask =>
    refine hs.task_step hle rfl (fun l => exists_mem_of_mem_cancelAll) ?_
    rintro t ⟨⟩
    have hsuffix := hs.suffix _ htask
    exact hsuffix
  | closeOnly htask =>
    refine hs.task_step hle rfl hsame ?_
    rintro t ⟨⟩
    have hsuffix := hs.suffix _ htask
    exact hsuffix
  | assign htask =>
    refine hs.task_step hle rfl hsame ?_
    rintro t ⟨⟩
    exact (List.suffix_cons _ _).trans (hs.suffix _ htask)
  | clear htask =>
    exact ⟨fun sock hsock => (List.not_mem_nil hsock).elim, List.nodup_nil, hs.loops_lt,
      fun t h => nomatch h⟩
  | @loop i b l₀ pc hl₀ hpc =>
    refine ⟨hs.socks_lt, hs.nodup, fun l hl => ?_, hs.suffix⟩
    rcases List.mem_or_eq_of_mem_set hl with hl | rfl
    · exact hs.loops_lt l hl
    · exact hs.loops_lt l₀ (List.mem_of_getElem? hl₀)

/-- A new server has no places. -/
theorem valid_new : Valid (State.new : State Addr Client) :=
  ⟨fun _ h => (List.not_mem_nil h).elim, List.nodup_nil, fun _ h => (List.not_mem_nil h).elim,
    fun _ h => nomatch h⟩

/-- Places are valid in every state reached. -/
theorem valid_run (hrun : Run (ofFun (step cls)) State.new as s) : Valid s :=
  hrun.invariant valid_new fun _ _ _ hs hst => hs.step (stepCase_of_step hst)

/-- A socket that has been closed has no descriptor. -/
theorem close_m_sock (sock : Socket Addr) : sock.close.2.m_sock = -1 := by
  rw [Socket.close]
  split_ifs with h
  · exact h.2
  · rfl

/-- The assignment takes away the descriptor of one socket. -/
theorem State.fd_assign (s : State Addr Client) (sock other : ℕ) :
    (s.assign sock).fd other = if sock = other then -1 else s.fd other := by
  simp only [State.fd, State.assign, List.getElem?_modify]
  cases s.sockets[other]? with
  | none => simp
  | some socket => split_ifs <;> simp [close_m_sock, *]

/-- A descriptor that is gone does not come back. -/
theorem StepCase.fd_closed (h : StepCase cls s a s') {sock : ℕ} (hlt : sock < s.sockets.length)
    (hfd : s.fd sock = -1) : s'.fd sock = -1 := by
  cases h with
  | bind addrs =>
    rw [State.bind]
    split_ifs
    · rwa [State.fd, List.getElem?_append_left hlt]
    · exact hfd
  | start =>
    rw [State.start]
    split_ifs <;> exact hfd
  | @assign sock' rest htask =>
    show (s.assign sock').fd sock = -1
    rw [State.fd_assign]
    split_ifs
    · rfl
    · exact hfd
  | _ => exact hfd

end Sockets

/-! ## Binding -/

section Bind

/-- The sockets of the server. -/
def State.socks (s : State Addr Client) : List (Socket Addr) :=
  s.m_socks.filterMap fun sock => s.sockets[sock]?

/-- The places behind a list are those of what is appended to it. -/
theorem filterMap_range' {α : Type} (xs ys : List α) :
    ((List.range' xs.length ys.length).filterMap fun i => (xs ++ ys)[i]?) = ys := by
  induction ys generalizing xs with
  | nil => rfl
  | cons y ys ih =>
    have hhead : (xs ++ y :: ys)[xs.length]? = some y := by simp
    have htail := ih (xs ++ [y])
    rw [List.length_append, List.length_singleton, List.append_assoc,
      List.singleton_append] at htail
    rw [List.length_cons, List.range'_succ, List.filterMap_cons_some hhead, htail]

/-- With the sockets themselves instead of their places, this is `bind` of `TcpServer`. -/
theorem socks_bind (hs : Valid s) (addrs : List (Addr × Answers Addr)) (fails : List Addr) :
    (s.bind cls addrs).socks = ((TcpServer.mk s.socks).bind cls addrs fails).2.1.m_socks := by
  by_cases hfailed : failed cls addrs = []
  · rw [State.bind, hfailed, bind_of_failed_eq_nil hfailed]
    simp only [List.isEmpty_nil, if_true, State.socks, List.filterMap_append]
    rw [filterMap_range']
    refine congrArg (· ++ _) (List.filterMap_congr fun sock hsock => ?_)
    exact List.getElem?_append_left (hs.socks_lt sock hsock)
  · rw [State.bind, if_neg (by simpa using hfailed), bind_of_failed_ne_nil hfailed]
    rfl

end Bind

end Sylar.TcpServer.Lifecycle
