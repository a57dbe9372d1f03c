import Sylar.Socket.Defs
import Mathlib.Data.List.Basic
import Mathlib.Data.List.Forall2

/-!
# `TcpServer::bind`

Model of `bind` from `server/TCPserver.cpp`: one socket is created, bound and made to listen for
each address, with the answers of the kernel for each of them. `AllOrNothing` says that a call
either adds a listening socket for each address or leaves the sockets of the server as they were.

A call that fails clears `m_socks`: `allOrNothing_iff` says that it leaves them as they were exactly
if there were none.
-/

namespace Sylar

/-- The field of `TcpServer` that `bind` uses. -/
structure TcpServer (Addr : Type) where
  m_socks : List (Socket Addr)

namespace TcpServer

/-- The answers for one address: those for `sock->bind`, and whether `::listen` succeeds. -/
structure Answers (Addr : Type) where
  bind : Socket.BindAnswers Addr
  listen : Bool

variable {Addr : Type} (cls : AddressClass Addr)

/-- The loop of `bind`, with the final `m_socks`, `fails` and `failFlag`. -/
def bindLoop : List (Addr × Answers Addr) → List (Socket Addr) → List Addr → Bool →
    List (Socket Addr) × List Addr × Bool
  | [], m_socks, fails, failFlag => (m_socks, fails, failFlag)
  | (addr, k) :: addrs, m_socks, fails, failFlag =>
    let (bound, sock) := (Socket.CreateTCP cls addr).bind cls k.bind addr
    if !bound then bindLoop addrs m_socks (fails ++ [addr]) true
    else if !sock.listen k.listen then bindLoop addrs m_socks (fails ++ [addr]) true
    else bindLoop addrs (m_socks ++ [sock]) fails failFlag

/-- `bind(addrs, fails, ssl)`, with `fails` behind the call. -/
def bind (addrs : List (Addr × Answers Addr)) (fails : List Addr) (server : TcpServer Addr) :
    Bool × TcpServer Addr × List Addr :=
  match bindLoop cls addrs server.m_socks fails false with
  | (_, fails, true) => (false, { m_socks := [] }, fails)
  | (m_socks, fails, false) => (true, { m_socks }, fails)

/-- `bind(addr, ssl)`, as the sample calls it until it succeeds. -/
def bindOne (addr : Addr) (k : Answers Addr) (server : TcpServer Addr) : Bool × TcpServer Addr :=
  let (result, server, _) := server.bind cls [(addr, k)] []
  (result, server)

/-! ## The law -/

/-- The socket for an address that is bound and listens. -/
def listening (entry : Addr × Answers Addr) : Option (Socket Addr) :=
  let (bound, sock) := (Socket.CreateTCP cls entry.1).bind cls entry.2.bind entry.1
  if bound && sock.listen entry.2.listen then some sock else none

/-- The addresses whose sockets are not bound or do not listen. -/
def failed (addrs : List (Addr × Answers Addr)) : List Addr :=
  (addrs.filter fun entry => (listening cls entry).isNone).map Prod.fst

/-- A call that returns `true` adds one listening socket for each address, in order, and leaves
`fails` unchanged; one that returns `false` leaves the sockets unchanged, and appends the addresses
that were not bound or do not listen to `fails`, in order. -/
def AllOrNothing (addrs : List (Addr × Answers Addr)) (fails : List Addr) (server : TcpServer Addr)
    (result : Bool × TcpServer Addr × List Addr) : Prop :=
  match result with
  | (true, server', fails') =>
    (∃ socks, server'.m_socks = server.m_socks ++ socks ∧
      List.Forall₂ (fun entry sock => listening cls entry = some sock) addrs socks) ∧
    fails' = fails
  | (false, server', fails') =>
    server'.m_socks = server.m_socks ∧ fails' = fails ++ failed cls addrs

section Loop

variable {cls}

theorem bindLoop_cons (entry : Addr × Answers Addr) (addrs : List (Addr × Answers Addr))
    (m_socks : List (Socket Addr)) (fails : List Addr) (failFlag : Bool) :
    bindLoop cls (entry :: addrs) m_socks fails failFlag =
      match listening cls entry with
      | none => bindLoop cls addrs m_socks (fails ++ [entry.1]) true
      | some sock => bindLoop cls addrs (m_socks ++ [sock]) fails failFlag := by
  rw [bindLoop, listening]
  obtain ⟨bound, sock⟩ := (Socket.CreateTCP cls entry.1).bind cls entry.2.bind entry.1
  cases bound with
  | false => rfl
  | true =>
    dsimp only
    cases sock.listen entry.2.listen with
    | false => rfl
    | true => rfl

theorem failed_cons_none {entry : Addr × Answers Addr} (h : listening cls entry = none)
    (addrs : List (Addr × Answers Addr)) :
    failed cls (entry :: addrs) = entry.1 :: failed cls addrs := by
  rw [failed, List.filter_cons_of_pos (by rw [h]; rfl), List.map_cons, failed]

theorem failed_cons_some {entry : Addr × Answers Addr} {sock : Socket Addr}
    (h : listening cls entry = some sock) (addrs : List (Addr × Answers Addr)) :
    failed cls (entry :: addrs) = failed cls addrs := by
  rw [failed, List.filter_cons_of_neg (by rw [h]; exact Bool.false_ne_true), failed]

/-- What the loop adds to the sockets and the failures. -/
theorem bindLoop_eq (addrs : List (Addr × Answers Addr)) (m_socks : List (Socket Addr))
    (fails : List Addr) (failFlag : Bool) :
    bindLoop cls addrs m_socks fails failFlag =
      (m_socks ++ addrs.filterMap (listening cls), fails ++ failed cls addrs,
        failFlag || !(failed cls addrs).isEmpty) := by
  induction addrs generalizing m_socks fails failFlag with
  | nil => simp [bindLoop, failed]
  | cons entry addrs ih =>
    rw [bindLoop_cons]
    cases h : listening cls entry with
    | none =>
      dsimp only
      rw [ih, List.filterMap_cons_none h, failed_cons_none h, List.append_assoc,
        List.singleton_append]
      simp
    | some sock =>
      dsimp only
      rw [ih, List.filterMap_cons_some h, failed_cons_some h, List.append_assoc,
        List.singleton_append]

/-- Without failures, there is a socket for each address. -/
theorem forall₂_of_failed_eq_nil {addrs : List (Addr × Answers Addr)} (h : failed cls addrs = []) :
    List.Forall₂ (fun entry sock => listening cls entry = some sock) addrs
      (addrs.filterMap (listening cls)) := by
  induction addrs with
  | nil => exact .nil
  | cons entry addrs ih =>
    cases hentry : listening cls entry with
    | none =>
      rw [failed_cons_none hentry] at h
      cases h
    | some sock =>
      rw [failed_cons_some hentry] at h
      rw [List.filterMap_cons_some hentry]
      exact .cons hentry (ih h)

/-- A call succeeds if there are no failures. -/
theorem bind_of_failed_eq_nil {addrs : List (Addr × Answers Addr)} (h : failed cls addrs = [])
    (fails : List Addr) (server : TcpServer Addr) :
    server.bind cls addrs fails =
      (true, { m_socks := server.m_socks ++ addrs.filterMap (listening cls) }, fails) := by
  rw [bind, bindLoop_eq, h, List.append_nil]
  rfl

theorem bind_of_failed_ne_nil {addrs : List (Addr × Answers Addr)} (h : failed cls addrs ≠ [])
    (fails : List Addr) (server : TcpServer Addr) :
    server.bind cls addrs fails = (false, { m_socks := [] }, fails ++ failed cls addrs) := by
  have hflag : (failed cls addrs).isEmpty = false := by
    rw [← Bool.not_eq_true, List.isEmpty_iff]
    exact h
  rw [bind, bindLoop_eq, hflag]
  rfl

theorem bindOne_eq (addr : Addr) (k : Answers Addr) (server : TcpServer Addr) :
    server.bindOne cls addr k =
      match listening cls (addr, k) with
      | none => (false, { m_socks := [] })
      | some sock => (true, { m_socks := server.m_socks ++ [sock] }) := by
  rw [bindOne]
  cases h : listening cls (addr, k) with
  | none =>
    have hfailed : failed cls [(addr, k)] ≠ [] := by
      rw [failed_cons_none h]
      exact List.cons_ne_nil _ _
    rw [bind_of_failed_ne_nil hfailed]
  | some sock =>
    have hfailed : failed cls [(addr, k)] = [] := failed_cons_some h []
    rw [bind_of_failed_eq_nil hfailed, List.filterMap_cons_some h, List.filterMap_nil]

/-- The sample calls `bind` until it succeeds. On a server without sockets that leaves the one that
listens. -/
theorem bindOne_retry {addr : Addr} {ks : List (Answers Addr)} {k : Answers Addr}
    {sock : Socket Addr} (hfail : ∀ k' ∈ ks, listening cls (addr, k') = none)
    (hlast : listening cls (addr, k) = some sock) :
    (ks ++ [k]).foldl (fun server k => (bindOne cls addr k server).2) ⟨[]⟩ = ⟨[sock]⟩ := by
  induction ks with
  | nil =>
    rw [List.nil_append, List.foldl_cons, List.foldl_nil, bindOne_eq, hlast]
    rfl
  | cons k' ks ih =>
    obtain ⟨hfirst, hrest⟩ := List.forall_mem_cons.1 hfail
    rw [List.cons_append, List.foldl_cons, bindOne_eq, hfirst]
    exact ih hrest

end Loop

/-- A call is all or nothing exactly if the server has no sockets before, or all addresses are bound
and listen. -/
theorem allOrNothing_iff (addrs : List (Addr × Answers Addr)) (fails : List Addr)
    (server : TcpServer Addr) :
    AllOrNothing cls addrs fails server (server.bind cls addrs fails) ↔
      server.m_socks = [] ∨ ∀ entry ∈ addrs, listening cls entry ≠ none := by
  have hall : (∀ entry ∈ addrs, listening cls entry ≠ none) ↔ failed cls addrs = [] := by
    simp [failed, ← Option.isSome_iff_ne_none]
  rw [hall]
  by_cases h : failed cls addrs = []
  · rw [bind_of_failed_eq_nil h]
    exact iff_of_true ⟨⟨_, rfl, forall₂_of_failed_eq_nil h⟩, rfl⟩ (Or.inr h)
  · rw [bind_of_failed_ne_nil h, or_iff_left h]
    exact ⟨fun hlaw => hlaw.1.symm, fun hnone => ⟨hnone.symm, rfl⟩⟩

/-- A server that listens on one address is bound to another one, which is in use: it listens on
none any more. -/
theorem not_allOrNothing_second :
    let cls : AddressClass ℕ :=
      { getFamily := fun _ => 2, isUnix := fun _ => false, unknown := fun _ => 0 }
    let probe : Socket.ConnectAnswers ℕ := ⟨-1, false, false, 0, none⟩
    let first : List (ℕ × Answers ℕ) := [(10, ⟨⟨5, probe, true, 10⟩, true⟩)]
    let server : TcpServer ℕ := ((TcpServer.mk []).bind cls first []).2.1
    let second : List (ℕ × Answers ℕ) := [(20, ⟨⟨6, probe, false, 20⟩, false⟩)]
    server.m_socks.length = 1 ∧ (server.bind cls second []).1 = false ∧
      (server.bind cls second []).2.1.m_socks = [] ∧
      ¬ AllOrNothing cls second [] server (server.bind cls second []) :=
  ⟨rfl, rfl, rfl, fun hlaw => nomatch hlaw.1⟩

end TcpServer

end Sylar
