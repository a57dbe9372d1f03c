import Mathlib.Data.Int.Notation
import Mathlib.Data.UInt

/-!
# `Socket` — fields, connections and addresses

Model of `socket/socket.cpp`, as far as the descriptor and the two addresses of a socket go: `bind`,
`connect`, `reconnect`, `listen`, `close`, `getLocalAddress` and `getRemoteAddress`. What the kernel
answers is an argument of each call (`ConnectAnswers`, `BindAnswers`). Null pointers are `none`.

The type of addresses is an argument `Addr`, with what the functions use of it in `AddressClass`. A
name that `getsockname` reports is the address that holds it.
-/

namespace Sylar

/-- `getFamily()`, whether an address is a `UnixAddress`, and `UnknownAddress(family)`. -/
structure AddressClass (Addr : Type) where
  getFamily : Addr → ℤ
  isUnix : Addr → Bool
  unknown : ℤ → Addr

/-- The fields of `Socket`. -/
structure Socket (Addr : Type) where
  m_sock : ℤ
  m_type : ℤ
  m_family : ℤ
  m_protocol : ℤ
  m_Connected : Bool
  m_localAddress : Option Addr
  m_remoteAddress : Option Addr

namespace Socket

/-- `SOCK_STREAM`. -/
def SOCK_STREAM : ℤ := 1

/-- `AF_UNIX`. -/
def AF_UNIX : ℤ := 1

/-- The answers in a call of `connect`: the descriptor of a new socket, or `-1`, whether `::connect`
or `connect_with_timeout` succeeds, and what `getsockname` and `getpeername` report then. -/
structure ConnectAnswers (Addr : Type) where
  socket : ℤ
  connect : Bool
  connect_with_timeout : Bool
  sockname : Addr
  peername : Option Addr

/-- Whether the call that is made for a timeout succeeds. -/
def ConnectAnswers.connected {Addr : Type} (k : ConnectAnswers Addr) (timeout_ms : UInt64) : Bool :=
  if timeout_ms = -1 then k.connect else k.connect_with_timeout

/-- The answers in a call of `bind`: the descriptor of a new socket, or `-1`, those for the socket
that tries whether a path is in use, whether `::bind` succeeds, and what `getsockname` reports
then. -/
structure BindAnswers (Addr : Type) where
  socket : ℤ
  probe : ConnectAnswers Addr
  bind : Bool
  sockname : Addr

variable {Addr : Type} (cls : AddressClass Addr)

/-- `Socket(family, type, protocol)`. -/
def new (family type protocol : ℤ) : Socket Addr where
  m_sock := -1
  m_type := type
  m_family := family
  m_protocol := protocol
  m_Connected := false
  m_localAddress := none
  m_remoteAddress := none

/-- `CreateTCP(address)`. -/
def CreateTCP (address : Addr) : Socket Addr := new (cls.getFamily address) SOCK_STREAM 0

/-- `CreateUnixTCPSocket()`. -/
def CreateUnixTCPSocket : Socket Addr := new AF_UNIX SOCK_STREAM 0

/-- `isValid()`. -/
def isValid (sock : Socket Addr) : Bool := sock.m_sock ≠ -1

/-- `newSock()`, where `socket` returns `fd`. -/
def newSock (fd : ℤ) (sock : Socket Addr) : Socket Addr := { sock with m_sock := fd }

/-- The beginning of `bind` and `connect`. -/
def ensureValid (fd : ℤ) (sock : Socket Addr) : Socket Addr :=
  if sock.isValid then sock else sock.newSock fd

/-- `getLocalAddress()`, where `getsockname` reports a name or fails. -/
def getLocalAddress (getsockname : Option Addr) (sock : Socket Addr) : Addr × Socket Addr :=
  match sock.m_localAddress with
  | some address => (address, sock)
  | none =>
    match getsockname with
    | none => (cls.unknown sock.m_family, sock)
    | some result => (result, { sock with m_localAddress := some result })

/-- `getRemoteAddress()`, where `getpeername` reports a name or fails. -/
def getRemoteAddress (getpeername : Option Addr) (sock : Socket Addr) : Addr × Socket Addr :=
  match sock.m_remoteAddress with
  | some address => (address, sock)
  | none =>
    match getpeername with
    | none => (cls.unknown sock.m_family, sock)
    | some result => (result, { sock with m_remoteAddress := some result })

/-- `close()`. -/
def close (sock : Socket Addr) : Bool × Socket Addr :=
  if !sock.m_Connected ∧ sock.m_sock = -1 then (true, sock)
  else (false, { sock with m_Connected := false, m_sock := -1 })

/-- `connect(address, timeout_ms)`. -/
def connect (k : ConnectAnswers Addr) (address : Addr) (timeout_ms : UInt64)
    (sock : Socket Addr) : Bool × Socket Addr :=
  let sock := sock.ensureValid k.socket
  if !sock.isValid then (false, sock)
  else if cls.getFamily address ≠ sock.m_family then (false, sock)
  else
    let sock := { sock with m_remoteAddress := some address }
    if !k.connected timeout_ms then (false, sock.close.2)
    else
      let sock := { sock with m_Connected := true }
      let sock := (sock.getLocalAddress cls (some k.sockname)).2
      let sock := (sock.getRemoteAddress cls k.peername).2
      (true, sock)

/-- `reconnect(timeout_ms)`. -/
def reconnect (k : ConnectAnswers Addr) (timeout_ms : UInt64) (sock : Socket Addr) :
    Bool × Socket Addr :=
  match sock.m_remoteAddress with
  | none => (false, sock)
  | some address => { sock with m_localAddress := none }.connect cls k address timeout_ms

/-- `bind(addr)`. Where a Unix address is in use, a new socket can be connected to it. -/
def bind (k : BindAnswers Addr) (addr : Addr) (sock : Socket Addr) : Bool × Socket Addr :=
  let sock := sock.ensureValid k.socket
  if !sock.isValid then (false, sock)
  else if cls.getFamily addr ≠ sock.m_family then (false, sock)
  else if cls.isUnix addr ∧ (CreateUnixTCPSocket.connect cls k.probe addr (-1)).1 then (false, sock)
  else if !k.bind then (false, sock)
  else (true, (sock.getLocalAddress cls (some k.sockname)).2)

/-- `listen(backlog)`, where `::listen` succeeds or fails. -/
def listen (listens : Bool) (sock : Socket Addr) : Bool := sock.isValid && listens

end Socket

end Sylar
