import Sylar.Socket.Defs
import Sylar.Foundation.Run

/-!
# The cached addresses of a `Socket`

The runs of `bind`, `connect`, `reconnect`, `close` and `getLocalAddress` on one socket, beside what
`getsockname` reports for its descriptor. `CacheLaw` is the law of a call: once the socket has been
bound or connected, `getLocalAddress` returns what `getsockname` reports, and `getRemoteAddress` the
address connected to.

`m_localAddress` is filled by whoever asks first, and dropped by `reconnect` only, so that an
address from before stays: `cacheLaw_iff` says that the law holds exactly where there is none, or
the same.
-/

namespace Sylar.Socket

open Transition

/-- A socket, what its last call of `bind`, `connect` or `reconnect` returned, and what
`getsockname` reports for its descriptor. -/
structure Named (Addr : Type) where
  sock : Socket Addr
  returned : Bool
  sockname : Option Addr

/-- A call of a function of the socket, with the answers of the kernel; for a new descriptor,
`getsockname` reports `fresh`. -/
inductive NamedAction (Addr : Type)
  | bind (addr : Addr) (k : BindAnswers Addr) (fresh : Addr)
  | connect (address : Addr) (timeout_ms : UInt64) (k : ConnectAnswers Addr) (fresh : Addr)
  | reconnect (timeout_ms : UInt64) (k : ConnectAnswers Addr) (fresh : Addr)
  | close
  | getLocalAddress

section Runs

variable {Addr : Type} (cls : AddressClass Addr)

/-- What `getsockname` reports once the socket has a descriptor. -/
def Named.opened (s : Named Addr) (fd : ℤ) (fresh : Addr) : Option Addr :=
  if s.sock.isValid then s.sockname else if fd = -1 then none else some fresh

/-- What `getsockname` reports behind a call that should have named the socket `name`: a call that
fails leaves the descriptor, unless it closes it. -/
def Named.update (s : Named Addr) (result : Bool × Socket Addr) (fd : ℤ) (fresh name : Addr) :
    Named Addr where
  sock := result.2
  returned := result.1
  sockname :=
    if result.1 then some name else if result.2.isValid then s.opened fd fresh else none

/-- The state behind a call. -/
def Named.next (s : Named Addr) : NamedAction Addr → Named Addr
  | .bind addr k fresh => s.update (s.sock.bind cls k addr) k.socket fresh k.sockname
  | .connect address timeout_ms k fresh =>
    s.update (s.sock.connect cls k address timeout_ms) k.socket fresh k.sockname
  | .reconnect timeout_ms k fresh =>
    s.update (s.sock.reconnect cls k timeout_ms) k.socket fresh k.sockname
  | .close =>
    { s with
      sock := s.sock.close.2
      sockname := if s.sock.close.2.isValid then s.sockname else none }
  | .getLocalAddress => { s with sock := (s.sock.getLocalAddress cls s.sockname).2 }

/-- The steps of a run are calls. -/
def Named.Step (s : Named Addr) (a : NamedAction Addr) (s' : Named Addr) : Prop :=
  s.next cls a = s'

/-- A new socket, without a descriptor. -/
def Named.start (family type protocol : ℤ) : Named Addr where
  sock := Socket.new family type protocol
  returned := false
  sockname := none

/-- `getLocalAddress` returns what `getsockname` reports. -/
def Named.Coherent (s : Named Addr) : Prop :=
  ∃ name, s.sockname = some name ∧ (s.sock.getLocalAddress cls s.sockname).1 = name

/-- `getRemoteAddress` returns this address, whatever `getpeername` reports. -/
def Named.Remote (s : Named Addr) (address : Addr) : Prop :=
  ∀ getpeername, (s.sock.getRemoteAddress cls getpeername).1 = address

/-- The law of a call. -/
def CacheLaw (s : Named Addr) (a : NamedAction Addr) (s' : Named Addr) : Prop :=
  match a with
  | .bind _ _ _ => s'.returned = true → s'.Coherent cls
  | .connect address _ _ _ => s'.returned = true → s'.Coherent cls ∧ s'.Remote cls address
  | .reconnect _ _ _ => s'.returned = true → s'.Coherent cls ∧
      ∃ address, s.sock.m_remoteAddress = some address ∧ s'.Remote cls address
  | _ => True

/-- The calls of `connect` that succeed. -/
def Connects (k : ConnectAnswers Addr) (address : Addr) (timeout_ms : UInt64)
    (sock : Socket Addr) : Prop :=
  (sock.ensureValid k.socket).isValid ∧ cls.getFamily address = sock.m_family ∧
    k.connected timeout_ms

/-- The calls of `bind` that succeed. -/
def Binds (k : BindAnswers Addr) (addr : Addr) (sock : Socket Addr) : Prop :=
  (sock.ensureValid k.socket).isValid ∧ cls.getFamily addr = sock.m_family ∧
    (cls.isUnix addr → ¬ Connects cls k.probe addr (-1) CreateUnixTCPSocket) ∧ k.bind

/-- There is no local address in the cache, or only the one that `getsockname` will report. -/
def Unnamed (sock : Socket Addr) (name : Addr) : Prop :=
  ∀ address, sock.m_localAddress = some address → address = name

/-- The calls of `bind` and `connect` that do not succeed, or that find no other address in the
cache. -/
def Drops (s : Named Addr) : NamedAction Addr → Prop
  | .bind addr k _ => Binds cls k addr s.sock → Unnamed s.sock k.sockname
  | .connect address timeout_ms k _ =>
    Connects cls k address timeout_ms s.sock → Unnamed s.sock k.sockname
  | _ => True

end Runs

/-! ## The calls -/

section Calls

variable {Addr : Type} {cls : AddressClass Addr} {sock : Socket Addr}

/-- Opening a descriptor does not change the family. -/
@[simp]
theorem ensureValid_m_family (fd : ℤ) : (sock.ensureValid fd).m_family = sock.m_family := by
  rw [ensureValid]
  split <;> rfl

/-- It does not change the cached name. -/
@[simp]
theorem ensureValid_m_localAddress (fd : ℤ) :
    (sock.ensureValid fd).m_localAddress = sock.m_localAddress := by
  rw [ensureValid]
  split <;> rfl

/-- `getLocalAddress` caches the name, if there is none yet. -/
theorem getLocalAddress_eq (name : Addr) : (sock.getLocalAddress cls (some name)).2 =
    { sock with m_localAddress := some (sock.m_localAddress.getD name) } := by
  obtain ⟨_, _, _, _, _, m_localAddress, _⟩ := sock
  cases m_localAddress with
  | none => rfl
  | some address => rfl

/-- What `connect` leaves when it succeeds: the local address is the one in the cache, if there is
one. -/
theorem connect_of_connects {k : ConnectAnswers Addr} {address : Addr} {timeout_ms : UInt64}
    (h : Connects cls k address timeout_ms sock) :
    sock.connect cls k address timeout_ms =
      (true, { sock.ensureValid k.socket with
        m_Connected := true
        m_localAddress := some (sock.m_localAddress.getD k.sockname)
        m_remoteAddress := some address }) := by
  obtain ⟨hvalid, hfamily, hconnect⟩ := h
  rw [connect]
  simp only [hvalid, hfamily, hconnect, ensureValid_m_family, getLocalAddress_eq,
    ensureValid_m_localAddress, getRemoteAddress, Bool.not_true, Bool.false_eq_true, if_false,
    ne_eq, not_true_eq_false]

/-- Otherwise `connect` fails. -/
theorem connect_of_not_connects {k : ConnectAnswers Addr} {address : Addr} {timeout_ms : UInt64}
    (h : ¬ Connects cls k address timeout_ms sock) :
    (sock.connect cls k address timeout_ms).1 = false := by
  rw [connect]
  dsimp only
  split
  case isTrue => rfl
  case isFalse hvalid =>
    split
    case isTrue => rfl
    case isFalse hfamily =>
      split
      case isTrue => rfl
      case isFalse hconnect =>
        refine absurd ⟨?_, ?_, ?_⟩ h
        · simpa using hvalid
        · simpa using hfamily
        · simpa using hconnect

/-- `connect` succeeds exactly in these cases. -/
theorem connects_iff {k : ConnectAnswers Addr} {address : Addr} {timeout_ms : UInt64} :
    (sock.connect cls k address timeout_ms).1 = true ↔ Connects cls k address timeout_ms sock := by
  refine ⟨fun htrue => ?_, fun h => by rw [connect_of_connects h]⟩
  by_contra h
  rw [connect_of_not_connects h] at htrue
  cases htrue

/-- `bind` opens a descriptor and caches the name of the socket. -/
theorem bind_of_binds {k : BindAnswers Addr} {addr : Addr} (h : Binds cls k addr sock) :
    sock.bind cls k addr =
      (true, { sock.ensureValid k.socket with
        m_localAddress := some (sock.m_localAddress.getD k.sockname) }) := by
  obtain ⟨hvalid, hfamily, hprobe, hbind⟩ := h
  have hfree : ¬ (cls.isUnix addr = true ∧
      (CreateUnixTCPSocket.connect cls k.probe addr (-1)).1 = true) := by
    rintro ⟨hunix, hconnected⟩
    exact hprobe hunix (connects_iff.1 hconnected)
  rw [bind]
  simp only [hvalid, hfamily, hbind, if_neg hfree, ensureValid_m_family, getLocalAddress_eq,
    ensureValid_m_localAddress, Bool.not_true, Bool.false_eq_true, if_false, ne_eq,
    not_true_eq_false]

/-- Otherwise `bind` fails. -/
theorem bind_of_not_binds {k : BindAnswers Addr} {addr : Addr} (h : ¬ Binds cls k addr sock) :
    (sock.bind cls k addr).1 = false := by
  rw [bind]
  split
  case isTrue => rfl
  case isFalse hvalid =>
    split
    case isTrue => rfl
    case isFalse hfamily =>
      split
      case isTrue => rfl
      case isFalse hfree =>
        split
        case isTrue => rfl
        case isFalse hbind =>
          refine absurd ⟨?_, ?_, fun hunix hconnects => ?_, ?_⟩ h
          · simpa using hvalid
          · simpa using hfamily
          · exact hfree ⟨hunix, connects_iff.2 hconnects⟩
          · simpa using hbind

end Calls

/-! ## The law -/

section Law

variable {Addr : Type} {cls : AddressClass Addr}

/-- A socket that has got a name and caches an address is coherent if the two are the same. -/
theorem coherent_iff {sock : Socket Addr} {returned : Bool} {name address : Addr}
    (h : sock.m_localAddress = some address) :
    (Named.mk sock returned (some name)).Coherent cls ↔ address = name := by
  constructor
  · rintro ⟨name', hname, hlocal⟩
    cases hname
    rwa [getLocalAddress, h] at hlocal
  · rintro rfl
    exact ⟨address, rfl, by rw [getLocalAddress, h]⟩

/-- An address that is cached is the one that is returned. -/
theorem remote_of_eq {s : Named Addr} {address : Addr} (h : s.sock.m_remoteAddress = some address) :
    s.Remote cls address := by
  intro getpeername
  simp only [getRemoteAddress, h]

/-- A name may be cached where there is none, or the same. -/
theorem unnamed_iff {sock : Socket Addr} {name : Addr} :
    Unnamed sock name ↔ sock.m_localAddress.getD name = name := by
  rw [Unnamed]
  cases sock.m_localAddress with
  | none => exact iff_of_true nofun rfl
  | some address => simp

/-- A call of `bind` that succeeds. -/
theorem update_bind (s : Named Addr) {k : BindAnswers Addr} {addr : Addr} (fresh : Addr)
    {sock : Socket Addr} (h : Binds cls k addr sock) :
    (s.update (sock.bind cls k addr) k.socket fresh k.sockname).Coherent cls ↔
      Unnamed sock k.sockname := by
  rw [bind_of_binds h, unnamed_iff]
  exact coherent_iff rfl

/-- A call of `connect` that succeeds. -/
theorem update_connect (s : Named Addr) {k : ConnectAnswers Addr} {address : Addr} (fresh : Addr)
    {timeout_ms : UInt64} {sock : Socket Addr} (h : Connects cls k address timeout_ms sock) :
    let s' := s.update (sock.connect cls k address timeout_ms) k.socket fresh k.sockname
    (s'.Coherent cls ↔ Unnamed sock k.sockname) ∧ s'.Remote cls address := by
  rw [connect_of_connects h, unnamed_iff]
  exact ⟨coherent_iff rfl, remote_of_eq rfl⟩

/-- The calls that satisfy the law. -/
theorem drops_iff_law (s : Named Addr) (a : NamedAction Addr) :
    Drops cls s a ↔ CacheLaw cls s a (s.next cls a) := by
  cases a with
  | bind addr k fresh =>
    by_cases h : Binds cls k addr s.sock
    · have htrue : (s.sock.bind cls k addr).1 = true := by rw [bind_of_binds h]
      exact ⟨fun hdrops _ => (update_bind s fresh h).2 (hdrops h),
        fun hlaw _ => (update_bind s fresh h).1 (hlaw htrue)⟩
    · refine iff_of_true (fun hbinds => absurd hbinds h) fun htrue => ?_
      cases (bind_of_not_binds h).symm.trans htrue
  | connect address timeout_ms k fresh =>
    by_cases h : Connects cls k address timeout_ms s.sock
    · have htrue : (s.sock.connect cls k address timeout_ms).1 = true := connects_iff.2 h
      obtain ⟨hcoherent, hremote⟩ := update_connect s fresh h
      exact ⟨fun hdrops _ => ⟨hcoherent.2 (hdrops h), hremote⟩,
        fun hlaw _ => hcoherent.1 (hlaw htrue).1⟩
    · refine iff_of_true (fun hconnects => absurd hconnects h) fun htrue => ?_
      cases (connect_of_not_connects h).symm.trans htrue
  | reconnect timeout_ms k fresh =>
    refine iff_of_true trivial fun htrue => ?_
    rw [Named.next, reconnect] at htrue ⊢
    cases haddress : s.sock.m_remoteAddress with
    | none =>
      rw [haddress] at htrue
      cases htrue
    | some address =>
      -- the cache has been emptied
      rw [haddress] at htrue
      dsimp only
      obtain ⟨hcoherent, hremote⟩ := update_connect s fresh (connects_iff.1 htrue)
      exact ⟨hcoherent.2 nofun, address, rfl, hremote⟩
  | close | getLocalAddress => exact Iff.rfl

end Law

/-- The runs in which the cached addresses are those of the kernel, after every call of `bind`,
`connect` or `reconnect` that succeeds, are those in which `bind` and `connect`, when they succeed,
find no local address in the cache, or the one that the kernel gives. -/
theorem cacheLaw_iff {Addr : Type} (cls : AddressClass Addr) (family type protocol : ℤ)
    (actions : List (NamedAction Addr)) (s : Named Addr) :
    Run (Guarded (Drops cls) (Named.Step cls)) (Named.start family type protocol) actions s ↔
      Run (Lawful (CacheLaw cls) (Named.Step cls)) (Named.start family type protocol) actions
        s := by
  apply Run.guarded_iff_lawful (I := fun _ => True) trivial
  · intro s a s' _ _ _
    trivial
  · rintro s a s' - rfl
    exact drops_iff_law s a

/-- A socket bound to one address is closed, and bound to another one on a new descriptor:
`getLocalAddress` returns the first address. -/
theorem not_cacheLaw_rebound :
    let cls : AddressClass ℕ :=
      { getFamily := fun _ => 2, isUnix := fun _ => false, unknown := fun _ => 0 }
    let k : ConnectAnswers ℕ := ⟨-1, false, false, 0, none⟩
    let rebind : NamedAction ℕ := .bind 20 ⟨6, k, true, 20⟩ 0
    ∃ s s', Run (Named.Step cls) (Named.start 2 1 0) [.bind 10 ⟨5, k, true, 10⟩ 0, .close] s ∧
      s.next cls rebind = s' ∧ s'.returned = true ∧ s'.sockname = some 20 ∧
      (s'.sock.getLocalAddress cls s'.sockname).1 = 10 ∧ ¬ CacheLaw cls s rebind s' := by
  refine ⟨_, _, .cons rfl (.single rfl), rfl, rfl, rfl, rfl, fun hlaw => ?_⟩
  obtain ⟨name, hname, hlocal⟩ := hlaw rfl
  cases hname
  cases hlocal

end Sylar.Socket
