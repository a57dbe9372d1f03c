import Sylar.Foundation.OrderedSet
import Mathlib.Order.Lattice

/-!
# `TimerManager` — timers and the ordered timer set

Model of `timer/timer.{h,cpp}`. The set `m_timers` is ordered by the mutable field `m_next` of the
timers and then by their addresses, so the comparison depends on the heap.

Representation:

* a timer is identified by its address; addresses form an arbitrary linear order, and a new timer
  may get any address that is not in use;
* `heap` maps an address to the timer that lives there, `timers` lists the addresses in `m_timers`
  in iteration order;
* a callback is an arbitrary value, and an empty `std::function` is `none`;
* the clock reading of an operation is an argument of it. Sums of `uint64_t` wrap.

`m_tickled` and `m_prevTime` are left out: no operation below reads them. `flushTimer` is virtual,
so `addTimer` returns whether it is called.
-/

namespace Sylar

/-- The fields of `Timer`. `m_manager` is the one manager there is. -/
structure Timer (Func : Type*) where
  recurring : Bool
  ms : UInt64
  next : UInt64
  cb : Option Func

namespace Timer

variable {Addr Func : Type*} [LinearOrder Addr]

/-- `Timer::Timer(ms, cb, recurring, manager)`. -/
def new (ms : UInt64) (cb : Func) (recurring : Bool) (now : UInt64) : Timer Func where
  recurring := recurring
  ms := ms
  next := now + ms
  cb := some cb

/-- `Timer::Timer(next)`, the probe for `lower_bound`. -/
def probe (next : UInt64) : Timer Func where
  recurring := false
  ms := 0
  next := next
  cb := none

/-- A `Timer::Ptr`: null, or an address together with the timer found there. -/
abbrev Ptr (Addr Func : Type*) := Option (Addr × Timer Func)

/-- `Timer::Comparator::operator()`. -/
def Comparator (lhs rhs : Ptr Addr Func) : Bool :=
  match lhs, rhs with
  | none, none => false
  | none, some _ => false
  | some _, none => true
  | some (l, lhs), some (r, rhs) =>
    -- `lhs.get() < rhs.get()` on a tie
    if lhs.next ≠ rhs.next then lhs.next < rhs.next else l < r

end Timer

/-- The timers of the program and the set of a `TimerManager`. -/
structure TimerManager (Addr Func : Type*) where
  heap : Addr → Option (Timer Func)
  timers : List Addr

namespace TimerManager

variable {Addr Func : Type*} [LinearOrder Addr]

/-- No timer has been created yet. -/
def new : TimerManager Addr Func where
  heap := fun _ => none
  timers := []

/-- The pointer to the timer at `p`. -/
def ptr (m : TimerManager Addr Func) (p : Addr) : Timer.Ptr Addr Func := (m.heap p).map (p, ·)

/-- The order of `m_timers`, as the heap stands. -/
def lt (m : TimerManager Addr Func) (p q : Addr) : Bool := Timer.Comparator (m.ptr p) (m.ptr q)

/-- Store `t` at `p`. -/
def set (m : TimerManager Addr Func) (p : Addr) (t : Timer Func) : TimerManager Addr Func :=
  { m with heap := fun q => if q = p then some t else m.heap q }

/-- `m_timers.insert(timer)`. -/
def insert (m : TimerManager Addr Func) (p : Addr) : TimerManager Addr Func :=
  { m with timers := OrderedSet.insert m.lt p m.timers }

/-- `TimerManager::addTimer(ms, cb, recurring)`, whose new timer lies at `p`. Returns whether the
timer is at the front of the set, in which case `flushTimer` is called. -/
def addTimer (m : TimerManager Addr Func) (p : Addr) (ms : UInt64) (cb : Func) (recurring : Bool)
    (now : UInt64) : Bool × TimerManager Addr Func :=
  let m := (m.set p (.new ms cb recurring now)).insert p
  (m.timers.head? = some p, m)

/-- `Timer::cancel()` on the timer at `p`. -/
def cancel (m : TimerManager Addr Func) (p : Addr) : Bool × TimerManager Addr Func :=
  match m.heap p with
  | none => (false, m) -- no timer at `p`
  | some t =>
    match t.cb with
    | none => (false, m)
    | some _ =>
      -- the callback is cleared before `find` compares the timers
      let m := m.set p { t with cb := none }
      match OrderedSet.find m.lt p m.timers with
      | some it => (true, { m with timers := m.timers.erase it })
      -- cleared, though not found
      | none => (true, m)

/-- `TimerManager::hasTimer()`. -/
def hasTimer (m : TimerManager Addr Func) : Bool := !m.timers.isEmpty

/-- `TimerManager::getNextTimer()`. -/
def getNextTimer (m : TimerManager Addr Func) (cur_ms : UInt64) : UInt64 :=
  match m.timers.head?.bind m.heap with
  | none => 0
  | some nxt => if nxt.next ≥ cur_ms then nxt.next - cur_ms else 0

/-! ## `listExpiredCb` -/

/-- `(*it)->m_next == cur_ms`. -/
def nextIs (m : TimerManager Addr Func) (cur_ms : UInt64) (p : Addr) : Bool :=
  match m.heap p with
  | none => false
  | some t => t.next = cur_ms

/-- What lies before `m_timers.lower_bound(cur_timer)`, where `cur_timer` points to a probe at the
address `probe`. -/
def belowProbe (m : TimerManager Addr Func) (cur_ms : UInt64) (probe p : Addr) : Bool :=
  Timer.Comparator (m.ptr p) (some (probe, .probe cur_ms))

/-- The range `[m_timers.begin(), it)`: what lies before the lower bound, and the timers from there
on whose `m_next` is the clock reading. -/
def expired (m : TimerManager Addr Func) (cur_ms : UInt64) (probe : Addr) : List Addr :=
  m.timers.takeWhile (m.belowProbe cur_ms probe) ++
    (m.timers.dropWhile (m.belowProbe cur_ms probe)).takeWhile (m.nextIs cur_ms)

/-- The range `[it, m_timers.end())` that the erasure leaves. -/
def unexpired (m : TimerManager Addr Func) (cur_ms : UInt64) (probe : Addr) : List Addr :=
  (m.timers.dropWhile (m.belowProbe cur_ms probe)).dropWhile (m.nextIs cur_ms)

/-- The body of the loop over `expired`. -/
def expireOne (cur_ms : UInt64) (mc : TimerManager Addr Func × List (Option Func)) (p : Addr) :
    TimerManager Addr Func × List (Option Func) :=
  match mc.1.heap p with
  | none => mc -- no timer at `p`
  | some timer =>
    let cbs := mc.2 ++ [timer.cb]
    -- `m_next` changes while the timer is outside the set
    if timer.recurring then
      ((mc.1.set p { timer with next := cur_ms + timer.ms }).insert p, cbs)
    else (mc.1.set p { timer with cb := none }, cbs)

/-- `TimerManager::listExpiredCb(cbs)`. -/
def listExpiredCb (m : TimerManager Addr Func) (cur_ms : UInt64) (probe : Addr)
    (cbs : List (Option Func)) : TimerManager Addr Func × List (Option Func) :=
  -- the range is copied and erased before the loop
  if m.timers.isEmpty then (m, cbs)
  else (m.expired cur_ms probe).foldl (expireOne cur_ms)
    ({ m with timers := m.unexpired cur_ms probe }, cbs)

end TimerManager

end Sylar
