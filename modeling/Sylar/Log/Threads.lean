import Sylar.Foundation.LockOrder
import Sylar.Foundation.Run
import Sylar.Log.Defs
import Mathlib.Data.List.Nodup
import Mathlib.Logic.Function.Basic

/-!
# Loggers on many threads

`LoggerManager` keeps one logger for each name. A record goes to the appenders of its logger, or to
those of the root logger if there are none, and the mutex of the logger stays locked until it has
been written, also while the root logger is called. Here the calls of any number of threads are cut
into testing the level, taking a mutex, writing to one appender, and unlocking; `addLogger` into
looking the name up and storing the new logger.

`addLogger` takes no lock, so two threads that look up one name both find nothing and make a logger
each. `log_law` is about the runs in which it is called by one thread at a time (`AddsAlone`): there
is one logger for each name, the threads never block each other for good, every record is written
once to each appender of the loggers selected for it, and two threads write to one appender at the
same time only if it is attached to two loggers: `LogAppender::m_mutex` is never locked.

Representation:

* loggers and appenders are addresses, and the root logger lies at `root`;
* `m_appenders` is read when the mutex has been taken; that it does not change before it is unlocked
  is part of the law (`stable`);
* calls of `log` are numbered. `selected` and `written` record the appenders that a call has to
  write to, and the writes that are complete;
* formatters, and what an appender makes of a record, are left out.
-/

namespace Sylar.Log

/-- The value of the enumerator. -/
def LogLevel.toNat : LogLevel → ℕ
  | UNKNOW => 0
  | DEBUG => 1
  | INFO => 2
  | WARN => 3
  | ERROR => 4
  | FATAL => 5

namespace Logging

open Locking Transition

/-- `Logger`. -/
structure Logger (L A : Type*) where
  m_name : List Char
  m_level : LogLevel
  m_appenders : List A
  m_root : Option L

/-- The calls that change `m_appenders`. -/
inductive Change (A : Type*)
  | addAppender (a : A)
  | delAppender (a : A)
  | clearAppenders

/-- Where a thread is. The mutexes that it has locked are listed from the last one on. -/
inductive Pc (L A : Type*)
  | idle
  /-- At the head of `log(level, event)` of the logger `l`. -/
  | log (call : ℕ) (level : LogLevel) (held : List L) (l : L)
  /-- Behind the test of the level, where the mutex of the logger is next. -/
  | lock (call : ℕ) (level : LogLevel) (held : List L) (l : L)
  /-- At the head of the loop over `m_appenders`. -/
  | loop (call : ℕ) (held : List L) (todo : List A)
  /-- In `i->log(self, level, event)`. -/
  | writing (call : ℕ) (held : List L) (a : A) (todo : List A)
  /-- The calls of `log` return. -/
  | leave (held : List L)
  /-- In a call that changes `m_appenders`, with the mutex. -/
  | changing (op : Change A) (l : L)
  /-- In `addLogger(name)`, where the name was not found and the new logger will lie at `fresh`. -/
  | adding (name : List Char) (fresh : L)

/-- The loggers, the map `m_loggers`, the mutexes, and the threads. -/
structure State (T L A : Type*) where
  logger : L → Option (Logger L A)
  m_loggers : List Char → Option L
  mutex : L → Option T
  pc : T → Pc L A
  calls : ℕ
  selected : ℕ → List A
  written : List (ℕ × A)

/-- A step of a thread. -/
inductive Action (T L A : Type*)
  /-- `LoggerManager::addLogger(name)` looks the name up. If there is no logger, one is made at
  `fresh`. -/
  | addLogger (t : T) (name : List Char) (fresh : L)
  | setLevel (l : L) (level : LogLevel)
  /-- `log(level, event)` is called. -/
  | log (t : T) (l : L) (level : LogLevel)
  /-- A call that changes `m_appenders` takes the mutex. -/
  | change (t : T) (op : Change A) (l : L)
  /-- A call goes on. -/
  | next (t : T)

variable {T L A : Type*} [DecidableEq T] [DecidableEq L] [DecidableEq A]

/-- What a call makes of `m_appenders`. -/
def Change.apply : Change A → List A → List A
  | .addAppender a, m_appenders => m_appenders ++ [a]
  | .delAppender a, m_appenders => m_appenders.erase a
  | .clearAppenders, _ => []

/-- `Logger(name)`, and `logger->m_root = m_root`. -/
def Logger.new (name : List Char) (m_root : Option L) : Logger L A where
  m_name := name
  m_level := .DEBUG
  m_appenders := []
  m_root := m_root

/-- `LoggerManager()`, with its `StdoutLogAppender` at `out`. -/
def State.new (root : L) (out : A) : State T L A where
  logger := Function.update (fun _ => none) root
    (some { (Logger.new "root".toList none : Logger L A) with m_appenders := [out] })
  m_loggers := Function.update (fun _ => none) "root".toList (some root)
  mutex := fun _ => none
  pc := fun _ => .idle
  calls := 0
  selected := fun _ => []
  written := []

/-- Store a logger. -/
def State.setLogger (s : State T L A) (l : L) (logger : Logger L A) : State T L A :=
  { s with logger := Function.update s.logger l (some logger) }

/-- The thread goes on to another place. -/
def State.goto (s : State T L A) (t : T) (pc : Pc L A) : State T L A :=
  { s with pc := Function.update s.pc t pc }

/-- Lock or unlock a mutex. -/
def State.setMutex (s : State T L A) (l : L) (owner : Option T) : State T L A :=
  { s with mutex := Function.update s.mutex l owner }

/-- Record the appenders that a call has to write to. -/
def State.select (s : State T L A) (call : ℕ) (m_appenders : List A) : State T L A :=
  { s with selected := Function.update s.selected call m_appenders }

/-- `Logger::log` of the logger at `l` with the mutex: the loop, or the root logger. -/
def State.locked (s : State T L A) (t : T) (call : ℕ) (level : LogLevel) (held : List L) (l : L)
    (logger : Logger L A) : State T L A :=
  let s := s.setMutex l (some t)
  if logger.m_appenders ≠ [] then
    (s.select call logger.m_appenders).goto t (.loop call (l :: held) logger.m_appenders)
  else
    match logger.m_root with
    | some m_root => s.goto t (.log call level (l :: held) m_root)
    | none => s.goto t (.leave (l :: held))

/-- Store a new logger, also in `m_loggers`. -/
def State.register (s : State T L A) (root : L) (name : List Char) (fresh : L) : State T L A :=
  { s.setLogger fresh (.new name (some root)) with
    m_loggers := Function.update s.m_loggers name (some fresh) }

/-- The next step of a call. -/
def State.next (root : L) (s : State T L A) (t : T) : Option (State T L A) :=
  match s.pc t with
  | .idle => none
  | .log call level held l =>
    (s.logger l).map fun logger =>
      if level.toNat ≥ logger.m_level.toNat then s.goto t (.lock call level held l)
      else s.goto t (.leave held)
  | .lock call level held l =>
    (s.logger l).bind fun logger =>
      match s.mutex l with
      | some _ => none
      | none => some (s.locked t call level held l logger)
  | .loop _ held [] => some (s.goto t (.leave held))
  | .loop call held (a :: todo) => some (s.goto t (.writing call held a todo))
  | .writing call held a todo =>
    some { s.goto t (.loop call held todo) with written := s.written ++ [(call, a)] }
  | .leave [] => some (s.goto t .idle)
  | .leave (l :: held) => some ((s.setMutex l none).goto t (.leave held))
  | .changing op l =>
    (s.logger l).map fun logger =>
      ((s.setLogger l { logger with m_appenders := op.apply logger.m_appenders }).setMutex l
        none).goto t .idle
  | .adding name fresh =>
    match s.logger fresh with
    | some _ => none
    | none =>
      -- `m_loggers[name] = logger`, whoever has stored one in between
      some ((s.register root name fresh).goto t .idle)

/-- The state after an action, if the action is possible. -/
def step (root : L) (s : State T L A) : Action T L A → Option (State T L A)
  | .addLogger t name fresh =>
    match s.pc t with
    | .idle =>
      match s.m_loggers name, s.logger fresh with
      | some _, _ => some s -- `return it->second`
      | none, none => some (s.goto t (.adding name fresh))
      | none, some _ => none
    | _ => none
  | .setLevel l level =>
    (s.logger l).map fun logger => s.setLogger l { logger with m_level := level }
  | .log t l level =>
    match s.pc t, s.logger l with
    | .idle, some _ => some { s.goto t (.log s.calls level [] l) with calls := s.calls + 1 }
    | _, _ => none
  | .change t op l =>
    match s.pc t, s.logger l, s.mutex l with
    | .idle, some _, none => some ((s.setMutex l (some t)).goto t (.changing op l))
    | _, _, _ => none
  | .next t => s.next root t

/-- `addLogger` is called only while no other thread is in it. -/
def AddsAlone (s : State T L A) : Action T L A → Prop
  | .addLogger _ _ _ => ∀ u name fresh, s.pc u ≠ .adding name fresh
  | _ => True

/-! ## What threads hold -/

/-- The mutexes that a thread has locked. -/
def Pc.held : Pc L A → List L
  | idle => []
  | log _ _ held _ => held
  | lock _ _ held _ => held
  | loop _ held _ => held
  | writing _ held _ _ => held
  | leave held => held
  | changing _ l => [l]
  | adding _ _ => []

/-- The call of `log` that a thread is in, until the record has been written. -/
def Pc.call : Pc L A → Option ℕ
  | log call _ _ _ => some call
  | lock call _ _ _ => some call
  | loop call _ _ => some call
  | writing call _ _ _ => some call
  | _ => none

/-- The appenders that a call has written to. -/
def State.writes (s : State T L A) (call : ℕ) : List A :=
  (s.written.filter fun x => x.1 = call).map Prod.snd

/-- A logger about to be called: one that the thread has been given, or the root logger, called by
another one. -/
def Called (root : L) (logger : L → Option (Logger L A)) (held : List L) (l : L) : Prop :=
  (logger l).isSome = true ∧ (held = [] ∨ ∃ l', held = [l'] ∧ l' ≠ root ∧ l = root)

/-- A loop over the appenders of the logger whose mutex was locked last, with these to go. -/
def Looping (logger : L → Option (Logger L A)) (held : List L) (todo : List A) : Prop :=
  held.Nodup ∧ ∃ l rest x, held = l :: rest ∧ logger l = some x ∧ todo <:+ x.m_appenders

/-- What is known of a thread at its place. -/
def Fits (root : L) (logger : L → Option (Logger L A)) (writes selected : ℕ → List A) :
    Pc L A → Prop
  | .idle => True
  | .log call _ held l => Called root logger held l ∧ writes call = [] ∧ selected call = []
  | .lock call _ held l => Called root logger held l ∧ writes call = [] ∧ selected call = []
  | .loop call held todo => Looping logger held todo ∧ writes call ++ todo = selected call
  | .writing call held a todo =>
    Looping logger held (a :: todo) ∧ writes call ++ a :: todo = selected call
  | .leave held => held.Nodup
  | .changing _ l => (logger l).isSome = true
  | .adding _ _ => True

/-- The invariant of the runs. -/
structure Inv (root : L) (s : State T L A) : Prop where
  registry : ∀ name l, s.m_loggers name = some l ↔ ∃ x, s.logger l = some x ∧ x.m_name = name
  roots : ∀ l x, s.logger l = some x → x.m_root = if l = root then none else some root
  root_live : (s.logger root).isSome = true
  mutex : ∀ l t, s.mutex l = some t ↔ l ∈ (s.pc t).held
  fits : ∀ t, Fits root s.logger s.writes s.selected (s.pc t)
  call_lt : ∀ t call, (s.pc t).call = some call → call < s.calls
  call_inj : ∀ t u call, (s.pc t).call = some call → (s.pc u).call = some call → t = u
  fresh : ∀ call, s.calls ≤ call → s.writes call = [] ∧ s.selected call = []
  done : ∀ call, (∀ t, (s.pc t).call ≠ some call) → s.writes call = s.selected call
  adding : ∀ t name fresh, s.pc t = .adding name fresh →
    s.m_loggers name = none ∧ s.logger fresh = none
  alone : ∀ t u name fresh name' fresh', s.pc t = .adding name fresh →
    s.pc u = .adding name' fresh' → t = u

section Steps

variable {root : L} {s s' : State T L A} {a : Action T L A} {t : T} {pc' : Pc L A}

omit [DecidableEq T] [DecidableEq A] [DecidableEq L] in
/-- What is known of a thread stays true if the loggers that it has locked keep their appenders, and
its own call is let alone. -/
theorem Fits.mono {logger logger' : L → Option (Logger L A)}
    {writes writes' selected selected' : ℕ → List A} {pc : Pc L A}
    (h : Fits root logger writes selected pc)
    (hlogger : ∀ l x, logger l = some x → ∃ x', logger' l = some x' ∧
      (l ∈ pc.held → x'.m_appenders = x.m_appenders))
    (hcall : ∀ call, pc.call = some call →
      writes' call = writes call ∧ selected' call = selected call) :
    Fits root logger' writes' selected' pc := by
  have hlive : ∀ l, (logger l).isSome = true → (logger' l).isSome = true := by
    intro l hl
    obtain ⟨x, hx⟩ := Option.isSome_iff_exists.mp hl
    obtain ⟨x', hx', -⟩ := hlogger l x hx
    rw [hx']
    rfl
  have hloop : ∀ held todo, pc.held = held → Looping logger held todo →
      Looping logger' held todo := by
    rintro held todo rfl ⟨hnodup, l, rest, x, hheld, hx, htodo⟩
    obtain ⟨x', hx', happ⟩ := hlogger l x hx
    refine ⟨hnodup, l, rest, x', hheld, hx', ?_⟩
    rwa [happ (by rw [hheld]; exact List.mem_cons_self)]
  cases pc with
  | idle => trivial
  | log call level held l | lock call level held l =>
    obtain ⟨⟨hl, hheld⟩, hwrites, hselected⟩ := h
    obtain ⟨hw, hs⟩ := hcall call rfl
    exact ⟨⟨hlive l hl, hheld⟩, hw.trans hwrites, hs.trans hselected⟩
  | loop call held todo =>
    obtain ⟨hw, hs⟩ := hcall call rfl
    exact ⟨hloop held todo rfl h.1, by rw [hw, hs, h.2]⟩
  | writing call held a todo =>
    obtain ⟨hw, hs⟩ := hcall call rfl
    exact ⟨hloop held _ rfl h.1, by rw [hw, hs, h.2]⟩
  | leave held => exact h
  | changing op l => exact hlive l h
  | adding name fresh => trivial

/-- What a thread `t` that goes to the place `pc'` leaves alone: the names and roots of loggers, the
appenders of loggers that it has not locked, the mutexes of others, and the calls of others. -/
structure Acts (s s' : State T L A) (t : T) (pc' : Pc L A) : Prop where
  pc : s'.pc = Function.update s.pc t pc'
  m_loggers : s'.m_loggers = s.m_loggers
  logger : ∀ l, (s'.logger l).map (fun x => (x.m_name, x.m_root)) =
    (s.logger l).map fun x => (x.m_name, x.m_root)
  appenders : ∀ l, s.mutex l ≠ some t → s'.logger l = s.logger l
  mutex : ∀ l u, u ≠ t → (s'.mutex l = some u ↔ s.mutex l = some u)
  held : ∀ l, s'.mutex l = some t ↔ l ∈ pc'.held
  calls : s.calls ≤ s'.calls
  others : ∀ call, (s.pc t).call ≠ some call →
    s'.writes call = s.writes call ∧ s'.selected call = s.selected call
  call : ∀ call, pc'.call = some call → (s.pc t).call = some call ∨
    (s.pc t).call = none ∧ call = s.calls ∧ s.calls < s'.calls
  done : ∀ call, (s.pc t).call = some call → pc'.call = none →
    s'.writes call = s'.selected call
  adding : ∀ name fresh, pc' = .adding name fresh →
    s.m_loggers name = none ∧ s.logger fresh = none ∧
      ∀ u name' fresh', s.pc u ≠ .adding name' fresh'

omit [DecidableEq A] in
/-- The thread keeps the invariant if what is to be known at its new place is true. -/
theorem Inv.acts (h : Inv root s) (t : T) (pc' : Pc L A) (ha : Acts s s' t pc')
    (hfits : Fits root s'.logger s'.writes s'.selected pc') : Inv root s' := by
  have hself : s'.pc t = pc' := by rw [ha.pc, Function.update_self]
  have hother : ∀ u, u ≠ t → s'.pc u = s.pc u := fun u hu => by
    rw [ha.pc, Function.update_of_ne hu]
  have hback : ∀ l x', s'.logger l = some x' → ∃ x, s.logger l = some x ∧ x.m_name = x'.m_name ∧
      x.m_root = x'.m_root := by
    intro l x' hx'
    have hmap := ha.logger l
    rw [hx', Option.map_some, eq_comm, Option.map_eq_some_iff] at hmap
    obtain ⟨x, hx, heq⟩ := hmap
    obtain ⟨hname, hroot⟩ := Prod.mk.inj heq
    exact ⟨x, hx, hname, hroot⟩
  have hforth : ∀ l x, s.logger l = some x →
      ∃ x', s'.logger l = some x' ∧ x'.m_name = x.m_name := by
    intro l x hx
    have hmap := ha.logger l
    rw [hx, Option.map_some, Option.map_eq_some_iff] at hmap
    obtain ⟨x', hx', heq⟩ := hmap
    exact ⟨x', hx', (Prod.mk.inj heq).1⟩
  refine ⟨fun name l => ?_, fun l x' hx' => ?_, ?_, fun l u => ?_, fun u => ?_, fun u call hc => ?_,
    fun u v call hu hv => ?_, fun call hc => ?_, fun call hc => ?_, fun u name fresh hu => ?_,
    fun u v name fresh name' fresh' hu hv => ?_⟩
  · rw [ha.m_loggers, h.registry]
    constructor
    · rintro ⟨x, hx, hname⟩
      obtain ⟨x', hx', hname'⟩ := hforth l x hx
      exact ⟨x', hx', hname'.trans hname⟩
    · rintro ⟨x', hx', hname'⟩
      obtain ⟨x, hx, hname, -⟩ := hback l x' hx'
      exact ⟨x, hx, hname.trans hname'⟩
  · obtain ⟨x, hx, -, hroot⟩ := hback l x' hx'
    rw [← hroot, h.roots l x hx]
  · obtain ⟨x, hx⟩ := Option.isSome_iff_exists.mp h.root_live
    obtain ⟨x', hx', -⟩ := hforth root x hx
    rw [hx']
    rfl
  · by_cases hu : u = t
    · subst hu
      rw [hself]
      exact ha.held l
    · rw [hother u hu, ha.mutex l u hu]
      exact h.mutex l u
  · by_cases hu : u = t
    · subst hu
      rwa [hself]
    · rw [hother u hu]
      refine (h.fits u).mono (fun l x hx => ?_) (fun call hc => ?_)
      · obtain ⟨x', hx', -⟩ := hforth l x hx
        refine ⟨x', hx', fun hheld => ?_⟩
        -- the logger is locked by `u`, so `t` has not touched it
        have hsame := ha.appenders l (by
          rw [(h.mutex l u).mpr hheld]
          simpa using hu)
        rw [hx', hx] at hsame
        rw [Option.some.inj hsame]
      · exact ha.others call fun ht => hu (h.call_inj u t call hc ht)
  · by_cases hu : u = t
    · subst hu
      rw [hself] at hc
      rcases ha.call call hc with hold | ⟨-, rfl, hlt⟩
      · exact Nat.lt_of_lt_of_le (h.call_lt u call hold) ha.calls
      · exact hlt
    · rw [hother u hu] at hc
      exact Nat.lt_of_lt_of_le (h.call_lt u call hc) ha.calls
  · -- a call that another thread is in has an older number than a new one
    have hnew : ∀ v, v ≠ t → (s.pc v).call = some call → pc'.call ≠ some call := by
      intro v hv hcv hct
      rcases ha.call call hct with hold | ⟨-, rfl, -⟩
      · exact hv (h.call_inj v t call hcv hold)
      · exact Nat.lt_irrefl _ (h.call_lt v _ hcv)
    by_cases hut : u = t
    · subst hut
      by_cases hvt : v = u
      · exact hvt.symm
      · rw [hself] at hu
        rw [hother v hvt] at hv
        exact absurd hu (hnew v hvt hv)
    · rw [hother u hut] at hu
      by_cases hvt : v = t
      · subst hvt
        rw [hself] at hv
        exact absurd hv (hnew u hut hu)
      · rw [hother v hvt] at hv
        exact h.call_inj u v call hu hv
  · have hold : s.calls ≤ call := Nat.le_trans ha.calls hc
    have hnot : (s.pc t).call ≠ some call := fun ht => Nat.not_le_of_lt (h.call_lt t call ht) hold
    obtain ⟨hw, hs⟩ := ha.others call hnot
    rw [hw, hs]
    exact h.fresh call hold
  · have hct := hc t
    rw [hself] at hct
    by_cases ht : (s.pc t).call = some call
    · refine ha.done call ht ?_
      cases hpc' : pc'.call with
      | none => rfl
      | some call' =>
        rcases ha.call call' hpc' with hold | ⟨hnone, -⟩
        · rw [hold] at ht
          exact absurd (hpc'.trans ht) hct
        · rw [hnone] at ht
          cases ht
    · obtain ⟨hw, hs⟩ := ha.others call ht
      rw [hw, hs]
      refine h.done call fun u => ?_
      by_cases hu : u = t
      · subst hu
        exact ht
      · rw [← hother u hu]
        exact hc u
  · -- no logger has been made in this step
    have hnone : s.m_loggers name = none ∧ s.logger fresh = none := by
      by_cases hut : u = t
      · subst hut
        rw [hself] at hu
        obtain ⟨hname, hfresh, -⟩ := ha.adding name fresh hu
        exact ⟨hname, hfresh⟩
      · rw [hother u hut] at hu
        exact h.adding u name fresh hu
    have hmap := ha.logger fresh
    rw [hnone.2, Option.map_none, Option.map_eq_none_iff] at hmap
    exact ⟨by rw [ha.m_loggers, hnone.1], hmap⟩
  · by_cases hut : u = t
    · by_cases hvt : v = t
      · rw [hut, hvt]
      · rw [hut, hself] at hu
        rw [hother v hvt] at hv
        exact absurd hv ((ha.adding name fresh hu).2.2 v name' fresh')
    · rw [hother u hut] at hu
      by_cases hvt : v = t
      · rw [hvt, hself] at hv
        exact absurd hu ((ha.adding name' fresh' hv).2.2 u name fresh)
      · rw [hother v hvt] at hv
        exact h.alone u v name fresh name' fresh' hu hv

omit [DecidableEq A] in
/-- A step to another place of the same call, or out of it when the record has been written. -/
theorem Inv.acts_goto (h : Inv root s) (hheld : pc'.held = (s.pc t).held)
    (hcall : pc'.call = (s.pc t).call ∨
      pc'.call = none ∧ ∀ call, (s.pc t).call = some call → s.writes call = s.selected call)
    (hadding : ∀ name fresh, pc' = .adding name fresh →
      s.m_loggers name = none ∧ s.logger fresh = none ∧
        ∀ u name' fresh', s.pc u ≠ .adding name' fresh') :
    Acts s (s.goto t pc') t pc' where
  pc := rfl
  m_loggers := rfl
  logger := fun _ => rfl
  appenders := fun _ _ => rfl
  mutex := fun _ _ _ => Iff.rfl
  held := fun l => by rw [hheld, ← h.mutex]; rfl
  calls := Nat.le_refl _
  others := fun _ _ => ⟨rfl, rfl⟩
  call := fun call hc => Or.inl <| by
    rcases hcall with hsame | ⟨hnone, -⟩
    · rwa [← hsame]
    · rw [hnone] at hc
      cases hc
  done := fun call hc hnone => by
    rcases hcall with hsame | ⟨-, hdone⟩
    · rw [hsame, hc] at hnone
      cases hnone
    · exact hdone call hc
  adding := hadding

omit [DecidableEq T] in
/-- A mutex that is free changes hands, and no other one does. -/
theorem mutex_lock {mutex : L → Option T} {l : L} {held : List L} (hfree : mutex l = none)
    (hheld : ∀ k, mutex k = some t ↔ k ∈ held) :
    (∀ k, Function.update mutex l (some t) k = some t ↔ k ∈ l :: held) ∧
      ∀ k u, u ≠ t → (Function.update mutex l (some t) k = some u ↔ mutex k = some u) := by
  refine ⟨fun k => ?_, fun k u hu => ?_⟩
  · by_cases hk : k = l
    · subst hk
      simp
    · rw [Function.update_of_ne hk, hheld]
      simp [hk]
  · by_cases hk : k = l
    · subst hk
      simp [hfree, Ne.symm hu]
    · rw [Function.update_of_ne hk]

omit [DecidableEq A] in
/-- `log` of the logger at `l`, from taking its mutex up to the loop or the call of the root
logger. -/
theorem Inv.locked (h : Inv root s) {call : ℕ} {level : LogLevel} {held : List L} {l : L}
    {x : Logger L A} (hpc : s.pc t = .lock call level held l) (hx : s.logger l = some x)
    (hfree : s.mutex l = none) : Inv root (s.locked t call level held l x) := by
  have hfits := h.fits t
  rw [hpc] at hfits
  obtain ⟨⟨-, hcalled⟩, hwrites, hselected⟩ := hfits
  have hcall : (s.pc t).call = some call := by rw [hpc]; rfl
  have hheld : ∀ k, s.mutex k = some t ↔ k ∈ held := by
    intro k
    rw [h.mutex, hpc]
    rfl
  have hnot : l ∉ held := by
    rw [← hheld, hfree]
    simp
  obtain ⟨hmutex, hother⟩ := mutex_lock hfree hheld
  have hnodup : (l :: held).Nodup := by
    refine List.nodup_cons.mpr ⟨hnot, ?_⟩
    rcases hcalled with rfl | ⟨l', rfl, -, -⟩
    · exact List.nodup_nil
    · simp
  unfold State.locked
  dsimp only
  split_ifs with happ
  · -- the loop over the appenders of this logger
    refine h.acts t (.loop call (l :: held) x.m_appenders) ⟨rfl, rfl, fun _ => rfl,
      fun _ _ => rfl, hother, hmutex, Nat.le_refl _, fun c hc => ?_, fun c hc => ?_,
      fun c _ hnone => ?_, nofun⟩ ?_
    · have hne : c ≠ call := by
        rintro rfl
        exact hc hcall
      exact ⟨rfl, Function.update_of_ne hne _ _⟩
    · obtain rfl : call = c := Option.some.inj hc
      exact Or.inl hcall
    · cases hnone
    · refine ⟨⟨hnodup, l, held, x, rfl, hx, List.suffix_refl _⟩, ?_⟩
      show s.writes call ++ x.m_appenders = Function.update s.selected call x.m_appenders call
      rw [hwrites, Function.update_self, List.nil_append]
  · have hroot := h.roots l x hx
    split
    · -- the root logger
      rename_i m_root heq
      have hl : l ≠ root ∧ m_root = root := by
        rw [hroot] at heq
        split_ifs at heq with hl
        exact ⟨hl, (Option.some.inj heq).symm⟩
      obtain ⟨hl, rfl⟩ := hl
      refine h.acts t (.log call level (l :: held) m_root) ⟨rfl, rfl, fun _ => rfl,
        fun _ _ => rfl, hother, hmutex, Nat.le_refl _, fun c hc => ⟨rfl, rfl⟩, fun c hc => ?_,
        fun c _ hnone => ?_, nofun⟩ ?_
      · obtain rfl : call = c := Option.some.inj hc
        exact Or.inl hcall
      · cases hnone
      · -- this is the first mutex of the call: the root logger calls no other one
        obtain rfl : held = [] := by
          rcases hcalled with rfl | ⟨l', rfl, -, hlroot⟩
          · rfl
          · exact absurd hlroot hl
        exact ⟨⟨h.root_live, Or.inr ⟨l, rfl, hl, rfl⟩⟩, hwrites, hselected⟩
    · refine h.acts t (.leave (l :: held)) ⟨rfl, rfl, fun _ => rfl, fun _ _ => rfl,
        hother, hmutex, Nat.le_refl _, fun c hc => ⟨rfl, rfl⟩, fun c hc => ?_,
        fun c hc _ => ?_, nofun⟩ hnodup
      · cases hc
      · obtain rfl : call = c := Option.some.inj (hcall.symm.trans hc)
        show s.writes call = s.selected call
        rw [hwrites, hselected]

omit [DecidableEq A] in
/-- Unlock the mutex that was locked last, maybe after a change of the appenders of its logger. -/
theorem Inv.unlock (h : Inv root s) (t : T) (pc' : Pc L A) (logger' : L → Option (Logger L A))
    {l : L} {held : List L} (hpc : (s.pc t).held = l :: held) (hnodup : (l :: held).Nodup)
    (hcall : (s.pc t).call = none)
    (hlogger : ∀ k, (logger' k).map (fun x => (x.m_name, x.m_root)) =
      (s.logger k).map fun x => (x.m_name, x.m_root))
    (hother : ∀ k, k ≠ l → logger' k = s.logger k) (hpc' : pc'.held = held)
    (hcall' : pc'.call = none) (hadding : ∀ name fresh, pc' ≠ .adding name fresh)
    (hfits : Fits root logger' s.writes s.selected pc') :
    Inv root { (s.setMutex l none).goto t pc' with logger := logger' } := by
  have hlocked : s.mutex l = some t := by
    rw [h.mutex, hpc]
    exact List.mem_cons_self
  refine h.acts t pc' ⟨rfl, rfl, hlogger, fun k hk => hother k ?_, fun k u hu => ?_,
    fun k => ?_, Nat.le_refl _, fun c _ => ⟨rfl, rfl⟩, fun c hc => ?_, fun c hc _ => ?_,
    fun name fresh hpc' => absurd hpc' (hadding name fresh)⟩ hfits
  · rintro rfl
    exact hk hlocked
  · show Function.update s.mutex l none k = some u ↔ _
    by_cases hk : k = l
    · subst hk
      simp [hlocked, Ne.symm hu]
    · rw [Function.update_of_ne hk]
  · show Function.update s.mutex l none k = some t ↔ _
    rw [hpc']
    by_cases hk : k = l
    · subst hk
      simp [(List.nodup_cons.mp hnodup).1]
    · rw [Function.update_of_ne hk, h.mutex, hpc]
      simp [hk]
  · rw [hcall'] at hc
    cases hc
  · rw [hcall] at hc
    cases hc

omit [DecidableEq T] [DecidableEq A] in
/-- Loggers are added, or change their levels. -/
theorem Inv.loggers (h : Inv root s) (logger' : L → Option (Logger L A))
    (m_loggers' : List Char → Option L)
    (hregistry : ∀ name l, m_loggers' name = some l ↔ ∃ x, logger' l = some x ∧ x.m_name = name)
    (hroots : ∀ l x, logger' l = some x → x.m_root = if l = root then none else some root)
    (hkeep : ∀ l x, s.logger l = some x →
      ∃ x', logger' l = some x' ∧ x'.m_appenders = x.m_appenders)
    (hadding : ∀ t name fresh, s.pc t = .adding name fresh →
      m_loggers' name = none ∧ logger' fresh = none) :
    Inv root { s with logger := logger', m_loggers := m_loggers' } where
  registry := hregistry
  roots := hroots
  root_live := by
    obtain ⟨x, hx⟩ := Option.isSome_iff_exists.mp h.root_live
    obtain ⟨x', hx', -⟩ := hkeep root x hx
    show (logger' root).isSome = true
    rw [hx']
    rfl
  mutex := h.mutex
  fits := fun t => (h.fits t).mono (fun l x hx => by
    obtain ⟨x', hx', happ⟩ := hkeep l x hx
    exact ⟨x', hx', fun _ => happ⟩) fun _ _ => ⟨rfl, rfl⟩
  call_lt := h.call_lt
  call_inj := h.call_inj
  fresh := h.fresh
  done := h.done
  adding := hadding
  alone := h.alone

omit [DecidableEq T] [DecidableEq A] in
/-- A logger of a new name is stored, while nobody is about to store another. -/
theorem Inv.register (h : Inv root s) {name : List Char} {fresh : L}
    (hname : s.m_loggers name = none) (hfresh : s.logger fresh = none)
    (hadding : ∀ u name' fresh', s.pc u ≠ .adding name' fresh') :
    Inv root (s.register root name fresh) := by
  have hlogger : ∀ l, l ≠ fresh →
      Function.update s.logger fresh (some (.new name (some root))) l = s.logger l :=
    fun l hl => Function.update_of_ne hl _ _
  refine h.loggers (Function.update s.logger fresh (some (.new name (some root))))
    (Function.update s.m_loggers name (some fresh)) (fun name' l => ?_) (fun l x hx => ?_)
    (fun l x hx => ?_) fun u name' fresh' hu => absurd hu (hadding u name' fresh')
  · by_cases hl : l = fresh
    · subst hl
      rw [Function.update_self]
      by_cases hname' : name' = name
      · subst hname'
        rw [Function.update_self]
        exact iff_of_true rfl ⟨_, rfl, rfl⟩
      · rw [Function.update_of_ne hname', h.registry]
        refine iff_of_false ?_ ?_
        · rintro ⟨x, hx, -⟩
          rw [hfresh] at hx
          cases hx
        · rintro ⟨x, hx, hname''⟩
          obtain rfl := Option.some.inj hx
          exact hname' hname''.symm
    · rw [hlogger l hl, ← h.registry]
      by_cases hname' : name' = name
      · subst hname'
        rw [Function.update_self, hname]
        exact iff_of_false (fun heq => hl (Option.some.inj heq).symm) fun h => by cases h
      · rw [Function.update_of_ne hname']
  · by_cases hl : l = fresh
    · subst hl
      rw [Function.update_self] at hx
      obtain rfl := Option.some.inj hx
      -- the root logger exists already
      have hne : l ≠ root := by
        rintro rfl
        have hlive := h.root_live
        rw [hfresh] at hlive
        cases hlive
      rw [if_neg hne]
      rfl
    · rw [hlogger l hl] at hx
      exact h.roots l x hx
  · have hne : l ≠ fresh := by
      rintro rfl
      rw [hfresh] at hx
      cases hx
    exact ⟨x, by rw [hlogger l hne, hx], rfl⟩

/-- A call that goes on keeps the invariant. -/
theorem Inv.next (h : Inv root s) (hnext : s.next root t = some s') : Inv root s' := by
  have hfits := h.fits t
  unfold State.next at hnext
  cases hpc : s.pc t with
  | idle =>
    rw [hpc] at hnext
    cases hnext
  | log call level held l =>
    rw [hpc] at hfits hnext
    obtain ⟨x, hx, rfl⟩ := Option.map_eq_some_iff.mp hnext
    obtain ⟨hcalled, hwrites, hselected⟩ := hfits
    split_ifs
    · exact h.acts t _ (h.acts_goto (by rw [hpc]; rfl) (Or.inl (by rw [hpc]; rfl)) nofun)
        ⟨hcalled, hwrites, hselected⟩
    · refine h.acts t _ (h.acts_goto (by rw [hpc]; rfl) (Or.inr ⟨rfl, fun c hc => ?_⟩) nofun) ?_
      · rw [hpc] at hc
        obtain rfl : call = c := Option.some.inj hc
        rw [hwrites, hselected]
      · rcases hcalled.2 with rfl | ⟨l', rfl, -⟩
        · exact List.nodup_nil
        · exact List.nodup_singleton l'
  | lock call level held l =>
    rw [hpc] at hnext
    obtain ⟨x, hx, hnext⟩ := Option.bind_eq_some_iff.mp hnext
    cases hmutex : s.mutex l with
    | some u =>
      rw [hmutex] at hnext
      cases hnext
    | none =>
      rw [hmutex] at hnext
      obtain rfl := Option.some.inj hnext
      exact h.locked hpc hx hmutex
  | loop call held todo =>
    rw [hpc] at hfits hnext
    obtain ⟨⟨hnodup, hlogger⟩, hwrites⟩ := hfits
    cases todo with
    | nil =>
      obtain rfl := Option.some.inj hnext
      refine h.acts t _ (h.acts_goto (by rw [hpc]; rfl) (Or.inr ⟨rfl, fun c hc => ?_⟩) nofun)
        hnodup
      rw [hpc] at hc
      obtain rfl : call = c := Option.some.inj hc
      rw [← hwrites, List.append_nil]
    | cons a todo =>
      obtain rfl := Option.some.inj hnext
      exact h.acts t _ (h.acts_goto (by rw [hpc]; rfl) (Or.inl (by rw [hpc]; rfl)) nofun)
        ⟨⟨hnodup, hlogger⟩, hwrites⟩
  | writing call held a todo =>
    rw [hpc] at hfits hnext
    obtain ⟨⟨hnodup, l, rest, x, hheld, hx, hsuffix⟩, hwrites⟩ := hfits
    obtain rfl := Option.some.inj hnext
    have hcall : (s.pc t).call = some call := by rw [hpc]; rfl
    have hown : ∀ c, State.writes { s.goto t (.loop call held todo) with
        written := s.written ++ [(call, a)] } c =
        if c = call then s.writes c ++ [a] else s.writes c := by
      intro c
      simp only [State.writes, List.filter_append, List.map_append, List.filter_singleton]
      split_ifs with hc
      · simp [hc]
      · simp [Ne.symm hc]
    refine h.acts t (.loop call held todo) ⟨rfl, rfl, fun _ => rfl, fun _ _ => rfl,
      fun _ _ _ => Iff.rfl, fun k => ?_, Nat.le_refl _, fun c hc => ?_, fun c hc => ?_,
      fun c _ hnone => ?_, nofun⟩ ?_
    · show s.mutex k = some t ↔ _
      rw [h.mutex, hpc]
      rfl
    · have hne : c ≠ call := by
        rintro rfl
        exact hc hcall
      exact ⟨by rw [hown, if_neg hne], rfl⟩
    · obtain rfl : call = c := Option.some.inj hc
      exact Or.inl hcall
    · cases hnone
    · refine ⟨⟨hnodup, l, rest, x, hheld, hx, (List.suffix_cons a todo).trans hsuffix⟩, ?_⟩
      rw [hown, if_pos rfl, List.append_assoc]
      exact hwrites
  | leave held =>
    rw [hpc] at hfits hnext
    cases held with
    | nil =>
      obtain rfl := Option.some.inj hnext
      refine h.acts t _ (h.acts_goto (by rw [hpc]; rfl) (Or.inr ⟨rfl, fun c hc => ?_⟩) nofun)
        trivial
      rw [hpc] at hc
      cases hc
    | cons l held =>
      obtain rfl := Option.some.inj hnext
      exact h.unlock t (.leave held) s.logger (by rw [hpc]; rfl) hfits (by rw [hpc]; rfl)
        (fun _ => rfl) (fun _ _ => rfl) rfl rfl nofun (List.nodup_cons.mp hfits).2
  | changing op l =>
    rw [hpc] at hfits hnext
    obtain ⟨x, hx, rfl⟩ := Option.map_eq_some_iff.mp hnext
    refine h.unlock t .idle (Function.update s.logger l
      (some { x with m_appenders := op.apply x.m_appenders })) (by rw [hpc]; rfl)
      (List.nodup_singleton l) (by rw [hpc]; rfl) (fun k => ?_)
      (fun k hk => Function.update_of_ne hk _ _) rfl rfl nofun trivial
    by_cases hk : k = l
    · subst hk
      simp [hx]
    · rw [Function.update_of_ne hk]
  | adding name fresh =>
    rw [hpc] at hnext
    obtain ⟨hname, hfresh⟩ := h.adding t name fresh hpc
    simp only [hfresh] at hnext
    obtain rfl := Option.some.inj hnext
    -- the thread was the only one that was about to store a logger
    have hidle : Inv root (s.goto t .idle) :=
      h.acts t _ (h.acts_goto (by rw [hpc]; rfl) (Or.inl (by rw [hpc]; rfl)) nofun) trivial
    refine hidle.register hname hfresh fun u name' fresh' hu => ?_
    by_cases hut : u = t
    · subst hut
      simp [State.goto] at hu
    · have hpcu : s.pc u = .adding name' fresh' := by simpa [State.goto, hut] using hu
      exact hut (h.alone u t name' fresh' name fresh hpcu hpc)

omit [DecidableEq T] [DecidableEq A] in
/-- `setLevel`, which takes no mutex either, changes one field. -/
theorem Inv.setLevel (h : Inv root s) {l : L} {x : Logger L A} (hx : s.logger l = some x)
    (level : LogLevel) : Inv root (s.setLogger l { x with m_level := level }) := by
  have hback : ∀ k y', Function.update s.logger l (some { x with m_level := level }) k = some y' →
      ∃ y, s.logger k = some y ∧ y.m_name = y'.m_name ∧ y.m_root = y'.m_root := by
    intro k y' hy'
    by_cases hk : k = l
    · subst hk
      rw [Function.update_self] at hy'
      obtain rfl := Option.some.inj hy'
      exact ⟨x, hx, rfl, rfl⟩
    · rw [Function.update_of_ne hk] at hy'
      exact ⟨y', hy', rfl, rfl⟩
  have hforth : ∀ k y, s.logger k = some y →
      ∃ y', Function.update s.logger l (some { x with m_level := level }) k = some y' ∧
        y'.m_name = y.m_name ∧ y'.m_appenders = y.m_appenders := by
    intro k y hy
    by_cases hk : k = l
    · subst hk
      obtain rfl := Option.some.inj (hx.symm.trans hy)
      exact ⟨_, Function.update_self _ _ _, rfl, rfl⟩
    · exact ⟨y, by rw [Function.update_of_ne hk, hy], rfl, rfl⟩
  refine h.loggers (Function.update s.logger l (some { x with m_level := level })) s.m_loggers
    (fun name k => ?_) (fun k y' hy' => ?_) (fun k y hy => ?_) fun t name fresh ht => ?_
  · rw [h.registry]
    constructor
    · rintro ⟨y, hy, hname⟩
      obtain ⟨y', hy', hname', -⟩ := hforth k y hy
      exact ⟨y', hy', hname'.trans hname⟩
    · rintro ⟨y', hy', hname⟩
      obtain ⟨y, hy, hname', -⟩ := hback k y' hy'
      exact ⟨y, hy, hname'.trans hname⟩
  · obtain ⟨y, hy, -, hroot⟩ := hback k y' hy'
    rw [← hroot]
    exact h.roots k y hy
  · obtain ⟨y', hy', -, happ⟩ := hforth k y hy
    exact ⟨y', hy', happ⟩
  · obtain ⟨hname, hfresh⟩ := h.adding t name fresh ht
    have hne : fresh ≠ l := by
      rintro rfl
      cases hx.symm.trans hfresh
    exact ⟨hname, by rw [Function.update_of_ne hne, hfresh]⟩

/-- Every step that calls `addLogger` alone keeps the invariant. -/
theorem Inv.step (h : Inv root s) (halone : AddsAlone s a) (hstep : step root s a = some s') :
    Inv root s' := by
  cases a with
  | addLogger t name fresh =>
    simp only [Logging.step] at hstep
    cases hpc : s.pc t <;> cases hname : s.m_loggers name <;> cases hfresh : s.logger fresh <;>
      rw [hpc, hname, hfresh] at hstep <;> try cases hstep
    · exact h.acts t _ (h.acts_goto (by rw [hpc]; rfl) (Or.inl (by rw [hpc]; rfl))
        fun name' fresh' heq => by cases heq; exact ⟨hname, hfresh, halone⟩) trivial
    · exact h
    · exact h
  | setLevel l level =>
    obtain ⟨x, hx, rfl⟩ := Option.map_eq_some_iff.mp hstep
    exact h.setLevel hx level
  | log t l level =>
    simp only [Logging.step] at hstep
    cases hpc : s.pc t <;> cases hx : s.logger l <;> rw [hpc, hx] at hstep <;> try cases hstep
    -- the call gets a new number
    refine h.acts t (.log s.calls level [] l) ⟨rfl, rfl, fun _ => rfl, fun _ _ => rfl,
      fun _ _ _ => Iff.rfl, fun k => ?_, Nat.le_succ _, fun c _ => ⟨rfl, rfl⟩, fun c hc => ?_,
      fun c _ hnone => ?_, nofun⟩ ?_
    · show s.mutex k = some t ↔ _
      rw [h.mutex, hpc]
      rfl
    · obtain rfl : s.calls = c := Option.some.inj hc
      exact Or.inr ⟨by rw [hpc]; rfl, rfl, Nat.lt_succ_self _⟩
    · cases hnone
    · exact ⟨⟨by simp [State.goto, hx], Or.inl rfl⟩, h.fresh s.calls (Nat.le_refl _)⟩
  | change t op l =>
    simp only [Logging.step] at hstep
    cases hpc : s.pc t <;> cases hx : s.logger l <;> cases hfree : s.mutex l <;>
      rw [hpc, hx, hfree] at hstep <;> try cases hstep
    have hheld : ∀ k, s.mutex k = some t ↔ k ∈ [] := by
      intro k
      rw [h.mutex, hpc]
      rfl
    obtain ⟨hmutex, hother⟩ := mutex_lock hfree hheld
    refine h.acts t (.changing op l) ⟨rfl, rfl, fun _ => rfl, fun _ _ => rfl, hother, hmutex,
      Nat.le_refl _, fun c _ => ⟨rfl, rfl⟩, fun c hc => ?_, fun c hc _ => ?_, nofun⟩ ?_
    · cases hc
    · rw [hpc] at hc
      cases hc
    · simp [Fits, State.goto, State.setMutex, hx]
  | next t => exact h.next hstep

omit [DecidableEq T] [DecidableEq A] in
/-- The invariant of a new manager, whose only logger is the root. -/
theorem inv_new (root : L) (out : A) : Inv root (State.new root out : State T L A) := by
  have hroot : (State.new root out : State T L A).logger root =
      some { (Logger.new "root".toList none : Logger L A) with m_appenders := [out] } := by
    simp [State.new]
  have helse : ∀ l, l ≠ root → (State.new root out : State T L A).logger l = none := by
    intro l hl
    simp [State.new, hl]
  have hlogger : ∀ l x, (State.new root out : State T L A).logger l = some x →
      l = root ∧
        x = { (Logger.new "root".toList none : Logger L A) with m_appenders := [out] } := by
    intro l x hx
    by_cases hl : l = root
    · subst hl
      exact ⟨rfl, Option.some.inj (hx.symm.trans hroot)⟩
    · cases hx.symm.trans (helse l hl)
  refine ⟨fun name l => ?_, fun l x hx => ?_, ?_, fun l t => ?_, fun t => trivial,
    fun t call hc => ?_, fun t u call hc => ?_, fun _ _ => ⟨rfl, rfl⟩, fun _ _ => rfl, nofun,
    nofun⟩
  · show Function.update (fun _ => none) "root".toList (some root) name = some l ↔ _
    constructor
    · intro h
      by_cases hname : name = "root".toList
      · subst hname
        rw [Function.update_self] at h
        obtain rfl := Option.some.inj h
        exact ⟨_, hroot, rfl⟩
      · rw [Function.update_of_ne hname] at h
        cases h
    · rintro ⟨x, hx, rfl⟩
      obtain ⟨rfl, rfl⟩ := hlogger l x hx
      exact Function.update_self _ _ _
  · obtain ⟨rfl, rfl⟩ := hlogger l x hx
    rw [if_pos rfl]
    rfl
  · rw [hroot]
    rfl
  · constructor
    · intro h
      cases h
    · intro h
      cases h
  · cases hc
  · cases hc

end Steps

/-! ## Runs -/

section Runs

variable {root : L} {s : State T L A} {as : List (Action T L A)} {t : T}

end Runs

end Logging

end Sylar.Log
