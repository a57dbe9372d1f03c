import Sylar.Log.Defs
import Sylar.Foundation.Run
import Mathlib.Logic.Function.Basic

/-!
# Formatters that appenders take from their loggers

`Logger::addAppender`, `delAppender`, both overloads of `Logger::setFormatter` and
`LogAppender::setFormatter`, on any number of loggers and appenders. An appender keeps the formatter
that it takes from a logger in its own `m_formatter`. `Inherits` says that it is the right one, and
`inherits_iff` in which runs it is so in all states.

Representation: `P` are the pointers to formatters, and the null pointer is `none`; the pointer that
`make_shared` returns is an argument of the action. Every call is one step, as the mutex of the
logger makes it.
-/

namespace Sylar.Log

open Transition

/-- `LogAppender`. -/
structure LogAppender (P : Type*) where
  m_hasFormatter : Bool
  m_formatter : Option P

/-- `Logger`, as far as appenders and formatters go. -/
structure Logger (A P : Type*) where
  m_appenders : List A
  m_formatter : Option P

/-- `LogAppender::setFormatter(val)`. -/
def LogAppender.setFormatter {P : Type*} (val : Option P) : LogAppender P where
  m_hasFormatter := val.isSome
  m_formatter := val

/-- All loggers and appenders, with the argument of the last call of each appender's own
`setFormatter`, null if there was none. -/
structure Loggers (L A P : Type*) where
  loggers : L → Logger A P
  appenders : A → LogAppender P
  own : A → Option P

/-- A call. -/
inductive LoggersAction (L A P : Type*)
  | addAppender (l : L) (a : A)
  | delAppender (l : L) (a : A)
  /-- `Logger::setFormatter(val)` with a pointer. -/
  | setFormatter (l : L) (val : Option P)
  /-- `Logger::setFormatter(val)` with a pattern, where `make_shared` returns `p`. -/
  | setPattern (l : L) (val : List Char) (p : P)
  /-- `LogAppender::setFormatter(val)`. -/
  | setOwn (a : A) (val : Option P)

namespace Loggers

variable {L A P : Type*}

/-- New loggers, and appenders whose `m_hasFormatter` has the value that was in memory. -/
def start (formatter : L → P) (memory : A → Bool) : Loggers L A P where
  loggers l := ⟨[], some (formatter l)⟩
  appenders a := ⟨memory a, none⟩
  own _ := none

variable [DecidableEq L] [DecidableEq A]

/-- The loop over `m_appenders` in `Logger::setFormatter`. -/
def inherit (m_formatter : Option P) (m_appenders : List A) (appenders : A → LogAppender P) :
    A → LogAppender P :=
  m_appenders.foldl (fun appenders a =>
    if (appenders a).m_hasFormatter then appenders
    else Function.update appenders a { appenders a with m_formatter := m_formatter }) appenders

/-- `Logger::setFormatter(val)` of the logger `l`, with a pointer. -/
def setFormatter (s : Loggers L A P) (l : L) (val : Option P) : Loggers L A P where
  loggers := Function.update s.loggers l { s.loggers l with m_formatter := val }
  appenders := inherit val (s.loggers l).m_appenders s.appenders
  own := s.own

/-- `addAppender(a)` of the logger `l`. -/
def addAppender (s : Loggers L A P) (l : L) (a : A) : Loggers L A P where
  loggers := Function.update s.loggers l
    { s.loggers l with m_appenders := (s.loggers l).m_appenders ++ [a] }
  appenders :=
    if (s.appenders a).m_formatter = none then
      Function.update s.appenders a
        { s.appenders a with m_formatter := (s.loggers l).m_formatter }
    else s.appenders
  own := s.own

/-- `delAppender(a)` of the logger `l`. -/
def delAppender (s : Loggers L A P) (l : L) (a : A) : Loggers L A P :=
  { s with
    loggers := Function.update s.loggers l
      { s.loggers l with m_appenders := (s.loggers l).m_appenders.erase a } }

/-- `LogAppender::setFormatter(val)` of the appender `a`. -/
def setOwn (s : Loggers L A P) (a : A) (val : Option P) : Loggers L A P :=
  { s with
    appenders := Function.update s.appenders a (.setFormatter val)
    own := Function.update s.own a val }

/-- The state after a call. -/
def step (s : Loggers L A P) : LoggersAction L A P → Option (Loggers L A P)
  | .addAppender l a => some (s.addAppender l a)
  | .delAppender l a => some (s.delAppender l a)
  | .setFormatter l val => some (s.setFormatter l val)
  | .setPattern l val p =>
    if (LogFormatter.new val).isError then some s else some (s.setFormatter l (some p))
  | .setOwn a val => some (s.setOwn a val)

/-- An attached appender uses the formatter of its own, or else that of the logger. -/
def Inherits (s : Loggers L A P) : Prop :=
  ∀ l, ∀ a ∈ (s.loggers l).m_appenders,
    (s.appenders a).m_formatter = (s.own a).or (s.loggers l).m_formatter

/-- The formatter of a logger may change to `val`: an attached appender without a formatter of its
own does not claim to have one (or the formatter does not change), and no other logger that it is
attached to has another formatter. -/
def MayChange (s : Loggers L A P) (l : L) (val : Option P) : Prop :=
  ∀ a ∈ (s.loggers l).m_appenders, s.own a = none →
    if (s.appenders a).m_hasFormatter then val = (s.loggers l).m_formatter
    else ∀ l' ≠ l, a ∈ (s.loggers l').m_appenders → (s.loggers l').m_formatter = val

/-- An appender without a formatter of its own is attached if it uses the formatter of the logger
already, or uses none and is not attached; a formatter of its own is taken back while no logger
with a formatter has the appender. -/
def MayCall (s : Loggers L A P) : LoggersAction L A P → Prop
  | .addAppender l a => s.own a = none →
      (s.appenders a).m_formatter = (s.loggers l).m_formatter ∨
        (s.appenders a).m_formatter = none ∧ ∀ l', a ∉ (s.loggers l').m_appenders
  | .delAppender _ _ => True
  | .setFormatter l val => s.MayChange l val
  | .setPattern l val p => (LogFormatter.new val).isError = false → s.MayChange l (some p)
  | .setOwn a val => val = none →
      ∀ l, a ∈ (s.loggers l).m_appenders → (s.loggers l).m_formatter = none

/-- An appender with a formatter of its own uses it, and knows. -/
def Inv (s : Loggers L A P) : Prop :=
  ∀ a f, s.own a = some f → s.appenders a = ⟨true, some f⟩

/-! ## One call -/

section Calls

variable {s : Loggers L A P} {l : L} {a : A} {val : Option P}

omit [DecidableEq L] [DecidableEq A] in
/-- An attached appender without a formatter of its own uses that of the logger. -/
theorem Inherits.eq_of_own_none (hs : Inherits s) (ha : a ∈ (s.loggers l).m_appenders)
    (hown : s.own a = none) : (s.appenders a).m_formatter = (s.loggers l).m_formatter := by
  rw [hs l a ha, hown, Option.none_or]

omit [DecidableEq L] in
/-- A formatter is handed down to the appenders that have none of their own. -/
theorem inherit_apply (val : Option P) (m_appenders : List A) (appenders : A → LogAppender P)
    (a : A) : inherit val m_appenders appenders a =
      if a ∈ m_appenders ∧ (appenders a).m_hasFormatter = false then
        { appenders a with m_formatter := val }
      else appenders a := by
  induction m_appenders generalizing appenders with
  | nil => simp [inherit]
  | cons b m_appenders ih =>
    rw [inherit, List.foldl_cons]
    change inherit val m_appenders _ a = _
    rw [ih]
    by_cases hab : a = b
    · subst hab
      cases h : (appenders a).m_hasFormatter <;> simp [h]
    · cases h : (appenders b).m_hasFormatter <;> simp [hab]

/-- `Logger::setFormatter` keeps the invariant. -/
theorem setFormatter_inv (h : Inv s) (l : L) (val : Option P) : Inv (s.setFormatter l val) := by
  intro a f hown
  have hold := h a f hown
  change inherit val _ s.appenders a = _
  rw [inherit_apply, hold, if_neg (by simp)]

/-- So does `addAppender`. -/
theorem addAppender_inv (h : Inv s) (l : L) (a : A) : Inv (s.addAppender l a) := by
  intro b f hown
  have hold := h b f hown
  change (if (s.appenders a).m_formatter = none then Function.update s.appenders a _
    else s.appenders) b = _
  split
  case isTrue hnone =>
    have hne : b ≠ a := by
      rintro rfl
      rw [hold] at hnone
      cases hnone
    rw [Function.update_of_ne hne, hold]
  case isFalse => exact hold

/-- What an appender uses after a change of the formatter of a logger. -/
theorem m_formatter_setFormatter (s : Loggers L A P) (l : L) (val : Option P) (a : A) :
    ((s.setFormatter l val).appenders a).m_formatter =
      if a ∈ (s.loggers l).m_appenders ∧ (s.appenders a).m_hasFormatter = false then val
      else (s.appenders a).m_formatter := by
  change (inherit val _ s.appenders a).m_formatter = _
  rw [inherit_apply]
  split <;> rfl

/-- After a change of the formatter of a logger, all attached appenders use the right one exactly
if the change was allowed. -/
theorem setFormatter_iff (h : Inv s) (hs : Inherits s) (l : L) (val : Option P) :
    MayChange s l val ↔ Inherits (s.setFormatter l val) := by
  have hself : (s.setFormatter l val).loggers l = { s.loggers l with m_formatter := val } :=
    Function.update_self ..
  have hother : ∀ l' ≠ l, (s.setFormatter l val).loggers l' = s.loggers l' := fun _ hne =>
    Function.update_of_ne hne ..
  constructor
  · intro hchange l' a ha
    rw [m_formatter_setFormatter]
    change _ = (s.own a).or _
    cases hown : s.own a with
    | some f => simp [h a f hown]
    | none =>
      by_cases hl : l' = l
      · subst hl
        rw [hself] at ha ⊢
        have hold := hs.eq_of_own_none ha hown
        have hmay := hchange a ha hown
        cases hhas : (s.appenders a).m_hasFormatter with
        | false => simp [show a ∈ (s.loggers l').m_appenders from ha]
        | true =>
          -- passed over by the loop, the appender keeps the formatter that the logger keeps too
          rw [hhas, if_pos rfl] at hmay
          simp [hold, hmay]
      · rw [hother l' hl] at ha ⊢
        have hold := hs.eq_of_own_none ha hown
        split
        case isTrue hmem =>
          -- an appender of both loggers has got the formatter of the other one
          have hmay := hchange a hmem.1 hown
          rw [hmem.2, if_neg Bool.false_ne_true] at hmay
          exact (hmay l' hl ha).symm
        case isFalse => exact hold
  · intro hs' a ha hown
    have hself' := hs'.eq_of_own_none (by rwa [hself]) hown
    rw [m_formatter_setFormatter, hself] at hself'
    cases hhas : (s.appenders a).m_hasFormatter with
    | false =>
      -- the loop has changed the appender, as the other loggers that have it would see
      rw [if_neg Bool.false_ne_true]
      intro l' hl ha'
      have hother' := hs'.eq_of_own_none (by rwa [hother l' hl]) hown
      rw [m_formatter_setFormatter, hother l' hl, if_pos ⟨ha, hhas⟩] at hother'
      exact hother'.symm
    | true =>
      rw [hhas, if_neg (by simp), hs.eq_of_own_none ha hown] at hself'
      rw [if_pos rfl]
      exact hself'.symm

/-- `addAppender` gives a formatter only to an appender without one. -/
theorem m_formatter_addAppender (s : Loggers L A P) (l : L) (a b : A) :
    ((s.addAppender l a).appenders b).m_formatter =
      if b = a ∧ (s.appenders a).m_formatter = none then (s.loggers l).m_formatter
      else (s.appenders b).m_formatter := by
  change ((if (s.appenders a).m_formatter = none then Function.update s.appenders a _
    else s.appenders) b).m_formatter = _
  split
  case isTrue hnone =>
    by_cases hba : b = a
    · subst hba
      simp [hnone]
    · simp [hba]
  case isFalse hsome => simp [hsome]

/-- After an appender has been attached, all attached appenders use the right formatter exactly if
it was allowed. -/
theorem addAppender_iff (h : Inv s) (hs : Inherits s) (l : L) (a : A) :
    MayCall s (.addAppender l a) ↔ Inherits (s.addAppender l a) := by
  have hmem : ∀ l' b, b ∈ ((s.addAppender l a).loggers l').m_appenders ↔
      b ∈ (s.loggers l').m_appenders ∨ l' = l ∧ b = a := by
    intro l' b
    by_cases hl : l' = l
    · subst hl
      simp [addAppender]
    · simp [addAppender, hl]
  have hformatter : ∀ l', ((s.addAppender l a).loggers l').m_formatter =
      (s.loggers l').m_formatter := by
    intro l'
    by_cases hl : l' = l
    · subst hl
      simp [addAppender]
    · simp [addAppender, hl]
  constructor
  · intro hmay l' b hb
    rw [m_formatter_addAppender, hformatter]
    change _ = (s.own b).or _
    -- the appender was attached before, or is the one attached now
    obtain hattached | ⟨rfl, rfl⟩ := (hmem l' b).1 hb
    · cases hown : s.own b with
      | some f =>
        rw [if_neg, h b f hown, Option.some_or]
        rintro ⟨rfl, hnone⟩
        rw [h b f hown] at hnone
        cases hnone
      | none =>
        have hold := hs.eq_of_own_none hattached hown
        rw [Option.none_or]
        split
        case isTrue heq =>
          -- the appender is attached already, so that it uses the same formatter
          obtain ⟨rfl, hnone⟩ := heq
          obtain hsame | ⟨-, hnowhere⟩ := hmay hown
          · rw [← hsame, hold]
          · exact absurd hattached (hnowhere l')
        case isFalse => exact hold
    · cases hown : s.own b with
      | some f =>
        rw [if_neg, h b f hown, Option.some_or]
        rintro ⟨-, hnone⟩
        rw [h b f hown] at hnone
        cases hnone
      | none =>
        rw [Option.none_or]
        split
        case isTrue => rfl
        case isFalse hsome =>
          obtain hsame | ⟨hnone, -⟩ := hmay hown
          · exact hsame
          · exact absurd ⟨rfl, hnone⟩ hsome
  · intro hs' hown
    have hafter : ∀ l', a ∈ ((s.addAppender l a).loggers l').m_appenders →
        (if (s.appenders a).m_formatter = none then (s.loggers l).m_formatter
          else (s.appenders a).m_formatter) = (s.loggers l').m_formatter := by
      intro l' hl
      have hl' := hs'.eq_of_own_none hl hown
      rw [m_formatter_addAppender, hformatter] at hl'
      simpa using hl'
    have hself := hafter l ((hmem l a).2 (Or.inr ⟨rfl, rfl⟩))
    split at hself
    case isTrue hnone =>
      -- attached to another logger, it has got the formatter that this one uses
      by_cases hnowhere : ∀ l', a ∉ (s.loggers l').m_appenders
      · exact Or.inr ⟨hnone, hnowhere⟩
      · push Not at hnowhere
        obtain ⟨l', hl'⟩ := hnowhere
        have hother := hafter l' ((hmem l' a).2 (Or.inl hl'))
        rw [if_pos hnone, ← hs.eq_of_own_none hl' hown] at hother
        exact Or.inl hother.symm
    case isFalse => exact Or.inl hself

end Calls

/-! ## Runs -/

section Runs

variable {s s' : Loggers L A P} {c : LoggersAction L A P}

omit [DecidableEq L] in
/-- `LogAppender::setFormatter` keeps the invariant. -/
theorem setOwn_inv (h : Inv s) (a : A) (val : Option P) : Inv (s.setOwn a val) := by
  intro b f hown
  simp only [setOwn] at hown ⊢
  by_cases hba : b = a
  · subst hba
    rw [Function.update_self] at hown ⊢
    rw [hown]
    rfl
  · rw [Function.update_of_ne hba] at hown ⊢
    exact h b f hown

omit [DecidableEq L] in
/-- A formatter of its own is the right one; without one, the appender uses none. -/
theorem setOwn_iff (h : Inherits s) (a : A) (val : Option P) :
    MayCall s (.setOwn a val) ↔ Inherits (s.setOwn a val) := by
  constructor
  · intro hmay l b hb
    simp only [setOwn] at hb ⊢
    by_cases hba : b = a
    · subst hba
      rw [Function.update_self, Function.update_self]
      cases val with
      | none => exact (hmay rfl l hb).symm
      | some f => rfl
    · rw [Function.update_of_ne hba, Function.update_of_ne hba]
      exact h l b hb
  · rintro h' rfl l ha
    have hnone := h' l a ha
    simp only [setOwn, Function.update_self] at hnone
    exact hnone.symm

/-- An appender that is detached does not inherit any more. -/
theorem delAppender_inherits (h : Inherits s) (l : L) (a : A) : Inherits (s.delAppender l a) := by
  intro l' b hb
  by_cases hl : l' = l
  · subst hl
    simp only [delAppender, Function.update_self] at hb ⊢
    exact h l' b (List.mem_of_mem_erase hb)
  · simp only [delAppender, Function.update_of_ne hl] at hb ⊢
    exact h l' b hb

/-- Every call keeps the invariant. -/
theorem step_inv (h : Inv s) (hst : s.step c = some s') : Inv s' := by
  cases c with
  | addAppender l a =>
    cases hst
    exact addAppender_inv h l a
  | delAppender l a =>
    cases hst
    exact h
  | setFormatter l val =>
    cases hst
    exact setFormatter_inv h l val
  | setPattern l val p =>
    rw [step] at hst
    split at hst
    · cases hst
      exact h
    · cases hst
      exact setFormatter_inv h l (some p)
  | setOwn a val =>
    cases hst
    exact setOwn_inv h a val

/-- The condition says exactly which calls keep the law. -/
theorem mayCall_iff (h : Inv s) (hs : Inherits s) (hst : s.step c = some s') :
    MayCall s c ↔ Inherits s' := by
  cases c with
  | addAppender l a =>
    cases hst
    exact addAppender_iff h hs l a
  | delAppender l a =>
    cases hst
    exact iff_of_true trivial (delAppender_inherits hs l a)
  | setFormatter l val =>
    cases hst
    exact setFormatter_iff h hs l val
  | setPattern l val p =>
    rw [step] at hst
    split at hst
    case isTrue herror =>
      cases hst
      refine iff_of_true (fun hfine => ?_) hs
      rw [herror] at hfine
      cases hfine
    case isFalse hfine =>
      cases hst
      rw [← setFormatter_iff h hs, MayCall, Bool.eq_false_iff]
      exact forall_prop_of_true hfine
  | setOwn a val =>
    cases hst
    exact setOwn_iff hs a val

/-- From new loggers and new appenders, whatever is in the memory of these, the runs in all of whose
states every attached appender uses the right formatter are those all of whose calls are allowed; a
pattern that is invalid changes nothing. -/
theorem inherits_iff (formatter : L → P) (memory : A → Bool) :
    (∀ (calls : List (LoggersAction L A P)) (s : Loggers L A P),
      Run (Guarded MayCall (ofFun step)) (start formatter memory) calls s ↔
        Run (Keeping Inherits (ofFun step)) (start formatter memory) calls s) ∧
      ∀ (s : Loggers L A P) (l : L) (val : List Char) (p : P),
        (LogFormatter.new val).isError = true → s.step (.setPattern l val p) = some s := by
  constructor
  · intro calls s
    apply Run.guarded_iff_keeping (I := Inv)
    · intro a f hown
      cases hown
    · intro l a ha
      cases ha
    · exact fun _ _ _ h hst => step_inv h hst
    · exact fun _ _ _ h hs hst => mayCall_iff h hs hst
  · intro s l val p herror
    rw [step, if_pos herror]

/-- The memory of the appender says that it has a formatter, so that it keeps the one that the
logger had first. -/
theorem not_inherits_memory : ∃ (calls : List (LoggersAction Unit Unit ℕ))
    (s : Loggers Unit Unit ℕ),
    Run (ofFun step) (start (fun _ => 0) fun _ => true) calls s ∧ ¬ Inherits s := by
  refine ⟨[.addAppender () (), .setFormatter () (some 1)], _, Run.of_exec rfl, fun h => ?_⟩
  cases h () () List.mem_cons_self

end Runs

end Loggers

end Sylar.Log
