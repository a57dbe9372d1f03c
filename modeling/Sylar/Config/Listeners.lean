import Sylar.Config.Defs
import Sylar.Foundation.Run

/-!
# Listeners and the changes they see

The runs of `addListener`, `delListener`, `setValue` and `fromString` on a variable. The listeners
may throw, and each call of `setValue` or `fromString` comes with what they do in it.

`SeesChange` is the law of a call: who is notified of a change has seen the value before the call
and the value behind it. As the listeners are called before the value is assigned, a listener that
throws leaves those called with a change that does not happen: `seesChange_iff` says that the calls
without this are the ones that satisfy the law.
-/

namespace Sylar.Config

open Transition

/-- A variable with `s_fun_id`, which the variables of the type share, and the notifications that
the last call has sent. -/
structure Listened (T : Type) where
  var : ConfigVar T
  s_fun_id : UInt64
  notified : List (Notification T)

/-- A call of a function of the variable, where `call` says how the listeners end, or a call of
`addListener` of another variable. -/
inductive ListenedAction (T : Type) where
  | addListener
  | addElsewhere
  | delListener (key : UInt64)
  | setValue (call : UInt64 → Exit) (v : T)
  | fromString (call : UInt64 → Exit) (val : List Char)

namespace Listened

variable {T : Type} [DecidableEq T] (fromStr : List Char → Option T)

/-- The state behind a call that has sent these notifications. -/
def update (s : Listened T) (result : Update T) : Listened T :=
  { s with var := result.var, notified := result.notified }

/-- What a call leaves, whether it returns or throws. -/
def next (s : Listened T) : ListenedAction T → Listened T
  | .addListener =>
    { var := s.var.addListener s.s_fun_id, s_fun_id := s.s_fun_id + 1, notified := [] }
  | .addElsewhere => { s with s_fun_id := s.s_fun_id + 1, notified := [] }
  | .delListener key => { s with var := s.var.delListener key, notified := [] }
  | .setValue call v => s.update (s.var.setValue call v)
  | .fromString call val => s.update (s.var.fromString fromStr call val)

/-- The steps of a run are calls. -/
def Step (s : Listened T) (a : ListenedAction T) (s' : Listened T) : Prop := s.next fromStr a = s'

/-- Who has been notified by a call has seen a change that happened, and a call that leaves the
value has notified nobody. -/
def SeesChange (s : Listened T) (_ : ListenedAction T) (s' : Listened T) : Prop :=
  (∀ n ∈ s'.notified, s.var.m_val = n.old_value ∧ s'.var.m_val = n.new_value) ∧
    (s'.var.m_val = s.var.m_val → s'.notified = [])

/-- An assignment changes nothing, or no listener throws in it. -/
def Uninterrupted (s : Listened T) (call : UInt64 → Exit) (v : T) : Prop :=
  v = s.var.m_val ∨ ∀ key ∈ s.var.m_cbs, call key = .returned

/-- The calls in which no change is interrupted by a listener. -/
def Quiet (s : Listened T) : ListenedAction T → Prop
  | .setValue call v => s.Uninterrupted call v
  | .fromString call val => ∀ v, fromStr val = some v → s.Uninterrupted call v
  | _ => True

end Listened

/-! ## Notifications -/

section Notifications

variable {T : Type} [DecidableEq T] {call : UInt64 → Exit} {cbs : List UInt64}

/-- All listeners are called if none throws. -/
theorem notify_of_returned (h : ∀ key ∈ cbs, call key = .returned) :
    ConfigVar.notify call cbs = (cbs, .returned) := by
  induction cbs with
  | nil => rfl
  | cons key cbs ih =>
    obtain ⟨hkey, hcbs⟩ := List.forall_mem_cons.1 h
    rw [ConfigVar.notify, hkey]
    dsimp only
    rw [ih hcbs]

/-- The exception of a listener, which has been called, ends the loop. -/
theorem notify_of_thrown (h : ¬ ∀ key ∈ cbs, call key = .returned) :
    (ConfigVar.notify call cbs).1 ≠ [] ∧ (ConfigVar.notify call cbs).2 ≠ .returned := by
  induction cbs with
  | nil => exact absurd (List.forall_mem_nil _) h
  | cons key cbs ih =>
    rw [ConfigVar.notify]
    cases hkey : call key with
    | returned =>
      have hcbs : ¬ ∀ key ∈ cbs, call key = .returned := fun hall =>
        h (List.forall_mem_cons.2 ⟨hkey, hall⟩)
      exact ⟨List.cons_ne_nil _ _, (ih hcbs).2⟩
    | stdException | otherException => exact ⟨List.cons_ne_nil _ _, Exit.noConfusion⟩

/-- The calls of `setValue` that satisfy the law. -/
theorem seesChange_setValue_iff (s : Listened T) (a : ListenedAction T) (v : T) :
    s.SeesChange a (s.update (s.var.setValue call v)) ↔ s.Uninterrupted call v := by
  rw [ConfigVar.setValue]
  split
  case isTrue heq =>
    -- nothing changes, and nobody is called
    refine iff_of_true ⟨fun n hn => ?_, fun _ => rfl⟩ (.inl heq)
    cases hn
  case isFalse hne =>
    rw [Listened.Uninterrupted, or_iff_right hne]
    by_cases hquiet : ∀ key ∈ s.var.m_cbs, call key = .returned
    · -- all are called with the old and the new value, and the new one is assigned
      rw [iff_true_right hquiet, notify_of_returned hquiet]
      refine ⟨fun n hn => ?_, fun heq => absurd heq hne⟩
      obtain ⟨key, -, rfl⟩ := List.mem_map.1 hn
      exact ⟨rfl, rfl⟩
    · -- the exception leaves the old value, and a listener that has been told of the new one
      refine iff_of_false ?_ hquiet
      obtain ⟨hcalled, hexit⟩ := notify_of_thrown hquiet
      rintro ⟨-, hnobody⟩
      dsimp only at hnobody
      rw [Listened.update, if_neg hexit] at hnobody
      have hnone := hnobody rfl
      exact hcalled (List.map_eq_nil_iff.1 hnone)

theorem fromString_of_some {fromStr : List Char → Option T} {val : List Char} {v : T}
    (h : fromStr val = some v) (s : Listened T) :
    s.update (s.var.fromString fromStr call val) = s.update (s.var.setValue call v) := by
  rw [ConfigVar.fromString, h]
  rfl

/-- The calls that satisfy the law are those in which no change is interrupted. -/
theorem quiet_iff_seesChange {fromStr : List Char → Option T} (s : Listened T)
    (a : ListenedAction T) : s.Quiet fromStr a ↔ s.SeesChange a (s.next fromStr a) := by
  have hsilent : ∀ s' : Listened T, s'.notified = [] → s.SeesChange a s' := by
    intro s' hnone
    refine ⟨fun n hn => ?_, fun _ => hnone⟩
    rw [hnone] at hn
    cases hn
  cases a with
  | addListener | addElsewhere | delListener key => exact iff_of_true trivial (hsilent _ rfl)
  | setValue call v => exact (seesChange_setValue_iff s _ v).symm
  | fromString call val =>
    rw [Listened.Quiet, Listened.next]
    cases hval : fromStr val with
    | none =>
      refine iff_of_true (fun v hv => by cases hv) (hsilent _ ?_)
      rw [ConfigVar.fromString, hval]
      rfl
    | some v =>
      rw [fromString_of_some hval, seesChange_setValue_iff]
      exact ⟨fun h => h v rfl, fun h _ heq => Option.some_inj.1 heq ▸ h⟩

end Notifications

/-- The runs in which listeners see only changes that happen are those in which no listener throws
in a call that changes the value. -/
theorem seesChange_iff {T : Type} [DecidableEq T] (fromStr : List Char → Option T)
    (s₀ : Listened T) (actions : List (ListenedAction T)) (s : Listened T) :
    Run (Guarded (Listened.Quiet fromStr) (Listened.Step fromStr)) s₀ actions s ↔
      Run (Lawful Listened.SeesChange (Listened.Step fromStr)) s₀ actions s := by
  apply Run.guarded_iff_lawful (I := fun _ => True) trivial
  · intro s a s' _ _ _
    trivial
  · rintro s a s' - rfl
    exact quiet_iff_seesChange s a

/-- A listener of a variable with the value 0 throws when the value becomes 1: it has been told of a
change that has not happened. -/
theorem not_seesChange_throwing : ∃ (actions : List (ListenedAction ℕ)) (s : Listened ℕ)
    (a : ListenedAction ℕ),
      Run (Listened.Step fun _ => none) ⟨⟨0, []⟩, 0, []⟩ actions s ∧
      (∃ n ∈ (s.next (fun _ => none) a).notified, n.old_value = 0 ∧ n.new_value = 1) ∧
      (s.next (fun _ => none) a).var.m_val = 0 ∧
      ¬ s.SeesChange a (s.next (fun _ => none) a) := by
  refine ⟨[.addListener], _, .setValue (fun _ => .stdException) 1, Run.single rfl, ?_, rfl, ?_⟩
  · exact ⟨_, List.mem_singleton_self _, rfl, rfl⟩
  · rintro ⟨-, hnobody⟩
    cases hnobody rfl

end Sylar.Config
