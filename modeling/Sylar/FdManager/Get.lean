import Sylar.FdManager.Defs
import Sylar.Foundation.Run
import Mathlib.Logic.Function.Basic

/-!
# `FdManager::get` — one context for one descriptor

Calls `get(fd)` and `get(fd, true)` for one descriptor on any set of threads, each cut into its two
locked sections. The second section does not look again whether the slot is still empty.
`OneContext` says that all pointers returned so far are the one in the slot, and
`one_context_iff` that the runs all of whose states obey it are those in which every second section
finds the slot empty.
-/

namespace Sylar.FdManager

open Transition

/-- The manager, the threads between the two sections of a call, and the pointers that calls have
returned, null pointers aside. -/
structure Getting (T : Type*) where
  manager : FdManager
  creating : T → Bool
  returned : List ℕ

/-- One section of a call. -/
inductive GetAction (T : Type*)
  | shared (t : T) (auto_create : Bool)
  /-- `FdCtx(fd)` initializes the new context as `ctx`. -/
  | exclusive (t : T) (ctx : FdCtx)

namespace Getting

variable {T : Type*}

/-- No call is in progress; a context that is in the slot was returned by an earlier call. -/
def start (m : FdManager) (fd : ℕ) : Getting T where
  manager := m
  creating := fun _ => false
  returned := (m.slot fd).toList

/-- The state after a section of a call for `fd`, if the thread is at that section. -/
def step [DecidableEq T] (fd : ℕ) (s : Getting T) : GetAction T → Option (Getting T)
  | .shared t auto_create =>
    if s.creating t then none
    else
      match s.manager.getShared fd auto_create with
      | some p => some { s with returned := s.returned ++ p.toList }
      | none => some { s with creating := Function.update s.creating t true }
  | .exclusive t ctx =>
    if s.creating t then
      (s.manager.getExclusive fd ctx).map fun (p, m) =>
        { manager := m
          creating := Function.update s.creating t false
          returned := s.returned ++ [p] }
    else none

/-- All calls have returned the pointer that is in the slot. -/
def OneContext (fd : ℕ) (s : Getting T) : Prop := ∀ p ∈ s.returned, s.manager.slot fd = some p

/-- The second section finds the slot empty. -/
def FindsEmpty (fd : ℕ) (s : Getting T) : GetAction T → Prop
  | .shared _ _ => True
  | .exclusive _ _ => s.manager.slot fd = none

/-- The pointer in the slot has been returned. -/
def Inv (fd : ℕ) (s : Getting T) : Prop := ∀ p, s.manager.slot fd = some p → p ∈ s.returned

theorem start_oneContext (m : FdManager) (fd : ℕ) : OneContext fd (start m fd : Getting T) :=
  fun _ hp => Option.mem_toList.1 hp

theorem start_inv (m : FdManager) (fd : ℕ) : Inv fd (start m fd : Getting T) :=
  fun _ hp => Option.mem_toList.2 hp

variable [DecidableEq T] {fd : ℕ} {s s' : Getting T}

/-- What a first section does. -/
theorem shared_cases {t : T} {auto_create : Bool}
    (hst : s.step fd (.shared t auto_create) = some s') :
    s'.manager = s.manager ∧ (s'.returned = s.returned ∨
      ∃ p, s.manager.slot fd = some p ∧ s'.returned = s.returned ++ [p]) := by
  rw [step] at hst
  split at hst
  · cases hst
  · split at hst
    · rename_i p hp
      cases hst
      refine ⟨rfl, ?_⟩
      cases p with
      | none => exact Or.inl (List.append_nil _)
      | some p => exact Or.inr ⟨p, slot_of_getShared hp, rfl⟩
    · cases hst
      exact ⟨rfl, Or.inl rfl⟩

/-- What a second section does: the pointer that it returns has not been in the slot before. -/
theorem exclusive_cases {t : T} {ctx : FdCtx} (hst : s.step fd (.exclusive t ctx) = some s') :
    ∃ p, s'.manager.slot fd = some p ∧ s'.returned = s.returned ++ [p] ∧
      s.manager.slot fd ≠ some p := by
  rw [step] at hst
  split at hst
  · obtain ⟨⟨p, m⟩, hget, rfl⟩ := Option.map_eq_some_iff.1 hst
    obtain ⟨rfl, hslot, -⟩ := getExclusive_eq_some hget
    exact ⟨_, hslot, rfl, fun hold => (Nat.lt_irrefl _ (s.manager.slot_lt hold))⟩
  · cases hst

theorem inv_step {a : GetAction T} (h : Inv fd s) (hst : s.step fd a = some s') : Inv fd s' := by
  cases a with
  | shared t auto_create =>
    obtain ⟨hmanager, hsame | ⟨p, -, happend⟩⟩ := shared_cases hst
    · rw [Inv, hmanager, hsame]
      exact h
    · rw [Inv, hmanager, happend]
      exact fun q hq => List.mem_append_left _ (h q hq)
  | exclusive t ctx =>
    obtain ⟨p, hslot, happend, -⟩ := exclusive_cases hst
    rw [Inv, hslot, happend]
    rintro q hq
    rw [Option.some_inj.1 hq]
    exact List.mem_append_right _ List.mem_cons_self

/-- A step keeps the one context exactly if a second section finds the slot empty. -/
theorem findsEmpty_iff {a : GetAction T} (h : Inv fd s) (hone : OneContext fd s)
    (hst : s.step fd a = some s') : FindsEmpty fd s a ↔ OneContext fd s' := by
  cases a with
  | shared t auto_create =>
    refine iff_of_true trivial ?_
    -- nothing is stored, and what is returned is in the slot
    obtain ⟨hmanager, hsame | ⟨p, hslot, happend⟩⟩ := shared_cases hst
    · rw [OneContext, hmanager, hsame]
      exact hone
    · rw [OneContext, hmanager, happend]
      intro q hq
      obtain hq | hq := List.mem_append.1 hq
      · exact hone q hq
      · rw [List.mem_singleton.1 hq]
        exact hslot
  | exclusive t ctx =>
    obtain ⟨p, hslot, happend, hnew⟩ := exclusive_cases hst
    constructor
    · intro hempty q hq
      rw [happend] at hq
      obtain hq | hq := List.mem_append.1 hq
      · -- nothing was returned before
        have hold := hone q hq
        rw [show s.manager.slot fd = none from hempty] at hold
        cases hold
      · rw [List.mem_singleton.1 hq]
        exact hslot
    · intro hone'
      rw [FindsEmpty, Option.eq_none_iff_forall_ne_some]
      intro q hq
      -- what was in the slot has been returned, but it is not the new pointer
      have hstored : s'.manager.slot fd = some q := by
        refine hone' q ?_
        rw [happend]
        exact List.mem_append_left _ (h q hq)
      exact hnew (hq.trans (hstored.symm.trans hslot))

omit [DecidableEq T] in
/-- With one context, what one caller sets in it is what the next call finds. -/
theorem OneContext.lookup_modify (h : OneContext fd s) {p : ℕ} (hp : p ∈ s.returned)
    {q : ℕ} {ctx : FdCtx} (hlookup : s.manager.lookup fd = some (q, ctx)) (f : FdCtx → FdCtx) :
    (s.manager.modify p f).lookup fd = some (p, f ctx) := by
  have hqp : q = p := by
    obtain ⟨q', hq', hctx⟩ := Option.bind_eq_some_iff.1 hlookup
    obtain ⟨_, -, hpair⟩ := Option.map_eq_some_iff.1 hctx
    obtain ⟨rfl, -⟩ := Prod.mk.inj hpair
    have hslot := slot_of_getShared (Option.join_eq_some_iff.1 hq')
    exact Option.some_inj.1 (hslot.symm.trans (h p hp))
  subst hqp
  rw [FdManager.lookup_modify, hlookup]
  simp

/-- A timeout that one of two callers sets. -/
example : (let m := (new.getExclusive 5 ⟨true, true, true, false, false, 5, 0, 0⟩).getD (0, new)
    (m.2.modify m.1 (·.setTimeout .SO_RCVTIMEO 7)).lookup 5) =
      some (0, ⟨true, true, true, false, false, 5, 7, 0⟩) := by decide

/-- The runs from any `m_datas` all of whose states have one context are those in which every second
section finds the slot empty. -/
theorem one_context_iff (m : FdManager) (fd : ℕ) :
    OneContext fd (start m fd : Getting T) ∧ ∀ (actions : List (GetAction T)) (s : Getting T),
      Run (Guarded (FindsEmpty fd) (ofFun (step fd))) (start m fd) actions s ↔
        Run (Keeping (OneContext fd) (ofFun (step fd))) (start m fd) actions s :=
  ⟨start_oneContext m fd, fun _ _ =>
    Run.guarded_iff_keeping (start_inv m fd) (start_oneContext m fd)
      (fun _ _ _ h hst => inv_step h hst) fun _ _ _ h hone hst => findsEmpty_iff h hone hst⟩

/-- Two threads find no context and create one each. -/
theorem not_oneContext_twice : ∃ (actions : List (GetAction Bool)) (s : Getting Bool),
    Run (ofFun (step 5)) (start new 5) actions s ∧ ¬ OneContext 5 s := by
  let ctx : FdCtx := ⟨true, true, true, false, false, 5, 0, 0⟩
  refine ⟨[.shared true true, .shared false true, .exclusive true ctx, .exclusive false ctx], _,
    Run.of_exec rfl, fun h => ?_⟩
  cases h 0 List.mem_cons_self

end Getting

end Sylar.FdManager
