import Mathlib.Data.List.Induction

/-!
# Finite runs of a labelled transition relation

A system is given by a relation `step s l s'`: from state `s`, the action `l` may lead to `s'`.
The module introduces:

* `Run step s₀ ls s` — the actions `ls`, performed in order from `s₀`, may lead to `s`;
* `Guarded C step` — the steps of `step` whose action satisfies `C` in the state it starts from;
* `Keeping P step` — the steps of `step` that lead to a state with `P`;
* `Lawful law step` — the steps of `step` that satisfy a law of their own;
* `ofFun f` and `exec f` — the relation of a partial step function, and its execution on a list
  of actions.

The rules are invariance (`Run.invariant`), invariance of a relation between the actions so far
and the state (`Run.history`), counting actions against a potential (`Run.countP_add_le`),
composing and cutting runs (`Run.append_iff`), runs of one part of a system (`Run.project`),
simulation (`Run.simulation`), and `Run.of_exec`, which turns an execution into a run.
-/

namespace Transition

variable {S L : Type*}

/-- `Run step s₀ ls s`: performing the actions `ls` in order from `s₀` may lead to `s`. -/
inductive Run (step : S → L → S → Prop) (s₀ : S) : List L → S → Prop
  | refl : Run step s₀ [] s₀
  | snoc {ls : List L} {l : L} {s s' : S} :
      Run step s₀ ls s → step s l s' → Run step s₀ (ls ++ [l]) s'

/-- The steps whose action satisfies `C` in the state it starts from. -/
def Guarded (C : S → L → Prop) (step : S → L → S → Prop) (s : S) (l : L) (s' : S) : Prop :=
  C s l ∧ step s l s'

/-- The steps that lead to a state with the property `P`. -/
def Keeping (P : S → Prop) (step : S → L → S → Prop) (s : S) (l : L) (s' : S) : Prop :=
  step s l s' ∧ P s'

/-- The steps that satisfy a law about the states before and behind them. -/
def Lawful (law step : S → L → S → Prop) (s : S) (l : L) (s' : S) : Prop :=
  step s l s' ∧ law s l s'

namespace Run

variable {step step' : S → L → S → Prop} {s₀ s : S} {ls ls₁ ls₂ : List L} {l : L}

/-- A single step is a run. -/
theorem single {s' : S} (h : step s l s') : Run step s [l] s' := by
  rw [← List.nil_append [l]]
  exact Run.snoc Run.refl h

/-- Every step relation that contains `step` has its runs. -/
theorem mono (hstep : ∀ s l s', step s l s' → step' s l s') (h : Run step s₀ ls s) :
    Run step' s₀ ls s := by
  induction h with
  | refl => exact Run.refl
  | snoc _ hst ih => exact Run.snoc ih (hstep _ _ _ hst)

/-- A guarded run is a run. -/
theorem of_guarded {C : S → L → Prop} (h : Run (Guarded C step) s₀ ls s) : Run step s₀ ls s :=
  h.mono fun _ _ _ hst => hst.2

/-- A run is guarded if its actions satisfy the guard in every state. -/
theorem guard {C : S → L → Prop} (h : Run step s₀ ls s) (hC : ∀ l ∈ ls, ∀ s, C s l) :
    Run (Guarded C step) s₀ ls s := by
  induction h with
  | refl => exact Run.refl
  | snoc _ hst ih =>
    exact Run.snoc (ih fun l hl => hC l (List.mem_append_left _ hl)) ⟨hC _ (by simp) _, hst⟩

/-- A property of the start state that every step preserves holds in every state reached. -/
theorem invariant {I : S → Prop} (h : Run step s₀ ls s) (h₀ : I s₀)
    (hstep : ∀ s l s', I s → step s l s' → I s') : I s := by
  induction h with
  | refl => exact h₀
  | snoc _ hst ih => exact hstep _ _ _ ih hst

/-- A relation between the actions performed and the state reached that holds at the start and
that every step preserves holds at the end of every run. -/
theorem history {I : List L → S → Prop} (h : Run step s₀ ls s) (h₀ : I [] s₀)
    (hstep : ∀ ls s l s', I ls s → step s l s' → I (ls ++ [l]) s') : I ls s := by
  induction h with
  | refl => exact h₀
  | snoc _ hst ih => exact hstep _ _ _ _ ih hst

/-- If every step pays for what is counted, then not more is counted than there is at the start. -/
theorem countP_add_le {I : S → Prop} {p : L → Bool} {Φ : S → ℕ} (h : Run step s₀ ls s) (h₀ : I s₀)
    (hstep : ∀ s l s', I s → step s l s' → I s' ∧ (if p l then 1 else 0) + Φ s' ≤ Φ s) :
    I s ∧ ls.countP p + Φ s ≤ Φ s₀ := by
  induction h with
  | refl => exact ⟨h₀, by simp⟩
  | snoc _ hst ih =>
    obtain ⟨hI, hle⟩ := ih
    obtain ⟨hI', hpay⟩ := hstep _ _ _ hI hst
    refine ⟨hI', ?_⟩
    rw [List.countP_append, List.countP_singleton]
    omega

/-- Runs carry over to a step relation that has the steps from the states with an invariant. -/
theorem transfer {I : S → Prop} (h : Run step s₀ ls s) (hI : I s₀)
    (hstep : ∀ s l s', I s → step s l s' → I s' ∧ step' s l s') : I s ∧ Run step' s₀ ls s := by
  induction h with
  | refl => exact ⟨hI, Run.refl⟩
  | snoc _ hst ih =>
    obtain ⟨hinv, hrun⟩ := ih
    obtain ⟨hinv', hst'⟩ := hstep _ _ _ hinv hst
    exact ⟨hinv', hrun.snoc hst'⟩

/-- If, under an invariant of the guarded steps, these are the lawful ones, then the guarded runs
are those all of whose steps are lawful. -/
theorem guarded_iff_lawful {C : S → L → Prop} {law : S → L → S → Prop} {I : S → Prop} (hI : I s₀)
    (hinv : ∀ s l s', I s → C s l → step s l s' → I s')
    (hiff : ∀ s l s', I s → step s l s' → (C s l ↔ law s l s')) :
    Run (Guarded C step) s₀ ls s ↔ Run (Lawful law step) s₀ ls s := by
  constructor
  · intro hrun
    refine (hrun.transfer hI fun s l s' hs hst => ?_).2
    obtain ⟨hC, hst⟩ := hst
    exact ⟨hinv s l s' hs hC hst, hst, (hiff s l s' hs hst).1 hC⟩
  · intro hrun
    refine (hrun.transfer hI fun s l s' hs hst => ?_).2
    obtain ⟨hst, hlaw⟩ := hst
    have hC := (hiff s l s' hs hst).2 hlaw
    exact ⟨hinv s l s' hs hC hst, hC, hst⟩

/-- If, under an invariant, the guarded steps are those that keep a property, then the guarded runs
are those all of whose states have it. -/
theorem guarded_iff_keeping {C : S → L → Prop} {I P : S → Prop} (hI : I s₀) (hP : P s₀)
    (hinv : ∀ s l s', I s → step s l s' → I s')
    (hiff : ∀ s l s', I s → P s → step s l s' → (C s l ↔ P s')) :
    Run (Guarded C step) s₀ ls s ↔ Run (Keeping P step) s₀ ls s := by
  apply guarded_iff_lawful (I := fun s => I s ∧ P s) ⟨hI, hP⟩
  · rintro s l s' ⟨hs, hp⟩ hC hst
    exact ⟨hinv s l s' hs hst, (hiff s l s' hs hp hst).1 hC⟩
  · rintro s l s' ⟨hs, hp⟩ hst
    exact hiff s l s' hs hp hst

/-- Runs compose. -/
theorem append {m : S} (h₁ : Run step s₀ ls₁ m) (h₂ : Run step m ls₂ s) :
    Run step s₀ (ls₁ ++ ls₂) s := by
  induction h₂ with
  | refl => simpa using h₁
  | snoc _ hst ih => simpa using Run.snoc ih hst

/-- If every step of a system is a run of another one, seen through `π` and `ρ`, then so is every
run. -/
theorem project {S' L' : Type*} {step' : S' → L' → S' → Prop} {π : S → S'} {ρ : L → List L'}
    (hrun : Run step s₀ ls s)
    (hstep : ∀ s l s', step s l s' → Run step' (π s) (ρ l) (π s')) :
    Run step' (π s₀) (ls.flatMap ρ) (π s) := by
  induction hrun with
  | refl => exact Run.refl
  | snoc _ hst ih =>
    rw [List.flatMap_append, List.flatMap_singleton]
    exact ih.append (hstep _ _ _ hst)

/-- If related states have related steps with the same labels, then they have related runs. -/
theorem simulation {S' : Type*} {step' : S' → L → S' → Prop} {R : S → S' → Prop} {t₀ : S'}
    (hrun : Run step s₀ ls s) (h₀ : R s₀ t₀)
    (hstep : ∀ s l s' t, R s t → step s l s' → ∃ t', step' t l t' ∧ R s' t') :
    ∃ t, Run step' t₀ ls t ∧ R s t := by
  induction hrun with
  | refl => exact ⟨t₀, Run.refl, h₀⟩
  | snoc _ hst ih =>
    obtain ⟨t, hrun', hR⟩ := ih
    obtain ⟨t', hst', hR'⟩ := hstep _ _ _ _ hR hst
    exact ⟨t', hrun'.snoc hst', hR'⟩

/-- A run from the state behind the first step. -/
theorem cons {m : S} (h : step s₀ l m) (hrun : Run step m ls s) : Run step s₀ (l :: ls) s :=
  (single h).append hrun

/-- The last step of a run. -/
theorem snoc_iff : Run step s₀ (ls ++ [l]) s ↔ ∃ m, Run step s₀ ls m ∧ step m l s := by
  refine ⟨fun h => ?_, fun ⟨m, hrun, hst⟩ => hrun.snoc hst⟩
  generalize hls : ls ++ [l] = ls' at h
  cases h with
  | refl => simp at hls
  | snoc hrun hst =>
    obtain ⟨hinit, hlast⟩ := List.append_inj' hls rfl
    obtain rfl := hinit
    obtain rfl := List.singleton_inj.mp hlast
    exact ⟨_, hrun, hst⟩

/-- A run over `ls₁ ++ ls₂` passes through a state between the two. -/
theorem append_iff :
    Run step s₀ (ls₁ ++ ls₂) s ↔ ∃ m, Run step s₀ ls₁ m ∧ Run step m ls₂ s := by
  refine ⟨fun h => ?_, fun ⟨m, h₁, h₂⟩ => h₁.append h₂⟩
  induction ls₂ using List.reverseRecOn generalizing s with
  | nil => exact ⟨s, by simpa using h, Run.refl⟩
  | append_singleton ls₂ l ih =>
    rw [← List.append_assoc] at h
    obtain ⟨m', hrun, hst⟩ := snoc_iff.mp h
    obtain ⟨m, h₁, h₂⟩ := ih hrun
    exact ⟨m, h₁, h₂.snoc hst⟩

/-- The first step of a run. -/
theorem cons_iff : Run step s₀ (l :: ls) s ↔ ∃ m, step s₀ l m ∧ Run step m ls s := by
  refine ⟨fun h => ?_, fun ⟨m, hst, hrun⟩ => hrun.cons hst⟩
  obtain ⟨m, hfirst, hrest⟩ := append_iff.mp (show Run step s₀ ([l] ++ ls) s from h)
  obtain ⟨m', hnil, hst⟩ := snoc_iff.mp (show Run step s₀ ([] ++ [l]) m from hfirst)
  generalize hls : ([] : List L) = ls' at hnil
  cases hnil with
  | refl => exact ⟨m, hst, hrest⟩
  | snoc => simp at hls

end Run

/-! ## Step functions -/

/-- The transition relation of a partial step function. -/
def ofFun (f : S → L → Option S) (s : S) (l : L) (s' : S) : Prop := f s l = some s'

/-- Perform a list of actions, stopping at the first one that is not enabled. -/
def exec (f : S → L → Option S) : S → List L → Option S
  | s, [] => some s
  | s, l :: ls => (f s l).bind fun s' => exec f s' ls

/-- An execution of a step function is a run. -/
theorem Run.of_exec {f : S → L → Option S} {s₀ s : S} {ls : List L}
    (h : exec f s₀ ls = some s) : Run (ofFun f) s₀ ls s := by
  induction ls generalizing s₀ with
  | nil =>
    obtain rfl : s₀ = s := by simpa [exec] using h
    exact Run.refl
  | cons l ls ih =>
    obtain ⟨m, hm, hrest⟩ : ∃ m, f s₀ l = some m ∧ exec f m ls = some s := by
      simpa [exec, Option.bind_eq_some_iff] using h
    have hfirst : Run (ofFun f) s₀ [l] m := Run.single hm
    exact hfirst.append (ih hrest)

end Transition
