import Mathlib.Data.Prod.Basic
import Mathlib.Logic.Function.Basic

/-!
# Resources with one holder each

A resource `r : R` is free or in use, and each time it is taken into use it gets an incarnation
`g : G`. A holder takes a free resource and gives it back.

* `Custody.Inv` — what is in use has exactly one holder, and a holder has the present incarnation
  of what it holds;
* `Custody.Step` — the steps of holders, all of which keep the invariant (`Inv.step`).
-/

/-- Which resources are in use, in which incarnation, and what the holders hold. -/
structure Custody (H R G : Type*) where
  live : R → Option G
  held : H → Option (R × G)

namespace Custody

variable {H R G : Type*}

/-- What is in use is held by one holder. -/
structure Inv (c : Custody H R G) : Prop where
  live : ∀ {h r g}, c.held h = some (r, g) → c.live r = some g
  covered : ∀ {r g}, c.live r = some g → ∃ h, c.held h = some (r, g)
  unique : ∀ {h h' r g g'}, c.held h = some (r, g) → c.held h' = some (r, g') → h = h'

variable {c c' : Custody H R G}

/-- Nobody holds what is free. -/
theorem Inv.held_ne (hinv : c.Inv) {r : R} (hfree : c.live r = none) (h : H) (g : G) :
    c.held h ≠ some (r, g) := by
  intro hheld
  rw [hinv.live hheld] at hfree
  cases hfree

variable [DecidableEq H] [DecidableEq R]

/-- The holder `h` takes the resource `r`. -/
def acquire (c : Custody H R G) (h : H) (r : R) (g : G) : Custody H R G where
  live := Function.update c.live r (some g)
  held := Function.update c.held h (some (r, g))

/-- The holder `h` gives back the resource `r`. -/
def release (c : Custody H R G) (h : H) (r : R) : Custody H R G where
  live := Function.update c.live r none
  held := Function.update c.held h none

/-- A step of the holders. -/
inductive Step (c : Custody H R G) : Custody H R G → Prop
  | stay : Step c c
  | acquire {h : H} {r : R} (g : G) (hheld : c.held h = none) (hfree : c.live r = none) :
      Step c (c.acquire h r g)
  | release {h : H} {r : R} {g : G} (hheld : c.held h = some (r, g)) : Step c (c.release h r)

/-- What is acquired is live. -/
theorem live_acquire (c : Custody H R G) (h : H) (r : R) (g : G) :
    (c.acquire h r g).live = Function.update c.live r (some g) := rfl

/-- It is held by the one who acquires it. -/
theorem held_acquire (c : Custody H R G) (h : H) (r : R) (g : G) :
    (c.acquire h r g).held = Function.update c.held h (some (r, g)) := rfl

/-- What is released is not live any more. -/
theorem live_release (c : Custody H R G) (h : H) (r : R) :
    (c.release h r).live = Function.update c.live r none := rfl

/-- Its holder holds nothing. -/
theorem held_release (c : Custody H R G) (h : H) (r : R) :
    (c.release h r).held = Function.update c.held h none := rfl

/-- A free resource may be acquired by somebody with empty hands. -/
theorem Inv.acquire (hinv : c.Inv) {h : H} {r : R} (g : G) (hheld : c.held h = none)
    (hfree : c.live r = none) : (c.acquire h r g).Inv := by
  have hother : ∀ {k r' g'}, k ≠ h → (c.acquire h r g).held k = some (r', g') →
      c.held k = some (r', g') ∧ r' ≠ r := by
    intro k r' g' hk hk'
    rw [held_acquire, Function.update_of_ne hk] at hk'
    refine ⟨hk', fun hr => ?_⟩
    subst hr
    exact hinv.held_ne hfree k g' hk'
  have hself : (c.acquire h r g).held h = some (r, g) := Function.update_self ..
  constructor
  · intro k r' g' hk
    by_cases hkh : k = h
    · subst hkh
      rw [hself, Option.some.injEq, Prod.mk.injEq] at hk
      obtain ⟨rfl, rfl⟩ := hk
      exact Function.update_self ..
    · obtain ⟨hk', hr⟩ := hother hkh hk
      rw [live_acquire, Function.update_of_ne hr]
      exact hinv.live hk'
  · intro r' g' hlive
    by_cases hr : r' = r
    · subst hr
      rw [live_acquire, Function.update_self, Option.some.injEq] at hlive
      exact ⟨h, by rw [hself, hlive]⟩
    · rw [live_acquire, Function.update_of_ne hr] at hlive
      obtain ⟨k, hk⟩ := hinv.covered hlive
      refine ⟨k, ?_⟩
      rw [held_acquire, Function.update_of_ne ?_, hk]
      rintro rfl
      rw [hheld] at hk
      cases hk
  · intro k k' r' g₁ g₂ hk hk'
    by_cases hkh : k = h
    · by_cases hkh' : k' = h
      · rw [hkh, hkh']
      · -- the other holder has another resource
        subst hkh
        rw [hself, Option.some.injEq, Prod.mk.injEq] at hk
        exact absurd hk.1.symm (hother hkh' hk').2
    · by_cases hkh' : k' = h
      · subst hkh'
        rw [hself, Option.some.injEq, Prod.mk.injEq] at hk'
        exact absurd hk'.1.symm (hother hkh hk).2
      · exact hinv.unique (hother hkh hk).1 (hother hkh' hk').1

/-- What somebody holds may be released. -/
theorem Inv.release (hinv : c.Inv) {h : H} {r : R} {g : G} (hheld : c.held h = some (r, g)) :
    (c.release h r).Inv := by
  have hold : ∀ {k r' g'}, (c.release h r).held k = some (r', g') →
      c.held k = some (r', g') ∧ r' ≠ r := by
    intro k r' g' hk
    by_cases hkh : k = h
    · rw [hkh, held_release, Function.update_self] at hk
      cases hk
    · rw [held_release, Function.update_of_ne hkh] at hk
      refine ⟨hk, fun hr => ?_⟩
      subst hr
      exact hkh (hinv.unique hk hheld)
  constructor
  · intro k r' g' hk
    obtain ⟨hk', hr⟩ := hold hk
    rw [live_release, Function.update_of_ne hr]
    exact hinv.live hk'
  · intro r' g' hlive
    by_cases hr : r' = r
    · rw [hr, live_release, Function.update_self] at hlive
      cases hlive
    · rw [live_release, Function.update_of_ne hr] at hlive
      obtain ⟨k, hk⟩ := hinv.covered hlive
      refine ⟨k, ?_⟩
      rw [held_release, Function.update_of_ne ?_, hk]
      rintro rfl
      rw [hheld, Option.some.injEq, Prod.mk.injEq] at hk
      exact hr hk.1.symm
  · intro k k' r' g₁ g₂ hk hk'
    exact hinv.unique (hold hk).1 (hold hk').1

/-- Every step keeps what is in use with one holder. -/
theorem Inv.step (hinv : c.Inv) (hstep : c.Step c') : c'.Inv := by
  cases hstep with
  | stay => exact hinv
  | acquire g hheld hfree => exact hinv.acquire g hheld hfree
  | release hheld => exact hinv.release hheld

end Custody
