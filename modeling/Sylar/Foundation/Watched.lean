import Mathlib.Data.UInt

/-!
# Machine arithmetic under watch

Unsigned arithmetic wraps without notice. A `Watched α` is a result together with the note whether
it was computed exactly: no difference, sum or product has wrapped, and nothing was divided by zero.
The results are the machine's in any case.

`Meets x post` says that `x` is exact and that its result satisfies `post`. The rules for it are
`Meets.pure`, `Meets.bind` and `Meets.mono`, and one rule for each operation, which gives the result
as a natural number.
-/

namespace Machine

/-- A result, and whether it was computed exactly. -/
structure Watched (α : Type*) where
  val : α
  exact : Bool

instance : Monad Watched where
  pure a := { val := a, exact := true }
  bind x f := { val := (f x.val).val, exact := x.exact && (f x.val).exact }

/-- The difference. -/
def sub (a b : UInt64) : Watched UInt64 := { val := a - b, exact := b ≤ a }

/-- The sum. -/
def add (a b : UInt64) : Watched UInt64 := { val := a + b, exact := a.toNat + b.toNat < 2 ^ 64 }

/-- The product. -/
def mul (a b : UInt64) : Watched UInt64 := { val := a * b, exact := a.toNat * b.toNat < 2 ^ 64 }

/-- The quotient. -/
def div (a b : UInt64) : Watched UInt64 := { val := a / b, exact := b ≠ 0 }

/-- The result is exact, and satisfies `post`. -/
def Meets {α : Type*} (x : Watched α) (post : α → Prop) : Prop := x.exact = true ∧ post x.val

namespace Meets

universe u

variable {α β : Type u} {x : Watched α} {post post' : α → Prop} {a b : UInt64}

/-- A value is exact. -/
theorem pure {a : α} (h : post a) : Meets (Pure.pure a) post := ⟨rfl, h⟩

/-- A condition may be weakened. -/
theorem mono (h : Meets x post) (hpost : ∀ a, post a → post' a) : Meets x post' :=
  ⟨h.1, hpost _ h.2⟩

/-- What a result satisfies, the rest of a computation may rely on. -/
theorem bind {f : α → Watched β} {goal : β → Prop} (h : Meets x post)
    (hf : ∀ a, post a → Meets (f a) goal) : Meets (x >>= f) goal := by
  obtain ⟨hexact, hgoal⟩ := hf x.val h.2
  refine ⟨?_, hgoal⟩
  change (x.exact && (f x.val).exact) = true
  rw [h.1, hexact]
  rfl

/-- A difference is exact if it is not negative. -/
theorem sub (h : b ≤ a) : Meets (Machine.sub a b) fun d => d.toNat = a.toNat - b.toNat :=
  ⟨decide_eq_true h, UInt64.toNat_sub_of_le _ _ h⟩

/-- A sum is exact if it does not wrap. -/
theorem add (h : a.toNat + b.toNat < 2 ^ 64) :
    Meets (Machine.add a b) fun s => s.toNat = a.toNat + b.toNat :=
  ⟨decide_eq_true h, (UInt64.toNat_add a b).trans (Nat.mod_eq_of_lt h)⟩

/-- A product is exact if it does not wrap. -/
theorem mul (h : a.toNat * b.toNat < 2 ^ 64) :
    Meets (Machine.mul a b) fun p => p.toNat = a.toNat * b.toNat :=
  ⟨decide_eq_true h, (UInt64.toNat_mul a b).trans (Nat.mod_eq_of_lt h)⟩

/-- A quotient is exact if the divisor is not zero. -/
theorem div (h : b ≠ 0) : Meets (Machine.div a b) fun q => q.toNat = a.toNat / b.toNat :=
  ⟨decide_eq_true h, UInt64.toNat_div a b⟩

end Meets

end Machine
