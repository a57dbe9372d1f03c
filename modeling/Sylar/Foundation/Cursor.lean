import Sylar.Foundation.Slice

/-!
# A string with a cursor

`Cursor α` is a finite string of symbols with a position inside or at its end. It is written and
read at the position, which moves behind what has been written or read. `rest` is what is left to
read.
-/

/-- A string with a position in it. -/
@[ext]
structure Cursor (α : Type*) where
  content : List α
  position : ℕ
  position_le : position ≤ content.length

namespace Cursor

open Slice

variable {α : Type*}

/-- The empty string. -/
def new : Cursor α := ⟨[], 0, Nat.le_refl 0⟩

/-- What is left to read. -/
def rest (c : Cursor α) : List α := c.content.drop c.position

theorem le_length_overwrite {l d : List α} {p : ℕ} (h : p ≤ l.length) :
    p + d.length ≤ (overwrite l p d).length := by
  simp only [overwrite, List.length_append, List.length_take, List.length_drop]
  omega

/-- Put `d` over the symbols from the position on, and behind the end as far as they do not
suffice. -/
def write (c : Cursor α) (d : List α) : Cursor α where
  content := overwrite c.content c.position d
  position := c.position + d.length
  position_le := le_length_overwrite c.position_le

/-- Move on by `n` symbols. -/
def advance (c : Cursor α) (n : ℕ) (h : c.position + n ≤ c.content.length) : Cursor α where
  content := c.content
  position := c.position + n
  position_le := h

/-- Move to `v`. -/
def seek (c : Cursor α) (v : ℕ) (h : v ≤ c.content.length) : Cursor α where
  content := c.content
  position := v
  position_le := h

end Cursor
