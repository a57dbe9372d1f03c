import Mathlib.Data.List.Basic
import Mathlib.Tactic.IntervalCases

/-!
# Reading numbers from their digits

`readNumber b cs` reads a number in base `b ≤ 16` from its digits, the most significant one first,
in either case. It inverts `Nat.toDigits` (`readNumber_toDigits`), which writes a number without
leading zeros and in lower case.
-/

namespace Digits

/-- The value of a digit. -/
def digitVal (c : Char) : Option ℕ :=
  if '0' ≤ c ∧ c ≤ '9' then some (c.toNat - '0'.toNat)
  else if 'a' ≤ c ∧ c ≤ 'f' then some (c.toNat - 'a'.toNat + 10)
  else if 'A' ≤ c ∧ c ≤ 'F' then some (c.toNat - 'A'.toNat + 10)
  else none

/-- The number read so far, with one more digit. -/
def readDigit (b acc : ℕ) (c : Char) : Option ℕ :=
  (digitVal c).bind fun d => if d < b then some (b * acc + d) else none

/-- The number with these digits in base `b`; there is at least one. -/
def readNumber (b : ℕ) (cs : List Char) : Option ℕ :=
  if cs = [] then none else cs.foldlM (readDigit b) 0

theorem digitVal_digitChar {d : ℕ} (h : d < 16) : digitVal d.digitChar = some d := by
  interval_cases d <;> decide

theorem readDigit_digitChar {b d : ℕ} (acc : ℕ) (hb : b ≤ 16) (h : d < b) :
    readDigit b acc d.digitChar = some (b * acc + d) := by
  rw [readDigit, digitVal_digitChar (by omega), Option.bind_some, if_pos h]

/-- Reading inverts writing. -/
theorem readNumber_toDigits {b : ℕ} (hb : 1 < b) (hb' : b ≤ 16) (n : ℕ) :
    readNumber b (Nat.toDigits b n) = some n := by
  rw [readNumber, if_neg Nat.toDigits_ne_nil]
  induction n using Nat.base_induction b hb with
  | single m hm => simp [Nat.toDigits_of_lt_base hm, readDigit_digitChar 0 hb' hm]
  | digit m k hk hm ih =>
    -- the last digit is read last
    rw [← Nat.toDigits_append_toDigits hb hm hk, List.foldlM_append, ih,
      Nat.toDigits_of_lt_base hk]
    simp [readDigit_digitChar m hb' hk]

theorem toDigits_injective {b : ℕ} (hb : 1 < b) (hb' : b ≤ 16) :
    Function.Injective (Nat.toDigits b) := by
  intro m n h
  have hread := congrArg (readNumber b) h
  rwa [readNumber_toDigits hb hb', readNumber_toDigits hb hb', Option.some_inj] at hread

/-- A character that is no digit does not occur in a number. -/
theorem not_mem_toDigits {b : ℕ} (hb : 1 < b) (hb' : b ≤ 16) (n : ℕ) {c : Char}
    (hc : digitVal c = none) : c ∉ Nat.toDigits b n := by
  have hne : ∀ d < b, c ≠ d.digitChar := by
    rintro d hd rfl
    rw [digitVal_digitChar (by omega)] at hc
    cases hc
  induction n using Nat.base_induction b hb with
  | single m hm => simpa [Nat.toDigits_of_lt_base hm] using hne m hm
  | digit m k hk hm ih =>
    rw [← Nat.toDigits_append_toDigits hb hm hk, Nat.toDigits_of_lt_base hk]
    simp [ih, hne k hk]

end Digits
