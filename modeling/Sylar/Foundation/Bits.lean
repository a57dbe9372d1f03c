import Sylar.Foundation.Bytes

/-!
# The bits of a byte string

`bit bs i` is the `i`-th bit of a byte string in network order: the bits of a byte follow one
another from the most significant one on. `bit_toLE` and `bit_reverse_toLE` are the bits of a number
in its two byte orders, and a byte string is determined by its bits (`eq_of_bit`).

`IsPrefix p bs bs'` says that `bs'` is `bs` with all bits but the first `p` cleared.
-/

namespace Bytes

/-- The `i`-th bit, in network order. -/
def bit (bs : List UInt8) (i : ℕ) : Bool := (bs[i / 8]?.getD 0).toNat.testBit (7 - i % 8)

theorem getElem?_toLE {n k : ℕ} (x : ℕ) (h : k < n) :
    (toLE n x)[k]? = some (UInt8.ofNat (x / 256 ^ k % 256)) := by
  induction n generalizing k x with
  | zero => cases h
  | succ n ih =>
    cases k with
    | zero => rw [toLE, List.getElem?_cons_zero, pow_zero, Nat.div_one]
    | succ k =>
      rw [toLE, List.getElem?_cons_succ, ih _ (Nat.lt_of_succ_lt_succ h), Nat.div_div_eq_div_mul,
        pow_succ']

/-- A bit of one of the bytes of a number. -/
theorem testBit_byte (x k : ℕ) {j : ℕ} (h : j < 8) :
    (UInt8.ofNat (x / 256 ^ k % 256)).toNat.testBit j = x.testBit (8 * k + j) := by
  have hpow : 256 ^ k = 2 ^ (8 * k) := by
    rw [pow_mul]
    norm_num
  rw [UInt8.toNat_ofNat', hpow, Nat.mod_mod_of_dvd _ (dvd_refl _), show 256 = 2 ^ 8 from rfl,
    Nat.testBit_mod_two_pow, Nat.testBit_div_two_pow, decide_eq_true h, Bool.true_and, Nat.add_comm]

theorem bit_toLE {n i : ℕ} (x : ℕ) (h : i < 8 * n) :
    bit (toLE n x) i = x.testBit (8 * (i / 8) + (7 - i % 8)) := by
  rw [bit, getElem?_toLE x (by omega), Option.getD_some, testBit_byte x _ (by omega)]

theorem bit_reverse_toLE {n i : ℕ} (x : ℕ) (h : i < 8 * n) :
    bit (toLE n x).reverse i = x.testBit (8 * n - 1 - i) := by
  have hindex : (toLE n x).length - 1 - i / 8 = n - 1 - i / 8 := by rw [length_toLE]
  rw [bit, List.getElem?_reverse (by rw [length_toLE]; omega), hindex, getElem?_toLE x (by omega),
    Option.getD_some, testBit_byte x _ (by omega)]
  congr 1
  omega

/-- A byte is determined by its bits. -/
theorem byte_eq_of_testBit {b c : UInt8} (h : ∀ j < 8, b.toNat.testBit j = c.toNat.testBit j) :
    b = c := by
  apply UInt8.toNat_inj.1
  apply Nat.eq_of_testBit_eq
  intro j
  by_cases hj : j < 8
  · exact h j hj
  · have hlarge : ∀ b : UInt8, b.toNat.testBit j = false := fun b =>
      Nat.testBit_lt_two_pow (b.toNat_lt.trans_le (Nat.pow_le_pow_right (by decide) (by omega)))
    rw [hlarge, hlarge]

/-- A byte string is determined by its bits. -/
theorem eq_of_bit {bs bs' : List UInt8} (hlen : bs.length = bs'.length)
    (h : ∀ i < 8 * bs.length, bit bs i = bit bs' i) : bs = bs' := by
  apply List.ext_getElem hlen
  intro k hk hk'
  apply byte_eq_of_testBit
  intro j hj
  have hbit := h (8 * k + (7 - j)) (by omega)
  have hquot : (8 * k + (7 - j)) / 8 = k := by omega
  have hrem : 7 - (8 * k + (7 - j)) % 8 = j := by omega
  rw [bit, bit, hquot, hrem, List.getElem?_eq_getElem hk, List.getElem?_eq_getElem hk'] at hbit
  exact hbit

/-- The bits after one byte has been replaced. -/
theorem bit_set {bs : List UInt8} {k : ℕ} (hk : k < bs.length) (b : UInt8) (i : ℕ) :
    bit (bs.set k b) i = if i / 8 = k then b.toNat.testBit (7 - i % 8) else bit bs i := by
  by_cases heq : i / 8 = k
  · rw [bit, heq, List.getElem?_set_self hk, if_pos rfl, Option.getD_some]
  · rw [bit, List.getElem?_set_ne (Ne.symm heq), if_neg heq, bit]

/-! ## Prefixes -/

/-- The bytes `bs'` have the first `p` bits of `bs`, and no others. -/
structure IsPrefix (p : ℕ) (bs bs' : List UInt8) : Prop where
  length_eq : bs'.length = bs.length
  bit_eq : ∀ i < 8 * bs.length, bit bs' i = (decide (i < p) && bit bs i)

variable {p : ℕ} {bs bs' cs cs' : List UInt8}

/-- Byte strings with the same first `p` bits have the same prefix. -/
theorem IsPrefix.congr (h : IsPrefix p bs bs') (h' : IsPrefix p cs cs')
    (hlen : cs.length = bs.length) (hsame : ∀ i < 8 * bs.length, i < p → bit cs i = bit bs i) :
    cs' = bs' := by
  apply eq_of_bit
  · rw [h'.length_eq, h.length_eq, hlen]
  · intro i hi
    rw [h'.length_eq, hlen] at hi
    rw [h'.bit_eq i (by rwa [hlen]), h.bit_eq i hi]
    by_cases hp : i < p
    · rw [hsame i hi hp]
    · rw [decide_eq_false hp, Bool.false_and, Bool.false_and]

/-- The prefix of a prefix is the prefix itself. -/
theorem IsPrefix.idem (h : IsPrefix p bs bs') (h' : IsPrefix p bs' cs') : cs' = bs' := by
  apply h.congr h' h.length_eq
  intro i hi hp
  rw [h.bit_eq i hi, decide_eq_true hp, Bool.true_and]

end Bytes
