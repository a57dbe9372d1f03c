import Sylar.Foundation.OrderedSet
import Mathlib.Data.UInt

/-!
# The order of addresses

Model of the comparisons of `Address` from `socket/address.cpp`. An address of any kind is compared
by its raw bytes, however many they are: `lt_iff_compare` says that `operator<` is the
lexicographic order, in which a proper prefix comes first.
-/

namespace Sylar.Address

/-- The sign of `memcmp(a, b, n)`. -/
def memcmp : ℕ → List UInt8 → List UInt8 → Ordering
  | n + 1, x :: a, y :: b =>
    match compare x y with
    | .lt => .lt
    | .gt => .gt
    | .eq => memcmp n a b
  | _, _, _ => .eq

/-- The `sockaddr` of an address: the `getAddrLen()` bytes at `getAddr()`. -/
@[ext]
structure Sockaddr where
  getAddr : List UInt8

namespace Sockaddr

/-- `getAddrLen()`. -/
def getAddrLen (a : Sockaddr) : ℕ := a.getAddr.length

/-- `operator<`. -/
def lt (a rhs : Sockaddr) : Bool :=
  let mn := min a.getAddrLen rhs.getAddrLen
  match memcmp mn a.getAddr rhs.getAddr with
  | .lt => true
  | .gt => false
  | .eq => a.getAddrLen < rhs.getAddrLen

/-- `operator==`. -/
def eq (a rhs : Sockaddr) : Bool :=
  a.getAddrLen = rhs.getAddrLen && memcmp a.getAddrLen a.getAddr rhs.getAddr = .eq

/-- `operator!=`. -/
def ne (a rhs : Sockaddr) : Bool := !a.eq rhs

end Sockaddr

/-- What the common prefix leaves open, the lengths decide. -/
theorem compare_eq_memcmp (a b : List UInt8) : compare a b =
    (memcmp (min a.length b.length) a b).then (compare a.length b.length) := by
  induction a generalizing b with
  | nil =>
    cases b with
    | nil => rfl
    | cons y b =>
      rw [List.compare_nil_cons, List.length_nil, Nat.zero_min]
      exact (Nat.compare_eq_lt.2 (Nat.succ_pos _)).symm
  | cons x a ih =>
    cases b with
    | nil =>
      rw [List.compare_cons_nil, List.length_nil, Nat.min_zero]
      exact (Nat.compare_eq_gt.2 (Nat.succ_pos _)).symm
    | cons y b =>
      -- the first bytes decide, or both sides go on with the rest
      have hlength : compare (a.length + 1) (b.length + 1) = compare a.length b.length := by
        simp only [Nat.compare_eq_ite_lt, Nat.succ_lt_succ_iff]
      rw [List.compare_cons_cons, List.length_cons, List.length_cons, Nat.succ_min_succ, memcmp, ih,
        hlength]
      cases compare x y with
      | lt => rfl
      | gt => rfl
      | eq => rfl

namespace Sockaddr

variable {a b c : Sockaddr}

/-- `operator<` is the lexicographic order. -/
theorem lt_iff_compare : a.lt b = true ↔ compare a.getAddr b.getAddr = .lt := by
  rw [lt, compare_eq_memcmp, getAddrLen, getAddrLen]
  cases memcmp (min a.getAddr.length b.getAddr.length) a.getAddr b.getAddr with
  | lt => exact iff_of_true rfl rfl
  | gt => exact iff_of_false Bool.false_ne_true Ordering.noConfusion
  | eq => exact decide_eq_true_iff.trans Nat.compare_eq_lt.symm

/-- `operator==` is the equality of the bytes. -/
theorem eq_iff_compare : a.eq b = true ↔ compare a.getAddr b.getAddr = .eq := by
  rw [eq, Bool.and_eq_true, decide_eq_true_iff, decide_eq_true_iff, compare_eq_memcmp,
    Ordering.then_eq_eq, Nat.compare_eq_eq, getAddrLen, getAddrLen, and_comm]
  -- with equal lengths, the common prefix is all there is
  apply and_congr_left
  intro hlen
  rw [← hlen, Nat.min_self]

theorem eq_iff : a.eq b = true ↔ a.getAddr = b.getAddr :=
  eq_iff_compare.trans Std.compare_eq_iff_eq

theorem lt_irrefl (a : Sockaddr) : ¬ a.lt a := by
  rw [lt_iff_compare, Std.compare_eq_iff_eq.2 rfl]
  decide

theorem lt_trans (hab : a.lt b) (hbc : b.lt c) : a.lt c := by
  rw [lt_iff_compare] at hab hbc ⊢
  exact Std.TransCmp.lt_trans hab hbc

theorem lt_or_gt_or_eq (a b : Sockaddr) :
    (a.lt b ∧ ¬ b.lt a ∧ ¬ a.eq b) ∨ (¬ a.lt b ∧ b.lt a ∧ ¬ a.eq b) ∨
      (¬ a.lt b ∧ ¬ b.lt a ∧ a.eq b) := by
  have hswap : compare b.getAddr a.getAddr = (compare a.getAddr b.getAddr).swap :=
    Std.OrientedCmp.eq_swap
  rw [lt_iff_compare, lt_iff_compare, eq_iff_compare, hswap]
  cases compare a.getAddr b.getAddr with
  | lt => exact .inl (by decide)
  | gt => exact .inr (.inl (by decide))
  | eq => exact .inr (.inr (by decide))

/-- The comparisons of addresses are those of a strict total order, with `operator==` for equality,
so that addresses can be the keys of an ordered container. -/
theorem isStrictTotalOrder :
    (∀ a : Sockaddr, ¬ a.lt a) ∧
    (∀ a b c : Sockaddr, a.lt b → b.lt c → a.lt c) ∧
    (∀ a b : Sockaddr, (a.lt b ∧ ¬ b.lt a ∧ ¬ a.eq b) ∨ (¬ a.lt b ∧ b.lt a ∧ ¬ a.eq b) ∨
      (¬ a.lt b ∧ ¬ b.lt a ∧ a.eq b)) ∧
    (∀ a b : Sockaddr,
      (a.eq b ↔ a.getAddrLen = b.getAddrLen ∧
        ∀ i < a.getAddrLen, a.getAddr[i]? = b.getAddr[i]?) ∧
      (a.ne b ↔ ¬ a.eq b)) ∧
    OrderedSet.StrictOrderOn lt fun _ => True := by
  refine ⟨lt_irrefl, fun _ _ _ => lt_trans, lt_or_gt_or_eq, fun a b => ⟨?_, ?_⟩, ?_⟩
  · rw [eq_iff]
    constructor
    · intro h
      exact ⟨congrArg List.length h, fun i _ => by rw [h]⟩
    · rintro ⟨hlen, hbytes⟩
      apply List.ext_getElem hlen
      intro i hi hi'
      apply Option.some_inj.1
      rw [← List.getElem?_eq_getElem hi, ← List.getElem?_eq_getElem hi']
      exact hbytes i hi
  · rw [ne, Bool.not_eq_true', Bool.not_eq_true]
  · exact {
      irrefl := fun a _ => Bool.not_eq_true _ ▸ lt_irrefl a
      trans := fun _ _ _ _ _ _ => lt_trans
      total := fun a b _ _ hne => by
        obtain h | h | h := lt_or_gt_or_eq a b
        · exact .inl h.1
        · exact .inr h.2.1
        · exact absurd (Sockaddr.ext (eq_iff.1 h.2.2)) hne }

end Sockaddr

end Sylar.Address
