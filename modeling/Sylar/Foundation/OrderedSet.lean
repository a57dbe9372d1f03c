import Mathlib.Data.List.Basic

/-!
# Ordered sets as sorted lists

An ordered container such as `std::set`, represented by the list of its elements in iteration
order. The comparison `lt : α → α → Bool` may depend on state outside the container, so nothing is
assumed of it globally: `StrictOrderOn lt P` says that it orders the elements satisfying `P`
strictly and totally.

* `insert lt x s` — insertion, without effect when an equivalent element is present;
* `find lt x s` — the element equivalent to `x`;
* `takeWhile_eq_filter`, `dropWhile_eq_filter` — a prefix cut off by a predicate that is
  downward closed along the list, such as the elements before a lower bound.
-/

namespace OrderedSet

variable {α : Type*}

/-- Insert `x` before the first element greater than it, unless an equivalent element is met. -/
def insert (lt : α → α → Bool) (x : α) : List α → List α
  | [] => [x]
  | y :: ys =>
    if lt x y then x :: y :: ys
    else if lt y x then y :: insert lt x ys
    else y :: ys

/-- The first element that is not less than `x`, if it is not greater either. -/
def find (lt : α → α → Bool) (x : α) (s : List α) : Option α :=
  match s.dropWhile (lt · x) with
  | [] => none
  | y :: _ => if lt x y then none else some y

/-- Every element is less than those behind it. -/
def Sorted (lt : α → α → Bool) (s : List α) : Prop := s.Pairwise fun x y => lt x y = true

/-- `lt` is a strict total order on the elements satisfying `P`. -/
structure StrictOrderOn (lt : α → α → Bool) (P : α → Prop) : Prop where
  irrefl : ∀ x, P x → lt x x = false
  trans : ∀ x y z, P x → P y → P z → lt x y = true → lt y z = true → lt x z = true
  total : ∀ x y, P x → P y → x ≠ y → lt x y = true ∨ lt y x = true

variable {lt lt' : α → α → Bool} {P : α → Prop} {x y : α} {s : List α}

/-- Sortedness depends on the comparisons of the elements only. -/
theorem Sorted.congr (h : Sorted lt s) (heq : ∀ x ∈ s, ∀ y ∈ s, lt' x y = lt x y) :
    Sorted lt' s :=
  List.Pairwise.imp_of_mem (fun hx hy hxy => (heq _ hx _ hy).trans hxy) h

theorem Sorted.sublist {s' : List α} (h : Sorted lt s) (hsub : s'.Sublist s) : Sorted lt s' :=
  List.Pairwise.sublist hsub h

theorem Sorted.nodup (ho : StrictOrderOn lt P) (h : Sorted lt s) (hs : ∀ y ∈ s, P y) :
    s.Nodup := by
  refine List.Pairwise.imp_of_mem (fun {a b} ha _ hab heq => ?_) h
  rw [← heq, ho.irrefl a (hs a ha)] at hab
  cases hab

/-- Insertion adds exactly the element inserted. -/
theorem mem_insert (ho : StrictOrderOn lt P) (hx : P x) (hs : ∀ y ∈ s, P y) :
    y ∈ insert lt x s ↔ y = x ∨ y ∈ s := by
  induction s with
  | nil => simp [insert]
  | cons z s ih =>
    have ih := ih fun w hw => hs w (by simp [hw])
    rw [insert]
    split_ifs with hxz hzx
    · simp
    · rw [List.mem_cons, ih, List.mem_cons]
      exact or_left_comm
    · -- neither is less: the element is already there
      have heq : x = z := by
        by_contra hne
        exact (ho.total x z hx (hs z (by simp)) hne).elim hxz hzx
      rw [List.mem_cons, heq]
      exact or_self_left.symm

/-- Insertion keeps the order. -/
theorem Sorted.insert (ho : StrictOrderOn lt P) (h : Sorted lt s) (hx : P x)
    (hs : ∀ y ∈ s, P y) : Sorted lt (insert lt x s) := by
  induction s with
  | nil => exact List.pairwise_singleton _ _
  | cons z s ih =>
    obtain ⟨hz, hrest⟩ := List.pairwise_cons.mp h
    have hPz := hs z (by simp)
    have hPs : ∀ w ∈ s, P w := fun w hw => hs w (by simp [hw])
    rw [OrderedSet.insert]
    split_ifs with hxz hzx
    -- `x` becomes the first element, or goes somewhere behind `z`, or is there already
    · refine List.pairwise_cons.mpr ⟨fun w hw => ?_, h⟩
      rcases List.mem_cons.mp hw with rfl | hw
      · exact hxz
      · exact ho.trans x z w hx hPz (hPs w hw) hxz (hz w hw)
    · refine List.pairwise_cons.mpr ⟨fun w hw => ?_, ih hrest hPs⟩
      rcases (mem_insert ho hx hPs).mp hw with rfl | hw
      · exact hzx
      · exact hz w hw
    · exact h

/-- In a sorted list an element finds itself. -/
theorem find_eq_some (ho : StrictOrderOn lt P) (h : Sorted lt s) (hs : ∀ y ∈ s, P y)
    (hx : x ∈ s) : find lt x s = some x := by
  induction s with
  | nil => cases hx
  | cons z s ih =>
    obtain ⟨hz, hrest⟩ := List.pairwise_cons.mp h
    rcases List.mem_cons.mp hx with rfl | hmem
    · have hirrefl := ho.irrefl x (hs x hx)
      simp [find, hirrefl]
    · -- the elements before `x` are less, and skipped
      have hskip : (z :: s).dropWhile (lt · x) = s.dropWhile (lt · x) :=
        List.dropWhile_cons_of_pos (hz x hmem)
      rw [find, hskip]
      exact ih hrest (fun w hw => hs w (by simp [hw])) hmem

/-- An element that is not in the list finds nothing. -/
theorem find_eq_none (ho : StrictOrderOn lt P) (hs : ∀ y ∈ s, P y) (hP : P x) (hx : x ∉ s) :
    find lt x s = none := by
  cases hdrop : s.dropWhile (lt · x) with
  | nil => rw [find, hdrop]
  | cons y rest =>
    have hmem : y ∈ s.dropWhile (lt · x) := by simp [hdrop]
    have hy : y ∈ s := (List.dropWhile_sublist _).subset hmem
    -- `y` is another element and not less than `x`, so it is greater
    have hge : ¬ lt y x = true := by
      have := List.head_dropWhile_not (p := (lt · x)) (l := s) (by simp [hdrop])
      simpa [hdrop] using this
    have hne : x ≠ y := fun heq => hx (heq ▸ hy)
    have hlt : lt x y = true := (ho.total x y hP (hs y hy) hne).resolve_right hge
    rw [find, hdrop]
    exact if_pos hlt

/-! ## Cutting off a prefix -/

/-- A predicate that is downward closed along the list holds on a prefix. -/
theorem takeWhile_eq_filter {p : α → Bool} (h : s.Pairwise fun x y => p y = true → p x = true) :
    s.takeWhile p = s.filter p := by
  induction s with
  | nil => rfl
  | cons x s ih =>
    obtain ⟨hx, hrest⟩ := List.pairwise_cons.mp h
    by_cases hp : p x = true
    · rw [List.takeWhile_cons_of_pos hp, List.filter_cons_of_pos hp, ih hrest]
    · -- no later element has `p` either
      have hnone : ∀ y ∈ s, ¬ p y = true := fun y hy hpy => hp (hx y hy hpy)
      rw [List.takeWhile_cons_of_neg hp, List.filter_cons_of_neg hp,
        List.filter_eq_nil_iff.mpr hnone]

/-- The rest behind that prefix. -/
theorem dropWhile_eq_filter {p : α → Bool} (h : s.Pairwise fun x y => p y = true → p x = true) :
    s.dropWhile p = s.filter (! p ·) := by
  induction s with
  | nil => rfl
  | cons x s ih =>
    obtain ⟨hx, hrest⟩ := List.pairwise_cons.mp h
    by_cases hp : p x = true
    · rw [List.dropWhile_cons_of_pos hp, List.filter_cons_of_neg (by simp [hp]), ih hrest]
    · have hall : ∀ y ∈ x :: s, (! p y) = true := by
        intro y hy
        rcases List.mem_cons.mp hy with rfl | hy
        · simpa using hp
        · simpa using fun hpy => hp (hx y hy hpy)
      rw [List.dropWhile_cons_of_neg hp, List.filter_eq_self.mpr hall]

theorem takeWhile_congr {p q : α → Bool} (h : ∀ x ∈ s, p x = q x) :
    s.takeWhile p = s.takeWhile q := by
  induction s with
  | nil => rfl
  | cons x s ih =>
    rw [List.takeWhile_cons, List.takeWhile_cons, h x (by simp),
      ih fun y hy => h y (by simp [hy])]

theorem dropWhile_congr {p q : α → Bool} (h : ∀ x ∈ s, p x = q x) :
    s.dropWhile p = s.dropWhile q := by
  induction s with
  | nil => rfl
  | cons x s ih =>
    rw [List.dropWhile_cons, List.dropWhile_cons, h x (by simp),
      ih fun y hy => h y (by simp [hy])]

/-- A prefix cut off in two goes: up to the first element without `p`, then up to the first one
without `q`. -/
theorem takeWhile_eq_append {p q r : α → Bool} (h : s.Pairwise fun x y => p y = true → p x = true)
    (hp : ∀ x ∈ s, p x = true → r x = true) (hq : ∀ x ∈ s, p x = false → q x = r x) :
    s.takeWhile p ++ (s.dropWhile p).takeWhile q = s.takeWhile r ∧
      (s.dropWhile p).dropWhile q = s.dropWhile r := by
  induction s with
  | nil => exact ⟨rfl, rfl⟩
  | cons x s ih =>
    obtain ⟨hx, hrest⟩ := List.pairwise_cons.mp h
    by_cases hpx : p x = true
    · obtain ⟨htake, hdrop⟩ :=
        ih hrest (fun y hy => hp y (by simp [hy])) fun y hy => hq y (by simp [hy])
      have hrx := hp x (by simp) hpx
      simp [hpx, hrx, htake, hdrop]
    · -- no later element has `p`, so `q` and `r` agree on all of them
      have heq : ∀ y ∈ x :: s, q y = r y := by
        intro y hy
        refine hq y hy ?_
        rcases List.mem_cons.mp hy with rfl | hmem
        · simpa using hpx
        · simpa using fun hpy => hpx (hx y hmem hpy)
      rw [List.takeWhile_cons_of_neg hpx, List.dropWhile_cons_of_neg hpx, List.nil_append]
      exact ⟨takeWhile_congr heq, dropWhile_congr heq⟩

end OrderedSet
