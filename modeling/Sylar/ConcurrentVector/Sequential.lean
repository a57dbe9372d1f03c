import Sylar.ConcurrentVector.Defs
import Sylar.Foundation.Run

/-!
# `ConcurrentVector` on one thread

The runs of `push_back`, `emplace_back`, `set` and `operator[]` on one thread, beside the list that
a vector stands for: `VectorLaw` is the law of a call, that it does to the vector what it should do
to the list.

The constructor counts elements that `m_vector` does not have, unless there are none, and
`check_mtx` appends null pointers to the mutexes. `vectorLaw_iff` says that the law holds exactly in
the runs from an empty vector in which every call locks a mutex that exists.
-/

namespace Sylar.ConcurrentVector

open Transition

/-- A call of a function of the vector. -/
inductive Call (ItemType : Type)
  | push_back (val : ItemType)
  | emplace_back (val : ItemType)
  | set (index : ℕ) (val : ItemType)
  | get (index : ℕ)

/-- How a call ends; `operator[]` returns an element. -/
abbrev Outcome (ItemType : Type) := Except Fault (Option ItemType)

/-- The behaviour is undefined from here on. -/
def Outcome.Undefined {ItemType : Type} (outcome : Outcome ItemType) : Prop :=
  outcome = .error .nullMutex ∨ outcome = .error .noElement

/-- A vector, how its last call has ended, and the list that it stands for. -/
structure Traced (ItemType M : Type) where
  vec : ConcurrentVector ItemType M
  outcome : Outcome ItemType
  contents : List ItemType

namespace Call

variable {ItemType M : Type} (hashFunc : ℤ → ℕ) (to_string : ItemType → String)

/-- The call of the function. -/
def run : Call ItemType → Op ItemType M (Option ItemType)
  | push_back val => (fun _ => none) <$> ConcurrentVector.push_back hashFunc val
  | emplace_back val => (fun _ => none) <$> ConcurrentVector.emplace_back hashFunc val
  | set index val => (fun _ => none) <$> ConcurrentVector.set hashFunc to_string index val
  | get index => some <$> ConcurrentVector.get hashFunc index

/-- What the call should do to a list. -/
def contents (l : List ItemType) : Call ItemType → List ItemType
  | push_back val => l ++ [val]
  | emplace_back val => l ++ [val]
  | set index val => l.set index val
  | get _ => l

/-- How the call should end. -/
def expected (l : List ItemType) : Call ItemType → Outcome ItemType
  | push_back _ => .ok none
  | emplace_back _ => .ok none
  | set index val =>
    if index < l.length then .ok none else .error (.outOfRange (setText to_string index val))
  | get index =>
    match l[index]? with
    | some val => .ok (some val)
    | none => .error (.outOfRange (indexText index))

end Call

section Runs

variable {ItemType M : Type} (hashFunc : ℤ → ℕ) (to_string : ItemType → String)

/-- The state behind a call. -/
def Traced.next (s : Traced ItemType M) (c : Call ItemType) : Traced ItemType M :=
  match (c.run hashFunc to_string).run s.vec with
  | .ok result vec => { vec, outcome := .ok result, contents := c.contents s.contents }
  | .error fault vec => { vec, outcome := .error fault, contents := c.contents s.contents }

/-- The steps of a run are calls, as long as the behaviour is defined. -/
def Traced.Step (s : Traced ItemType M) (c : Call ItemType) (s' : Traced ItemType M) : Prop :=
  ¬ s.outcome.Undefined ∧ s.next hashFunc to_string c = s'

/-- A vector made by the constructor, which should have no elements. -/
def Traced.start (unlocked : M) (size granu : ℕ) : Traced ItemType M where
  vec := new unlocked size granu
  outcome := .ok none
  contents := []

/-- `size()` is the number of the elements in `m_vector`. -/
def Sized (vec : ConcurrentVector ItemType M) : Prop := vec.size = vec.m_vector.length

/-- The law of a call: it ends as it should, the elements are those of the list, and a call that
throws changes nothing. -/
def VectorLaw (s : Traced ItemType M) (c : Call ItemType) (s' : Traced ItemType M) : Prop :=
  s'.outcome = c.expected to_string s.contents ∧ s'.vec.m_vector = s'.contents ∧ Sized s'.vec ∧
    (∀ what, s'.outcome = .error (.outOfRange what) → s'.vec = s.vec)

/-- The mutex that a call locks exists. -/
def Locks (s : Traced ItemType M) : Call ItemType → Prop
  | .push_back _ | .emplace_back _ =>
    let vec := s.vec.count.check_mtx
    vec.mutex (vec.stripe hashFunc vec.m_size) ≠ none
  | .set index _ | .get index =>
    index < s.vec.m_size → s.vec.mutex (s.vec.stripe hashFunc index) ≠ none

end Runs

/-! ## The calls -/

section Calls

variable {ItemType M : Type} {hashFunc : ℤ → ℕ} {to_string : ItemType → String}
variable {s : Traced ItemType M} {c : Call ItemType}

/-- The elements are those of the list, and they have been counted. -/
structure Represents (s : Traced ItemType M) : Prop where
  m_vector : s.vec.m_vector = s.contents
  sized : Sized s.vec

theorem VectorLaw.represents {s' : Traced ItemType M} (h : VectorLaw to_string s c s') :
    Represents s' := ⟨h.2.1, h.2.2.1⟩

theorem next_of_ok {result : Option ItemType} {vec : ConcurrentVector ItemType M}
    (h : (c.run hashFunc to_string).run s.vec = .ok result vec) :
    s.next hashFunc to_string c =
      { vec, outcome := .ok result, contents := c.contents s.contents } := by
  rw [Traced.next, h]

theorem next_of_error {fault : Fault} {vec : ConcurrentVector ItemType M}
    (h : (c.run hashFunc to_string).run s.vec = .error fault vec) :
    s.next hashFunc to_string c =
      { vec, outcome := .error fault, contents := c.contents s.contents } := by
  rw [Traced.next, h]

/-- No call should dereference a null pointer. -/
theorem expected_ne_nullMutex (l : List ItemType) (c : Call ItemType) :
    c.expected to_string l ≠ .error .nullMutex := by
  cases c with
  | push_back val | emplace_back val => nofun
  | set index val =>
    rw [Call.expected]
    split <;> nofun
  | get index =>
    rw [Call.expected]
    split <;> nofun

/-- A call with an index does what it should if the mutex exists, once its access does so for an
element that exists. -/
theorem access_law {α : Type} {index : ℕ} {what : String} {body : Op ItemType M α}
    {f : α → Option ItemType} (h : Represents s)
    (hrun : c.run (M := M) hashFunc to_string = f <$> access hashFunc index what body)
    (hthrows : ¬ index < s.contents.length → c.contents s.contents = s.contents ∧
      c.expected to_string s.contents = .error (.outOfRange what))
    (hbody : index < s.contents.length → ∃ a vec, body s.vec = .ok a vec ∧
      c.expected to_string s.contents = .ok (f a) ∧ vec.m_vector = c.contents s.contents ∧
      Sized vec) :
    (index < s.vec.m_size → s.vec.mutex (s.vec.stripe hashFunc index) ≠ none) ↔
      VectorLaw to_string s c (s.next hashFunc to_string c) := by
  have hrun' : (c.run hashFunc to_string).run s.vec =
      EStateM.map f (access hashFunc index what body) s.vec := by
    rw [hrun]
    rfl
  rw [EStateM.map, access] at hrun'
  have hsize : s.vec.m_size = s.contents.length := h.m_vector ▸ h.sized
  by_cases hindex : index < s.vec.m_size
  · rw [if_neg (Nat.not_le.2 hindex)] at hrun'
    rw [forall_prop_of_true hindex]
    cases hmutex : s.vec.mutex (s.vec.stripe hashFunc index) with
    | none =>
      rw [hmutex] at hrun'
      rw [next_of_error hrun']
      refine iff_of_false (fun hne => hne rfl) fun ⟨houtcome, _⟩ => ?_
      exact expected_ne_nullMutex _ _ houtcome.symm
    | some mtx =>
      obtain ⟨a, vec, hok, hexpected, hcontents, hsized⟩ := hbody (hsize ▸ hindex)
      rw [hmutex] at hrun'
      dsimp only at hrun'
      rw [hok] at hrun'
      rw [next_of_ok hrun']
      exact iff_of_true (Option.some_ne_none _) ⟨hexpected.symm, hcontents, hsized, nofun⟩
  · -- the exception changes nothing
    obtain ⟨hcontents, hexpected⟩ := hthrows (hsize ▸ hindex)
    rw [if_pos (Nat.not_lt.1 hindex)] at hrun'
    refine iff_of_true (fun hlt => absurd hlt hindex) ?_
    rw [next_of_error hrun', hcontents]
    exact ⟨hexpected.symm, h.m_vector, h.sized, fun _ _ => rfl⟩

/-- A push into a mutex that exists. -/
theorem next_append_of_some {val : ItemType} {mtx : M}
    (hrun : c.run (M := M) hashFunc to_string = (fun _ => none) <$> append hashFunc val)
    (hmutex : s.vec.count.check_mtx.mutex
      (s.vec.count.check_mtx.stripe hashFunc s.vec.count.check_mtx.m_size) = some mtx) :
    s.next hashFunc to_string c =
      { vec := { s.vec.count.check_mtx with m_vector := s.vec.count.check_mtx.m_vector ++ [val] }
        outcome := .ok none
        contents := c.contents s.contents } := by
  apply next_of_ok
  rw [hrun]
  change EStateM.map _ (append hashFunc val) s.vec = _
  rw [EStateM.map, append, hmutex]

/-- A push that finds a null pointer has counted its element. -/
theorem next_append_of_none {val : ItemType}
    (hrun : c.run (M := M) hashFunc to_string = (fun _ => none) <$> append hashFunc val)
    (hmutex : s.vec.count.check_mtx.mutex
      (s.vec.count.check_mtx.stripe hashFunc s.vec.count.check_mtx.m_size) = none) :
    s.next hashFunc to_string c =
      { vec := s.vec.count.check_mtx
        outcome := .error .nullMutex
        contents := c.contents s.contents } := by
  apply next_of_error
  rw [hrun]
  change EStateM.map _ (append hashFunc val) s.vec = _
  rw [EStateM.map, append, hmutex]

/-- A call of `push_back` or `emplace_back` does what it should if the mutex exists. -/
theorem append_law {val : ItemType} (h : Represents s)
    (hrun : c.run (M := M) hashFunc to_string = (fun _ => none) <$> append hashFunc val)
    (hcontents : c.contents s.contents = s.contents ++ [val])
    (hexpected : c.expected to_string s.contents = .ok none) :
    s.vec.count.check_mtx.mutex
        (s.vec.count.check_mtx.stripe hashFunc s.vec.count.check_mtx.m_size) ≠ none ↔
      VectorLaw to_string s c (s.next hashFunc to_string c) := by
  cases hmutex : s.vec.count.check_mtx.mutex
      (s.vec.count.check_mtx.stripe hashFunc s.vec.count.check_mtx.m_size) with
  | none =>
    rw [next_append_of_none hrun hmutex]
    refine iff_of_false (fun hne => hne rfl) fun ⟨houtcome, _⟩ => ?_
    exact expected_ne_nullMutex _ _ houtcome.symm
  | some mtx =>
    rw [next_append_of_some hrun hmutex]
    refine iff_of_true (Option.some_ne_none _) ⟨hexpected.symm, ?_, ?_, nofun⟩
    · rw [hcontents, check_mtx_m_vector, ← h.m_vector]
      rfl
    · -- the element has been counted before
      have hsize : s.vec.m_size = s.vec.m_vector.length := h.sized
      rw [Sized, size, check_mtx_m_size, check_mtx_m_vector, List.length_append, count]
      exact congrArg (· + 1) hsize

/-- A call does what it should if the mutex that it locks exists. -/
theorem locks_iff_law (h : Represents s) (c : Call ItemType) :
    Locks hashFunc s c ↔ VectorLaw to_string s c (s.next hashFunc to_string c) := by
  cases c with
  | push_back val => exact append_law h rfl rfl rfl
  | emplace_back val => exact append_law h rfl rfl rfl
  | set index val =>
    refine access_law h rfl (fun hindex => ⟨?_, if_neg hindex⟩) fun hindex => ?_
    · exact List.set_eq_of_length_le (Nat.not_lt.1 hindex)
    · refine ⟨(), _, if_pos (h.m_vector ▸ hindex), if_pos hindex, ?_, ?_⟩
      · exact congrArg (·.set index val) h.m_vector
      · exact h.sized.trans List.length_set.symm
  | get index =>
    refine access_law h rfl (fun hindex => ⟨rfl, ?_⟩) fun hindex => ?_
    · rw [Call.expected, List.getElem?_eq_none (Nat.not_lt.1 hindex)]
    · have hget : s.contents[index]? = some s.contents[index] := List.getElem?_eq_getElem hindex
      refine ⟨s.contents[index], s.vec, ?_, ?_, h.m_vector, h.sized⟩
      · rw [h.m_vector, hget]
      · rw [Call.expected, hget]

end Calls

/-! ## Runs -/

section Law

variable {ItemType M : Type}

/-- The number of elements and the size agree after every call, and every call does what it should
for the list of elements, exactly in the runs from a vector of size 0 in which every call locks a
mutex that exists. -/
theorem vectorLaw_iff (hashFunc : ℤ → ℕ) (to_string : ItemType → String) (unlocked : M)
    (size granu : ℕ) (calls : List (Call ItemType)) (s : Traced ItemType M) :
    size = 0 ∧ Run (Guarded (Locks hashFunc) (Traced.Step hashFunc to_string))
        (Traced.start unlocked size granu) calls s ↔
      Sized (Traced.start unlocked size granu : Traced ItemType M).vec ∧
        Run (Lawful (VectorLaw to_string) (Traced.Step hashFunc to_string))
          (Traced.start unlocked size granu) calls s := by
  have hstart : Sized (Traced.start unlocked size granu : Traced ItemType M).vec ↔
      size = 0 := Iff.rfl
  rw [hstart]
  refine and_congr_right fun hsize => ?_
  apply Run.guarded_iff_lawful (I := Represents) ⟨rfl, hstart.2 hsize⟩
  · rintro s c s' hs hlocks ⟨-, rfl⟩
    exact ((locks_iff_law hs c).1 hlocks).represents
  · rintro s c s' hs ⟨-, rfl⟩
    exact locks_iff_law hs c

/-- A vector made with the size 1 has no elements: `operator[](0)` passes its check, and accesses an
element that is not there. -/
theorem not_vectorLaw_size :
    let start : Traced ℕ Unit := Traced.start () 1 16
    ¬ Sized start.vec ∧ ∃ s, Run (Traced.Step Int.toNat toString) start [.get 0] s ∧
      s.outcome = .error .noElement ∧ ¬ VectorLaw toString start (.get 0) s := by
  refine ⟨by unfold Sized; decide, _, Run.single ⟨?_, rfl⟩, rfl, ?_⟩
  · rintro (h | h) <;> cases h
  · rintro ⟨houtcome, -⟩
    cases houtcome

end Law

end Sylar.ConcurrentVector
