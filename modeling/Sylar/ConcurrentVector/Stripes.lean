import Sylar.ConcurrentVector.Sequential

/-!
# The mutexes of a `ConcurrentVector`

`check_mtx` lets the table of mutexes grow with the number of elements, but what it appends is a
pointer that it never sets. `TableLaw` says that all mutexes exist, and that no call that has been
or could be made dereferences a null pointer. `tableLaw_iff` says how many elements can be pushed
into an empty vector until it is broken: as many as the first eight mutexes are for.
-/

namespace Sylar.ConcurrentVector

open Transition

/-- A call of `push_back` or `emplace_back`. -/
inductive Push (ItemType : Type)
  | push_back (val : ItemType)
  | emplace_back (val : ItemType)

/-- The call. -/
def Push.call {ItemType : Type} : Push ItemType → Call ItemType
  | .push_back val => .push_back val
  | .emplace_back val => .emplace_back val

/-- The element pushed. -/
def Push.val {ItemType : Type} : Push ItemType → ItemType
  | .push_back val => val
  | .emplace_back val => val

/-- Calls that do not push. -/
def Call.IsAccess {ItemType : Type} : Call ItemType → Prop
  | .set _ _ => True
  | .get _ => True
  | _ => False

section Law

variable {ItemType M : Type} (hashFunc : ℤ → ℕ) (to_string : ItemType → String)

/-- The number of mutexes is the length of the table, all of them exist, and no null pointer has
been dereferenced by the last call or would be by `set` and `operator[]`. -/
structure TableLaw (s : Traced ItemType M) : Prop where
  m_mtx_size : s.vec.m_mtx_size = s.vec.m_mtx.length
  m_mtx : ∀ p ∈ s.vec.m_mtx, p ≠ none
  outcome : s.outcome ≠ .error .nullMutex
  access : ∀ c : Call ItemType, c.IsAccess →
    (s.next hashFunc to_string c).outcome ≠ .error .nullMutex

/-- The steps of a run that only pushes. -/
def PushStep (s : Traced ItemType M) (p : Push ItemType) (s' : Traced ItemType M) : Prop :=
  s.Step hashFunc to_string p.call s'

end Law

section Pushes

variable {ItemType M : Type} {hashFunc : ℤ → ℕ} {to_string : ItemType → String}

/-- An empty vector into which `vals` have been pushed, with the first eight mutexes. -/
def pushed (unlocked : M) (granu : ℕ) (vals : List ItemType) : Traced ItemType M where
  vec :=
    { m_size := vals.length
      m_granu := granu
      m_mtx_size := 8
      m_vector := vals
      m_mtx := List.replicate 8 (some unlocked) }
  outcome := .ok none
  contents := vals

variable {unlocked : M} {granu : ℕ} {vals : List ItemType}

theorem start_eq_pushed :
    Traced.start unlocked 0 granu = (pushed unlocked granu [] : Traced ItemType M) := by
  have hstripes : initialStripes 0 granu = 8 := by rw [initialStripes, Nat.zero_div]; rfl
  rw [Traced.start, new, hstripes]
  rfl

/-- Whatever is hashed, it falls on one of the eight mutexes. -/
theorem mutex_eq_some {vec : ConcurrentVector ItemType M} (hsize : vec.m_mtx_size = 8)
    (hmtx : vec.m_mtx = List.replicate 8 (some unlocked)) (x : ℕ) :
    vec.mutex (vec.stripe hashFunc x) = some unlocked := by
  have hlt : hash hashFunc x % 8 < 8 := Nat.mod_lt _ (by decide)
  rw [mutex, stripe, hsize, hmtx, List.getElem?_replicate, if_pos hlt]
  rfl

/-- A push calls the common body. -/
theorem Push.run_call (p : Push ItemType) :
    p.call.run (M := M) hashFunc to_string = (fun _ => none) <$> append hashFunc p.val := by
  cases p with
  | push_back val | emplace_back val => rfl

/-- As long as there is load to spare, a push goes on with the same mutexes. -/
theorem next_push (p : Push ItemType) (h : vals.length + 1 ≤ 8 * granu % 2 ^ 64) :
    (pushed unlocked granu vals).next hashFunc to_string p.call =
      pushed unlocked granu (vals ++ [p.val]) := by
  have hcheck : (pushed unlocked granu vals).vec.count.check_mtx =
    (pushed unlocked granu vals).vec.count := check_mtx_of_le h
  have hmutex : (pushed unlocked granu vals).vec.count.mutex
      ((pushed unlocked granu vals).vec.count.stripe hashFunc (vals.length + 1)) = some unlocked :=
    mutex_eq_some rfl rfl _
  have hcontents : p.call.contents vals = vals ++ [p.val] := by
    cases p with
    | push_back val | emplace_back val => rfl
  rw [next_append_of_some p.run_call (by rw [hcheck]; exact hmutex), hcheck, pushed, pushed,
    List.length_append]
  dsimp only
  rw [hcontents]
  rfl

/-- The push that exceeds the load leaves a null pointer in the table. -/
theorem none_mem_next (p : Push ItemType) (h : 8 * granu % 2 ^ 64 < vals.length + 1) :
    none ∈ ((pushed unlocked granu vals).next hashFunc to_string p.call).vec.m_mtx := by
  have hcheck : (pushed unlocked granu vals).vec.count.check_mtx.m_mtx =
      List.replicate 8 (some unlocked) ++ [none] := congrArg m_mtx (check_mtx_of_lt h)
  have hmem : none ∈ (pushed unlocked granu vals).vec.count.check_mtx.m_mtx := by
    rw [hcheck]
    exact List.mem_append_right _ (List.mem_singleton_self _)
  cases hmutex : (pushed unlocked granu vals).vec.count.check_mtx.mutex
      ((pushed unlocked granu vals).vec.count.check_mtx.stripe hashFunc
        (pushed unlocked granu vals).vec.count.check_mtx.m_size) with
  | none => rwa [next_append_of_none p.run_call hmutex]
  | some mtx => rwa [next_append_of_some p.run_call hmutex]

theorem tableLaw_pushed : TableLaw hashFunc to_string (pushed unlocked granu vals) where
  m_mtx_size := by rw [pushed, List.length_replicate]
  m_mtx := by
    intro p hp
    rw [List.eq_of_mem_replicate hp]
    exact Option.some_ne_none _
  outcome := nofun
  access := by
    intro c hc
    have hlocks : Locks hashFunc (pushed unlocked granu vals) c := by
      cases c with
      | push_back val | emplace_back val => cases hc
      | set index val | get index =>
        intro _
        rw [mutex_eq_some rfl rfl]
        exact Option.some_ne_none _
    have hrep : Represents (pushed unlocked granu vals) := ⟨rfl, rfl⟩
    have hlaw : VectorLaw to_string _ c ((pushed unlocked granu vals).next hashFunc to_string c) :=
      (locks_iff_law hrep c).1 hlocks
    rw [hlaw.1]
    exact expected_ne_nullMutex _ _

/-- Pushes within the load are a run that keeps the law. -/
theorem run_pushed (unlocked : M) (pushes : List (Push ItemType))
    (h : pushes.length ≤ 8 * granu % 2 ^ 64) :
    Run (Keeping (TableLaw hashFunc to_string) (PushStep hashFunc to_string))
      (pushed unlocked granu []) pushes (pushed unlocked granu (pushes.map Push.val)) := by
  induction pushes using List.reverseRecOn with
  | nil => exact Run.refl
  | append_singleton pushes p ih =>
    rw [List.length_append, List.length_singleton] at h
    refine (ih (Nat.le_of_succ_le h)).snoc ⟨⟨?_, ?_⟩, tableLaw_pushed⟩
    · rintro (houtcome | houtcome) <;> cases houtcome
    · rw [List.map_append, List.map_singleton]
      exact next_push p (by rwa [List.length_map])

/-- Pushes within the load lead nowhere else. -/
theorem eq_pushed_of_run {pushes : List (Push ItemType)} {s : Traced ItemType M}
    (hrun : Run (PushStep hashFunc to_string) (pushed unlocked granu []) pushes s)
    (h : pushes.length ≤ 8 * granu % 2 ^ 64) : s = pushed unlocked granu (pushes.map Push.val) := by
  refine hrun.history (I := fun pushes s => pushes.length ≤ 8 * granu % 2 ^ 64 →
    s = pushed unlocked granu (pushes.map Push.val)) (fun _ => rfl) ?_ h
  rintro pushes s p s' ih ⟨-, rfl⟩ hle
  rw [List.length_append, List.length_singleton] at hle
  rw [ih (Nat.le_of_succ_le hle), List.map_append, List.map_singleton]
  exact next_push p (by rwa [List.length_map])

/-- The push at a place in a list. -/
theorem exists_push {pushes : List (Push ItemType)} {n : ℕ} (h : n < pushes.length) :
    ∃ before p behind, pushes = before ++ [p] ++ behind ∧ before.length = n := by
  refine ⟨pushes.take n, pushes[n], pushes.drop (n + 1), ?_, ?_⟩
  · rw [List.append_assoc, List.singleton_append, List.getElem_cons_drop, List.take_append_drop]
  · exact List.length_take_of_le (Nat.le_of_lt h)

end Pushes

/-- The table of mutexes is in order, in all states that are reached when elements are pushed into
an empty vector, exactly if they are no more than the first eight mutexes are for: from the next one
on, there is a null pointer in it. -/
theorem tableLaw_iff {ItemType M : Type} (hashFunc : ℤ → ℕ) (to_string : ItemType → String)
    (unlocked : M) (granu : ℕ) (pushes : List (Push ItemType)) :
    (TableLaw hashFunc to_string (Traced.start unlocked 0 granu : Traced ItemType M) ∧
      ∃ s, Run (Keeping (TableLaw hashFunc to_string) (PushStep hashFunc to_string))
        (Traced.start unlocked 0 granu) pushes s) ↔
      pushes.length ≤ 8 * granu % 2 ^ 64 := by
  rw [start_eq_pushed]
  constructor
  · rintro ⟨-, s, hrun⟩
    by_contra hlt
    obtain ⟨before, p, behind, rfl, hbefore⟩ := exists_push (Nat.not_le.1 hlt)
    -- the push that exceeds the load is behind those that do not
    obtain ⟨m, hfirst, -⟩ := Run.append_iff.1 hrun
    obtain ⟨m', hwithin, ⟨-, rfl⟩, hlaw⟩ := Run.snoc_iff.1 hfirst
    have hm' := eq_pushed_of_run (hwithin.mono fun _ _ _ hst => hst.1) (Nat.le_of_eq hbefore)
    rw [hm'] at hlaw
    refine hlaw.m_mtx none (none_mem_next p ?_) rfl
    rw [List.length_map, hbefore]
    exact Nat.lt_succ_self _
  · exact fun h => ⟨tableLaw_pushed, _, run_pushed unlocked pushes h⟩

/-- With two elements to a mutex, the 17th element is counted on a new mutex, which is a null
pointer, and pushed under it. -/
theorem not_tableLaw_seventeenth : ∃ s : Traced ℕ Unit,
    Run (PushStep Int.toNat toString) (Traced.start () 0 2) (List.replicate 17 (.push_back 0)) s ∧
      s.outcome = .error .nullMutex ∧ ¬ TableLaw Int.toNat toString s := by
  have hwithin : (List.replicate 16 (Push.push_back 0)).length ≤ 8 * 2 % 2 ^ 64 := by decide
  have hrun : Run (PushStep Int.toNat toString) (pushed () 2 []) _ _ :=
    (run_pushed () _ hwithin).mono fun _ _ _ hst => hst.1
  refine ⟨_, start_eq_pushed ▸ hrun.snoc ⟨?_, rfl⟩, by decide, fun hlaw => hlaw.outcome (by decide)⟩
  rintro (houtcome | houtcome) <;> cases houtcome

end Sylar.ConcurrentVector
