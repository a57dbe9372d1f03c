import Sylar.Env.Defs

/-!
# The grammar of the command line

`init` accepts exactly the lists that are written by some options (`Opt`), each of them a key with
or without a value, and adds these in turn. A key that is given twice keeps its last value.
-/

namespace Sylar.Env

/-- An option on the command line. -/
structure Opt where
  key : List Char
  value : Option (List Char)
  key_ne_nil : key ≠ []
  value_ne_key : ∀ v ∈ value, v.head? ≠ some '-'

/-- The arguments of an option. -/
def Opt.words (o : Opt) : List (List Char) := ('-' :: o.key) :: o.value.toList

/-- The arguments of a list of options. -/
def render (opts : List Opt) : List (List Char) := opts.flatMap Opt.words

/-- The options are added one after the other. -/
def addAll (opts : List Opt) (env : Env) : Env :=
  opts.foldl (fun env o => env.add o.key (o.value.getD [])) env

@[simp]
lemma add_m_args (key val : List Char) (env : Env) :
    (env.add key val).m_args = Function.update env.m_args key (some val) := rfl

lemma initLoop_cons (arg : List Char) (args : List (List Char)) (now_key : Option (List Char))
    (env : Env) :
    initLoop (arg :: args) now_key env =
      if arg.head? = some '-' then
        if arg.length > 1 then initLoop args (some arg.tail) (env.flush now_key) else (false, env)
      else
        match now_key with
        | some now_key => initLoop args none (env.add now_key arg)
        | none => (false, env) := by
  cases now_key with
  | none => rfl
  | some now_key => rfl

/-- What options write is accepted. A pending key is added before the first of them. -/
lemma initLoop_render (opts : List Opt) (now_key : Option (List Char)) (env : Env) :
    initLoop (render opts) now_key env = (true, addAll opts (env.flush now_key)) := by
  induction opts generalizing now_key env with
  | nil => rfl
  | cons o opts ih =>
    have hlength : ('-' :: o.key).length > 1 :=
      Nat.succ_lt_succ (List.length_pos_iff.2 o.key_ne_nil)
    have hwords : render (o :: opts) = ('-' :: o.key) :: (o.value.toList ++ render opts) := by
      rw [render, List.flatMap_cons, Opt.words, List.cons_append]
      rfl
    rw [hwords, initLoop_cons, if_pos List.head?_cons, if_pos hlength, List.tail_cons]
    cases hvalue : o.value with
    | none =>
      rw [Option.toList_none, List.nil_append, ih, addAll, addAll, List.foldl_cons, hvalue]
      rfl
    | some v =>
      have hkey : v.head? ≠ some '-' := o.value_ne_key v hvalue
      rw [Option.toList_some, List.singleton_append, initLoop_cons, if_neg hkey]
      dsimp only
      rw [ih, addAll, addAll, List.foldl_cons, hvalue]
      rfl

/-- What is accepted has been written by options, of which the pending key is the first. -/
lemma exists_render (args : List (List Char)) (now_key : Option (List Char)) (env : Env)
    (hkey : ∀ k ∈ now_key, k ≠ []) (h : (initLoop args now_key env).1 = true) :
    ∃ opts, render opts = now_key.toList.map ('-' :: ·) ++ args := by
  induction args generalizing now_key env with
  | nil =>
    cases now_key with
    | none => exact ⟨[], rfl⟩
    | some k => exact ⟨[⟨k, none, hkey k rfl, nofun⟩], rfl⟩
  | cons arg args ih =>
    rw [initLoop_cons] at h
    split at h
    case isTrue hdash =>
      obtain ⟨rest, rfl⟩ := List.head?_eq_some_iff.1 hdash
      split at h
      case isFalse => exact absurd h Bool.false_ne_true
      case isTrue hlength =>
        have hrest : rest ≠ [] := List.length_pos_iff.1 (Nat.lt_of_succ_lt_succ hlength)
        obtain ⟨opts, hopts⟩ := ih (some rest) _ (by rintro k ⟨⟩; exact hrest) h
        -- the key that has been pending has no value
        cases now_key with
        | none => exact ⟨opts, hopts⟩
        | some k =>
          refine ⟨⟨k, none, hkey k rfl, nofun⟩ :: opts, ?_⟩
          rw [render, List.flatMap_cons, ← render, hopts]
          rfl
    case isFalse hdash =>
      -- only a pending key can take this value
      cases now_key with
      | none => exact absurd h Bool.false_ne_true
      | some k =>
        obtain ⟨opts, hopts⟩ := ih none _ nofun h
        have hvalue : ∀ v ∈ some arg, v.head? ≠ some '-' := by
          rintro v ⟨⟩
          exact hdash
        refine ⟨⟨k, some arg, hkey k rfl, hvalue⟩ :: opts, ?_⟩
        rw [render, List.flatMap_cons, ← render, hopts]
        rfl

/-- Options with other keys leave a key alone. -/
lemma addAll_m_args_of_notMem {opts : List Opt} {k : List Char} (h : ∀ o ∈ opts, o.key ≠ k)
    (env : Env) : (addAll opts env).m_args k = env.m_args k := by
  induction opts generalizing env with
  | nil => rfl
  | cons o opts ih =>
    obtain ⟨ho, hopts⟩ := List.forall_mem_cons.1 h
    rw [addAll, List.foldl_cons, ← addAll, ih hopts, add_m_args, Function.update_of_ne ho.symm]

/-- The last option with a key decides. -/
lemma addAll_m_args_of_last {before after : List Opt} {o : Opt}
    (h : ∀ o' ∈ after, o'.key ≠ o.key) (env : Env) :
    (addAll (before ++ o :: after) env).m_args o.key = some (o.value.getD []) := by
  rw [addAll, List.foldl_append, List.foldl_cons, ← addAll, addAll_m_args_of_notMem h, add_m_args,
    Function.update_self]

/-- If a key occurs, it has a last occurrence. -/
lemma exists_last {opts : List Opt} {k : List Char} (h : ∃ o ∈ opts, o.key = k) :
    ∃ before o after, opts = before ++ o :: after ∧ o.key = k ∧ ∀ o' ∈ after, o'.key ≠ k := by
  induction opts with
  | nil => exact absurd h (by simp)
  | cons o opts ih =>
    by_cases hlater : ∃ o' ∈ opts, o'.key = k
    · obtain ⟨before, o', after, rfl, hkey, hafter⟩ := ih hlater
      exact ⟨o :: before, o', after, rfl, hkey, hafter⟩
    · obtain ⟨o', hmem, hkey⟩ := h
      obtain rfl | hmem := List.mem_cons.1 hmem
      · exact ⟨[], o', opts, rfl, hkey, fun o hmem hkey => hlater ⟨o, hmem, hkey⟩⟩
      · exact absurd ⟨o', hmem, hkey⟩ hlater

/-- The grammar of the command line. `init` returns true for the arguments that some options write,
and no others; then `get` and `has` answer from the last occurrence of each key. -/
theorem init_grammar (exe program : List Char) (args : List (List Char)) (env : Env)
    (hempty : ∀ k, env.m_args k = none) :
    ((env.init exe program args).1 = true ↔ ∃ opts, render opts = args) ∧
      ∀ opts, render opts = args → ∀ k d : List Char,
        (∀ before o after, opts = before ++ o :: after → o.key = k → (∀ o' ∈ after, o'.key ≠ k) →
          (env.init exe program args).2.get k d = o.value.getD []) ∧
        ((∀ o ∈ opts, o.key ≠ k) → (env.init exe program args).2.get k d = d) ∧
        ((env.init exe program args).2.has k = true ↔ ∃ o ∈ opts, o.key = k) := by
  refine ⟨⟨fun h => ?_, ?_⟩, ?_⟩
  · exact exists_render args none _ nofun h
  · rintro ⟨opts, rfl⟩
    rw [init, initLoop_render]
  · rintro opts rfl k d
    rw [init, initLoop_render, flush, get, has]
    refine ⟨?_, fun hnone => ?_, ?_⟩
    · rintro before o after rfl rfl hafter
      rw [addAll_m_args_of_last hafter, Option.getD_some]
    · rw [addAll_m_args_of_notMem hnone, hempty, Option.getD_none]
    · constructor
      · intro hhas
        by_cases hmem : ∃ o ∈ opts, o.key = k
        · exact hmem
        · have hnone : ∀ o ∈ opts, o.key ≠ k := fun o ho hkey => hmem ⟨o, ho, hkey⟩
          rw [addAll_m_args_of_notMem hnone, hempty] at hhas
          exact absurd hhas Bool.false_ne_true
      · intro hmem
        obtain ⟨before, o, after, rfl, rfl, hafter⟩ := exists_last hmem
        rw [addAll_m_args_of_last hafter, Option.isSome_some]

theorem init_grammar_example :
    (∀ k, new.m_args k = none) ∧
      (new.init [] [] [['-', 'c'], ['a'], ['-', 'd'], ['-', 'c'], []]).1 = true ∧
      (new.init [] [] [['-', 'c'], ['a'], ['-', 'd'], ['-', 'c'], []]).2.get ['c'] ['b'] = [] := by
  have h := init_grammar [] [] [['-', 'c'], ['a'], ['-', 'd'], ['-', 'c'], []] new fun _ => rfl
  let c : Opt := ⟨['c'], some ['a'], by decide, by decide⟩
  let d : Opt := ⟨['d'], none, by decide, nofun⟩
  let c' : Opt := ⟨['c'], some [], by decide, by decide⟩
  have hopts := h.2 [c, d, c'] rfl ['c'] ['b']
  exact ⟨fun _ => rfl, h.1.2 ⟨[c, d, c'], rfl⟩, hopts.1 [c, d] c' [] rfl rfl nofun⟩

end Sylar.Env
