import Sylar.Log.Defs

/-!
# `LogFormatter::reset`

`init` appends to `m_items` and never resets `m_error`, so a formatter prints what all the patterns
of its history ask for, one after the other, and is erroneous as soon as one of them is.
`reset_iff` says when this is nevertheless what a new formatter does.
-/

namespace Sylar.Log.LogFormatter

/-- The formatter after a history of patterns. -/
def afterHistory (pattern : List Char) (patterns : List (List Char)) : LogFormatter :=
  patterns.foldl reset (new pattern)

/-- `reset` adds what a new formatter has. -/
theorem reset_eq (f : LogFormatter) (pattern : List Char) : f.reset pattern =
    ⟨pattern, f.m_items ++ (new pattern).m_items, f.m_error || (new pattern).m_error⟩ := by
  simp [reset, new, init, Bool.or_assoc]

theorem m_items_foldl_reset (f : LogFormatter) (patterns : List (List Char)) :
    (patterns.foldl reset f).m_items = f.m_items ++ patterns.flatMap fun p => (new p).m_items := by
  induction patterns generalizing f with
  | nil => simp
  | cons p patterns ih => rw [List.foldl_cons, ih, reset_eq, List.flatMap_cons, List.append_assoc]

theorem m_error_foldl_reset (f : LogFormatter) (patterns : List (List Char)) :
    (patterns.foldl reset f).m_error = (f.m_error || patterns.any fun p => (new p).m_error) := by
  induction patterns generalizing f with
  | nil => simp
  | cons p patterns ih => rw [List.foldl_cons, ih, reset_eq, List.any_cons, Bool.or_assoc]

variable (platform : Platform) (buf : List Char → UInt64 → List Char) (level : LogLevel)
  (event : LogEvent)

/-- A formatter prints what its patterns ask for, one after the other. -/
theorem format_afterHistory (pattern : List Char) (patterns : List (List Char)) :
    (afterHistory pattern patterns).format platform buf level event =
      (pattern :: patterns).flatMap fun p => (new p).format platform buf level event := by
  rw [afterHistory, format, m_items_foldl_reset, List.flatMap_append, List.flatMap_assoc]
  rfl

theorem isError_afterHistory (pattern : List Char) (patterns : List (List Char)) :
    (afterHistory pattern patterns).isError =
      (pattern :: patterns).any fun p => (new p).isError := by
  rw [afterHistory, isError, m_error_foldl_reset]
  rfl

/-- After `reset(p)`, a formatter prints what a new one prints and is erroneous if a new one is,
exactly if each pattern of its history prints nothing and, unless `p` itself is erroneous, is not
erroneous either. -/
theorem reset_iff (platform : Platform) (pattern : List Char) (patterns : List (List Char))
    (p : List Char) :
    ((∀ buf level event, ((afterHistory pattern patterns).reset p).format platform buf level event =
        (new p).format platform buf level event) ∧
      ((afterHistory pattern patterns).reset p).isError = (new p).isError) ↔
      ∀ q ∈ pattern :: patterns, (∀ buf level event, (new q).format platform buf level event = []) ∧
        ((new q).isError = true → (new p).isError = true) := by
  -- `reset` makes the history longer by one pattern
  have hreset : (afterHistory pattern patterns).reset p =
      afterHistory pattern (patterns ++ [p]) := by
    rw [afterHistory, afterHistory, List.foldl_concat]
  have hformat : ∀ buf level event,
      ((afterHistory pattern patterns).reset p).format platform buf level event =
        ((pattern :: patterns).flatMap fun q => (new q).format platform buf level event) ++
          (new p).format platform buf level event := by
    intro buf level event
    rw [hreset, format_afterHistory, ← List.cons_append, List.flatMap_append,
      List.flatMap_singleton]
  have herror : ((afterHistory pattern patterns).reset p).isError =
      (((pattern :: patterns).any fun q => (new q).isError) || (new p).isError) := by
    rw [hreset, isError_afterHistory, ← List.cons_append, List.any_append]
    simp only [List.any_cons, List.any_nil, Bool.or_false]
  rw [herror]
  simp only [hformat, List.append_left_eq_self, List.flatMap_eq_nil_iff]
  constructor
  · -- what stands in front of the new text is empty, and every flag of the history counts
    rintro ⟨hnothing, hsame⟩ q hq
    refine ⟨fun buf level event => hnothing buf level event q hq, fun hq' => ?_⟩
    rw [← hsame, Bool.or_eq_true, List.any_eq_true]
    exact Or.inl ⟨q, hq, hq'⟩
  · intro h
    refine ⟨fun buf level event q hq => (h q hq).1 buf level event, ?_⟩
    rw [Bool.or_eq_right_iff_imp, List.any_eq_true]
    rintro ⟨q, hq, hq'⟩
    exact (h q hq).2 hq'

/-- The level after the message. -/
theorem not_reset_message : ∃ platform buf level event,
    ((afterHistory "%m".toList []).reset "%p".toList).format platform buf level event ≠
      (new "%p".toList).format platform buf level event :=
  ⟨⟨fun _ => ⟨0, 0, 0, 0, 0, 0⟩, fun _ _ => []⟩, fun _ _ => [], .INFO,
    ⟨[], 0, 0, 0, 0, 0, [], "hello ".toList, []⟩, by decide⟩

end Sylar.Log.LogFormatter
