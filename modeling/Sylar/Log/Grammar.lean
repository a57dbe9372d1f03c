import Sylar.Log.Scan
import Mathlib.Data.List.Chain

/-!
# The grammar of log patterns

A pattern is a list of tokens: literal texts without `%`, specifiers `%x` and specifiers `%x{fmt}`,
where `x` is one of the twelve letters of the comment at `LogFormatter`. `new_pattern` says that
`init` makes one item of each token, where adjacent literals count as one.
-/

namespace Sylar.Log

/-- The letters with a format item. -/
inductive Letter
  | m
  | p
  | r
  | c
  | t
  | n
  | d
  | f
  | l
  | T
  | F
  | N
  deriving DecidableEq, Repr

namespace Letter

/-- The letter as a character. -/
def char : Letter → Char
  | m => 'm'
  | p => 'p'
  | r => 'r'
  | c => 'c'
  | t => 't'
  | n => 'n'
  | d => 'd'
  | f => 'f'
  | l => 'l'
  | T => 'T'
  | F => 'F'
  | N => 'N'

/-- The item of a letter, with a format. -/
def item (fmt : List Char) : Letter → FormatItem
  | m => .message
  | p => .level
  | r => .elapse
  | c => .name
  | t => .threadId
  | n => .newLine
  | d => DateTimeFormatItem fmt
  | f => .filename
  | l => .line
  | T => .tab
  | F => .fiberId
  | N => .threadName

/-- Every letter stands for an item. -/
theorem formatItem_char (x : Letter) (fmt : List Char) :
    formatItem [x.char] fmt = some (x.item fmt) := by
  cases x <;> rfl

/-- A letter belongs to a name. -/
theorem inName_char (x : Letter) : inName x.char = true := by
  cases x <;> decide

/-- A letter is not the sign that introduces it. -/
theorem char_ne_percent (x : Letter) : x.char ≠ '%' := by
  cases x <;> decide

end Letter

/-- A token of a pattern. -/
inductive Token
  | literal (text : List Char)
  | specifier (x : Letter)
  | formatted (x : Letter) (fmt : List Char)
  deriving DecidableEq, Repr

namespace Token

/-- The text of a token. -/
def text : Token → List Char
  | .literal text => text
  | .specifier x => ['%', x.char]
  | .formatted x fmt => '%' :: x.char :: '{' :: (fmt ++ ['}'])

/-- The item of a token. -/
def item : Token → FormatItem
  | .literal text => .string text
  | .specifier x => x.item []
  | .formatted x fmt => x.item fmt

/-- A literal is not empty and has no `%`, a format has no `}`. -/
def Valid : Token → Prop
  | .literal text => text ≠ [] ∧ '%' ∉ text
  | .specifier _ => True
  | .formatted _ fmt => '}' ∉ fmt

/-- A specifier without a format is not followed by a letter or a brace. -/
def Adjacent : Token → Token → Prop
  | .specifier _, .literal (c :: _) => ¬ (c.isAlpha ∨ c = '{' ∨ c = '}')
  | _, _ => True

/-- The token lists of the grammar. -/
structure WellFormed (tokens : List Token) : Prop where
  valid : ∀ t ∈ tokens, t.Valid
  adjacent : tokens.IsChain Adjacent

/-- The pattern of a token list. -/
def pattern (tokens : List Token) : List Char := tokens.flatMap text

/-- The token list with adjacent literals put together. -/
def merge : List Token → List Token
  | [] => []
  | .literal text :: tokens =>
    match merge tokens with
    | .literal text' :: rest => .literal (text ++ text') :: rest
    | rest => .literal text :: rest
  | t :: tokens => t :: merge tokens

/-- The element of `vec` for a token. -/
def entry : Token → Entry
  | .literal text => .text text
  | .specifier x => .specifier [x.char] []
  | .formatted x fmt => .specifier [x.char] fmt

/-- The entry of a token is printed as its item. -/
theorem item_entry (t : Token) : t.entry.item = t.item := by
  cases t with
  | literal text => rfl
  | specifier x => rw [entry, Entry.item, x.formatItem_char, Option.getD_some, item]
  | formatted x fmt => rw [entry, Entry.item, x.formatItem_char, Option.getD_some, item]

/-- It is known. -/
theorem unknown_entry (t : Token) : t.entry.unknown = false := by
  cases t with
  | literal text => rfl
  | specifier x => rw [entry, Entry.unknown, x.formatItem_char, Option.isNone_some]
  | formatted x fmt => rw [entry, Entry.unknown, x.formatItem_char, Option.isNone_some]

/-- Two texts in a row are one. -/
theorem merge_literal_literal (a b : List Char) (tokens : List Token) :
    merge (.literal a :: .literal b :: tokens) = merge (.literal (a ++ b) :: tokens) := by
  rw [merge, merge, merge]
  generalize merge tokens = rest
  cases rest with
  | nil => rfl
  | cons t rest => cases t <;> simp

/-- A token list with the literal text that is pending in front of it. -/
def pending (nstr : List Char) (tokens : List Token) : List Token :=
  if nstr = [] then tokens else .literal nstr :: tokens

/-- A text goes on where the one before it ended. -/
theorem merge_pending_literal (nstr : List Char) {a : List Char} (ha : a ≠ [])
    (tokens : List Token) :
    merge (pending nstr (.literal a :: tokens)) = merge (pending (nstr ++ a) tokens) := by
  rw [pending, pending, if_neg (show nstr ++ a ≠ [] by simp [ha])]
  split
  case isTrue hnil => rw [hnil, List.nil_append]
  case isFalse => rw [merge_literal_literal]

/-- What stands behind a specifier without a format ends its name. -/
theorem readSpec_specifier {x : Letter} {tokens : List Token}
    (h : WellFormed (.specifier x :: tokens)) :
    readSpec (x.char :: pattern tokens) = some ([x.char], [], pattern tokens) := by
  have hname : ∀ c ∈ [x.char], inName c = true := List.forall_mem_singleton.2 x.inName_char
  -- the text of the next token begins with a character that ends the name
  have hends : pattern tokens = [] ∨ ∃ c rest, inWord c = false ∧ pattern tokens = c :: rest := by
    cases tokens with
    | nil => exact Or.inl rfl
    | cons t tokens =>
      right
      cases t with
      | literal text =>
        have hadj := (List.isChain_cons_cons.1 h.adjacent).1
        obtain ⟨hne, -⟩ := h.valid (.literal text) (by simp)
        obtain ⟨c, text, rfl⟩ := List.exists_cons_of_ne_nil hne
        refine ⟨c, text ++ pattern tokens, ?_, rfl⟩
        simpa [Adjacent, inWord, and_assoc] using hadj
      | specifier y => exact ⟨'%', _, rfl, rfl⟩
      | formatted y fmt => exact ⟨'%', _, rfl, rfl⟩
  obtain hnil | ⟨c, rest, hc, hcons⟩ := hends
  · rw [hnil]
    exact readSpec_of_end hname
  · rw [hcons]
    exact readSpec_of_char hname hc

/-- A part of a well-formed pattern is well formed. -/
theorem WellFormed.tail {t : Token} {tokens : List Token} (h : WellFormed (t :: tokens)) :
    WellFormed tokens :=
  ⟨fun u hu => h.valid u (List.mem_cons_of_mem t hu), h.adjacent.tail⟩

/-- A specifier does not begin with another `%`. -/
theorem head?_char_cons (x : Letter) (cs : List Char) : (x.char :: cs).head? ≠ some '%' := by
  rw [List.head?_cons, Ne, Option.some_inj]
  exact x.char_ne_percent

/-- The scanner finds the tokens of a pattern. -/
theorem parse_pattern {tokens : List Token} (h : WellFormed tokens) (nstr : List Char) :
    parse nstr (pattern tokens) = ((merge (pending nstr tokens)).map entry, false) := by
  -- by induction on the tokens, with any literal text pending in front of them
  induction tokens generalizing nstr with
  | nil =>
    rw [pattern, List.flatMap_nil, parse_nil, flush, pending]
    split <;> rfl
  | cons t tokens ih =>
    have hvalid := h.valid t List.mem_cons_self
    cases t with
    | literal a =>
      -- a literal becomes pending, together with what is so already
      obtain ⟨hne, hpercent⟩ := hvalid
      have hpattern : pattern (.literal a :: tokens) = a ++ pattern tokens := rfl
      rw [hpattern, parse_append hpercent, ih h.tail, merge_pending_literal nstr hne]
    | specifier x =>
      -- what is pending is pushed in front of the specifier
      have hpattern : pattern (.specifier x :: tokens) = '%' :: x.char :: pattern tokens := rfl
      rw [hpattern, parse_specifier (head?_char_cons x _) (readSpec_specifier h), ih h.tail, flush,
        pending, pending, if_pos rfl]
      split <;> simp [merge, entry]
    | formatted x fmt =>
      have hpattern : pattern (.formatted x fmt :: tokens) =
          '%' :: x.char :: '{' :: (fmt ++ '}' :: pattern tokens) := by
        simp [pattern, text]
      have hread : readSpec (x.char :: '{' :: (fmt ++ '}' :: pattern tokens)) =
          some ([x.char], fmt, pattern tokens) :=
        readSpec_of_format (List.forall_mem_singleton.2 x.inName_char) hvalid
      rw [hpattern, parse_specifier (head?_char_cons x _) hread, ih h.tail, flush, pending, pending,
        if_pos rfl]
      split <;> simp [merge, entry]

/-- A formatter made from a pattern of the grammar has no error and one item for each token, in
order, where adjacent literals count as one. -/
theorem new_pattern (tokens : List Token) (h : WellFormed tokens) :
    (LogFormatter.new (pattern tokens)).m_items = (merge tokens).map item ∧
      (LogFormatter.new (pattern tokens)).isError = false := by
  have hscan : scan (pattern tokens) = ((merge tokens).map entry, false) := by
    rw [scan_eq_parse, parse_pattern h, pending, if_pos rfl]
  constructor
  · rw [LogFormatter.new, LogFormatter.init, hscan]
    simp [item_entry]
  · rw [LogFormatter.isError, LogFormatter.new, LogFormatter.init, hscan]
    simp [unknown_entry]

/-- A date, a literal in two pieces, and a level at the end. -/
theorem new_pattern_example :
    (LogFormatter.new (pattern [.formatted .d "%H:%M".toList, .literal " [".toList,
      .literal "at ".toList, .specifier .p])).m_items =
        [.dateTime "%H:%M".toList, .string " [at ".toList, .level] := by
  refine (new_pattern _ ⟨?_, ?_⟩).1
  · simp [Valid]
  · simp [Adjacent]

end Token

end Sylar.Log
