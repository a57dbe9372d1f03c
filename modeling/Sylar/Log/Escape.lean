import Sylar.Log.Grammar

/-!
# Doubling every percent sign

A text with every `%` doubled, as a pattern. `escape_iff` says that the formatter prints the text
for every event exactly if it has no `%`: the second `%` of two is not skipped and begins a
specifier.

The proof that other texts are not printed looks at their end, for one event whose texts are empty:
what a specifier prints does not end like the specifier.
-/

namespace Sylar.Log

/-- The text with every `%` doubled. -/
def doubled (t : List Char) : List Char := t.flatMap fun c => if c = '%' then ['%', '%'] else [c]

section Doubled

variable {c : Char} {t u : List Char}

/-- A `%` is doubled. -/
theorem doubled_percent (t : List Char) : doubled ('%' :: t) = '%' :: '%' :: doubled t := rfl

/-- Any other character is not. -/
theorem doubled_cons (hc : c ≠ '%') (t : List Char) : doubled (c :: t) = c :: doubled t := by
  simp [doubled, hc]

/-- Texts are doubled one by one. -/
theorem doubled_append (t u : List Char) : doubled (t ++ u) = doubled t ++ doubled u :=
  List.flatMap_append

/-- A text without `%` stays as it is. -/
theorem doubled_eq_self (h : '%' ∉ t) : doubled t = t := by
  induction t with
  | nil => rfl
  | cons c t ih =>
    obtain ⟨hc, ht⟩ := not_or.1 (List.mem_cons.not.1 h)
    rw [doubled_cons (Ne.symm hc), ih ht]

/-- Doubling adds no characters that are not there. -/
theorem mem_doubled : c ∈ doubled t ↔ c ∈ t := by
  induction t with
  | nil => rfl
  | cons d t ih =>
    by_cases hd : d = '%'
    · subst hd
      rw [doubled_percent, List.mem_cons, List.mem_cons, ih, List.mem_cons]
      tauto
    · rw [doubled_cons hd, List.mem_cons, ih, List.mem_cons]

/-- The first character stays the first. -/
theorem head?_doubled (t : List Char) : (doubled t).head? = t.head? := by
  cases t with
  | nil => rfl
  | cons c t =>
    by_cases hc : c = '%'
    · rw [hc, doubled_percent, List.head?_cons, List.head?_cons]
    · rw [doubled_cons hc, List.head?_cons, List.head?_cons]

/-- Doubling comes before or behind the cut of a text. -/
theorem takeWhile_doubled {p : Char → Bool} (hp : p '%' = true) (t : List Char) :
    (doubled t).takeWhile p = doubled (t.takeWhile p) := by
  induction t with
  | nil => rfl
  | cons c t ih =>
    by_cases hc : c = '%'
    · subst hc
      rw [doubled_percent, List.takeWhile_cons_of_pos hp, List.takeWhile_cons_of_pos hp,
        List.takeWhile_cons_of_pos hp, doubled_percent, ih]
    · rw [doubled_cons hc]
      cases hpc : p c with
      | false => simp [hpc, doubled]
      | true => simp [hpc, doubled_cons hc, ih]

/-- `strftime` prints a format with every `%` doubled as it was. -/
theorem strftimeText_doubled (tm : Tm) (t : List Char) : strftimeText tm (doubled t) = some t := by
  induction t with
  | nil => rfl
  | cons c t ih =>
    by_cases hc : c = '%'
    · subst hc
      rw [doubled_percent, strftimeText, if_pos rfl, ih]
      rfl
    · rw [doubled_cons hc]
      cases hdoubled : doubled t with
      | nil =>
        rw [hdoubled] at ih
        obtain rfl := Option.some_inj.1 ih
        rw [strftimeText, if_neg hc]
      | cons d ds => rw [strftimeText, if_neg hc, ← hdoubled, ih, Option.map_some]

end Doubled

/-! ## A text without percent signs -/

/-- The scanner has found no error. -/
def Clean (r : List Entry × Bool) : Prop := r.2 = false ∧ ∀ e ∈ r.1, e.unknown = false

/-- A formatter is without error if its pattern has been parsed without one. -/
theorem isError_new (pattern : List Char) :
    (LogFormatter.new pattern).isError = false ↔ Clean (parse [] pattern) := by
  rw [LogFormatter.isError, LogFormatter.new, LogFormatter.init, scan_eq_parse]
  simp [Clean]

/-- What the items of a pattern print. -/
def output (platform : Platform) (buf : List Char → UInt64 → List Char) (level : LogLevel)
    (event : LogEvent) (vec : List Entry) : List Char :=
  vec.flatMap fun e => e.item.format platform buf level event

/-- A formatter prints the entries of its pattern. -/
theorem format_new (pattern : List Char) (platform : Platform)
    (buf : List Char → UInt64 → List Char) (level : LogLevel) (event : LogEvent) :
    (LogFormatter.new pattern).format platform buf level event =
      output platform buf level event (parse [] pattern).1 := by
  rw [LogFormatter.format, LogFormatter.new, LogFormatter.init, scan_eq_parse, output]
  simp [List.flatMap_map]

section Output

variable {platform : Platform} {buf : List Char → UInt64 → List Char} {level : LogLevel}
  {event : LogEvent}

/-- Text is printed as it is. -/
theorem output_flush (nstr : List Char) : output platform buf level event (flush nstr) = nstr := by
  rw [flush]
  split
  case isTrue hnil => exact hnil.symm
  case isFalse => simp [output, Entry.item, FormatItem.format]

/-- Entries are printed one by one. -/
theorem output_append (vec vec' : List Entry) : output platform buf level event (vec ++ vec') =
    output platform buf level event vec ++ output platform buf level event vec' :=
  List.flatMap_append

/-- Text is no error. -/
theorem clean_flush (nstr : List Char) : Clean (flush nstr, false) := by
  refine ⟨rfl, fun e he => ?_⟩
  rw [flush] at he
  split at he
  · cases he
  · rw [List.mem_singleton.1 he]
    rfl

/-- A pattern without `%` is text. -/
theorem parse_literal {t : List Char} (h : '%' ∉ t) : parse [] t = (flush t, false) := by
  have happend : parse [] (t ++ []) = parse ([] ++ t) [] := parse_append h
  rwa [List.append_nil, List.nil_append, parse_nil] at happend

/-- A literal text that is pending is printed in front of the rest, unless the rest is wrong. -/
theorem parse_pending (platform : Platform) (buf : List Char → UInt64 → List Char)
    (level : LogLevel) (event : LogEvent) {a b cs : List Char} (h : Clean (parse (a ++ b) cs)) :
    Clean (parse b cs) ∧ output platform buf level event (parse (a ++ b) cs).1 =
      a ++ output platform buf level event (parse b cs).1 := by
  induction b, cs using parse.induct with
  | case1 b =>
    rw [parse_nil, parse_nil, output_flush, output_flush]
    exact ⟨clean_flush b, rfl⟩
  | case2 b c cs hc ih =>
    rw [parse_cons hc, List.append_assoc] at h
    rw [parse_cons hc, parse_cons hc, List.append_assoc]
    exact ih h
  | case3 b c cs hc hhead ih =>
    obtain rfl := not_ne_iff.1 hc
    obtain ⟨cs, rfl⟩ := List.head?_eq_some_iff.1 hhead
    rw [parse_percent_percent, List.append_assoc] at h
    rw [parse_percent_percent, parse_percent_percent, List.append_assoc]
    exact ih h
  | case4 b c cs hc hhead str fmt rest hspec ih =>
    obtain rfl := not_ne_iff.1 hc
    rw [parse_specifier hhead hspec] at h ⊢
    rw [parse_specifier hhead hspec]
    refine ⟨⟨h.1, fun e he => ?_⟩, ?_⟩
    · obtain he | he := List.mem_append.1 he
      · exact (clean_flush b).2 e he
      · exact h.2 e (List.mem_append_right _ he)
    · rw [output_append, output_append, output_flush, output_flush, List.append_assoc]
  | case5 b c cs hc hhead hspec ih =>
    -- the format is not closed, which is an error
    obtain rfl := not_ne_iff.1 hc
    rw [parse_open hhead hspec] at h
    cases h.1

end Output

/-! ## What a specifier prints does not end like it -/

/-- An event all of whose texts are empty. -/
def quiet : LogEvent where
  file := []
  line := 0
  elapse := 0
  threadId := 0
  fiberId := 0
  time := 0
  threadName := []
  content := []
  loggerName := []

/-- What the items of a pattern print for this event, with an array that is empty where `strftime`
finds no room. -/
def quietOutput (platform : Platform) (vec : List Entry) : List Char :=
  output platform (fun _ _ => []) .DEBUG quiet vec

/-- The name of the level of the event that is printed. -/
theorem ToString_DEBUG : LogLevel.DEBUG.ToString = ['D', 'E', 'B', 'U', 'G'] := rfl

/-- Two digits are digits. -/
theorem isDigit_of_mem_twoDigits {n : ℕ} {c : Char} (h : c ∈ twoDigits n) : c.isDigit = true := by
  have hdigits : ∀ c ∈ Nat.toDigits 10 n, c.isDigit = true := fun c hc =>
    Nat.isDigit_of_mem_toDigits (by decide) (by decide) hc
  rw [twoDigits] at h
  split at h
  · obtain rfl | h := List.mem_cons.1 h
    · rfl
    · exact hdigits c h
  · exact hdigits c h

/-- There are some of them. -/
theorem twoDigits_ne_nil (n : ℕ) : twoDigits n ≠ [] := by
  rw [twoDigits]
  split
  · exact List.cons_ne_nil _ _
  · exact Nat.toDigits_ne_nil

/-- The default format ends with the seconds. -/
theorem strftimeText_default (tm : Tm) : ∃ text,
    strftimeText tm "%Y-%m-%d %H:%M:%S".toList = some (text ++ twoDigits tm.tm_sec) := by
  have htext : strftimeText tm "%Y-%m-%d %H:%M:%S".toList =
      some (decimal (tm.tm_year + 1900) ++ '-' :: (twoDigits (tm.tm_mon + 1) ++
        '-' :: (twoDigits tm.tm_mday ++ ' ' :: (twoDigits tm.tm_hour ++
          ':' :: (twoDigits tm.tm_min ++ ':' :: (twoDigits tm.tm_sec ++ [])))))) := by
    rfl
  refine ⟨decimal (tm.tm_year + 1900) ++ '-' :: twoDigits (tm.tm_mon + 1) ++ '-' ::
    twoDigits tm.tm_mday ++ ' ' :: twoDigits tm.tm_hour ++ ':' :: twoDigits tm.tm_min ++ [':'], ?_⟩
  rw [htext]
  simp only [List.append_assoc, List.cons_append, List.nil_append, List.append_nil]

section Date

variable (platform : Platform) {c : Char}

/-- What a date prints ends as its text does, or is empty. -/
theorem getLast?_dateTime {m_format text : List Char}
    (htext : strftimeText (platform.localtime quiet.time)
      (m_format.takeWhile (· ≠ Char.ofNat 0)) = some text) (hc : text.getLast? ≠ some c) :
    ((FormatItem.dateTime m_format).format platform (fun _ _ => []) .DEBUG quiet).getLast? ≠
      some c := by
  rw [FormatItem.format, strftime, htext]
  dsimp only [Option.getD_some]
  split
  · exact hc
  · simp

/-- A date does not end with a character that its format does not have. -/
theorem getLast?_DateTimeFormatItem {fmt : List Char} (hdigit : c.isDigit = false)
    (hfmt : c ∉ fmt) :
    ((DateTimeFormatItem (doubled fmt)).format platform (fun _ _ => []) .DEBUG quiet).getLast? ≠
      some c := by
  rw [DateTimeFormatItem]
  split
  case isTrue =>
    -- without a format, the date ends with a digit of the seconds
    obtain ⟨text, htext⟩ := strftimeText_default (platform.localtime quiet.time)
    have hnul : "%Y-%m-%d %H:%M:%S".toList.takeWhile (· ≠ Char.ofNat 0) =
        "%Y-%m-%d %H:%M:%S".toList := by decide
    rw [← hnul] at htext
    apply getLast?_dateTime platform htext
    rw [List.getLast?_append_of_ne_nil _ (twoDigits_ne_nil _)]
    intro hlast
    rw [isDigit_of_mem_twoDigits (List.mem_of_getLast? hlast)] at hdigit
    cases hdigit
  case isFalse =>
    -- `strftime` prints the doubled format as it was, and it has no such character
    apply getLast?_dateTime
    · rw [takeWhile_doubled (by decide), strftimeText_doubled]
    · intro hlast
      exact hfmt ((List.takeWhile_sublist _).subset (List.mem_of_getLast? hlast))

/-- Without a format, the item of a letter does not print that letter last, and with one, it does
not print `}` last. -/
theorem getLast?_item (x : Letter) {fmt : List Char}
    (hc : c = x.char ∧ fmt = [] ∨ c = '}' ∧ '}' ∉ fmt) :
    ((x.item (doubled fmt)).format platform (fun _ _ => []) .DEBUG quiet).getLast? ≠ some c := by
  obtain ⟨rfl, rfl⟩ | ⟨rfl, hfmt⟩ := hc
  · cases x with
    | d =>
      -- the date is the one item that depends on a format
      change ((DateTimeFormatItem (doubled [])).format ..).getLast? ≠ _
      exact getLast?_DateTimeFormatItem platform rfl List.not_mem_nil
    | _ => simp [Letter.item, FormatItem.format, quiet, decimal, ToString_DEBUG, Letter.char]
  · cases x with
    | d => exact getLast?_DateTimeFormatItem platform rfl hfmt
    | _ => simp [Letter.item, FormatItem.format, quiet, decimal, ToString_DEBUG]

end Date

/-- Only the letters are known as items. -/
theorem exists_letter {str fmt : List Char} (h : (formatItem str fmt).isNone = false) :
    ∃ x : Letter, str = [x.char] := by
  unfold formatItem at h
  split at h
  · exact ⟨.m, rfl⟩
  · exact ⟨.p, rfl⟩
  · exact ⟨.r, rfl⟩
  · exact ⟨.c, rfl⟩
  · exact ⟨.t, rfl⟩
  · exact ⟨.n, rfl⟩
  · exact ⟨.d, rfl⟩
  · exact ⟨.f, rfl⟩
  · exact ⟨.l, rfl⟩
  · exact ⟨.T, rfl⟩
  · exact ⟨.F, rfl⟩
  · exact ⟨.N, rfl⟩
  · cases h

/-- What the scanner takes for a specifier in a text with every `%` doubled. -/
theorem readSpec_doubled (v : List Char) : readSpec (doubled v) = none ∨
    ∃ name fmt spec w, v = spec ++ w ∧ readSpec (doubled v) = some (name, doubled fmt, doubled w) ∧
      (fmt = [] ∧ spec = name ∨ '}' ∉ fmt ∧ spec = name ++ '{' :: (fmt ++ ['}'])) := by
  obtain ⟨name, hname, hv⟩ := exists_shape v
  have hself : doubled name = name := by
    apply doubled_eq_self
    intro hmem
    cases hname _ hmem
  obtain rfl | ⟨c, rest, hc, rfl⟩ | ⟨fmt, rest, hfmt, rfl⟩ | ⟨fmt, hfmt, rfl⟩ := hv
  · -- the text ends with the name
    refine Or.inr ⟨v, [], v, [], (List.append_nil v).symm, ?_, Or.inl ⟨rfl, rfl⟩⟩
    rw [hself]
    exact readSpec_of_end hname
  · -- another character ends the name, which may be a doubled `%`
    refine Or.inr ⟨name, [], name, c :: rest, rfl, ?_, Or.inl ⟨rfl, rfl⟩⟩
    rw [doubled_append, hself]
    by_cases hpercent : c = '%'
    · subst hpercent
      exact readSpec_of_char hname hc
    · rw [doubled_cons hpercent]
      exact readSpec_of_char hname hc
  · -- the percent signs of the format are doubled too
    refine Or.inr ⟨name, fmt, _, rest, ?_, ?_, Or.inr ⟨hfmt, rfl⟩⟩
    · simp
    · rw [doubled_append, hself, doubled_cons (by decide), doubled_append, doubled_cons (by decide)]
      exact readSpec_of_format hname (mem_doubled.not.2 hfmt)
  · left
    rw [doubled_append, hself, doubled_cons (by decide)]
    exact readSpec_of_open hname (mem_doubled.not.2 hfmt)

/-- Where a text has a `%`, what is printed for it does not end with the text, if this is so for
what stands behind a `%`. -/
theorem not_suffix (platform : Platform) {t : List Char} (ht : '%' ∈ t)
    (hclean : Clean (parse [] (doubled t)))
    (ih : ∀ v, v.length < t.length → Clean (parse [] ('%' :: doubled v)) → ∀ B,
      B.getLast? = some '%' →
        ¬ ('%' :: v) <:+ B ++ quietOutput platform (parse [] ('%' :: doubled v)).1)
    (B : List Char) : ¬ t <:+ B ++ quietOutput platform (parse [] (doubled t)).1 := by
  obtain ⟨u, v, rfl, hu⟩ := List.eq_append_cons_of_mem ht
  have hparse : parse [] (doubled (u ++ '%' :: v)) =
      parse (u ++ ['%'] ++ []) ('%' :: doubled v) := by
    rw [doubled_append, doubled_eq_self hu, doubled_percent, parse_append hu,
      parse_percent_percent, List.nil_append, List.append_nil]
  rw [hparse] at hclean ⊢
  obtain ⟨hclean', hout⟩ := parse_pending platform (fun _ _ => []) .DEBUG quiet hclean
  -- the first `%` has been printed, so that the claim is the one for what stands behind it
  intro hsuffix
  have hlength : v.length < (u ++ '%' :: v).length := by
    rw [List.length_append, List.length_cons]
    omega
  apply ih v hlength hclean' (B ++ (u ++ ['%'])) (by simp)
  rw [quietOutput, hout, ← List.append_assoc] at hsuffix
  exact (List.suffix_append u ('%' :: v)).trans hsuffix

/-- Behind a `%` that no other one follows, the text has a specifier, and what is printed for it
does not end with the same character. -/
theorem exists_specifier (platform : Platform) {v : List Char} (hhead : v.head? ≠ some '%')
    (hclean : Clean (parse [] ('%' :: doubled v))) : ∃ spec w c printed,
      v = spec ++ w ∧ spec.getLast? = some c ∧ c ≠ '%' ∧ printed.getLast? ≠ some c ∧
        Clean (parse [] (doubled w)) ∧
          quietOutput platform (parse [] ('%' :: doubled v)).1 =
            printed ++ quietOutput platform (parse [] (doubled w)).1 := by
  have hhead' : (doubled v).head? ≠ some '%' := by rwa [head?_doubled]
  obtain hopen | ⟨name, fmt, spec, w, rfl, hspec, hshape⟩ := readSpec_doubled v
  · -- a format that is not closed is an error
    rw [parse_open hhead' hopen] at hclean
    cases hclean.1
  · rw [parse_specifier hhead' hspec] at hclean ⊢
    obtain ⟨x, rfl⟩ := exists_letter (hclean.2 (.specifier name (doubled fmt)) (by simp [flush]))
    have hrest : Clean (parse [] (doubled w)) :=
      ⟨hclean.1, fun e he => hclean.2 e (by simp [he])⟩
    obtain ⟨c, hlast, hc, hitem⟩ : ∃ c, spec.getLast? = some c ∧ c ≠ '%' ∧
        (c = x.char ∧ fmt = [] ∨ c = '}' ∧ '}' ∉ fmt) := by
      obtain ⟨rfl, rfl⟩ | ⟨hfmt, rfl⟩ := hshape
      · exact ⟨x.char, rfl, x.char_ne_percent, Or.inl ⟨rfl, rfl⟩⟩
      · exact ⟨'}', by simp [List.getLast?_cons], by decide, Or.inr ⟨rfl, hfmt⟩⟩
    refine ⟨spec, w, c, _, rfl, hlast, hc, getLast?_item platform x hitem, hrest, ?_⟩
    simp [quietOutput, output, flush, Entry.item, x.formatItem_char]

/-- Before a common end, what a text ends with is found in a longer one. -/
theorem not_suffix_append {a b d w : List Char} {c : Char} (ha : a.getLast? = some c)
    (hb : b.getLast? ≠ some c) (hd : d.getLast? ≠ some c) : ¬ (a ++ w) <:+ b ++ (d ++ w) := by
  rintro ⟨s, hs⟩
  rw [← List.append_assoc, ← List.append_assoc] at hs
  have hends := congrArg List.getLast? (List.append_cancel_right hs)
  rw [List.getLast?_append, List.getLast?_append, ha, Option.some_or] at hends
  cases hlast : d.getLast? with
  | none =>
    rw [hlast, Option.none_or] at hends
    exact hb hends.symm
  | some x =>
    rw [hlast, Option.some_or] at hends
    exact hd (hlast.trans hends.symm)

/-- What is printed from a `%` on does not end with the text from there on, whatever is printed in
front of it, as long as that ends with `%`. -/
theorem not_suffix_percent (platform : Platform) {v : List Char}
    (hclean : Clean (parse [] ('%' :: doubled v))) (B : List Char) (hB : B.getLast? = some '%') :
    ¬ ('%' :: v) <:+ B ++ quietOutput platform (parse [] ('%' :: doubled v)).1 := by
  -- by induction on what stands behind the `%`
  induction hn : v.length using Nat.strong_induction_on generalizing v B with
  | _ n ih =>
    subst hn
    by_cases hhead : v.head? = some '%'
    · -- the next `%` is printed twice, and the run of percent signs goes on
      obtain ⟨v, rfl⟩ := List.head?_eq_some_iff.1 hhead
      have hparse : parse [] ('%' :: doubled ('%' :: v)) =
          parse (['%', '%'] ++ []) ('%' :: doubled v) := by
        rw [doubled_percent, parse_percent_percent, parse_percent_percent]
        rfl
      rw [hparse] at hclean ⊢
      obtain ⟨hclean', hout⟩ := parse_pending platform (fun _ _ => []) .DEBUG quiet hclean
      intro hsuffix
      apply ih v.length (by simp) hclean' (B ++ ['%', '%']) (by simp) rfl
      rw [quietOutput, hout, ← List.append_assoc] at hsuffix
      exact (List.suffix_cons '%' ('%' :: v)).trans hsuffix
    · obtain ⟨spec, w, c, printed, rfl, hlast, hc, hprinted, hrest, hout⟩ :=
        exists_specifier platform hhead hclean
      rw [hout]
      by_cases hw : '%' ∈ w
      · -- the rest has a `%`, so that it differs already
        intro hsuffix
        apply not_suffix platform hw hrest _ (B ++ printed)
        · rw [List.append_assoc]
          exact (List.suffix_append ('%' :: spec) w).trans hsuffix
        · intro v hv hv' B hB
          exact ih v.length (by rw [List.length_append]; omega) hv' B hB rfl
      · -- the rest is printed as it is, so that the specifiers are compared
        rw [doubled_eq_self hw, parse_literal hw, quietOutput, output_flush, ← List.cons_append]
        apply not_suffix_append (c := c)
        · rw [List.getLast?_cons, hlast, Option.getD_some]
        · rw [hB]
          exact fun heq => hc (Option.some_inj.1 heq).symm
        · exact hprinted

/-- On every platform, the formatter made from a text with every `%` doubled is without error and
prints that text for every level and event, whatever is in the array of a date, exactly if the
text has no `%`. -/
theorem escape_iff (platform : Platform) (t : List Char) :
    ((LogFormatter.new (doubled t)).isError = false ∧ ∀ buf level event,
      (LogFormatter.new (doubled t)).format platform buf level event = t) ↔ '%' ∉ t := by
  constructor
  · rintro ⟨herror, hformat⟩ ht
    have hprinted := hformat (fun _ _ => []) .DEBUG quiet
    rw [format_new] at hprinted
    rw [isError_new] at herror
    apply not_suffix platform ht herror (fun _ _ hclean => not_suffix_percent platform hclean) []
    rw [List.nil_append, quietOutput]
    exact ⟨[], hprinted.symm⟩
  · intro ht
    rw [isError_new, doubled_eq_self ht, parse_literal ht]
    refine ⟨clean_flush t, fun buf level event => ?_⟩
    rw [format_new, parse_literal ht, output_flush]

/-- A single `%`. -/
theorem not_escape_percent : (LogFormatter.new (doubled ['%'])).isError = true := by
  decide

end Sylar.Log
