import Sylar.Log.Defs
import Mathlib.Data.List.TakeWhile

/-!
# The scanner on the rest of a pattern

`readSpec` and `parse` say what the loops of `init` make of the text from a place in the pattern on,
without indices. `scan_eq_parse` connects the two.
-/

namespace Sylar.Log

/-- The characters that the loop over `n` passes over in front of a format. -/
def inName (c : Char) : Bool := c.isAlpha || c == '}'

/-- What a specifier is made of behind its `%`: the name, the format, and what stands behind them;
`none` if the format is not closed. -/
def readSpec (cs : List Char) : Option (List Char × List Char × List Char) :=
  match cs.dropWhile inName with
  | '{' :: rest =>
    match rest.dropWhile (· != '}') with
    | [] => none
    | _ :: rest' => some (cs.takeWhile inName, rest.takeWhile (· != '}'), rest')
  | rest => some (cs.takeWhile inName, [], rest)

/-! ## Cutting a text in front of a character -/

section Cut

variable {p : Char → Bool} {pre rest : List Char} {c : Char}

/-- `dropWhile` stops at the first character without the property. -/
theorem dropWhile_append_cons (hpre : ∀ a ∈ pre, p a = true) (hc : p c = false) :
    (pre ++ c :: rest).dropWhile p = c :: rest := by
  rw [List.dropWhile_append_of_pos hpre, List.dropWhile_cons_of_neg (by simp [hc])]

/-- And `takeWhile` stops in front of it. -/
theorem takeWhile_append_cons (hpre : ∀ a ∈ pre, p a = true) (hc : p c = false) :
    (pre ++ c :: rest).takeWhile p = pre := by
  rw [List.takeWhile_append_of_pos hpre, List.takeWhile_cons_of_neg (by simp [hc]),
    List.append_nil]

/-- A text satisfies `p` throughout, or up to a first character that does not. -/
theorem exists_cut (p : Char → Bool) (cs : List Char) : ∃ pre, (∀ a ∈ pre, p a = true) ∧
    (cs = pre ∨ ∃ c rest, p c = false ∧ cs = pre ++ c :: rest) := by
  induction cs with
  | nil => exact ⟨[], List.forall_mem_nil _, Or.inl rfl⟩
  | cons a cs ih =>
    cases ha : p a with
    | false => exact ⟨[], List.forall_mem_nil _, Or.inr ⟨a, cs, ha, rfl⟩⟩
    | true =>
      obtain ⟨pre, hpre, rfl | ⟨c, rest, hc, rfl⟩⟩ := ih
      · exact ⟨a :: cs, List.forall_mem_cons.2 ⟨ha, hpre⟩, Or.inl rfl⟩
      · exact ⟨a :: pre, List.forall_mem_cons.2 ⟨ha, hpre⟩, Or.inr ⟨c, rest, hc, rfl⟩⟩

end Cut

/-! ## The four shapes of a specifier -/

section Shapes

variable {name fmt rest : List Char} {c : Char}

/-- A format without `}` is read up to its end. -/
theorem bne_of_notMem (hfmt : '}' ∉ fmt) : ∀ c ∈ fmt, (c != '}') = true := by
  intro c hc
  exact bne_iff_ne.2 (ne_of_mem_of_not_mem hc hfmt)

/-- A name may end with the pattern. -/
theorem readSpec_of_end (hname : ∀ c ∈ name, inName c = true) :
    readSpec name = some (name, [], []) := by
  rw [readSpec, List.dropWhile_eq_nil_iff.2 hname, List.takeWhile_eq_self_iff.2 hname]

/-- A character that belongs to no word ends a name. -/
theorem inName_eq_false (hc : inWord c = false) : inName c = false := by
  simp only [inWord, Bool.or_eq_false_iff] at hc
  simp [inName, hc]

/-- What follows such a name is read as text. -/
theorem readSpec_of_char (hname : ∀ c ∈ name, inName c = true) (hc : inWord c = false) :
    readSpec (name ++ c :: rest) = some (name, [], c :: rest) := by
  have hne : c ≠ '{' := by
    rintro rfl
    simp [inWord] at hc
  rw [readSpec, dropWhile_append_cons hname (inName_eq_false hc),
    takeWhile_append_cons hname (inName_eq_false hc)]
  split
  case h_1 heq => exact absurd (List.cons.inj heq).1 hne
  case h_2 => rfl

/-- A name may have a format in braces. -/
theorem readSpec_of_format (hname : ∀ c ∈ name, inName c = true) (hfmt : '}' ∉ fmt) :
    readSpec (name ++ '{' :: (fmt ++ '}' :: rest)) = some (name, fmt, rest) := by
  have hclose : (('}' : Char) != '}') = false := bne_self_eq_false _
  rw [readSpec, dropWhile_append_cons hname (by decide), takeWhile_append_cons hname (by decide)]
  simp only [dropWhile_append_cons (bne_of_notMem hfmt) hclose,
    takeWhile_append_cons (bne_of_notMem hfmt) hclose]

/-- The brace has to be closed. -/
theorem readSpec_of_open (hname : ∀ c ∈ name, inName c = true) (hfmt : '}' ∉ fmt) :
    readSpec (name ++ '{' :: fmt) = none := by
  rw [readSpec, dropWhile_append_cons hname (by decide)]
  simp only [List.dropWhile_eq_nil_iff.2 (bne_of_notMem hfmt)]

/-- A specifier ends with the pattern, in front of another character, with a format, or inside a
format that is not closed. -/
theorem exists_shape (cs : List Char) : ∃ name, (∀ c ∈ name, inName c = true) ∧
    (cs = name ∨ (∃ c rest, inWord c = false ∧ cs = name ++ c :: rest) ∨
      (∃ fmt rest, '}' ∉ fmt ∧ cs = name ++ '{' :: (fmt ++ '}' :: rest)) ∨
      ∃ fmt, '}' ∉ fmt ∧ cs = name ++ '{' :: fmt) := by
  obtain ⟨name, hname, hcs⟩ := exists_cut inName cs
  refine ⟨name, hname, ?_⟩
  obtain rfl | ⟨c, rest, hc, rfl⟩ := hcs
  · exact Or.inl rfl
  · -- `{` is the character of `inWord` that does not belong to a name
    by_cases hbrace : c = '{'
    · subst hbrace
      obtain ⟨fmt, hfmt, hrest⟩ := exists_cut (· != '}') rest
      have hmem : '}' ∉ fmt := fun h => bne_iff_ne.1 (hfmt _ h) rfl
      obtain rfl | ⟨d, rest', hd, rfl⟩ := hrest
      · exact Or.inr (Or.inr (Or.inr ⟨rest, hmem, rfl⟩))
      · obtain rfl : d = '}' := by simpa using hd
        exact Or.inr (Or.inr (Or.inl ⟨fmt, rest', hmem, rfl⟩))
    · refine Or.inr (Or.inl ⟨c, rest, ?_, rfl⟩)
      simp only [inName, Bool.or_eq_false_iff] at hc
      simp [inWord, hc, hbrace]

end Shapes

/-! ## The loop over `n` -/

section SpecLoop

variable {p rest : List Char} {n : ℕ} {c : Char}

/-- The character at an index is the first one behind it. -/
theorem getElem?_of_drop (h : p.drop n = c :: rest) : p[n]? = some c := by
  rw [← Nat.add_zero n, ← List.getElem?_drop, h]
  rfl

/-- One index further, it is gone. -/
theorem drop_succ (h : p.drop n = c :: rest) : p.drop (n + 1) = rest := by
  rw [← List.drop_drop, h]
  rfl

/-- An index goes over a whole word. -/
theorem drop_add {pre : List Char} (h : p.drop n = pre ++ rest) :
    p.drop (n + pre.length) = rest := by
  rw [← List.drop_drop, h, List.drop_left]

/-- There is nothing behind the end of the pattern. -/
theorem lt_length_of_drop (h : p.drop n = c :: rest) : n < p.length := by
  have hlen := congrArg List.length h
  rw [List.length_drop, List.length_cons] at hlen
  omega

/-- The characters that the loop passes over, in front of a format and in it. -/
def Passes (fmt_status : ℕ) (c : Char) : Prop :=
  fmt_status = 0 ∧ inName c = true ∨ fmt_status = 1 ∧ c ≠ '}'

variable {i steps st b : ℕ} {str fmt cs : List Char}

/-- The inner loop passes over a character that does not change its status. -/
theorem specLoop_pass_one (h : p.drop n = c :: rest) (hc : Passes st c) :
    specLoop p i (steps + 1) ⟨n, st, b, str, fmt⟩ =
      specLoop p i steps ⟨n + 1, st, b,
        if n + 1 = p.length ∧ str = [] then p.drop (i + 1) else str, fmt⟩ := by
  rw [specLoop, getElem?_of_drop h]
  obtain ⟨rfl, hname⟩ | ⟨rfl, hne⟩ := hc
  · have hword : inWord c = true := by
      simp only [inName, Bool.or_eq_true] at hname
      simp only [inWord, Bool.or_eq_true]
      tauto
    have hbrace : c ≠ '{' := by
      rintro rfl
      cases hname
    simp [hword, hbrace]
  · simp [hne]

/-- The loop passes over the characters of `cs`, up to the rest of the pattern. -/
theorem specLoop_pass (h : p.drop n = cs ++ rest) (hrest : rest ≠ [])
    (hcs : ∀ c ∈ cs, Passes st c) :
    specLoop p i (steps + cs.length) ⟨n, st, b, str, fmt⟩ =
      specLoop p i steps ⟨n + cs.length, st, b, str, fmt⟩ := by
  induction cs generalizing n with
  | nil => rfl
  | cons c cs ih =>
    obtain ⟨hc, hcs⟩ := List.forall_mem_cons.1 hcs
    have hdrop := drop_succ h
    have hend : n + 1 ≠ p.length := by
      intro hlen
      rw [hlen, List.drop_length] at hdrop
      exact hrest (List.append_eq_nil_iff.1 hdrop.symm).2
    rw [List.length_cons, ← Nat.add_assoc, specLoop_pass_one h hc, if_neg (fun hand => hend hand.1),
      ih hdrop hcs, Nat.add_assoc, Nat.add_comm 1]

/-- The loop passes over the rest of the pattern, and takes it for the name if it has none. -/
theorem specLoop_pass_end (h : p.drop n = cs) (hn : n ≤ p.length) (hcs : ∀ c ∈ cs, Passes st c)
    (hsteps : cs.length ≤ steps) :
    specLoop p i steps ⟨n, st, b, str, fmt⟩ = ⟨p.length, st, b,
      if cs ≠ [] ∧ str = [] then p.drop (i + 1) else str, fmt⟩ := by
  induction cs generalizing n str steps with
  | nil =>
    have hlen : n = p.length := le_antisymm hn (List.drop_eq_nil_iff.1 h)
    subst hlen
    cases steps with
    | zero => rfl
    | succ steps => simp [specLoop]
  | cons c cs ih =>
    obtain ⟨hc, hcs⟩ := List.forall_mem_cons.1 hcs
    obtain ⟨steps, rfl⟩ : ∃ k, steps = k + 1 := ⟨steps - 1, by simp at hsteps; omega⟩
    have hdrop := drop_succ h
    rw [specLoop_pass_one h hc, ih hdrop (lt_length_of_drop h) hcs (by simpa using hsteps)]
    -- the rule for the end applies to the last character
    by_cases hlast : n + 1 = p.length
    · have hnil : cs = [] := by rw [← hdrop, hlast, List.drop_length]
      simp [hlast, hnil]
    · have hcons : cs ≠ [] := by
        rw [← hdrop, Ne, List.drop_eq_nil_iff]
        have hlt := lt_length_of_drop h
        omega
      simp [hlast, hcons]

variable {name : List Char}

/-- In a name it passes over the characters of names. -/
theorem passes_zero (hname : ∀ c ∈ name, inName c = true) : ∀ c ∈ name, Passes 0 c :=
  fun c hc => Or.inl ⟨rfl, hname c hc⟩

/-- In a format it passes over everything but `}`. -/
theorem passes_one (hfmt : '}' ∉ fmt) : ∀ c ∈ fmt, Passes 1 c :=
  fun _ hc => Or.inr ⟨rfl, ne_of_mem_of_not_mem hc hfmt⟩

/-- What has been passed over is `substr`. -/
theorem substr_eq {pre : List Char} {m : ℕ} (h : p.drop n = pre ++ rest) (hm : m = pre.length) :
    substr p n m = pre := by
  rw [substr, h, hm, List.take_left]

/-- The loop from the `{` behind a name on. -/
theorem specLoop_brace (h : p.drop n = '{' :: rest) :
    specLoop p i (steps + 1) ⟨n, 0, b, str, fmt⟩ =
      specLoop p i steps ⟨n + 1, 1, n, substr p (i + 1) (n - i - 1), fmt⟩ := by
  rw [specLoop, getElem?_of_drop h]
  simp [inWord]

/-- The loop does what `readSpec` says, from the place behind the `%` on. -/
theorem specLoop_eq {cs : List Char} (hi : i < p.length) (h : p.drop (i + 1) = cs) :
    let s := specLoop p i p.length ⟨i + 1, 0, 0, [], []⟩
    s.fmt_status = (if (readSpec cs).isSome then 0 else 1) ∧
      ∀ r ∈ readSpec cs, (s.str, s.fmt, p.drop s.n) = r := by
  have hlen : p.length = cs.length + i + 1 := by
    have hlen := congrArg List.length h
    rw [List.length_drop] at hlen
    omega
  obtain ⟨name, hname, rfl | ⟨c, rest, hc, rfl⟩ | ⟨fmt, rest, hfmt, rfl⟩ | ⟨fmt, hfmt, rfl⟩⟩ :=
    exists_shape cs
  · -- the pattern ends with the name, which the rule for the end takes
    rw [readSpec_of_end hname, specLoop_pass_end h hi (passes_zero hname) (by omega)]
    refine ⟨rfl, fun r hr => ?_⟩
    obtain rfl := Option.some_inj.1 hr
    by_cases hnil : cs = []
    · simp [hnil]
    · simp [hnil, h]
  · -- another character ends the name
    have hsteps : p.length = rest.length + i + 1 + 1 + name.length := by
      rw [hlen, List.length_append, List.length_cons]
      omega
    have hdrop := drop_add h
    have hname' : substr p (i + 1) (i + 1 + name.length - i - 1) = name := substr_eq h (by omega)
    rw [readSpec_of_char hname hc, hsteps,
      specLoop_pass h (List.cons_ne_nil c rest) (passes_zero hname), specLoop,
      getElem?_of_drop hdrop]
    simp [hc, hname', hdrop]
  · -- the loop goes through the name, the `{`, the format and the `}`
    have hsteps : p.length = rest.length + i + 1 + 1 + fmt.length + 1 + name.length := by
      rw [hlen, List.length_append, List.length_cons, List.length_append, List.length_cons]
      omega
    have hbrace := drop_add h
    have hfmt' := drop_succ hbrace
    have hclose := drop_add hfmt'
    have hsubstr : substr p (i + 1 + name.length + 1)
        (i + 1 + name.length + 1 + fmt.length - (i + 1 + name.length) - 1) = fmt :=
      substr_eq hfmt' (by omega)
    have hname' : substr p (i + 1) (i + 1 + name.length - i - 1) = name := substr_eq h (by omega)
    rw [readSpec_of_format hname hfmt, hsteps,
      specLoop_pass h (List.cons_ne_nil _ _) (passes_zero hname), specLoop_brace hbrace,
      specLoop_pass hfmt' (List.cons_ne_nil _ _) (passes_one hfmt), specLoop,
      getElem?_of_drop hclose]
    simp [hname', hsubstr, drop_succ hclose]
  · -- the pattern ends inside the format, with `fmt_status` still 1
    have hsteps : p.length = fmt.length + i + 1 + 1 + name.length := by
      rw [hlen, List.length_append, List.length_cons]
      omega
    have hbrace := drop_add h
    rw [readSpec_of_open hname hfmt, hsteps,
      specLoop_pass h (List.cons_ne_nil _ _) (passes_zero hname), specLoop_brace hbrace,
      specLoop_pass_end (drop_succ hbrace) (lt_length_of_drop hbrace) (passes_one hfmt) (by omega)]
    exact ⟨rfl, fun r hr => absurd hr (Option.not_mem_none r)⟩

end SpecLoop

/-! ## The loop over `i` -/

/-- Reading a specifier leaves no more than there was. -/
theorem length_readSpec_le {cs : List Char} {r : List Char × List Char × List Char}
    (h : readSpec cs = some r) : r.2.2.length ≤ cs.length := by
  obtain ⟨name, hname, rfl | ⟨c, rest, hc, rfl⟩ | ⟨fmt, rest, hfmt, rfl⟩ | ⟨fmt, hfmt, rfl⟩⟩ :=
    exists_shape cs
  · rw [readSpec_of_end hname] at h
    obtain rfl := Option.some_inj.1 h
    exact Nat.zero_le _
  · rw [readSpec_of_char hname hc] at h
    obtain rfl := Option.some_inj.1 h
    simp
  · rw [readSpec_of_format hname hfmt] at h
    obtain rfl := Option.some_inj.1 h
    simp only [List.length_append, List.length_cons]
    omega
  · rw [readSpec_of_open hname hfmt] at h
    cases h

/-- `vec` behind the loop, and whether it has set `m_error`, for the rest of the pattern and the
literal text `nstr` in front of it. -/
def parse (nstr : List Char) : List Char → List Entry × Bool
  | [] => (flush nstr, false)
  | c :: cs =>
    if c ≠ '%' then parse (nstr ++ [c]) cs
    else if cs.head? = some '%' then parse (nstr ++ ['%']) cs
    else
      match _hspec : readSpec cs with
      | some (str, fmt, rest) =>
        (flush nstr ++ .specifier str fmt :: (parse [] rest).1, (parse [] rest).2)
      | none => (patternError :: (parse nstr cs).1, true)
termination_by cs => cs.length
decreasing_by
  · exact Nat.lt_succ_self _
  · exact Nat.lt_succ_self _
  · exact Nat.lt_succ_of_le (length_readSpec_le _hspec)
  · exact Nat.lt_succ_self _

section Parse

variable {nstr cs : List Char} {c : Char}

/-- At the end of the pattern the text so far is flushed. -/
theorem parse_nil : parse nstr [] = (flush nstr, false) := by
  rw [parse]

/-- A character other than `%` belongs to the text. -/
theorem parse_cons (hc : c ≠ '%') : parse nstr (c :: cs) = parse (nstr ++ [c]) cs := by
  rw [parse, if_pos hc]

/-- So does a word without `%`. -/
theorem parse_append {pre : List Char} (hpre : '%' ∉ pre) :
    parse nstr (pre ++ cs) = parse (nstr ++ pre) cs := by
  induction pre generalizing nstr with
  | nil => simp
  | cons c pre ih =>
    obtain ⟨hc, hpre⟩ := not_or.1 (List.mem_cons.not.1 hpre)
    rw [List.cons_append, parse_cons (Ne.symm hc), ih hpre, List.append_assoc,
      List.singleton_append]

/-- The first `%` of two is taken literally, and the second one read again. -/
theorem parse_percent_percent :
    parse nstr ('%' :: '%' :: cs) = parse (nstr ++ ['%']) ('%' :: cs) := by
  rw [parse, if_neg (by simp), if_pos (List.head?_cons ..)]

/-- A specifier is parsed, and what follows begins a new text. -/
theorem parse_specifier (hhead : cs.head? ≠ some '%') {str fmt rest : List Char}
    (h : readSpec cs = some (str, fmt, rest)) : parse nstr ('%' :: cs) =
      (flush nstr ++ .specifier str fmt :: (parse [] rest).1, (parse [] rest).2) := by
  rw [parse, if_neg (by simp), if_neg hhead]
  split
  case h_1 heq =>
    rw [h] at heq
    cases heq
    rfl
  case h_2 heq =>
    rw [h] at heq
    cases heq

/-- A specifier whose brace is not closed is an error, and the text goes on behind the `%`. -/
theorem parse_open (hhead : cs.head? ≠ some '%') (h : readSpec cs = none) :
    parse nstr ('%' :: cs) = (patternError :: (parse nstr cs).1, true) := by
  rw [parse, if_neg (by simp), if_neg hhead]
  split
  case h_1 heq =>
    rw [h] at heq
    cases heq
  case h_2 => rfl

/-- The loop does what `parse` says, from any place in the pattern on. -/
theorem scanLoop_eq (nstr : List Char) (vec : List Entry) (error : Bool) {p : List Char}
    {i steps : ℕ} (h : p.drop i = cs) (hsteps : cs.length ≤ steps) :
    let s := scanLoop p steps i ⟨nstr, vec, error⟩
    s.vec ++ flush s.nstr = vec ++ (parse nstr cs).1 ∧
      s.m_error = (error || (parse nstr cs).2) := by
  -- what is pending and what has been pushed so far are general
  induction steps generalizing i nstr cs vec error with
  | zero =>
    obtain rfl := List.length_eq_zero_iff.1 (Nat.le_zero.1 hsteps)
    rw [parse_nil]
    exact ⟨rfl, (Bool.or_false error).symm⟩
  | succ steps ih =>
    cases cs with
    | nil =>
      -- `i` is behind the last character
      have hnone : p[i]? = none := List.getElem?_eq_none (List.drop_eq_nil_iff.1 h)
      rw [parse_nil, scanLoop, hnone]
      exact ⟨rfl, (Bool.or_false error).symm⟩
    | cons c cs =>
      have hdrop := drop_succ h
      have hsteps' : cs.length ≤ steps := by simpa using hsteps
      rw [scanLoop, getElem?_of_drop h]
      by_cases hc : c = '%'
      · subst hc
        have hnext : p[i + 1]? = cs.head? := by rw [← hdrop, List.head?_drop]
        by_cases hhead : cs.head? = some '%'
        · obtain ⟨cs, rfl⟩ := List.head?_eq_some_iff.1 hhead
          rw [parse_percent_percent]
          simpa [hnext] using ih (nstr ++ ['%']) vec error hdrop hsteps'
        · have hi := lt_length_of_drop h
          obtain ⟨hstatus, hresult⟩ := specLoop_eq hi hdrop
          generalize specLoop p i p.length ⟨i + 1, 0, 0, [], []⟩ = spec at hstatus hresult ⊢
          cases hspec : readSpec cs with
          | none =>
            -- the loop goes on behind the `%`, and what is pending stays pending
            rw [hspec] at hstatus
            rw [parse_open hhead hspec]
            simpa [hnext, hhead, hstatus] using ih nstr (vec ++ [patternError]) true hdrop hsteps'
          | some r =>
            -- the loop goes on behind what the specifier is made of
            rw [hspec] at hstatus
            rw [parse_specifier hhead hspec]
            obtain rfl := hresult r hspec
            have hrest := (length_readSpec_le hspec).trans hsteps'
            obtain ⟨hvec, herror⟩ :=
              ih [] (vec ++ (flush nstr ++ [.specifier spec.str spec.fmt])) error rfl hrest
            simp [hnext, hhead, hstatus, hvec, herror]
      · rw [parse_cons hc]
        simpa [hc] using ih (nstr ++ [c]) vec error hdrop hsteps'

/-- The loops over indices parse the pattern. -/
theorem scan_eq_parse (m_pattern : List Char) : scan m_pattern = parse [] m_pattern := by
  obtain ⟨hvec, herror⟩ := scanLoop_eq [] [] false (List.drop_zero : m_pattern.drop 0 = _) le_rfl
  exact Prod.ext hvec herror

end Parse

end Sylar.Log
