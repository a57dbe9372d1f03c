import Mathlib.Data.Int.Basic
import Mathlib.Data.List.Basic

/-!
# `LogFormatter` — log lines from a pattern

Model of `LogLevel`, `LogEvent`, the format items and `LogFormatter` from `log/logger.{h,cpp}`.
`init` keeps the indices of the source: `scanLoop` is the loop over `i`, `specLoop` the loop over
`n` inside it.

Representation:

* a text is a list of characters, and `isalpha` knows the ASCII letters only, as in the locale that
  a program starts in;
* the format items are the constructors of `FormatItem`, with the member that their `format` reads.
  None of them reads the argument `logger`, which is left out;
* a `Platform` has the time zone and the conversions of `strftime` that depend on the locale. The
  argument `buf` of `format` stands for the contents of the array `buf` after a `strftime` that has
  not found room in it.
-/

namespace Sylar.Log

/-- `LogLevel::Level`. -/
inductive LogLevel
  | UNKNOW
  | DEBUG
  | INFO
  | WARN
  | ERROR
  | FATAL
  deriving DecidableEq, Repr

/-- `LogLevel::ToString(level)`. -/
def LogLevel.ToString : LogLevel → List Char
  | DEBUG => "DEBUG".toList
  | INFO => "INFO".toList
  | WARN => "WARN".toList
  | ERROR => "ERROR".toList
  | FATAL => "FATAL".toList
  | UNKNOW => "UNKNOW".toList

/-- The fields of a `LogEvent` that the format items read, with the name of its logger. -/
structure LogEvent where
  file : List Char
  line : Int32
  elapse : UInt32
  threadId : UInt32
  fiberId : UInt32
  time : UInt64
  threadName : List Char
  content : List Char
  loggerName : List Char

/-- `os << n` for an integer. -/
def decimal (n : ℤ) : List Char :=
  if n < 0 then '-' :: Nat.toDigits 10 n.natAbs else Nat.toDigits 10 n.natAbs

/-! ## Dates -/

/-- The fields of a `struct tm` that the default format uses. -/
structure Tm where
  tm_year : ℤ
  tm_mon : ℕ
  tm_mday : ℕ
  tm_hour : ℕ
  tm_min : ℕ
  tm_sec : ℕ

/-- What dates depend on besides the time. -/
structure Platform where
  localtime : UInt64 → Tm
  /-- The text of a format with other conversions than those of `strftimeConversion`. -/
  strftime : List Char → Tm → List Char

/-- Two decimal digits. -/
def twoDigits (n : ℕ) : List Char :=
  if n < 10 then '0' :: Nat.toDigits 10 n else Nat.toDigits 10 n

/-- The text of a conversion of `strftime`. -/
def strftimeConversion (tm : Tm) (c : Char) : Option (List Char) :=
  match c with
  | 'Y' => some (decimal (tm.tm_year + 1900))
  | 'm' => some (twoDigits (tm.tm_mon + 1))
  | 'd' => some (twoDigits tm.tm_mday)
  | 'H' => some (twoDigits tm.tm_hour)
  | 'M' => some (twoDigits tm.tm_min)
  | 'S' => some (twoDigits tm.tm_sec)
  | '%' => some ['%']
  | _ => none

/-- The text of a format that has only these conversions. -/
def strftimeText (tm : Tm) : List Char → Option (List Char)
  | [] => some []
  | [c] => if c = '%' then none else some [c]
  | c :: d :: cs =>
    if c = '%' then do
      let conversion ← strftimeConversion tm d
      let rest ← strftimeText tm cs
      some (conversion ++ rest)
    else (strftimeText tm (d :: cs)).map (c :: ·)

/-- `strftime(buf, 64, format, &tm)` and `os << buf`, where `buf` is what the array holds if there
is no room for the text. -/
def strftime (platform : Platform) (buf : List Char) (tm : Tm) (format : List Char) : List Char :=
  let text := (strftimeText tm format).getD (platform.strftime format tm)
  if text.length < 64 then text else buf

/-! ## Format items -/

/-- The classes derived from `LogFormatter::FormatItem`. -/
inductive FormatItem
  | message
  | level
  | elapse
  | name
  | threadId
  | fiberId
  | threadName
  | dateTime (m_format : List Char)
  | filename
  | line
  | newLine
  | string (m_string : List Char)
  | tab
  deriving DecidableEq, Repr

/-- `DateTimeFormatItem(format)`. -/
def DateTimeFormatItem (format : List Char) : FormatItem :=
  .dateTime (if format = [] then "%Y-%m-%d %H:%M:%S".toList else format)

/-- `format(os, logger, level, event)`. -/
def FormatItem.format (platform : Platform) (buf : List Char → UInt64 → List Char)
    (level : LogLevel) (event : LogEvent) : FormatItem → List Char
  | .message => event.content
  | .level => level.ToString
  | .elapse => decimal event.elapse.toNat
  | .name => event.loggerName
  | .threadId => decimal event.threadId.toNat
  | .fiberId => decimal event.fiberId.toNat
  | .threadName => event.threadName
  | .dateTime m_format =>
    -- `m_format.c_str()` ends at the first NUL
    strftime platform (buf m_format event.time) (platform.localtime event.time)
      (m_format.takeWhile (· ≠ Char.ofNat 0))
  | .filename => event.file
  | .line => decimal event.line.toInt
  | .newLine => ['\n']
  | .string m_string => m_string
  | .tab => ['\t']

/-- `s_format_items`, applied to a format. -/
def formatItem (str fmt : List Char) : Option FormatItem :=
  match str with
  | ['m'] => some .message
  | ['p'] => some .level
  | ['r'] => some .elapse
  | ['c'] => some .name
  | ['t'] => some .threadId
  | ['n'] => some .newLine
  | ['d'] => some (DateTimeFormatItem fmt)
  | ['f'] => some .filename
  | ['l'] => some .line
  | ['T'] => some .tab
  | ['F'] => some .fiberId
  | ['N'] => some .threadName
  | _ => none

/-! ## The scanner -/

/-- An element of `vec`: a text of type 0, or a specifier of type 1. -/
inductive Entry
  | text (str : List Char)
  | specifier (str fmt : List Char)
  deriving DecidableEq, Repr

/-- `s.substr(pos, n)`. -/
def substr (s : List Char) (pos n : ℕ) : List Char := (s.drop pos).take n

/-- `vec.push_back(nstr)`, unless `nstr` is empty. -/
def flush (nstr : List Char) : List Entry := if nstr = [] then [] else [.text nstr]

/-- `"<<pattern_error>>"`. -/
def patternError : Entry := .text "<<pattern_error>>".toList

/-- The variables of the loop over `n`. -/
structure Spec where
  n : ℕ
  fmt_status : ℕ
  fmt_begin : ℕ
  str : List Char
  fmt : List Char
  deriving DecidableEq, Repr

/-- `isalpha(c) || c == '{' || c == '}'`. -/
def inWord (c : Char) : Bool := c.isAlpha || c == '{' || c == '}'

/-- The loop `while(n < m_pattern.size())`, which takes at most the given number of steps. -/
def specLoop (m_pattern : List Char) (i : ℕ) : ℕ → Spec → Spec
  | 0, s => s
  | steps + 1, s =>
    match m_pattern[s.n]? with
    | none => s
    | some c =>
      if s.fmt_status = 0 ∧ !inWord c then { s with str := substr m_pattern (i + 1) (s.n - i - 1) }
      else if s.fmt_status = 0 ∧ c = '{' then
        specLoop m_pattern i steps
          { s with
            str := substr m_pattern (i + 1) (s.n - i - 1)
            fmt_status := 1
            fmt_begin := s.n
            n := s.n + 1 }
      else if s.fmt_status = 1 ∧ c = '}' then
        { s with
          fmt := substr m_pattern (s.fmt_begin + 1) (s.n - s.fmt_begin - 1)
          fmt_status := 0
          n := s.n + 1 }
      else
        specLoop m_pattern i steps
          { s with
            n := s.n + 1
            str :=
              if s.n + 1 = m_pattern.length ∧ s.str = [] then m_pattern.drop (i + 1) else s.str }

/-- The variables of the loop over `i`, and `m_error`. -/
structure Scan where
  nstr : List Char
  vec : List Entry
  m_error : Bool
  deriving DecidableEq, Repr

/-- The loop `for(size_t i = 0; i < m_pattern.size(); ++i)`, which takes at most the given number of
steps. -/
def scanLoop (m_pattern : List Char) : ℕ → ℕ → Scan → Scan
  | 0, _, s => s
  | steps + 1, i, s =>
    match m_pattern[i]? with
    | none => s
    | some c =>
      if c ≠ '%' then scanLoop m_pattern steps (i + 1) { s with nstr := s.nstr ++ [c] }
      else if m_pattern[i + 1]? = some '%' then
        -- the second `%` is not skipped
        scanLoop m_pattern steps (i + 1) { s with nstr := s.nstr ++ ['%'] }
      else
        let spec := specLoop m_pattern i m_pattern.length ⟨i + 1, 0, 0, [], []⟩
        if spec.fmt_status = 0 then
          scanLoop m_pattern steps spec.n
            { s with
              nstr := []
              vec := s.vec ++ flush s.nstr ++ [.specifier spec.str spec.fmt] }
        else
          scanLoop m_pattern steps (i + 1)
            { s with vec := s.vec ++ [patternError], m_error := true }

/-- `vec` after the loop, and whether it has set `m_error`. -/
def scan (m_pattern : List Char) : List Entry × Bool :=
  let s := scanLoop m_pattern m_pattern.length 0 ⟨[], [], false⟩
  (s.vec ++ flush s.nstr, s.m_error)

/-! ## The formatter -/

/-- `LogFormatter`. -/
structure LogFormatter where
  m_pattern : List Char
  m_items : List FormatItem
  m_error : Bool
  deriving DecidableEq, Repr

/-- The item for an element of `vec`. -/
def Entry.item : Entry → FormatItem
  | .text str => .string str
  | .specifier str fmt =>
    (formatItem str fmt).getD (.string ("<<error_format %".toList ++ str ++ ">>".toList))

/-- The last loop of `init` sets `m_error` for this element. -/
def Entry.unknown : Entry → Bool
  | .text _ => false
  | .specifier str fmt => (formatItem str fmt).isNone

namespace LogFormatter

/-- `LogFormatter::init()`, which appends to `m_items` and never resets `m_error`. -/
def init (f : LogFormatter) : LogFormatter :=
  let (vec, error) := scan f.m_pattern
  { f with
    m_items := f.m_items ++ vec.map Entry.item
    m_error := f.m_error || error || vec.any Entry.unknown }

/-- `LogFormatter(pattern)`. -/
def new (pattern : List Char) : LogFormatter := init ⟨pattern, [], false⟩

/-- `reset(pattern)`. -/
def reset (f : LogFormatter) (pattern : List Char) : LogFormatter :=
  init { f with m_pattern := pattern }

/-- `isError()`. -/
def isError (f : LogFormatter) : Bool := f.m_error

/-- `format(logger, level, event)`. -/
def format (f : LogFormatter) (platform : Platform) (buf : List Char → UInt64 → List Char)
    (level : LogLevel) (event : LogEvent) : List Char :=
  f.m_items.flatMap (FormatItem.format platform buf level event)

end LogFormatter

end Sylar.Log
