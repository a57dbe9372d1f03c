import Sylar.Foundation.Watched
import Mathlib.Data.List.Induction
import Mathlib.Data.List.Basic

/-!
# `LoadCounter`

Model of `LoadCounter` from `fiber/scheduler.cpp`, on one thread. The clock readings of
`getTimeUsec` are arguments, and the arithmetic is watched: what a function returns says whether a
difference or a sum of times has wrapped.

Each record says how long the scheduler has slept or worked since the call before. `load_law` says
that the records that are kept, and the interval that is still open, add up to the time since the
oldest of them began. The calls cut the time into `intervals`, each of which starts where the one
before has stopped; the records are the durations of the last `m_max_size` of them (`Tracks`).
-/

namespace Sylar

open Machine

/-- `LoadCounter::TimeRecord`. -/
structure TimeRecord where
  sleep : Bool
  duration : UInt64

/-- The fields of `LoadCounter`. -/
structure LoadCounter where
  m_sleeping : Bool
  m_max_size : ℕ
  m_last_wake : UInt64
  m_last_sleep : UInt64
  m_records : List TimeRecord

namespace LoadCounter

/-- `LoadCounter(max_size)`. -/
def new (max_size : ℕ) (now : UInt64) : LoadCounter where
  m_sleeping := true
  m_max_size := max_size
  m_last_wake := now
  m_last_sleep := now
  m_records := []

/-- A new record, and `pop_front` if there are too many. -/
def record (sleep : Bool) (duration : UInt64) (c : LoadCounter) : LoadCounter :=
  let records := c.m_records ++ [⟨sleep, duration⟩]
  { c with m_records := if records.length > c.m_max_size then records.tail else records }

/-- `startSleep()`. -/
def startSleep (current_time : UInt64) (c : LoadCounter) : Watched LoadCounter := do
  let run_time ← sub current_time c.m_last_wake
  return { c with m_sleeping := true, m_last_sleep := current_time }.record false run_time

/-- `startWork()`. -/
def startWork (current_time : UInt64) (c : LoadCounter) : Watched LoadCounter := do
  let sleep_time ← sub current_time c.m_last_sleep
  return { c with m_sleeping := false, m_last_wake := current_time }.record true sleep_time

/-- The loop of `getLoad`, with `totalSleepTime` and `totalRunTime`. -/
def sumLoop : List TimeRecord → UInt64 → UInt64 → Watched (UInt64 × UInt64)
  | [], totalSleepTime, totalRunTime => return (totalSleepTime, totalRunTime)
  | i :: records, totalSleepTime, totalRunTime =>
    if i.sleep then do
      let totalSleepTime ← add totalSleepTime i.duration
      sumLoop records totalSleepTime totalRunTime
    else do
      let totalRunTime ← add totalRunTime i.duration
      sumLoop records totalSleepTime totalRunTime

/-- `totalSleepTime` and `totalRunTime` in `getLoad`, with the open interval. -/
def totals (now : UInt64) (c : LoadCounter) : Watched (UInt64 × UInt64) := do
  let (totalSleepTime, totalRunTime) ← sumLoop c.m_records 0 0
  if c.m_sleeping then
    let open_ ← sub now c.m_last_sleep
    let totalSleepTime ← add totalSleepTime open_
    return (totalSleepTime, totalRunTime)
  else
    let open_ ← sub now c.m_last_wake
    let totalRunTime ← add totalRunTime open_
    return (totalSleepTime, totalRunTime)

/-- `getLoad()`. -/
def getLoad (now : UInt64) (c : LoadCounter) : Watched Int32 :=
  if c.m_records.length = 0 then return 0
  else do
    let (totalSleepTime, totalRunTime) ← c.totals now
    let totalTime ← add totalSleepTime totalRunTime
    if totalTime = 0 then return 0
    let percents ← mul 100 totalRunTime
    let load ← div percents totalTime
    return load.toUInt32.toInt32

/-- Calls of `startSleep` and `startWork` in turns, at these clock readings; `sleep` says which of
them is next. -/
def run : Bool → List UInt64 → LoadCounter → Watched LoadCounter
  | _, [], c => return c
  | sleep, now :: times, c => do
    let c ← if sleep then c.startSleep now else c.startWork now
    run (!sleep) times c

end LoadCounter

/-- What the scheduler has done between two calls. -/
structure Interval where
  sleep : Bool
  start : UInt64
  stop : UInt64

namespace LoadCounter

/-- The record of an interval. -/
def recordOf (i : Interval) : TimeRecord := ⟨i.sleep, i.stop - i.start⟩

/-- The intervals between calls in turns, after a first clock reading. A call of `startSleep` ends
an interval of work. -/
def intervals : Bool → UInt64 → List UInt64 → List Interval
  | _, _, [] => []
  | sleep, last, now :: times => ⟨!sleep, last, now⟩ :: intervals (!sleep) now times

/-- The last `max_size` intervals. -/
def window (max_size : ℕ) (past : List Interval) : List Interval :=
  past.drop (past.length - max_size)

/-- Intervals one after the other, without gaps, from one reading of the clock to another. -/
def Chained : UInt64 → List Interval → UInt64 → Prop
  | start, [], stop => start = stop
  | start, i :: is, stop => i.start = start ∧ start ≤ i.stop ∧ Chained i.stop is stop

lemma length_window_le (max_size : ℕ) (past : List Interval) :
    (window max_size past).length ≤ max_size := by
  rw [window, List.length_drop]
  omega

/-- The window moves on by one interval, and drops the oldest if it is full. -/
lemma window_append (max_size : ℕ) (past : List Interval) (i : Interval) :
    window max_size (past ++ [i]) =
      if (window max_size past ++ [i]).length > max_size then (window max_size past ++ [i]).tail
      else window max_size past ++ [i] := by
  have hlength : (window max_size past ++ [i]).length = min past.length max_size + 1 := by
    simp only [window, List.length_append, List.length_drop, List.length_singleton]
    omega
  have hwindow : window max_size past ++ [i] =
      (past ++ [i]).drop (past.length - max_size) := by
    rw [window, List.drop_append_of_le_length (Nat.sub_le _ _)]
  -- both sides are suffixes of the new list
  rw [hlength, hwindow, List.tail_drop, window, List.length_append, List.length_singleton]
  split_ifs with hfull
  · congr 1
    omega
  · congr 1
    omega

namespace Chained

variable {start stop now : UInt64} {is : List Interval}

lemma le (h : Chained start is stop) : start ≤ stop := by
  induction is generalizing start with
  | nil => exact UInt64.le_of_eq h
  | cons i is ih => exact UInt64.le_trans h.2.1 (ih h.2.2)

lemma append (h : Chained start is stop) (hnow : stop ≤ now) (sleep : Bool) :
    Chained start (is ++ [⟨sleep, stop, now⟩]) now := by
  induction is generalizing start with
  | nil =>
    obtain rfl : start = stop := h
    exact ⟨rfl, hnow, rfl⟩
  | cons i is ih => exact ⟨h.1, h.2.1, ih h.2.2⟩

/-- Whatever is dropped at the front, the rest is still without gaps. -/
lemma drop (h : Chained start is stop) (n : ℕ) : ∃ from_, Chained from_ (is.drop n) stop := by
  induction is generalizing start n with
  | nil =>
    rw [List.drop_nil]
    exact ⟨start, h⟩
  | cons i is ih =>
    cases n with
    | zero => exact ⟨start, h⟩
    | succ n => exact ih h.2.2 n

end Chained

/-- The counter after some intervals of which the last has stopped at `last`; `sleep` says that
`startSleep` is called next. Each call subtracts a time stamp that was set by the other function. -/
structure Tracks (max_size : ℕ) (past : List Interval) (last : UInt64) (sleep : Bool)
    (c : LoadCounter) : Prop where
  size : c.m_max_size = max_size
  records : c.m_records = (window max_size past).map recordOf
  chained : ∃ start, Chained start past last
  wake : sleep = true → c.m_last_wake = last
  rest : sleep = false → c.m_last_sleep = last
  stamp : (if c.m_sleeping then c.m_last_sleep else c.m_last_wake) = last

section Runs

variable {max_size : ℕ} {past : List Interval} {last now : UInt64} {sleep : Bool} {c : LoadCounter}

lemma tracks_new (max_size : ℕ) (t₀ : UInt64) (sleep : Bool) :
    Tracks max_size [] t₀ sleep (new max_size t₀) where
  size := rfl
  records := by
    rw [window, List.drop_nil]
    rfl
  chained := ⟨t₀, rfl⟩
  wake _ := rfl
  rest _ := rfl
  stamp := rfl

/-- The new record goes into the list as the interval goes into the window. -/
lemma records_record (hmax : c.m_max_size = max_size)
    (h : c.m_records = (window max_size past).map recordOf) (sleep : Bool) (hlast : last ≤ now)
    {duration : UInt64} (hduration : duration.toNat = now.toNat - last.toNat) :
    (c.record sleep duration).m_records =
      (window max_size (past ++ [⟨sleep, last, now⟩])).map recordOf := by
  have hrecord : (⟨sleep, duration⟩ : TimeRecord) = recordOf ⟨sleep, last, now⟩ := by
    have : duration = now - last :=
      UInt64.toNat_inj.1 (hduration.trans (UInt64.toNat_sub_of_le _ _ hlast).symm)
    rw [this, recordOf]
  have happend : (window max_size past).map recordOf ++ [recordOf ⟨sleep, last, now⟩] =
      (window max_size past ++ [(⟨sleep, last, now⟩ : Interval)]).map recordOf := by
    rw [List.map_append, List.map_singleton]
  simp only [record, h, hmax, hrecord, happend, List.length_map]
  rw [window_append]
  split_ifs with hfull
  · rw [List.map_tail]
  · rfl

lemma startSleep_meets (h : Tracks max_size past last true c) (hlast : last ≤ now) :
    Meets (c.startSleep now) (Tracks max_size (past ++ [⟨false, last, now⟩]) now false) := by
  obtain ⟨start, hchained⟩ := h.chained
  have hwake : c.m_last_wake = last := h.wake rfl
  rw [startSleep, hwake]
  refine (Meets.sub hlast).bind fun run_time hrun => Meets.pure ?_
  exact
    { size := h.size
      records := records_record h.size h.records false hlast hrun
      chained := ⟨start, hchained.append hlast false⟩
      wake := nofun
      rest := fun _ => rfl
      stamp := rfl }

lemma startWork_meets (h : Tracks max_size past last false c) (hlast : last ≤ now) :
    Meets (c.startWork now) (Tracks max_size (past ++ [⟨true, last, now⟩]) now true) := by
  obtain ⟨start, hchained⟩ := h.chained
  have hrest : c.m_last_sleep = last := h.rest rfl
  rw [startWork, hrest]
  refine (Meets.sub hlast).bind fun sleep_time hsleep => Meets.pure ?_
  exact
    { size := h.size
      records := records_record h.size h.records true hlast hsleep
      chained := ⟨start, hchained.append hlast true⟩
      wake := fun _ => rfl
      rest := nofun
      stamp := rfl }

lemma run_meets (sleep : Bool) (times : List UInt64) (h : Tracks max_size past last sleep c)
    (hclock : (last :: times).Pairwise (· ≤ ·)) :
    Meets (run sleep times c) fun c' => ∃ sleep',
      Tracks max_size (past ++ intervals sleep last times) (times.getLastD last) sleep' c' := by
  induction times generalizing sleep past last c with
  | nil =>
    refine Meets.pure ⟨sleep, ?_⟩
    rw [intervals, List.append_nil]
    exact h
  | cons now times ih =>
    obtain ⟨hle, hrest⟩ := List.pairwise_cons.1 hclock
    have hlast : last ≤ now := hle now (List.mem_cons_self ..)
    have hrun : ∀ c', Tracks max_size (past ++ [⟨!sleep, last, now⟩]) now (!sleep) c' →
        Meets (run (!sleep) times c') fun c'' => ∃ sleep',
          Tracks max_size (past ++ intervals sleep last (now :: times))
            ((now :: times).getLastD last) sleep' c'' := by
      intro c' h'
      refine (ih (!sleep) h' hrest).mono fun c'' h'' => ?_
      rw [List.append_assoc, List.singleton_append] at h''
      rw [intervals, List.getLastD_cons]
      exact h''
    cases sleep with
    | true => exact (startSleep_meets h hlast).bind hrun
    | false => exact (startWork_meets h hlast).bind hrun

/-! ## The sums of `getLoad` -/

/-- The durations of intervals without gaps telescope. -/
lemma sumLoop_meets {start stop : UInt64} {is : List Interval} (h : Chained start is stop)
    (s r : UInt64) (hfits : s.toNat + r.toNat + (stop.toNat - start.toNat) < 2 ^ 64) :
    Meets (sumLoop (is.map recordOf) s r) fun t =>
      t.1.toNat + t.2.toNat + start.toNat = s.toNat + r.toNat + stop.toNat := by
  induction is generalizing start s r with
  | nil =>
    obtain rfl : start = stop := h
    exact Meets.pure rfl
  | cons i is ih =>
    obtain ⟨rfl, hle, hrest⟩ := h
    have hstart : i.start.toNat ≤ i.stop.toNat := UInt64.le_iff_toNat_le.1 hle
    have hstop : i.stop.toNat ≤ stop.toNat := UInt64.le_iff_toNat_le.1 hrest.le
    have hduration : (recordOf i).duration.toNat = i.stop.toNat - i.start.toNat :=
      UInt64.toNat_sub_of_le _ _ hle
    rw [List.map_cons, sumLoop]
    split_ifs with hsleep
    · refine (Meets.add (by omega)).bind fun s' hs => ?_
      refine (ih hrest s' r (by omega)).mono fun t ht => ?_
      omega
    · refine (Meets.add (by omega)).bind fun r' hr => ?_
      refine (ih hrest s r' (by omega)).mono fun t ht => ?_
      omega

/-- With the interval that is still open, the sums reach from the oldest record to now. -/
lemma totals_meets (h : Tracks max_size past last sleep c) {first : Interval}
    (hfirst : (window max_size past).head? = some first) (hnow : last ≤ now) :
    Meets (c.totals now) fun t => t.1.toNat + t.2.toNat + first.start.toNat = now.toNat := by
  obtain ⟨start₀, hpast⟩ := h.chained
  obtain ⟨start, hkept⟩ := hpast.drop (past.length - max_size)
  change Chained start (window max_size past) last at hkept
  have hstart : first.start = start := by
    obtain ⟨rest, hrest⟩ := List.head?_eq_some_iff.1 hfirst
    rw [hrest] at hkept
    exact hkept.1
  have hle : start.toNat ≤ last.toNat := UInt64.le_iff_toNat_le.1 hkept.le
  have hlast : last.toNat ≤ now.toNat := UInt64.le_iff_toNat_le.1 hnow
  have hbound : now.toNat < 2 ^ 64 := now.toNat_lt
  have hsums := sumLoop_meets hkept 0 0 (by simp only [UInt64.toNat_zero]; omega)
  simp only [UInt64.toNat_zero] at hsums
  rw [totals, h.records, hstart]
  refine hsums.bind fun t ht => ?_
  -- the open interval starts at the last call, whichever it was
  have hstamp := h.stamp
  split_ifs at hstamp ⊢ with hsleeping
  · rw [hstamp]
    refine (Meets.sub hnow).bind fun o ho => (Meets.add (by omega)).bind fun s hs => Meets.pure ?_
    simp only
    omega
  · rw [hstamp]
    refine (Meets.sub hnow).bind fun o ho => (Meets.add (by omega)).bind fun r hr => Meets.pure ?_
    simp only
    omega

/-- The conversion of `getLoad` to `int` keeps a percentage. -/
lemma toInt_percentage {load : UInt64} (h : load.toNat ≤ 100) :
    load.toUInt32.toInt32.toInt = load.toNat := by
  have hbits : load.toUInt32.toInt32.toBitVec.toNat = load.toNat :=
    (UInt64.toNat_toUInt32 load).trans (Nat.mod_eq_of_lt (by omega))
  change load.toUInt32.toInt32.toBitVec.toInt = load.toNat
  rw [BitVec.toInt_eq_toNat_of_lt (by omega), hbits]

/-- The percentage is one of the whole, and only its product with 100 asks for small readings. -/
lemma getLoad_meets (h : Tracks max_size past last sleep c) (hnow : last ≤ now)
    (hsmall : 100 * now.toNat < 2 ^ 64) :
    Meets (c.getLoad now) fun load => 0 ≤ load.toInt ∧ load.toInt ≤ 100 := by
  rw [getLoad]
  -- without records, and without time, the load is 0
  split_ifs with hempty
  · exact Meets.pure (by decide)
  obtain ⟨first, hfirst⟩ : ∃ first, (window max_size past).head? = some first := by
    rw [h.records, List.length_map] at hempty
    exact Option.isSome_iff_exists.1 (List.isSome_head?.2 (List.length_pos_iff.1 (by omega)))
  refine (totals_meets h hfirst hnow).bind fun t ht => ?_
  refine (Meets.add (by have := now.toNat_lt; omega)).bind fun total htotal => ?_
  split_ifs with hzero
  · exact Meets.pure (by decide)
  have hpos : 0 < total.toNat :=
    Nat.pos_of_ne_zero fun h => hzero (UInt64.toNat_inj.1 (h.trans UInt64.toNat_zero.symm))
  have hhundred : (100 : UInt64).toNat = 100 := rfl
  refine (Meets.mul (by rw [hhundred]; omega)).bind fun percents hpercents => ?_
  refine (Meets.div hzero).bind fun load hload => Meets.pure ?_
  have hle : load.toNat ≤ 100 := by
    rw [hload, hpercents, hhundred]
    exact Nat.div_le_of_le_mul (by rw [Nat.mul_comm]; exact Nat.mul_le_mul_right 100 (by omega))
  rw [toInt_percentage hle]
  omega

end Runs

/-! ## Every run -/

/-- Load accounting. The records are those of the last `max_size` intervals; with the open interval
they add up to the time since the first of these began, and the load is a percentage. Nothing wraps
on the way. -/
theorem load_law (max_size : ℕ) (t₀ : UInt64) (sleep : Bool) (times : List UInt64) (now : UInt64)
    (hclock : (t₀ :: (times ++ [now])).Pairwise (· ≤ ·)) (hsmall : 100 * now.toNat < 2 ^ 64) :
    Meets (run sleep times (new max_size t₀)) fun c =>
      c.m_records = (window max_size (intervals sleep t₀ times)).map recordOf ∧
      c.m_records.length ≤ max_size ∧
      (∀ first, (window max_size (intervals sleep t₀ times)).head? = some first →
        Meets (c.totals now) fun t => t.1.toNat + t.2.toNat + first.start.toNat = now.toNat) ∧
      Meets (c.getLoad now) fun load => 0 ≤ load.toInt ∧ load.toInt ≤ 100 := by
  rw [← List.cons_append] at hclock
  obtain ⟨hcalls, -, hlater⟩ := List.pairwise_append.1 hclock
  have hnow : times.getLastD t₀ ≤ now :=
    hlater _ List.getLastD_mem_cons now (List.mem_singleton_self now)
  refine (run_meets sleep times (tracks_new max_size t₀ sleep) hcalls).mono ?_
  rintro c ⟨sleep', h⟩
  rw [List.nil_append] at h
  refine ⟨h.records, ?_, fun first hfirst => totals_meets h hfirst hnow,
    getLoad_meets h hnow hsmall⟩
  rw [h.records, List.length_map]
  exact length_window_le max_size _

theorem load_law_example :
    ([5, 7, 12, 20] : List UInt64).Pairwise (· ≤ ·) ∧
      (run true [7, 12] (new 1 5)).exact = true ∧ ((run true [7, 12] (new 1 5)).val.totals 20).val =
        (5, 8) ∧ ((run true [7, 12] (new 1 5)).val.getLoad 20).val.toInt ≤ 100 := by
  have h := load_law 1 5 true [7, 12] 20 (by decide) (by decide)
  exact ⟨by decide, h.1, by decide, h.2.2.2.2.2.2⟩

end LoadCounter

end Sylar
