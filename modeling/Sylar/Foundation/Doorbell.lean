import Sylar.Foundation.Run
import Mathlib.Data.Nat.Notation
import Mathlib.Logic.Function.Basic

/-!
# A doorbell: threads that ring before they rest

A pipe whose read end is watched edge-triggered wakes one of the threads that wait for it. Every
thread rings, that is, writes a byte into the pipe, before it goes to rest, and the one that the
pipe has woken reads until the pipe is empty. `Doorbell.Step` lists what may happen, whatever the
threads do in between.

* `EdgePipe` — the bytes in the pipe, and whether the read end is due for a report;
* `Doorbell.Inv` — a byte in the pipe is reported or being read, and if all threads rest there is
  one;
* `Doorbell.Inv.step` — every step keeps the invariant.
-/

namespace Transition

/-! ## The pipe -/

/-- A pipe with its read end in an edge-triggered interest list. -/
structure EdgePipe where
  bytes : ℕ
  /-- The read end is on the list of descriptors due for a report. -/
  ready : Bool
  deriving DecidableEq, Repr

namespace EdgePipe

def empty : EdgePipe := { bytes := 0, ready := false }

/-- Write a byte. The first byte makes the read end due; a later one does so or not (`again`). -/
def write (p : EdgePipe) (again : Bool) : EdgePipe :=
  { bytes := p.bytes + 1, ready := p.ready || p.bytes = 0 || again }

/-- The read end is due, and there is still something to read. -/
def Reports (p : EdgePipe) : Prop := p.ready = true ∧ 0 < p.bytes

instance (p : EdgePipe) : Decidable p.Reports := inferInstanceAs (Decidable (_ ∧ _))

/-- Take the read end off the list, because it has been reported or the pipe is empty. -/
def clear (p : EdgePipe) : EdgePipe := { p with ready := false }

/-- Read up to `n` bytes. -/
def read (p : EdgePipe) (n : ℕ) : EdgePipe := { p with bytes := p.bytes - n }

/-- Behind a write there is something to read. -/
theorem write_pos (p : EdgePipe) (again : Bool) : 0 < (p.write again).bytes := Nat.succ_pos _

/-- A write does not take a report away. -/
theorem Reports.write {p : EdgePipe} (h : p.Reports) (again : Bool) : (p.write again).Reports := by
  refine ⟨?_, write_pos p again⟩
  simp [EdgePipe.write, h.1]

/-- Into a pipe that is empty, or due, a byte is written so that it is reported. -/
theorem reports_write {p : EdgePipe} (h : 0 < p.bytes → p.ready = true) (again : Bool) :
    (p.write again).Reports := by
  refine ⟨?_, write_pos p again⟩
  rcases Nat.eq_zero_or_pos p.bytes with hzero | hpos
  · simp [EdgePipe.write, hzero]
  · simp [EdgePipe.write, h hpos]

end EdgePipe

/-! ## The threads -/

/-- What a thread is doing. -/
inductive Stage
  /-- It will ring before it rests. -/
  | busy
  /-- The pipe has woken it, and it reads. -/
  | draining
  /-- It has rung since it was busy, and may wait for the pipe or be gone. -/
  | resting
  deriving DecidableEq, Repr

/-- A pipe and the threads. -/
structure Doorbell (T : Type*) where
  pipe : EdgePipe
  stage : T → Stage

namespace Doorbell

variable {T : Type*} [DecidableEq T]

/-- The thread goes to another stage. -/
def goto (d : Doorbell T) (t : T) (stage : Stage) : Doorbell T :=
  { d with stage := Function.update d.stage t stage }

/-- What may happen. -/
inductive Step (d : Doorbell T) : Doorbell T → Prop
  | stay : Step d d
  /-- Somebody rings. -/
  | ring (again : Bool) : Step d { d with pipe := d.pipe.write again }
  /-- A thread wakes up for another reason, or is done with reading. -/
  | busy (t : T) (h : d.stage t = .draining → d.pipe.bytes = 0) : Step d (d.goto t .busy)
  /-- A thread rings and rests. -/
  | rest (t : T) (again : Bool) (h : d.stage t = .busy) :
      Step d { d.goto t .resting with pipe := d.pipe.write again }
  /-- The pipe wakes a thread. -/
  | report (t : T) (h : d.pipe.Reports) : Step d { d.goto t .draining with pipe := d.pipe.clear }
  /-- A thread reads. -/
  | read (t : T) (n : ℕ) (h : d.stage t = .draining) : Step d { d with pipe := d.pipe.read n }
  /-- An empty pipe has nothing to report. -/
  | forget (h : d.pipe.bytes = 0) : Step d { d with pipe := d.pipe.clear }

/-- The bytes in the pipe are not forgotten, and the threads do not rest all at once without one. -/
structure Inv (d : Doorbell T) : Prop where
  /-- Somebody has been told, or will be told, of the bytes in the pipe. -/
  told : 0 < d.pipe.bytes → d.pipe.ready = true ∨ ∃ t, d.stage t = .draining
  awake : d.pipe.Reports ∨ ∃ t, d.stage t ≠ .resting

variable {d d' : Doorbell T}

/-- A thread that goes to another stage leaves the pipe alone. -/
@[simp]
theorem pipe_goto (d : Doorbell T) (t : T) (stage : Stage) : (d.goto t stage).pipe = d.pipe := rfl

/-- It is where it has gone. -/
@[simp]
theorem stage_goto_self (d : Doorbell T) (t : T) (stage : Stage) :
    (d.goto t stage).stage t = stage := by
  exact Function.update_self t stage d.stage

/-- The others stay where they are. -/
theorem stage_goto_of_ne {t u : T} (h : u ≠ t) (stage : Stage) :
    (d.goto t stage).stage u = d.stage u := by
  exact Function.update_of_ne h stage d.stage

/-- A thread that reads goes on reading when another one changes its stage. -/
theorem draining_goto {t : T} {stage : Stage} (h : ∃ u, d.stage u = .draining)
    (ht : d.stage t ≠ .draining) : ∃ u, (d.goto t stage).stage u = .draining := by
  obtain ⟨u, hu⟩ := h
  refine ⟨u, ?_⟩
  have hne : u ≠ t := by
    rintro rfl
    exact ht hu
  rw [stage_goto_of_ne hne, hu]

omit [DecidableEq T] in
/-- Behind a ring the threads need not stay awake. -/
theorem Inv.write {stage : T → Stage} (again : Bool)
    (htold : 0 < d.pipe.bytes → d.pipe.ready = true ∨ ∃ t, stage t = .draining) :
    Inv { pipe := d.pipe.write again, stage := stage } := by
  by_cases hdrain : ∃ t, stage t = .draining
  · obtain ⟨t, ht⟩ := hdrain
    exact ⟨fun _ => Or.inr ⟨t, ht⟩, Or.inr ⟨t, by simp [ht]⟩⟩
  · have hreports : (d.pipe.write again).Reports :=
      EdgePipe.reports_write (fun hpos => (htold hpos).resolve_right hdrain) again
    exact ⟨fun _ => Or.inl hreports.1, Or.inl hreports⟩

/-- Every step keeps the invariant. -/
theorem Inv.step (h : d.Inv) (hstep : Step d d') : d'.Inv := by
  cases hstep with
  | stay => exact h
  | ring again => exact Inv.write again h.told
  | busy t ht =>
    refine ⟨fun hpos => ?_, Or.inr ⟨t, by simp⟩⟩
    have hnot : d.stage t ≠ .draining := fun hdrain => Nat.ne_of_gt hpos (ht hdrain)
    exact (h.told hpos).imp_right fun hdrain => draining_goto hdrain hnot
  | rest t again ht =>
    refine Inv.write again fun hpos => ?_
    exact (h.told hpos).imp_right fun hdrain => draining_goto hdrain (by simp [ht])
  | report t hreports =>
    have ht : (d.goto t .draining).stage t = .draining := stage_goto_self d t .draining
    exact ⟨fun _ => Or.inr ⟨t, ht⟩, Or.inr ⟨t, by simp⟩⟩
  | read t n ht => exact ⟨fun _ => Or.inr ⟨t, ht⟩, Or.inr ⟨t, by simp [ht]⟩⟩
  | forget hzero =>
    have hnot : ¬ d.pipe.Reports := fun hreports => Nat.ne_of_gt hreports.2 hzero
    exact ⟨fun hpos => absurd hzero (Nat.ne_of_gt hpos), Or.inr (h.awake.resolve_left hnot)⟩

omit [DecidableEq T] in
/-- If nobody reads, the pipe reports what is in it. -/
theorem Inv.reports_of_pos (h : d.Inv) (hdrain : ∀ t, d.stage t ≠ .draining)
    (hpos : 0 < d.pipe.bytes) : d.pipe.Reports :=
  ⟨(h.told hpos).resolve_right fun ⟨t, ht⟩ => hdrain t ht, hpos⟩

omit [DecidableEq T] in
/-- If all threads rest, the pipe has something to report. -/
theorem Inv.reports_of_resting (h : d.Inv) (hrest : ∀ t, d.stage t = .resting) :
    d.pipe.Reports :=
  h.awake.resolve_right fun ⟨t, ht⟩ => ht (hrest t)

end Doorbell

end Transition
