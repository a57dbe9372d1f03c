import Sylar.Hook.Defs
import Mathlib.Data.List.Induction

/-!
# The flags of a socket as its user sees them

The hooks keep `O_NONBLOCK` twice: as the user asked for it, in the context, and in the file. The
user never sees the second one: whatever calls of `fcntl` and `ioctl` were made on a socket with a
context, `F_GETFL` reports `O_NONBLOCK` as requested last, and the other flags as stored last
(`user_view`).
-/

namespace Sylar.Hook

/-- A call on the flags of a descriptor. -/
inductive FlagCall
  /-- `fcntl(fd, F_SETFL, arg)`. -/
  | setfl (arg : BitVec 32)
  /-- `ioctl(fd, FIONBIO, &v)`. -/
  | fionbio (v : BitVec 32)
  /-- `fcntl(fd, F_GETFL)`. -/
  | getfl
  deriving DecidableEq, Repr

namespace FlagCall

/-- The world after a call. -/
def run (mask : Settable) (fd : ℕ) (w : World) : FlagCall → Option World
  | .setfl arg => w.fcntlSetfl mask fd arg
  | .fionbio v => w.ioctlFionbio fd v
  | .getfl => (w.fcntlGetfl fd).map fun _ => w

/-- The `O_NONBLOCK` that a call requests. -/
def nonblock? : FlagCall → Option Bool
  | .setfl arg => some (nonblock arg)
  | .fionbio v => some (v ≠ 0)
  | .getfl => none

/-- The flags that a call requests. -/
def flags? : FlagCall → Option (BitVec 32)
  | .setfl arg => some arg
  | .fionbio _ | .getfl => none

end FlagCall

/-- The `O_NONBLOCK` requested last. -/
def lastNonblock (calls : List FlagCall) : Option Bool :=
  (calls.filterMap FlagCall.nonblock?).getLast?

/-- The flags that the last `F_SETFL` requested. -/
def lastFlags (calls : List FlagCall) : Option (BitVec 32) :=
  (calls.filterMap FlagCall.flags?).getLast?

theorem lastNonblock_append (calls : List FlagCall) (call : FlagCall) :
    lastNonblock (calls ++ [call]) = call.nonblock?.or (lastNonblock calls) := by
  rw [lastNonblock, List.filterMap_append, List.getLast?_append]
  cases h : call.nonblock? <;> simp [h, lastNonblock]

theorem lastFlags_append (calls : List FlagCall) (call : FlagCall) :
    lastFlags (calls ++ [call]) = call.flags?.or (lastFlags calls) := by
  rw [lastFlags, List.filterMap_append, List.getLast?_append]
  cases h : call.flags? <;> simp [h, lastFlags]

/-- The world after some calls on a socket whose file had the flags `init` before them: the context
holds the request and the file all other flags. -/
structure Seen (mask : Settable) (fd : ℕ) (init : BitVec 32) (calls : List FlagCall) (w : World) :
    Prop where
  tracked : ∃ file p ctx, w.kernel fd = some file ∧ w.socketCtx fd = some (p, ctx) ∧
    (∀ b, lastNonblock calls = some b → ctx.userNonblock = b) ∧
    ∀ i, i ≠ 11 → mask.1.getLsbD i = true →
      file.flags.getLsbD i = ((lastFlags calls).getD init).getLsbD i

namespace Seen

variable {mask : Settable} {fd : ℕ} {init : BitVec 32} {calls : List FlagCall} {w : World}

/-- What `F_GETFL` reports. -/
theorem getfl (h : Seen mask fd init calls w) : ∃ flags, w.fcntlGetfl fd = some flags ∧
    (∀ b, lastNonblock calls = some b → nonblock flags = b) ∧
    ∀ i, i ≠ 11 → mask.1.getLsbD i = true →
      flags.getLsbD i = ((lastFlags calls).getD init).getLsbD i := by
  obtain ⟨file, p, ctx, hfile, hctx, huser, hbits⟩ := h.tracked
  refine ⟨_, by rw [World.fcntlGetfl, hfile]; rfl, fun b hb => ?_, fun i hi hmask => ?_⟩
  · obtain rfl := huser b hb
    simp only [hctx]
    cases ctx.userNonblock <;> simp
  · rw [← hbits i hi hmask]
    simp only [hctx]
    split
    · exact getLsbD_or_of_ne hi _
    · exact getLsbD_and_not_of_ne hi _

/-- One call keeps to it. -/
theorem run (h : Seen mask fd init calls w) (call : FlagCall) :
    ∃ w', call.run mask fd w = some w' ∧ Seen mask fd init (calls ++ [call]) w' := by
  obtain ⟨file, p, ctx, hfile, hctx, huser, hbits⟩ := h.tracked
  have hkernel : ∀ file', (w.setFile fd (some file')).kernel fd = some file' := fun file' =>
    Function.update_self ..
  cases call with
  | setfl arg =>
    -- what is stored differs from the request in `O_NONBLOCK` only
    refine ⟨_, by rw [FlagCall.run, World.fcntlSetfl, hfile]; rfl, ⟨?_⟩⟩
    simp only [hctx]
    refine ⟨_, p, _, hkernel _, World.socketCtx_modify hctx _ _, ?_, fun i hi hmask => ?_⟩
    · rw [lastNonblock_append]
      rintro b ⟨⟩
      rfl
    · rw [File.getLsbD_setfl hmask, lastFlags_append]
      split
      · exact getLsbD_or_of_ne hi _
      · exact getLsbD_and_not_of_ne hi _
  | fionbio v =>
    -- `FIONBIO` leaves the other flags as they were
    refine ⟨_, by rw [FlagCall.run, World.ioctlFionbio, hfile]; rfl, ⟨?_⟩⟩
    simp only [hctx]
    refine ⟨_, p, _, hkernel _, World.socketCtx_modify hctx _ _, ?_, fun i hi hmask => ?_⟩
    · rw [lastNonblock_append]
      rintro b ⟨⟩
      rfl
    · rw [File.getLsbD_fionbio hi, hbits i hi hmask, lastFlags_append]
      rfl
  | getfl =>
    refine ⟨w, by rw [FlagCall.run, World.fcntlGetfl, hfile]; rfl, ⟨?_⟩⟩
    refine ⟨file, p, ctx, hfile, hctx, ?_, ?_⟩
    · rwa [lastNonblock_append]
    · rwa [lastFlags_append]

/-- So does every sequence of calls. -/
theorem foldlM {file : File} {p : ℕ} {ctx : FdCtx} (hfile : w.kernel fd = some file)
    (hctx : w.socketCtx fd = some (p, ctx)) (calls : List FlagCall) :
    ∃ w', calls.foldlM (FlagCall.run mask fd) w = some w' ∧ Seen mask fd file.flags calls w' := by
  induction calls using List.reverseRecOn with
  | nil => exact ⟨w, rfl, ⟨file, p, ctx, hfile, hctx, nofun, fun _ _ _ => rfl⟩⟩
  | append_singleton calls call ih =>
    obtain ⟨w', hcalls, hseen⟩ := ih
    obtain ⟨w'', hcall, hseen'⟩ := hseen.run call
    refine ⟨w'', ?_, hseen'⟩
    rw [List.foldlM_append, hcalls]
    simpa using hcall

end Seen

/-- After any calls on an open socket with a context, `F_GETFL` reports `O_NONBLOCK` as requested
last, and every other flag that can be set as the last `F_SETFL` requested it, or as it was. -/
theorem user_view (mask : Settable) (w : World) (fd : ℕ) (calls : List FlagCall) {file : File}
    {p : ℕ} {ctx : FdCtx} (hfile : w.kernel fd = some file)
    (hctx : w.socketCtx fd = some (p, ctx)) :
    ∃ w' flags, calls.foldlM (FlagCall.run mask fd) w = some w' ∧
      w'.fcntlGetfl fd = some flags ∧
      (∀ b, lastNonblock calls = some b → nonblock flags = b) ∧
      ∀ i, i ≠ 11 → mask.1.getLsbD i = true →
        flags.getLsbD i = ((lastFlags calls).getD file.flags).getLsbD i := by
  obtain ⟨w', hcalls, hseen⟩ : ∃ w', calls.foldlM (FlagCall.run mask fd) w = some w' ∧
      Seen mask fd file.flags calls w' := Seen.foldlM hfile hctx calls
  obtain ⟨flags, hget, hview⟩ := hseen.getfl
  exact ⟨w', flags, hcalls, hget, hview⟩

/-- The user of a new socket asks for non-blocking mode, then for `O_APPEND` alone. -/
theorem user_view_example :
    let mask : Settable := ⟨O_NONBLOCK ||| 0x400, by decide⟩
    let w := ((World.new fun _ => none).socket mask 5 2).getD (.new fun _ => none)
    ∃ w' flags, [.fionbio 1, .setfl 0x400].foldlM (FlagCall.run mask 5) w = some w' ∧
      w'.fcntlGetfl 5 = some flags ∧ nonblock flags = false ∧ flags.getLsbD 10 = true := by
  intro mask w
  have hfile : w.kernel 5 = some ⟨true, 0x802⟩ := by decide
  have hctx : w.socketCtx 5 = some (0, ⟨true, true, true, false, false, 5, -1, -1⟩) := by decide
  obtain ⟨w', flags, hcalls, hget, hnonblock, hbits⟩ :=
    user_view mask w 5 [.fionbio 1, .setfl 0x400] hfile hctx
  exact ⟨w', flags, hcalls, hget, hnonblock false rfl, hbits 10 (by decide) (by decide)⟩

end Sylar.Hook
