import Sylar.ByteArray.Wire

/-!
# `ByteArray` — floating-point fields

Model of `writeFloat`, `writeDouble`, `readFloat` and `readDouble`. A floating-point value is the
pattern of its bits, and `memcpy` copies bytes between variables whose sizes it does not know.

`readDouble` copies the eight bytes that it has read into a variable of type `float`. So the fields
of a sequence come back exactly when there is no double among them (`floatLaw_iff`).
-/

namespace Sylar.ByteArray

/-! ## Model -/

/-- `memcpy(&variable, &src, n)` for a variable of `size` bytes that has no value yet; the result is
what the copy stores. It must not store more than the variable holds. -/
def memcpy (size n : ℕ) (src : List UInt8) : Op (List UInt8) := fun ba =>
  if n ≤ size then .ok (src.take n) ba else .error .overrun ba

/-- `writeFloat(value)`. -/
def writeFloat (host : Endian) (value : UInt32) : Op Unit := do
  let v ← memcpy 4 4 (host.memory 4 value.toNat)
  writeFuint32 host (UInt32.ofNat (host.ofMemory v))

/-- `writeDouble(value)`. -/
def writeDouble (host : Endian) (value : UInt64) : Op Unit := do
  let v ← memcpy 8 8 (host.memory 8 value.toNat)
  writeFuint64 host (UInt64.ofNat (host.ofMemory v))

/-- `readFloat()`. -/
def readFloat (host : Endian) : Op UInt32 := do
  let v ← readFuint32 host
  let value ← memcpy 4 4 (host.memory 4 v.toNat)
  return UInt32.ofNat (host.ofMemory value)

/-- `readDouble()`. The variable `value` is a `float`, and `toDouble` converts it when it is
returned. -/
def readDouble (host : Endian) (toDouble : UInt32 → UInt64) : Op UInt64 := do
  let v ← readFuint64 host
  let value ← memcpy 4 8 (host.memory 8 v.toNat)
  return toDouble (UInt32.ofNat (host.ofMemory value))

/-- The floating-point types. -/
inductive FloatKind
  | float
  | double
  deriving DecidableEq

/-- The bits of a floating-point value. -/
inductive FloatBits
  | float (value : UInt32)
  | double (value : UInt64)
  deriving DecidableEq

/-- The type of a value. -/
def FloatBits.kind : FloatBits → FloatKind
  | float _ => .float
  | double _ => .double

/-- The function that writes a value of this type. -/
def FloatBits.write (host : Endian) : FloatBits → Op Unit
  | float value => writeFloat host value
  | double value => writeDouble host value

/-- The function that reads a value of this type. -/
def FloatKind.read (host : Endian) (toDouble : UInt32 → UInt64) : FloatKind → Op FloatBits
  | float => .float <$> readFloat host
  | double => .double <$> readDouble host toDouble

/-- A writer's calls. -/
def writeFloats (host : Endian) : List (FixedCall FloatBits) → Op Unit
  | [] => pure ()
  | .setEndian flag :: calls => do
    setEndian flag
    writeFloats host calls
  | .value f :: calls => do
    f.write host
    writeFloats host calls

/-- A reader's calls, and the values they return. -/
def readFloats (host : Endian) (toDouble : UInt32 → UInt64) :
    List (FixedCall FloatKind) → Op (List FloatBits)
  | [] => pure []
  | .setEndian flag :: calls => do
    setEndian flag
    readFloats host toDouble calls
  | .value k :: calls => do
    let f ← k.read host toDouble
    let fs ← readFloats host toDouble calls
    return f :: fs

/-! ## Fields as integers -/

/-- The integer that stands for a value in the array. -/
def FloatBits.toFixed : FloatBits → Fixed
  | float value => .fuint32 value
  | double value => .fuint64 value

/-- The integer type that stands for a type in the array. -/
def FloatKind.toKind : FloatKind → Kind
  | float => .fuint32
  | double => .fuint64

/-- A call with another value. -/
def FixedCall.map {α β : Type} (g : α → β) : FixedCall α → FixedCall β
  | setEndian flag => .setEndian flag
  | value a => .value (g a)

lemma selections_map {α β : Type} (g : α → β) (e : Endian) (calls : List (FixedCall α)) :
    selections e (calls.map (FixedCall.map g)) =
      (selections e calls).map fun (e, a) => (e, g a) := by
  induction calls generalizing e with
  | nil => rfl
  | cons call calls ih =>
    cases call with
    | setEndian flag => exact ih _
    | value a => exact congrArg _ (ih e)

lemma memcpy_memory (host : Endian) {n x : ℕ} (hx : x < 256 ^ n) (ba : ByteArray) :
    ∃ v, (memcpy n n (host.memory n x)).run ba = .ok v ba ∧ host.ofMemory v = x := by
  refine ⟨host.memory n x, ?_, host.ofMemory_memory hx⟩
  rw [EStateM.run, memcpy, if_pos (Nat.le_refl n), List.take_of_length_le (by simp)]

/-- The copies of `writeFloat` and `writeDouble` keep the bits. -/
lemma FloatBits.write_run (host : Endian) (f : FloatBits) (ba : ByteArray) :
    (f.write host).run ba = (f.toFixed.write host).run ba := by
  cases f with
  | float value =>
    obtain ⟨v, hcopy, hv⟩ := memcpy_memory host (n := 4) value.toNat_lt ba
    rw [write, writeFloat, EStateM.run_bind, hcopy]
    dsimp only
    rw [hv, UInt32.ofNat_toNat]
    rfl
  | double value =>
    obtain ⟨v, hcopy, hv⟩ := memcpy_memory host (n := 8) value.toNat_lt ba
    rw [write, writeDouble, EStateM.run_bind, hcopy]
    dsimp only
    rw [hv, UInt64.ofNat_toNat]
    rfl

lemma writeFloats_run (host : Endian) (calls : List (FixedCall FloatBits)) (ba : ByteArray) :
    (writeFloats host calls).run ba =
      (writeFixeds host (calls.map (FixedCall.map FloatBits.toFixed))).run ba := by
  induction calls generalizing ba with
  | nil => rfl
  | cons call calls ih =>
    rw [List.map_cons]
    cases call with
    | setEndian flag =>
      rw [writeFloats, FixedCall.map, writeFixeds, EStateM.run_bind, EStateM.run_bind]
      exact ih _
    | value f =>
      rw [writeFloats, FixedCall.map, writeFixeds, EStateM.run_bind, EStateM.run_bind, f.write_run]
      cases (f.toFixed.write host).run ba with
      | ok _ ba' => exact ih ba'
      | error fault ba' => rfl

/-! ## Reading floats -/

/-- The copy of `readFloat` keeps the bits. -/
lemma readFloat_run (host : Endian) (ba : ByteArray) :
    (readFloat host).run ba = (readFuint32 host).run ba := by
  rw [readFloat, EStateM.run_bind]
  cases (readFuint32 host).run ba with
  | error fault ba' => rfl
  | ok v ba' =>
    obtain ⟨value, hcopy, hvalue⟩ := memcpy_memory host (n := 4) v.toNat_lt ba'
    dsimp only
    rw [EStateM.run_bind, hcopy]
    dsimp only
    rw [hvalue, UInt32.ofNat_toNat]
    rfl

/-- A reader of floats gets what a reader of 32-bit integers gets. -/
lemma readFloats_of_readFixeds (host : Endian) (toDouble : UInt32 → UInt64)
    (calls : List (FixedCall FloatKind)) (hfloat : .value .double ∉ calls)
    {values : List FloatBits} {ba ba' : ByteArray}
    (h : (readFixeds host (calls.map (FixedCall.map FloatKind.toKind))).run ba =
      .ok (values.map FloatBits.toFixed) ba') :
    (readFloats host toDouble calls).run ba = .ok values ba' := by
  induction calls generalizing values ba with
  | nil =>
    cases values with
    | nil =>
      cases h
      rfl
    | cons value values => cases h
  | cons call calls ih =>
    have hrest : .value .double ∉ calls := fun hmem => hfloat (List.mem_cons_of_mem _ hmem)
    cases call with
    | setEndian flag =>
      rw [List.map_cons, FixedCall.map, readFixeds, EStateM.run_bind] at h
      rw [readFloats, EStateM.run_bind]
      exact ih hrest h
    | value k =>
      cases k with
      | double => exact absurd (List.mem_cons_self ..) hfloat
      | float =>
        rw [List.map_cons, FixedCall.map, readFixeds, run_bind_eq_ok] at h
        obtain ⟨f, ba₁, hfirst, h⟩ := h
        obtain ⟨v, hv, rfl⟩ := run_map_eq_ok.1 hfirst
        obtain ⟨fs, ba₂, hlater, hpure⟩ := run_bind_eq_ok.1 h
        obtain ⟨hvalues, rfl⟩ : .fuint32 v :: fs = values.map FloatBits.toFixed ∧ ba₂ = ba' :=
          EStateM.Result.ok.inj hpure
        obtain ⟨value, values, rfl, hvalue, rfl⟩ := List.map_eq_cons_iff.1 hvalues.symm
        rw [readFloats, run_bind_eq_ok]
        -- the four bytes are those of the integer, so the pattern is the integer itself
        refine ⟨.float v, ba₁, run_map_of_ok _ ((readFloat_run host ba).trans hv), ?_⟩
        rw [run_bind_eq_ok]
        refine ⟨values, ba₂, ih hrest hlater, ?_⟩
        cases value with
        | float value =>
          cases hvalue
          rfl
        | double value => cases hvalue

/-! ## Reading doubles -/

/-- `readDouble` does not return. -/
lemma readDouble_run_ne (host : Endian) (toDouble : UInt32 → UInt64) (ba : ByteArray) (v : UInt64)
    (ba' : ByteArray) : (readDouble host toDouble).run ba ≠ .ok v ba' := by
  intro h
  obtain ⟨bits, ba₁, -, h⟩ := run_bind_eq_ok.1 h
  obtain ⟨value, ba₂, hcopy, -⟩ := run_bind_eq_ok.1 h
  rw [EStateM.run, memcpy, if_neg (by decide)] at hcopy
  cases hcopy

lemma readFloats_run_ne (host : Endian) (toDouble : UInt32 → UInt64)
    (calls : List (FixedCall FloatKind)) (hdouble : .value .double ∈ calls) (ba : ByteArray)
    (values : List FloatBits) (ba' : ByteArray) :
    (readFloats host toDouble calls).run ba ≠ .ok values ba' := by
  induction calls generalizing ba values ba' with
  | nil => cases hdouble
  | cons call calls ih =>
    intro h
    cases call with
    | setEndian flag =>
      obtain hfirst | hlater := List.mem_cons.1 hdouble
      · cases hfirst
      · exact ih hlater _ _ _ h
    | value k =>
      rw [readFloats, run_bind_eq_ok] at h
      obtain ⟨f, ba₁, hf, h⟩ := h
      obtain hfirst | hlater := List.mem_cons.1 hdouble
      · cases hfirst
        obtain ⟨v, hv, -⟩ := run_map_eq_ok.1 hf
        exact readDouble_run_ne host toDouble ba v ba₁ hv
      · obtain ⟨fs, ba₂, hfs, -⟩ := run_bind_eq_ok.1 h
        exact ih hlater _ _ _ hfs

/-- The calls of a reader who selects the order of each value in front of it. -/
def readerCalls (fields : List (Endian × FloatKind)) : List (FixedCall FloatKind) :=
  fields.flatMap fun (e, k) => [.setEndian (e = .little), .value k]

lemma selections_readerCalls (e : Endian) (fields : List (Endian × FloatKind)) :
    selections e (readerCalls fields) = fields := by
  induction fields generalizing e with
  | nil => rfl
  | cons field fields ih =>
    obtain ⟨e', k⟩ := field
    have hselected : (if decide (e' = Endian.little) then Endian.little else .big) = e' := by
      cases e' <;> rfl
    rw [readerCalls, List.flatMap_cons, ← readerCalls]
    change (if decide (e' = Endian.little) then Endian.little else .big, k) ::
      selections (if decide (e' = Endian.little) then .little else .big) (readerCalls fields) = _
    rw [hselected, ih]

lemma mem_calls_iff {α : Type} (a : α) (e : Endian) (calls : List (FixedCall α)) :
    .value a ∈ calls ↔ a ∈ (selections e calls).map Prod.snd := by
  induction calls generalizing e with
  | nil => exact iff_of_false List.not_mem_nil List.not_mem_nil
  | cons call calls ih =>
    cases call with
    | setEndian flag =>
      rw [List.mem_cons, selections, ← ih]
      exact or_iff_right fun h => by cases h
    | value b =>
      rw [List.mem_cons, selections, List.map_cons, List.mem_cons, ← ih, FixedCall.value.injEq]

/-! ## Nodes without room -/

/-- With base size 0 no node is appended, and the loop of `write` starts behind the root. -/
lemma write_zero_ne (alloc : ℕ → ℕ → UInt8) (e : Endian) {buf : List UInt8} (hbuf : buf ≠ [])
    (ba : ByteArray) : (write buf).run { new 0 alloc with endian := e } ≠ .ok () ba := by
  have hlength : 0 < buf.length := List.length_pos_iff.2 hbuf
  have hadd : addCapacity buf.length { new 0 alloc with endian := e } =
      { new 0 alloc with endian := e, cur := 1 } := by
    have hcap : getCapacity { new 0 alloc with endian := e } = 0 := rfl
    rw [addCapacity, if_neg (by omega)]
    dsimp only
    rw [hcap, if_neg (by omega), if_pos rfl]
    change { appendNodes (_ / 0) _ with cur := 1 } = _
    rw [Nat.div_zero]
    rfl
  rw [EStateM.run, write, if_neg (by omega), hadd]
  intro h
  cases h

/-- With base size 0 nothing can be stored: the writer has selected byte orders only. -/
lemma writeFixeds_zero (host : Endian) (alloc : ℕ → ℕ → UInt8) (calls : List (FixedCall Fixed))
    (e : Endian) {ba : ByteArray}
    (h : (writeFixeds host calls).run { new 0 alloc with endian := e } = .ok () ba) :
    ∃ e', ba = { new 0 alloc with endian := e' } := by
  induction calls generalizing e with
  | nil =>
    cases h
    exact ⟨e, rfl⟩
  | cons call calls ih =>
    cases call with
    | setEndian flag => exact ih _ h
    | value f =>
      rw [writeFixeds, run_bind_eq_ok] at h
      obtain ⟨_, ba₁, hwrite, -⟩ := h
      have hne : f.encode e ≠ [] := by
        rw [← List.length_pos_iff, f.length_encode]
        exact f.kind.width_pos
      rw [f.write_run] at hwrite
      exact absurd hwrite (write_zero_ne alloc e hne ba₁)

/-! ## Every sequence -/

/-- The writer's calls succeed, and after `setPosition(0)` every reader who asks for the same types
under the same selections gets the bits that were written. -/
def FloatLaw (host : Endian) (toDouble : UInt32 → UInt64) (B : ℕ) (alloc : ℕ → ℕ → UInt8)
    (writes : List (FixedCall FloatBits)) : Prop :=
  ∃ ba, (writeFloats host writes).run (new B alloc) = .ok () ba ∧
    ∃ ba₀, (setPosition 0).run ba = .ok () ba₀ ∧ ∀ reads : List (FixedCall FloatKind),
      selections ba₀.endian reads = ((selections .big writes).map fun (e, f) => (e, f.kind)) →
      ∃ ba', (readFloats host toDouble reads).run ba₀ =
        .ok ((selections .big writes).map Prod.snd) ba'

/-- Floating-point fields keep their bits if and only if nodes hold at least one byte and there is
no double. -/
theorem floatLaw_iff (host : Endian) (toDouble : UInt32 → UInt64) (B : ℕ)
    (alloc : ℕ → ℕ → UInt8) (writes : List (FixedCall FloatBits)) :
    FloatLaw host toDouble B alloc writes ↔ 0 < B ∧ ∀ value, .value (.double value) ∉ writes := by
  constructor
  · rintro ⟨ba, hwrite, ba₀, hrewind, hread⟩
    constructor
    · rw [Nat.pos_iff_ne_zero]
      rintro rfl
      -- the writer has stored nothing, and there is no node at position 0
      rw [writeFloats_run] at hwrite
      obtain ⟨e, rfl⟩ := writeFixeds_zero host alloc _ .big hwrite
      cases hrewind
    · intro value hmem
      -- one of the readers who ask for the same types asks for this double
      have hfields := selections_readerCalls ba₀.endian
        ((selections .big writes).map fun (e, f) => (e, f.kind))
      obtain ⟨ba', hrun⟩ := hread _ hfields
      refine readFloats_run_ne host toDouble _ ?_ ba₀ _ ba' hrun
      rw [mem_calls_iff _ ba₀.endian, hfields, List.map_map]
      obtain ⟨⟨e, f⟩, hfield, rfl⟩ := List.mem_map.1 ((mem_calls_iff _ .big writes).1 hmem)
      exact List.mem_map.2 ⟨(e, .double value), hfield, rfl⟩
  · rintro ⟨hB, hdouble⟩
    obtain ⟨ba, hrun, h, hcontent⟩ := writeFixeds_eq host (new_appended hB alloc)
      (writes.map (FixedCall.map FloatBits.toFixed))
    have hempty : (new B alloc).content = [] := rfl
    have hbig : (new B alloc).endian = .big := rfl
    rw [hempty, List.nil_append, hbig, selections_map] at hcontent
    obtain ⟨ba₀, hrun₀, h₀, hcontent₀, hposition₀, -⟩ := rewind_eq h.toWellFormed
    refine ⟨ba, (writeFloats_run host writes _).trans hrun, ba₀, hrun₀, fun reads hsame => ?_⟩
    have hfront : ba₀.content.drop ba₀.position =
        wire ((selections .big writes).map fun (e, f) => (e, f.toFixed)) ++ [] := by
      rw [hposition₀, List.drop_zero, hcontent₀, hcontent, List.append_nil]
    have hfloat : .value .double ∉ reads := by
      rw [mem_calls_iff _ ba₀.endian, hsame, List.map_map, List.mem_map]
      rintro ⟨⟨e, f⟩, hfield, hkind⟩
      cases f with
      | float value => cases hkind
      | double value =>
        exact hdouble value ((mem_calls_iff _ .big writes).2 (List.mem_map.2 ⟨_, hfield, rfl⟩))
    have hread := readFixeds_eq host h₀ (reads.map (FixedCall.map FloatKind.toKind)) hfront
    rw [selections_map, hsame, List.map_map, List.map_map, List.map_map] at hread
    -- the integers have the types that the reader asks for
    obtain ⟨ba', hread⟩ := hread <| List.map_congr_left fun field _ => by
      obtain ⟨e, f⟩ := field
      cases f with
      | float value => rfl
      | double value => rfl
    refine ⟨ba', readFloats_of_readFixeds host toDouble reads hfloat ?_⟩
    rw [hread, List.map_map]
    rfl

/-- One double, whatever the conversion. -/
theorem not_floatLaw_double :
    ¬ ∃ toDouble, FloatLaw .little toDouble 16 (fun _ _ => 0) [.value (.double 1)] := by
  rintro ⟨toDouble, ba, -, ba₀, -, hread⟩
  obtain ⟨ba', hrun⟩ := hread [.setEndian false, .value .double] rfl
  refine readFloats_run_ne .little toDouble _ ?_ ba₀ _ ba' hrun
  exact List.mem_cons_of_mem _ (List.mem_cons_self ..)

end Sylar.ByteArray
