import Sylar.ByteArray.Fixed

/-!
# `ByteArray` — the wire format of integers

A writer makes calls of `setEndian` and of the functions that write integers of fixed width, in any
order. `wire` is what it should store: the encodings of the values, each in the byte order selected
at that moment. `wire_law` says that a fresh array of any base size stores this on a host of either
byte order, and that a reader who goes back to the beginning, and reads values of the same types
while the same orders are selected, gets the values that were written.
-/

namespace Sylar.ByteArray

/-- A call of `setEndian`, or a call that has to do with a value. -/
inductive FixedCall (α : Type)
  | setEndian (flag : Bool)
  | value (a : α)

/-- The values in order, each with the byte order selected when its turn comes; `e` is selected
first. -/
def selections {α : Type} (e : Endian) : List (FixedCall α) → List (Endian × α)
  | [] => []
  | .setEndian flag :: calls => selections (if flag then .little else .big) calls
  | .value a :: calls => (e, a) :: selections e calls

/-- A writer's calls. -/
def writeFixeds (host : Endian) : List (FixedCall Fixed) → Op Unit
  | [] => pure ()
  | .setEndian flag :: calls => do
    setEndian flag
    writeFixeds host calls
  | .value f :: calls => do
    f.write host
    writeFixeds host calls

/-- A reader's calls, and the values they return. -/
def readFixeds (host : Endian) : List (FixedCall Kind) → Op (List Fixed)
  | [] => pure []
  | .setEndian flag :: calls => do
    setEndian flag
    readFixeds host calls
  | .value k :: calls => do
    let f ← k.read host
    let fs ← readFixeds host calls
    return f :: fs

/-- The encodings of values, each in its byte order. -/
def wire (values : List (Endian × Fixed)) : List UInt8 := values.flatMap fun (e, f) => f.encode e

variable {ba : ByteArray}

theorem WellFormed.setEndian (h : WellFormed ba) (flag : Bool) :
    WellFormed { ba with endian := if flag then .little else .big } where
  base_pos := h.base_pos
  root := h.root
  nodes_size := h.nodes_size
  capacity_eq := h.capacity_eq
  position_le := h.position_le
  size_le := h.size_le
  cur_eq := h.cur_eq

theorem Appended.setEndian (h : Appended ba) (flag : Bool) :
    Appended { ba with endian := if flag then .little else .big } where
  toWellFormed := h.toWellFormed.setEndian flag
  position_eq := h.position_eq
  capacity_tight := h.capacity_tight

/-- A writer at the end of the content appends the encodings of its values. -/
theorem writeFixeds_eq (host : Endian) (h : Appended ba) (calls : List (FixedCall Fixed)) :
    ∃ ba', (writeFixeds host calls).run ba = .ok () ba' ∧ Appended ba' ∧
      ba'.content = ba.content ++ wire (selections ba.endian calls) := by
  induction calls generalizing ba with
  | nil => exact ⟨ba, rfl, h, by simp [selections, wire]⟩
  | cons call calls ih =>
    cases call with
    | setEndian flag =>
      obtain ⟨ba', hrun, h', hcontent⟩ := ih (h.setEndian flag)
      refine ⟨ba', ?_, h', hcontent⟩
      rw [writeFixeds, EStateM.run_bind]
      exact hrun
    | value f =>
      obtain ⟨ba₁, hrun₁, h₁, hcontent₁, -, -, hendian₁⟩ := append_eq h (f.encode ba.endian)
      obtain ⟨ba₂, hrun₂, h₂, hcontent₂⟩ := ih h₁
      refine ⟨ba₂, ?_, h₂, ?_⟩
      · rw [writeFixeds, EStateM.run_bind, f.write_run, hrun₁]
        exact hrun₂
      · rw [hcontent₂, hcontent₁, hendian₁, selections, wire, wire, List.flatMap_cons,
          List.append_assoc]

/-- A reader in front of the encodings of values, who selects their orders and asks for their
types, gets the values. -/
theorem readFixeds_eq (host : Endian) (h : WellFormed ba) (calls : List (FixedCall Kind))
    {values : List (Endian × Fixed)} {rest : List UInt8}
    (hcontent : ba.content.drop ba.position = wire values ++ rest)
    (hsame : selections ba.endian calls = values.map fun (e, f) => (e, f.kind)) :
    ∃ ba', (readFixeds host calls).run ba = .ok (values.map Prod.snd) ba' := by
  induction calls generalizing ba values with
  | nil =>
    -- no type is asked for, so there is no value
    obtain rfl : values = [] := by simpa [selections] using hsame.symm
    exact ⟨ba, rfl⟩
  | cons call calls ih =>
    cases call with
    | setEndian flag =>
      obtain ⟨ba', hrun⟩ := ih (h.setEndian flag) hcontent hsame
      refine ⟨ba', ?_⟩
      rw [readFixeds, EStateM.run_bind]
      exact hrun
    | value k =>
      cases values with
      | nil => cases hsame
      | cons value values =>
        obtain ⟨e, f⟩ := value
        rw [selections, List.map_cons, List.cons.injEq, Prod.mk.injEq] at hsame
        obtain ⟨⟨rfl, rfl⟩, hrest⟩ := hsame
        rw [wire, List.flatMap_cons, List.append_assoc] at hcontent
        -- the first encoding is in front
        obtain ⟨ba₁, hrun₁, h₁, hcontent₁, hposition₁, -, hendian₁, -⟩ :=
          Kind.read_eq host h f (by rw [hcontent, ← f.length_encode ba.endian, List.take_left])
        have hbehind : ba₁.content.drop ba₁.position = wire values ++ rest := by
          rw [hcontent₁, hposition₁, ← List.drop_drop, hcontent, ← f.length_encode ba.endian,
            List.drop_left, wire]
        obtain ⟨ba₂, hrun₂⟩ := ih h₁ hbehind (by rw [hendian₁, hrest])
        refine ⟨ba₂, ?_⟩
        rw [readFixeds, EStateM.run_bind, hrun₁]
        simp only [EStateM.run_bind, hrun₂]
        rfl

/-- Wire format: whatever the base size and the byte order of the host, the bytes stored by a
writer on a fresh array are the encodings of its values, each in the selected byte order. After
`setPosition(0)`, reading the same types under the same selections returns the values. -/
theorem wire_law (B : ℕ) (alloc : ℕ → ℕ → UInt8) (host : Endian) (writes : List (FixedCall Fixed))
    (hB : 0 < B) :
    ∃ ba, (writeFixeds host writes).run (new B alloc) = .ok () ba ∧
      ba.content = wire (selections .big writes) ∧
      ∃ ba₀, (setPosition 0).run ba = .ok () ba₀ ∧ ∀ reads : List (FixedCall Kind),
        selections ba₀.endian reads =
          ((selections .big writes).map fun (e, f) => (e, f.kind)) →
        ∃ ba', (readFixeds host reads).run ba₀ =
          .ok ((selections .big writes).map Prod.snd) ba' := by
  obtain ⟨ba, hrun, h, hcontent⟩ := writeFixeds_eq host (new_appended hB alloc) writes
  have hempty : (new B alloc).content = [] := rfl
  rw [hempty, List.nil_append] at hcontent
  obtain ⟨ba₀, hrun₀, h₀, hcontent₀, hposition₀, -⟩ := rewind_eq h.toWellFormed
  have hfront : ba₀.content.drop ba₀.position = wire (selections .big writes) ++ [] := by
    rw [hposition₀, List.drop_zero, hcontent₀, hcontent, List.append_nil]
    rfl
  exact ⟨ba, hrun, hcontent, ba₀, hrun₀, fun reads hsame =>
    readFixeds_eq host h₀ reads hfront hsame⟩

/-- A negative 16-bit value in the big-endian and a 32-bit value in the little-endian order, in
three-byte nodes; the reader selects the orders again. -/
theorem wire_law_example : ∃ ba ba₀ ba',
    (writeFixeds .little [.value (.fint16 (-2)), .setEndian true, .value (.fuint32 1)]).run
      (new 3 fun _ _ => 0) = .ok () ba ∧
    ba.content = [0xff, 0xfe, 1, 0, 0, 0] ∧ (setPosition 0).run ba = .ok () ba₀ ∧
    (readFixeds .little [.setEndian false, .value .fint16, .setEndian true, .value .fuint32]).run
      ba₀ = .ok [.fint16 (-2), .fuint32 1] ba' := by
  obtain ⟨ba, hrun, hcontent, ba₀, hrun₀, hread⟩ := wire_law 3 (fun _ _ => 0) .little
    [.value (.fint16 (-2)), .setEndian true, .value (.fuint32 1)] (by decide)
  obtain ⟨ba', hrun'⟩ :=
    hread [.setEndian false, .value .fint16, .setEndian true, .value .fuint32] rfl
  exact ⟨ba, ba₀, ba', hrun, hcontent.trans (by decide), hrun₀, hrun'⟩

end Sylar.ByteArray
