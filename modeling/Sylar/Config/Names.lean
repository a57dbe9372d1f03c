import Sylar.Config.Load

/-!
# The names of variables

Model of `Config::Lookup(name, default_value)`, which makes a variable, and the alphabet of names.
The comment of `Lookup` gives the alphabet as `[0-9a-z_.]`; `Lookup` and `ListAllMember` each spell
it out as a literal. Neither literal has a `9`: `nameLaw_iff` and `pruneLaw_iff` say for which names
the two checks do what the comment says.
-/

namespace Sylar.Config

/-- The literal in `Lookup`. -/
def lookupChars : List Char := "abcdefghikjlmnopqrstuvwxyz._012345678".toList

section Lookup

variable {T : List Char → Type}

/-- `Lookup(name, default_value)`: what it returns, where `.ok none` is a null pointer and `.error`
the exception `std::invalid_argument`, and the variables behind it. For a variable that exists,
`same_type` says whether the cast to its type succeeds. -/
def Lookup (same_type : Bool) (datas : Registry T) (name : List Char) (default_value : T name) :
    Except (List Char) (Option (ConfigVar (T name))) × Registry T :=
  match datas name with
  | some var => (.ok (if same_type then some var else none), datas)
  | none =>
    if !name.all (· ∈ lookupChars) then (.error name, datas)
    else
      let v : ConfigVar (T name) := { m_val := default_value, m_cbs := [] }
      (.ok (some v), Function.update datas name (some v))

/-- The variable that the loop of `LoadFromYaml` calls `fromString` of, for a node listed under this
name. -/
def target (datas : Registry T) (name : List Char) : Option (List Char) :=
  if name.isEmpty then none
  else (datas (name.map Char.toLower)).map fun _ => name.map Char.toLower

/-- What the loop does for a node depends on the target only. -/
theorem loadNode_eq_target [∀ name, DecidableEq (T name)] (serialise : Node → List Char)
    (fromStr : ∀ name, List Char → Option (T name)) (call : List Char → UInt64 → Exit)
    (datas : Registry T) (name : List Char) (node : Node) :
    loadNode serialise fromStr call datas name node =
      match target datas name with
      | none => (datas, .returned)
      | some key =>
        match datas key with
        | none => (datas, .returned)
        | some var =>
          let update := var.fromString (fromStr key) (call key) (node.text serialise)
          (Function.update datas key (some update.var), update.exit) := by
  rw [loadNode, target]
  split
  case isTrue => rfl
  case isFalse =>
    cases hvar : datas (name.map Char.toLower) with
    | none => simp only [Option.map_none, hvar]
    | some var => simp only [Option.map_some, hvar]

/-- A document is loaded into the variable `n` from every node whose keys are joined to `n`. -/
def Reaches (datas : Registry T) (n : List Char) : Prop :=
  ∀ root : Node, ∀ m ∈ root.preorder [], joined m.1 = n →
    ∃ name, (name, m.2) ∈ ListAllMember [] root ∧ target datas name = some n

/-- The alphabet `[0-9a-z_.]`. -/
def documented (c : Char) : Bool := c.isDigit || c.isLower || c = '_' || c = '.'

/-- What the comment says of a name that is not yet registered: `Lookup` throws if there is a
character outside the alphabet, and else makes a variable that documents can be loaded into. -/
def NameLaw (same_type : Bool) (datas : Registry T) (name : List Char) (default_value : T name) :
    Prop :=
  ((Lookup same_type datas name default_value).1 = .error name ↔ ∃ c ∈ name, ¬ documented c) ∧
    ((∀ c ∈ name, documented c) →
      ∃ v : ConfigVar (T name), v.m_val = default_value ∧
        Lookup same_type datas name default_value =
          (.ok (some v), Function.update datas name (some v)) ∧
        Reaches (Function.update datas name (some v)) name)

end Lookup

/-- What the comment says of a path: `ListAllMember` passes it over, with all that is below, if
there is a character outside the alphabet. -/
def PruneLaw (path : List Char) (node : Node) : Prop :=
  ListAllMember path node = [] ↔ ∃ c ∈ path, ¬ documented c

/-- A name without `9`, or with a character outside the alphabet in any case. -/
def Spelled (name : List Char) : Prop := '9' ∉ name ∨ ∃ c ∈ name, ¬ documented c

/-! ## The literals -/

/-- The literals have the characters of the alphabet but for `9`. -/
theorem mem_validChars {c : Char} : c ∈ validChars ↔ documented c = true ∧ c ≠ '9' := by
  have hin : validChars.all (fun c => documented c && c ≠ '9') = true := by decide
  have hout : (List.range 128).all (fun n => !documented (Char.ofNat n) ||
      decide (Char.ofNat n ∈ validChars) || Char.ofNat n = '9') = true := by decide
  rw [List.all_eq_true] at hin hout
  refine ⟨fun hc => ?_, fun ⟨hdoc, hnine⟩ => ?_⟩
  · simpa using hin c hc
  · -- the alphabet lies in the range that has been looked at
    have hrange : c.toNat < 128 := by
      simp only [documented, Bool.or_eq_true, decide_eq_true_eq] at hdoc
      obtain ((hdigit | hlower) | rfl) | rfl := hdoc
      · have hle : c.val ≤ 57 := of_decide_eq_true (Bool.and_eq_true_iff.1 hdigit).2
        exact Nat.lt_of_le_of_lt (UInt32.le_iff_toNat_le.1 hle) (by decide)
      · have hle : c.val ≤ 122 := of_decide_eq_true (Bool.and_eq_true_iff.1 hlower).2
        exact Nat.lt_of_le_of_lt (UInt32.le_iff_toNat_le.1 hle) (by decide)
      · decide
      · decide
    have hc := hout c.toNat (List.mem_range.2 hrange)
    rw [Char.ofNat_toNat] at hc
    simpa [hdoc, hnine] using hc

/-- Both checks accept the names in the alphabet without a `9`. -/
theorem isValidName_iff {name : List Char} :
    isValidName name = true ↔ (∀ c ∈ name, documented c = true) ∧ '9' ∉ name := by
  have hnine : '9' ∉ name ↔ ∀ c ∈ name, c ≠ '9' := by
    refine ⟨fun h c hc heq => h (heq ▸ hc), fun h hmem => h '9' hmem rfl⟩
  rw [isValidName, List.all_eq_true, hnine, ← forall₂_and]
  exact forall₂_congr fun c _ => decide_eq_true_iff.trans mem_validChars

/-- A check rejects exactly the names with a character outside the alphabet, if it does so for the
names with a `9`. -/
theorem rejects_iff_spelled {name : List Char} :
    (isValidName name = false ↔ ∃ c ∈ name, ¬ documented c) ↔ Spelled name := by
  rw [Spelled, ← Bool.not_eq_true, isValidName_iff]
  by_cases hdoc : ∀ c ∈ name, documented c = true
  · have hnone : ¬ ∃ c ∈ name, ¬ documented c = true := by simpa using hdoc
    simp only [eq_true hdoc, hnone, true_and, or_false, iff_false, not_not]
  · have hsome : ∃ c ∈ name, ¬ documented c = true := by simpa using hdoc
    simp only [hdoc, hsome, false_and, not_false_eq_true, or_true]

/-! ## The two checks -/

section Laws

variable {T : List Char → Type} {datas : Registry T} {name : List Char}

theorem Lookup_eq (same_type : Bool) (h : datas name = none) (default_value : T name) :
    Lookup same_type datas name default_value =
      if isValidName name = false then (.error name, datas)
      else (.ok (some ⟨default_value, []⟩),
        Function.update datas name (some ⟨default_value, []⟩)) := by
  have hsame : lookupChars = validChars := rfl
  rw [Lookup, h]
  dsimp only
  rw [hsame, ← isValidName]
  cases isValidName name with
  | true => rfl
  | false => rfl

theorem target_of_mem {var : ConfigVar (T name)} (hname : name ≠ [])
    (hvalid : isValidName name = true) :
    target (Function.update datas name (some var)) name = some name := by
  have hempty : ¬ name.isEmpty = true := fun h => hname (List.isEmpty_iff.1 h)
  rw [target, if_neg hempty, map_toLower hvalid, Function.update_self, Option.map_some]

/-- A variable with a valid name is reached, unless the name is empty: the loop passes the root of
the document over. -/
theorem reaches_iff {var : ConfigVar (T name)} (hvalid : isValidName name = true) :
    Reaches (Function.update datas name (some var)) name ↔ name ≠ [] := by
  constructor
  · rintro hreaches rfl
    obtain ⟨name', -, htarget⟩ :=
      hreaches .null ([], .null) (List.mem_cons_self ..) rfl
    rw [target] at htarget
    split at htarget
    case isTrue => cases htarget
    case isFalse hempty =>
      obtain ⟨var', -, hkey⟩ := Option.map_eq_some_iff.1 htarget
      exact hempty (List.isEmpty_iff.2 (List.map_eq_nil_iff.1 hkey))
  · rintro hname root ⟨path, node⟩ hm rfl
    refine ⟨joined path, ?_, target_of_mem hname hvalid⟩
    have hlist : ListAllMember [] root = _ := ListAllMember_eq [] root
    rw [hlist, List.mem_filter]
    exact ⟨List.mem_map.2 ⟨_, hm, rfl⟩, hvalid⟩

/-- `Lookup` does what its comment says for the names that are not empty and have no `9`, unless
another character is wrong anyway. -/
theorem nameLaw_iff (same_type : Bool) (h : datas name = none) (default_value : T name) :
    NameLaw same_type datas name default_value ↔ name ≠ [] ∧ Spelled name := by
  rw [NameLaw, Lookup_eq same_type h, ← rejects_iff_spelled]
  cases hvalid : isValidName name with
  | false =>
    -- the name is thrown, and so must have a wrong character
    rw [if_pos rfl]
    simp only [true_iff]
    constructor
    · rintro ⟨hthrown, -⟩
      refine ⟨?_, hthrown⟩
      rintro rfl
      cases hvalid
    · rintro ⟨-, c, hc, hdoc⟩
      exact ⟨⟨c, hc, hdoc⟩, fun hall => absurd (hall c hc) hdoc⟩
  | true =>
    have hdoc := (isValidName_iff.1 hvalid).1
    have hnone : ¬ ∃ c ∈ name, ¬ documented c = true := fun ⟨c, hc, hnot⟩ => hnot (hdoc c hc)
    rw [if_neg Bool.noConfusion]
    simp only [reduceCtorEq, hnone, iff_self, true_and, and_true]
    constructor
    · intro hmade
      obtain ⟨v, -, -, hreaches⟩ := hmade hdoc
      exact (reaches_iff hvalid).1 hreaches
    · intro hname _
      exact ⟨_, rfl, rfl, (reaches_iff hvalid).2 hname⟩

/-- `ListAllMember` does what the comment says for the paths without `9`, unless another character
is wrong anyway. -/
theorem pruneLaw_iff (path : List Char) (node : Node) : PruneLaw path node ↔ Spelled path := by
  rw [PruneLaw, ← rejects_iff_spelled]
  cases hvalid : isValidName path with
  | false => rw [ListAllMember_nil hvalid]; simp only [true_iff]
  | true =>
    rw [ListAllMember_cons hvalid]
    simp only [reduceCtorEq]

/-- The two checks follow the alphabet of the comment for the names and paths without `9`, or with
another wrong character; the empty name is registered, but not reached. -/
theorem names_iff (same_type : Bool) (datas : Registry T) :
    (∀ name, datas name = none → ∀ default_value : T name,
      (NameLaw same_type datas name default_value ↔ name ≠ [] ∧ Spelled name)) ∧
    ∀ path node, PruneLaw path node ↔ Spelled path :=
  ⟨fun _ h default_value => nameLaw_iff same_type h default_value, pruneLaw_iff⟩

/-- The name `a.b` is registered, and reached by documents. -/
theorem names_iff_example :
    NameLaw (T := fun _ => ℕ) true (fun _ => none) ['a', '.', 'b'] 7 :=
  ((names_iff true fun _ => none).1 ['a', '.', 'b'] rfl 7).2
    ⟨List.cons_ne_nil _ _, Or.inl (by decide)⟩

/-- The name `port9` is in the alphabet, but thrown by `Lookup`, and the path is passed over. -/
theorem not_names_nine :
    (∀ c ∈ "port9".toList, documented c = true) ∧
    (Lookup (T := fun _ => ℕ) true (fun _ => none) "port9".toList 7).1 = .error "port9".toList ∧
    ¬ NameLaw (T := fun _ => ℕ) true (fun _ => none) "port9".toList 7 ∧
    ListAllMember "port9".toList (.scalar ['1']) = [] ∧
    ¬ PruneLaw "port9".toList (.scalar ['1']) := by
  have hspelled : ¬ Spelled "port9".toList := by
    rintro (hnine | ⟨c, hc, hdoc⟩)
    · exact hnine (by decide)
    · have hall : "port9".toList.all documented = true := by decide
      exact hdoc (List.all_eq_true.1 hall c hc)
  refine ⟨List.all_eq_true.1 (by decide), rfl, ?_, by decide, ?_⟩
  · rw [nameLaw_iff true rfl]
    exact fun h => hspelled h.2
  · rw [pruneLaw_iff]
    exact hspelled

end Laws

end Sylar.Config
