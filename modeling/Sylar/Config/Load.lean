import Sylar.Config.Defs
import Mathlib.Data.List.Basic

/-!
# Loading a document

`Node.preorder` lists all nodes of a document with the keys on the way to them, parents before
children, and `joined` is the name such a way stands for. `ListAllMember_eq` says that the nodes
listed by the code are those with a valid name: in front of an invalid name no way is pruned that
would lead to a valid one.

`LoadFromYaml_eq` says what a variable holds after a document has been loaded: the result of the
last conversion, among those of the nodes with its name, that succeeded.
-/

namespace Sylar.Config

mutual

/-- The nodes of a document, with the keys on the way to them. -/
def Node.preorder (path : List (List Char)) (node : Node) : List (List (List Char) × Node) :=
  (path, node) ::
    match node with
    | .map entries => entriesPreorder path entries
    | _ => []
termination_by structural node

/-- The nodes of the members of a map. -/
def entriesPreorder (path : List (List Char)) :
    List (List Char × Node) → List (List (List Char) × Node)
  | [] => []
  | (key, node) :: entries => node.preorder (path ++ [key]) ++ entriesPreorder path entries
termination_by structural entries => entries

end

/-- The members of a map. -/
def Node.entries : Node → List (List Char × Node)
  | .map entries => entries
  | _ => []

/-- A node comes before what is below it. -/
theorem preorder_eq (path : List (List Char)) (node : Node) :
    node.preorder path = (path, node) :: entriesPreorder path node.entries := by
  cases node with
  | _ => rfl

/-- A node with a valid name comes before its members. -/
theorem ListAllMember_cons {prefix_ : List Char} (h : isValidName prefix_ = true) (node : Node) :
    ListAllMember prefix_ node = (prefix_, node) :: listEntries prefix_ node.entries := by
  have hcheck : ¬ (!isValidName prefix_) = true := by
    rw [h]
    decide
  cases node with
  | _ => exact if_neg hcheck

/-- A node with another name is pruned. -/
theorem ListAllMember_nil {prefix_ : List Char} (h : isValidName prefix_ = false) (node : Node) :
    ListAllMember prefix_ node = [] := by
  have hcheck : (!isValidName prefix_) = true := by
    rw [h]
    decide
  cases node with
  | _ => exact if_pos hcheck

/-- The keys joined with dots, but for empty keys in front. -/
def joined (path : List (List Char)) : List Char :=
  ['.'].intercalate (path.dropWhile List.isEmpty)

section Names

variable {path : List (List Char)} {key : List Char}

/-- One more part is appended with a separator. -/
theorem intercalate_concat {sep l : List Char} {ls : List (List Char)} (h : ls ≠ []) :
    sep.intercalate (ls ++ [l]) = sep.intercalate ls ++ sep ++ l := by
  induction ls with
  | nil => exact absurd rfl h
  | cons l' ls ih =>
    -- a separator stands in front of the last element only if there is one before
    by_cases hls : ls = []
    · rw [hls, List.singleton_append, List.intercalate_cons_cons, List.intercalate_singleton,
        List.intercalate_singleton]
    · have hne : ls ++ [l] ≠ [] := List.concat_ne_nil l ls
      rw [List.cons_append, List.intercalate_cons_of_ne_nil hne, ih hls,
        List.intercalate_cons_of_ne_nil hls]
      simp only [List.append_assoc]

/-- The code joins the keys one by one. -/
theorem memberName_joined (path : List (List Char)) (key : List Char) :
    memberName (joined path) key = joined (path ++ [key]) := by
  rw [memberName, joined, joined, List.dropWhile_append]
  have hhead := List.head?_dropWhile_not List.isEmpty path
  cases hpath : path.dropWhile List.isEmpty with
  | nil =>
    -- no key before is nonempty
    rw [if_pos (by rfl), if_pos (by rfl)]
    cases key with
    | nil => rfl
    | cons c key => exact List.intercalate_singleton.symm
  | cons l ls =>
    rw [hpath] at hhead
    cases l with
    | nil => cases hhead
    | cons c l =>
      have hconcat : ['.'].intercalate ((c :: l) :: ls ++ [key]) = _ :=
        intercalate_concat (List.cons_ne_nil _ _)
      -- a name that is not empty is continued with a dot
      rw [List.intercalate_cons_cons_left] at hconcat ⊢
      exact hconcat.symm

/-- The name of a member is valid only below a valid name. -/
theorem isValidName_of_memberName {prefix_ : List Char}
    (h : isValidName (memberName prefix_ key) = true) : isValidName prefix_ = true := by
  rw [memberName] at h
  split at h
  case isTrue hempty =>
    rw [List.isEmpty_iff.1 hempty]
    rfl
  case isFalse =>
    rw [isValidName, List.all_append, List.all_append, Bool.and_eq_true, Bool.and_eq_true] at h
    exact h.1.1

/-- A name is not valid again behind an invalid one. -/
theorem isValidName_of_append {rest : List (List Char)}
    (h : isValidName (joined (path ++ rest)) = true) : isValidName (joined path) = true := by
  induction rest generalizing path with
  | nil => rwa [List.append_nil] at h
  | cons key rest ih =>
    rw [List.append_cons] at h
    have hnext := ih h
    rw [← memberName_joined] at hnext
    exact isValidName_of_memberName hnext

/-- A valid name has no capital letters. -/
theorem map_toLower {name : List Char} (h : isValidName name = true) :
    name.map Char.toLower = name := by
  have hlower : validChars.all (fun c => c.toLower == c) = true := by decide
  rw [List.all_eq_true] at hlower
  rw [isValidName, List.all_eq_true] at h
  calc name.map Char.toLower = name.map id := List.map_congr_left fun c hc =>
        eq_of_beq (hlower c (of_decide_eq_true (h c hc)))
    _ = name := List.map_id name

end Names

/-! ## The nodes listed -/

mutual

/-- The nodes of a document lie behind its root. -/
theorem exists_append_of_mem_preorder {path : List (List Char)} {node : Node}
    {m : List (List Char) × Node} (h : m ∈ node.preorder path) : ∃ rest, m.1 = path ++ rest := by
  rw [preorder_eq, List.mem_cons] at h
  obtain rfl | h := h
  · exact ⟨[], (List.append_nil path).symm⟩
  · cases node with
    | map entries => exact exists_append_of_mem_entriesPreorder h
    | null | scalar text | sequence items => cases h
termination_by structural node

/-- The paths below a node extend its path. -/
theorem exists_append_of_mem_entriesPreorder {path : List (List Char)}
    {entries : List (List Char × Node)} {m : List (List Char) × Node}
    (h : m ∈ entriesPreorder path entries) : ∃ rest, m.1 = path ++ rest := by
  obtain _ | ⟨⟨key, node⟩, entries⟩ := entries
  · cases h
  · rw [entriesPreorder, List.mem_append] at h
    obtain h | h := h
    · obtain ⟨rest, hrest⟩ := exists_append_of_mem_preorder h
      exact ⟨key :: rest, hrest.trans (List.append_cons ..).symm⟩
    · exact exists_append_of_mem_entriesPreorder h
termination_by structural entries

end

/-- Nodes with their names. -/
def named (m : List (List Char) × Node) : List Char × Node := (joined m.1, m.2)

mutual

/-- The nodes listed are those of the document with a valid name. -/
theorem ListAllMember_eq (path : List (List Char)) (node : Node) :
    ListAllMember (joined path) node =
      ((node.preorder path).map named).filter fun m => isValidName m.1 := by
  cases hvalid : isValidName (joined path) with
  | false =>
    -- nothing is listed, and no node behind has a valid name
    rw [ListAllMember_nil hvalid, eq_comm, List.filter_eq_nil_iff]
    intro m hm hname
    obtain ⟨m', hm', rfl⟩ := List.mem_map.1 hm
    obtain ⟨rest, hrest⟩ := exists_append_of_mem_preorder hm'
    rw [named, hrest] at hname
    rw [isValidName_of_append hname] at hvalid
    cases hvalid
  | true =>
    rw [ListAllMember_cons hvalid, preorder_eq, List.map_cons,
      List.filter_cons_of_pos (by exact hvalid)]
    apply congrArg (List.cons (joined path, node))
    cases node with
    | map entries => exact listEntries_eq path entries
    | null | scalar text | sequence items => rfl
termination_by structural node

/-- The loop lists the nodes with valid names, in preorder. -/
theorem listEntries_eq (path : List (List Char)) (entries : List (List Char × Node)) :
    listEntries (joined path) entries =
      ((entriesPreorder path entries).map named).filter fun m => isValidName m.1 := by
  obtain _ | ⟨⟨key, node⟩, entries⟩ := entries
  · rfl
  · rw [listEntries, entriesPreorder, List.map_append, List.filter_append, memberName_joined,
      ListAllMember_eq (path ++ [key]) node, listEntries_eq path entries]
termination_by structural entries

end

/-! ## The values assigned -/

/-- Without listeners, `fromString` assigns what has been converted. -/
theorem ConfigVar.fromString_eq {T : Type} [DecidableEq T] (fromStr : List Char → Option T)
    (call : UInt64 → Exit) {var : ConfigVar T} (h : var.m_cbs = []) (val : List Char) :
    var.fromString fromStr call val =
      { var := { var with m_val := (fromStr val).getD var.m_val }, notified := [],
        exit := .returned } := by
  rw [fromString]
  cases fromStr val with
  | none => rfl
  | some v =>
    dsimp only
    rw [setValue]
    split
    case isTrue heq => rw [heq]; rfl
    case isFalse => rw [h]; rfl

/-- The variable with the last of the values, if there is one. -/
def ConfigVar.assign {T : Type} (values : List T) (var : ConfigVar T) : ConfigVar T :=
  { var with m_val := values.getLast?.getD var.m_val }

/-- At most one value is assigned. -/
theorem ConfigVar.assign_toList {T : Type} (value : Option T) (var : ConfigVar T) :
    var.assign value.toList = { var with m_val := value.getD var.m_val } := by
  cases value with
  | none => rfl
  | some v => rfl

/-- Values are assigned one by one. -/
theorem ConfigVar.assign_append {T : Type} (values values' : List T) (var : ConfigVar T) :
    var.assign (values ++ values') = (var.assign values).assign values' := by
  rw [assign, List.getLast?_append]
  cases hlast : values'.getLast? with
  | none => rw [Option.none_or, assign, assign, hlast, Option.getD_none]
  | some v => rw [Option.some_or, assign, hlast]; rfl

namespace Registry

variable {T : List Char → Type} {datas : Registry T}

/-- The variables with the last of the values for their names. -/
def assign (datas : Registry T) (values : ∀ n, List (T n)) : Registry T := fun n =>
  (datas n).map (ConfigVar.assign (values n))

/-- A variable without values stays as it is. -/
theorem assign_apply_nil {values : ∀ n, List (T n)} {n : List Char} (h : values n = []) :
    datas.assign values n = datas n := by
  rw [assign, h]
  exact Option.map_id'

/-- Values are assigned to a registry one by one. -/
theorem assign_append (values values' : ∀ n, List (T n)) :
    datas.assign (fun n => values n ++ values' n) = (datas.assign values).assign values' := by
  funext n
  rw [assign, assign, assign, Option.map_map]
  congr 1
  funext var
  exact ConfigVar.assign_append ..

/-- No variable has listeners. -/
def NoListeners (datas : Registry T) : Prop :=
  ∀ name var, datas name = some var → var.m_cbs = []

/-- Assigning values adds no listeners. -/
theorem NoListeners.assign (h : datas.NoListeners) (values : ∀ n, List (T n)) :
    (datas.assign values).NoListeners := by
  intro n var hvar
  obtain ⟨var', hvar', rfl⟩ := Option.map_eq_some_iff.1 hvar
  exact h n var' hvar'

end Registry

section Load

variable {T : List Char → Type} {serialise : Node → List Char}
variable {fromStr : ∀ name, List Char → Option (T name)}

/-- The result of the conversion of a node that is assigned to the variable `n`. -/
def converted (serialise : Node → List Char) (fromStr : ∀ name, List Char → Option (T name))
    (n : List Char) (m : List Char × Node) : Option (T n) :=
  if m.1 ≠ [] ∧ m.1.map Char.toLower = n then fromStr n (m.2.text serialise) else none

/-- The results of the conversions, in document order, of the nodes whose keys are joined to `n`, as
far as they succeed. -/
def conversions (serialise : Node → List Char) (fromStr : ∀ name, List Char → Option (T name))
    (n : List Char) (root : Node) : List (T n) :=
  (root.preorder []).filterMap fun m =>
    if joined m.1 = n ∧ isValidName n then fromStr n (m.2.text serialise) else none

/-- The members that convert for a variable are its conversions. -/
theorem filterMap_ListAllMember {n : List Char} (hn : n ≠ []) (root : Node) :
    (ListAllMember [] root).filterMap (converted serialise fromStr n) =
      conversions serialise fromStr n root := by
  have hlist : ListAllMember [] root = _ := ListAllMember_eq [] root
  rw [hlist, List.filterMap_filter, List.filterMap_map, conversions]
  congr 1
  funext m
  rw [Function.comp_apply, converted, named]
  dsimp only
  by_cases hvalid : isValidName (joined m.1) = true
  · -- a valid name is looked up as it is
    rw [if_pos hvalid, map_toLower hvalid]
    congr 1
    rw [eq_iff_iff]
    constructor
    · rintro ⟨-, rfl⟩
      exact ⟨rfl, hvalid⟩
    · rintro ⟨rfl, -⟩
      exact ⟨hn, rfl⟩
  · rw [if_neg hvalid, if_neg]
    rintro ⟨rfl, hname⟩
    exact hvalid hname

variable [∀ name, DecidableEq (T name)] {call : List Char → UInt64 → Exit} {datas : Registry T}

/-- A node changes the variable with its name at most. -/
theorem loadNode_eq (h : datas.NoListeners) (name : List Char) (node : Node) :
    loadNode serialise fromStr call datas name node =
      (datas.assign fun n => (converted serialise fromStr n (name, node)).toList, .returned) := by
  have hother : ∀ n, ¬ (name ≠ [] ∧ name.map Char.toLower = n) →
      datas.assign (fun n => (converted serialise fromStr n (name, node)).toList) n = datas n := by
    intro n hne
    apply Registry.assign_apply_nil
    rw [converted, if_neg hne, Option.toList_none]
  rw [loadNode]
  split
  case isTrue hempty =>
    congr 1
    funext n
    exact (hother n fun hname => hname.1 (List.isEmpty_iff.1 hempty)).symm
  case isFalse hempty =>
    have hname : name ≠ [] := fun heq => hempty (List.isEmpty_iff.2 heq)
    generalize hkey : name.map Char.toLower = key at hother ⊢
    dsimp only
    cases hvar : datas key with
    | none =>
      -- there is no such variable before or after
      dsimp only
      congr 1
      funext n
      by_cases hn : key = n
      · rw [← hn, hvar, Registry.assign, hvar, Option.map_none]
      · exact (hother n fun hnode => hn hnode.2).symm
    | some var =>
      -- the variable with the name has the new value, and the others are not touched
      dsimp only
      rw [ConfigVar.fromString_eq _ _ (h _ _ hvar)]
      congr 1
      funext n
      by_cases hn : key = n
      · subst hn
        rw [Function.update_self, Registry.assign, hvar, Option.map_some, ConfigVar.assign_toList,
          converted, if_pos ⟨hname, hkey⟩]
      · rw [Function.update_of_ne (Ne.symm hn), hother n fun hnode => hn hnode.2]

/-- The loop assigns to every variable what converts for it. -/
theorem loadNodes_eq (h : datas.NoListeners) (all_nodes : List (List Char × Node)) :
    loadNodes serialise fromStr call datas all_nodes =
      (datas.assign fun n => all_nodes.filterMap (converted serialise fromStr n), .returned) := by
  induction all_nodes generalizing datas with
  | nil =>
    rw [loadNodes]
    congr 1
    funext n
    exact (Registry.assign_apply_nil rfl).symm
  | cons m all_nodes ih =>
    obtain ⟨name, node⟩ := m
    have hcons : ∀ n, ((name, node) :: all_nodes).filterMap (converted serialise fromStr n) =
        (converted serialise fromStr n (name, node)).toList ++
          all_nodes.filterMap (converted serialise fromStr n) := by
      intro n
      rw [List.filterMap_cons]
      cases converted serialise fromStr n (name, node) with
      | none => rfl
      | some v => rfl
    rw [loadNodes, loadNode_eq h]
    dsimp only
    rw [ih (h.assign _), funext hcons, Registry.assign_append]

/-- After a document has been loaded into variables without listeners, every variable with a name
holds the result of the last conversion of a node with its name that succeeded, or what it held
before; the conversions that fail are passed over. -/
theorem LoadFromYaml_eq (datas : Registry T) (h : datas.NoListeners) (root : Node) :
    (LoadFromYaml serialise fromStr call datas root).2 = .returned ∧
      ∀ n ≠ [], (LoadFromYaml serialise fromStr call datas root).1 n =
        (datas n).map fun var => { var with
          m_val := (conversions serialise fromStr n root).getLast?.getD var.m_val } := by
  rw [LoadFromYaml, loadNodes_eq h]
  refine ⟨rfl, fun n hn => ?_⟩
  dsimp only
  rw [Registry.assign, filterMap_ListAllMember hn]
  rfl

/-- The document `{a.b: 7, a: {b: x}}` assigns 7, as `x` is not a number. -/
theorem LoadFromYaml_eq_example :
    (LoadFromYaml (T := fun _ => ℕ) (fun _ => ['~'])
      (fun _ text => if text = ['7'] then some 7 else none) (fun _ _ => .returned)
      (fun n => if n = ['a', '.', 'b'] then some ⟨0, []⟩ else none)
      (.map [(['a', '.', 'b'], .scalar ['7']), (['a'], .map [(['b'], .scalar ['x'])])])).1
        ['a', '.', 'b'] = some ⟨7, []⟩ := by
  refine ((LoadFromYaml_eq _ ?_ _).2 _ (List.cons_ne_nil _ _)).trans ?_
  · intro n var hvar
    dsimp only at hvar
    split at hvar
    · cases hvar
      rfl
    · cases hvar
  · rfl

end Load

end Sylar.Config
