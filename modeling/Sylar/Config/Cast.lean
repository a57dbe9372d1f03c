import Sylar.Config.Defs
import Mathlib.Data.Finmap

/-!
# Conversion of containers

Model of `LexicalCast` from `config/config.h`, which converts the values of configuration variables
to YAML texts and back: the conversion of a container converts its elements one by one, each through
a YAML document of its own. `Ty` are the types that the templates build from base types, nested to
any depth, and `Val` their values.

`reload_unchanged` says that a variable of any such type is unchanged, and its listeners are not
called, when the text that it has been converted to is loaded again. It rests on `Plain`: the base
values in it survive the conversion and YAML, and so do the documents that are built on the way.

Representation:

* YAML, the conversion of base types by `boost::lexical_cast`, and the order in which sets and maps
  are iterated are those of `Library`; an exception is `none`;
* both kinds of sets are finite sets, and both kinds of maps are finite maps.
-/

namespace Sylar.Config

/-- Types of configuration variables. -/
inductive Ty (Base : Type)
  | base (b : Base)
  | vector (t : Ty Base)
  | list (t : Ty Base)
  | set (t : Ty Base)
  | unordered_set (t : Ty Base)
  /-- `std::map<std::string, T>` -/
  | map (t : Ty Base)
  /-- `std::unordered_map<std::string, T>` -/
  | unordered_map (t : Ty Base)

/-- The values of a type. -/
def Val {Base : Type} (β : Base → Type) : Ty Base → Type
  | .base b => β b
  | .vector t | .list t => List (Val β t)
  | .set t | .unordered_set t => Finset (Val β t)
  | .map t | .unordered_map t => Finmap fun _ : List Char => Val β t

/-- The entries of a map. -/
abbrev Entry {Base : Type} (β : Base → Type) (t : Ty Base) : Type := Σ _ : List Char, Val β t

variable {Base : Type} {β : Base → Type}

instance decidableEqVal [∀ b, DecidableEq (β b)] : (t : Ty Base) → DecidableEq (Val β t)
  | .base b => inferInstanceAs (DecidableEq (β b))
  | .vector t | .list t =>
    have := decidableEqVal t
    inferInstanceAs (DecidableEq (List (Val β t)))
  | .set t | .unordered_set t =>
    have := decidableEqVal t
    inferInstanceAs (DecidableEq (Finset (Val β t)))
  | .map t | .unordered_map t =>
    have := decidableEqVal t
    inferInstanceAs (DecidableEq (Finmap fun _ : List Char => Val β t))

/-- What `LexicalCast` uses. Iterating a set or a map visits each element once. -/
structure Library (β : Base → Type) where
  /-- `YAML::Load(text)`. -/
  load : List Char → Option Node
  /-- `ss << node`. -/
  dump : Node → List Char
  /-- `boost::lexical_cast<std::string>(v)`. -/
  toStr : ∀ b, β b → Option (List Char)
  /-- `boost::lexical_cast<T>(v)`. -/
  fromStr : ∀ b, List Char → Option (β b)
  iterSet : ∀ t, Finset (Val β t) → List (Val β t)
  iterMap : ∀ t, (Finmap fun _ : List Char => Val β t) → List (Entry β t)
  iterSet_eq : ∀ t s, (iterSet t s : Multiset (Val β t)) = s.val
  iterMap_eq : ∀ t m, (iterMap t m : Multiset (Entry β t)) = m.entries

/-- `node[i]` for `i` below `node.size()`, unless there is an exception. In a map with entries,
yaml-cpp takes `i` for a key, and where there is no such key, the node is undefined and written as
an empty text. This is not followed: such a map, which no conversion of this module writes for a
sequence, counts as an exception. -/
def Node.items : Node → Option (List Node)
  | .sequence items => some items
  | .map (_ :: _) => none
  | _ => some []

/-- The pairs between `node.begin()` and `node.end()`. Those of a sequence have no `first`. -/
def Node.pairs : Node → Option (List (List Char × Node))
  | .map entries => some entries
  | .sequence (_ :: _) => none
  | _ => some []

namespace Library

variable (lib : Library β)

section Cast

variable {V : Type}

/-- The loop of the conversions from sequences, given the conversion of elements: the text of a
sequence node. -/
def sequenceText (toStr : V → Option (List Char)) (v : List V) : Option (List Char) :=
  (v.mapM fun i => (toStr i).bind lib.load).map fun items => lib.dump (.sequence items)

/-- The loop of the conversions to sequences. -/
def sequenceOf (fromStr : List Char → Option V) (v : List Char) : Option (List V) := do
  let node ← lib.load v
  let items ← node.items
  items.mapM fun item => fromStr (lib.dump item)

/-- The loop of the conversions from maps. -/
def mapText (toStr : V → Option (List Char)) (v : List (Σ _ : List Char, V)) :
    Option (List Char) :=
  (v.mapM fun i => ((toStr i.2).bind lib.load).map fun node => (i.1, node)).map fun entries =>
    lib.dump (.map entries)

/-- The loop of the conversions to maps. -/
def pairsOf (fromStr : List Char → Option V) (v : List Char) :
    Option (List (Σ _ : List Char, V)) := do
  let node ← lib.load v
  let pairs ← node.pairs
  pairs.mapM fun it => (fromStr (lib.dump it.2)).map fun x => ⟨it.1, x⟩

/-- `vec.insert(std::make_pair(key, x))`, which leaves an entry with the key as it is. -/
def insertPair (vec : Finmap fun _ : List Char => V) (entry : Σ _ : List Char, V) :
    Finmap fun _ : List Char => V :=
  if entry.1 ∈ vec then vec else vec.insert entry.1 entry.2

/-- A set with these elements inserted. -/
def setOf [DecidableEq V] (xs : List V) : Finset V := xs.foldl (fun vec x => insert x vec) ∅

/-- A map with these entries inserted. -/
def mapOf (entries : List (Σ _ : List Char, V)) : Finmap fun _ : List Char => V :=
  entries.foldl insertPair ∅

end Cast

/-- `LexicalCast<T, std::string>()(v)`. -/
def ToStr : (t : Ty Base) → Val β t → Option (List Char)
  | .base b, v => lib.toStr b v
  | .vector t, v | .list t, v => lib.sequenceText (ToStr t) v
  | .set t, v | .unordered_set t, v => lib.sequenceText (ToStr t) (lib.iterSet t v)
  | .map t, v | .unordered_map t, v => lib.mapText (ToStr t) (lib.iterMap t v)

variable [∀ b, DecidableEq (β b)]

/-- `LexicalCast<std::string, T>()(v)`. -/
def FromStr : (t : Ty Base) → List Char → Option (Val β t)
  | .base b, v => lib.fromStr b v
  | .vector t, v | .list t, v => lib.sequenceOf (FromStr t) v
  | .set t, v | .unordered_set t, v =>
    (lib.sequenceOf (FromStr t) v).map setOf
  | .map t, v | .unordered_map t, v =>
    (lib.pairsOf (FromStr t) v).map mapOf

/-! ## Values that survive -/

/-- The document is the same when it has been written and loaded again. -/
def Reloads (node : Node) : Prop := lib.load (lib.dump node) = some node

/-- The elements of a sequence have a property, and the document of the sequence reloads. -/
def PlainSequence {V : Type} (P : V → Prop) (toStr : V → Option (List Char)) (v : List V) : Prop :=
  (∀ i ∈ v, P i) ∧
  ∀ items, (v.mapM fun i => (toStr i).bind lib.load) = some items → lib.Reloads (.sequence items)

/-- The values of a map have a property, and the document of the map reloads. -/
def PlainMap {V : Type} (P : V → Prop) (toStr : V → Option (List Char))
    (v : List (Σ _ : List Char, V)) : Prop :=
  (∀ i ∈ v, P i.2) ∧
  ∀ entries, (v.mapM fun i => ((toStr i.2).bind lib.load).map fun node => (i.1, node)) =
    some entries → lib.Reloads (.map entries)

/-- The base values in a value survive the conversion, by itself and through YAML, and the documents
that are built of it reload. -/
def Plain : (t : Ty Base) → Val β t → Prop
  | .base b, v => ∃ text node, lib.toStr b v = some text ∧ lib.fromStr b text = some v ∧
      lib.load text = some node ∧ lib.fromStr b (lib.dump node) = some v
  | .vector t, v | .list t, v => lib.PlainSequence (Plain t) (lib.ToStr t) v
  | .set t, v | .unordered_set t, v =>
    lib.PlainSequence (Plain t) (lib.ToStr t) (lib.iterSet t v)
  | .map t, v | .unordered_map t, v => lib.PlainMap (Plain t) (lib.ToStr t) (lib.iterMap t v)

/-! ## The round trip -/

omit [∀ b, DecidableEq (β b)] in
theorem mapM_mapM {α γ : Type} {f : α → Option γ} {g : γ → Option α} {l : List α}
    (h : ∀ i ∈ l, ∃ n, f i = some n ∧ g n = some i) :
    ∃ ns, l.mapM f = some ns ∧ ns.mapM g = some l := by
  induction l with
  | nil => exact ⟨[], rfl, rfl⟩
  | cons i l ih =>
    obtain ⟨n, hf, hg⟩ := h i List.mem_cons_self
    obtain ⟨ns, hfs, hgs⟩ := ih fun i hi => h i (List.mem_cons_of_mem _ hi)
    exact ⟨n :: ns, by simp [hf, hfs], by simp [hg, hgs]⟩

section Elements

variable {lib} {V : Type} {toStr : V → Option (List Char)} {fromStr : List Char → Option V}

/-- The value comes back from its text, and from the document that the text is. -/
def ComesBack (lib : Library β) (toStr : V → Option (List Char)) (fromStr : List Char → Option V)
    (v : V) : Prop :=
  ∃ text node, toStr v = some text ∧ fromStr text = some v ∧
    lib.load text = some node ∧ fromStr (lib.dump node) = some v

omit [∀ b, DecidableEq (β b)] in
/-- A sequence comes back if its elements do. -/
theorem sequence_comesBack {v : List V}
    (h : lib.PlainSequence (lib.ComesBack toStr fromStr) toStr v) :
    lib.ComesBack (lib.sequenceText toStr) (lib.sequenceOf fromStr) v := by
  obtain ⟨hitems, hreloads⟩ := h
  obtain ⟨items, hmap, hback⟩ := mapM_mapM
    (f := fun i => (toStr i).bind lib.load) (g := fun item => fromStr (lib.dump item))
    fun i hi => by
      obtain ⟨text, node, hto, -, hload, hfrom⟩ := hitems i hi
      exact ⟨node, by rw [hto, Option.bind_some, hload], hfrom⟩
  have hload := hreloads items hmap
  have hof : lib.sequenceOf fromStr (lib.dump (.sequence items)) = some v := by
    simp only [sequenceOf, show lib.load _ = some _ from hload, Node.items, bind, Option.bind_some]
    exact hback
  exact ⟨lib.dump (.sequence items), .sequence items, by rw [sequenceText, hmap, Option.map_some],
    hof, hload, hof⟩

omit [∀ b, DecidableEq (β b)] in
/-- So do the entries of a map if its values do. -/
theorem pairs_comesBack {v : List (Σ _ : List Char, V)}
    (h : lib.PlainMap (lib.ComesBack toStr fromStr) toStr v) :
    lib.ComesBack (lib.mapText toStr) (lib.pairsOf fromStr) v := by
  obtain ⟨hitems, hreloads⟩ := h
  obtain ⟨entries, hmap, hback⟩ := mapM_mapM
    (f := fun i : Σ _ : List Char, V =>
      ((toStr i.2).bind lib.load).map fun node => (i.1, node))
    (g := fun it : List Char × Node =>
      (fromStr (lib.dump it.2)).map fun x => (⟨it.1, x⟩ : Σ _ : List Char, V))
    fun i hi => by
      obtain ⟨text, node, hto, -, hload, hfrom⟩ := hitems i hi
      exact ⟨(i.1, node), by rw [hto, Option.bind_some, hload, Option.map_some],
        by rw [hfrom, Option.map_some]⟩
  have hload := hreloads entries hmap
  have hof : lib.pairsOf fromStr (lib.dump (.map entries)) = some v := by
    simp only [pairsOf, show lib.load _ = some _ from hload, Node.pairs, bind, Option.bind_some]
    exact hback
  exact ⟨lib.dump (.map entries), .map entries, by rw [mapText, hmap, Option.map_some], hof, hload,
    hof⟩

omit [∀ b, DecidableEq (β b)] in
/-- What comes back as one value comes back as another one that is made of it. -/
theorem ComesBack.map {U : Type} {f : V → U} {g : U → V} {u : U}
    (h : lib.ComesBack toStr fromStr (g u)) (hfg : f (g u) = u) :
    lib.ComesBack (toStr ∘ g) (fun text => (fromStr text).map f) u := by
  obtain ⟨text, node, hto, hof, hload, hfrom⟩ := h
  have hback {v : List Char} (hv : fromStr v = some (g u)) : (fromStr v).map f = some u := by
    rw [hv, Option.map_some, hfg]
  exact ⟨text, node, hto, hback hof, hload, hback hfrom⟩

end Elements

section Containers

variable {V : Type}

omit [∀ b, DecidableEq (β b)] in
theorem mem_foldl_insert [DecidableEq V] {xs : List V} {s : Finset V} {x : V} :
    x ∈ xs.foldl (fun vec x => insert x vec) s ↔ x ∈ s ∨ x ∈ xs := by
  induction xs generalizing s with
  | nil => simp
  | cons y xs ih =>
    rw [List.foldl_cons, ih, Finset.mem_insert, List.mem_cons]
    tauto

/-- Inserting the elements of a set in the order in which they are iterated. -/
theorem setOf_eq [DecidableEq V] {xs : List V} {s : Finset V} (h : (xs : Multiset V) = s.val) :
    setOf xs = s := by
  ext x
  rw [setOf, mem_foldl_insert, ← Finset.mem_val, ← Finset.mem_val, ← h, Multiset.mem_coe]
  simp

theorem lookup_foldl_insertPair {entries : List (Σ _ : List Char, V)}
    {m : Finmap fun _ : List Char => V} {key : List Char} :
    (entries.foldl insertPair m).lookup key = (m.lookup key).or (entries.dlookup key) := by
  induction entries generalizing m with
  | nil => simp
  | cons entry entries ih =>
    obtain ⟨key', x⟩ := entry
    rw [List.foldl_cons, ih, insertPair]
    by_cases hkey : key = key'
    · subst hkey
      rw [List.dlookup_cons_eq]
      split_ifs with hmem
      · obtain ⟨y, hy⟩ := Finmap.mem_iff.mp hmem
        rw [hy, Option.some_or, Option.some_or]
      · rw [Finmap.lookup_insert, Finmap.lookup_eq_none.mpr hmem, Option.some_or, Option.none_or]
    · rw [List.dlookup_cons_ne _ _ hkey]
      split_ifs
      · rfl
      · rw [Finmap.lookup_insert_of_ne _ hkey]

/-- Inserting the entries of a map in the order in which they are iterated. -/
theorem mapOf_eq {entries : List (Σ _ : List Char, V)} {m : Finmap fun _ : List Char => V}
    (h : (entries : Multiset (Σ _ : List Char, V)) = m.entries) : mapOf entries = m := by
  have hnodup : entries.NodupKeys := by
    rw [← Multiset.coe_nodupKeys, h]
    exact m.nodupKeys
  have hm : m = AList.toFinmap ⟨entries, hnodup⟩ := Finmap.ext h.symm
  refine Finmap.ext_lookup fun key => ?_
  rw [mapOf, lookup_foldl_insertPair, Finmap.lookup_empty, Option.none_or, hm,
    Finmap.lookup_toFinmap]
  rfl

end Containers

variable {lib}

omit [∀ b, DecidableEq (β b)] in
theorem PlainSequence.imp {V : Type} {P Q : V → Prop} {toStr : V → Option (List Char)} {v : List V}
    (h : lib.PlainSequence P toStr v) (himp : ∀ i ∈ v, P i → Q i) : lib.PlainSequence Q toStr v :=
  ⟨fun i hi => himp i hi (h.1 i hi), h.2⟩

omit [∀ b, DecidableEq (β b)] in
theorem PlainMap.imp {V : Type} {P Q : V → Prop} {toStr : V → Option (List Char)}
    {v : List (Σ _ : List Char, V)} (h : lib.PlainMap P toStr v) (himp : ∀ i ∈ v, P i.2 → Q i.2) :
    lib.PlainMap Q toStr v :=
  ⟨fun i hi => himp i hi (h.1 i hi), h.2⟩

/-- Values of any type come back. -/
theorem Plain.comesBack {t : Ty Base} {v : Val β t} (h : lib.Plain t v) :
    lib.ComesBack (lib.ToStr t) (lib.FromStr t) v := by
  induction t with
  | base b => exact h
  | vector t ih | list t ih => exact sequence_comesBack (PlainSequence.imp h fun _ _ => ih)
  | set t ih | unordered_set t ih =>
    have hitems := sequence_comesBack (PlainSequence.imp h fun _ _ => ih)
    exact hitems.map (setOf_eq (lib.iterSet_eq t v))
  | map t ih | unordered_map t ih =>
    have hpairs := pairs_comesBack (PlainMap.imp h fun _ _ => ih)
    exact hpairs.map (mapOf_eq (lib.iterMap_eq t v))

/-- The text of a variable, loaded again, leaves the variable and calls no listener. -/
theorem reload_unchanged {t : Ty Base} {var : ConfigVar (Val β t)} (h : lib.Plain t var.m_val) :
    ∃ text, lib.ToStr t var.m_val = some text ∧
      ∀ call, var.fromString (lib.FromStr t) call text =
        { var, notified := [], exit := .returned } := by
  obtain ⟨text, -, hto, hof, -, -⟩ := h.comesBack
  refine ⟨text, hto, fun call => ?_⟩
  have hset : var.setValue call var.m_val = { var, notified := [], exit := .returned } := if_pos rfl
  rw [ConfigVar.fromString, hof]
  simp only [hset, reduceCtorEq, if_false]

/-- The texts of `true` and of nested sequences of it. -/
noncomputable def nested : Library fun _ : Unit => Bool where
  load text :=
    if text = "1".toList then some (.scalar text)
    else if text = "- 1".toList then some (.sequence [.scalar "1".toList])
    else if text = "- - 1".toList then some (.sequence [.sequence [.scalar "1".toList]])
    else none
  dump
    | .scalar text => text
    | .sequence [.scalar text] => "- ".toList ++ text
    | .sequence [.sequence [.scalar text]] => "- - ".toList ++ text
    | _ => []
  toStr _ v := some (if v then "1".toList else "0".toList)
  fromStr _ text :=
    if text = "1".toList then some true else if text = "0".toList then some false else none
  iterSet _ s := s.val.toList
  iterMap _ m := m.entries.toList
  iterSet_eq _ _ := Multiset.coe_toList _
  iterMap_eq _ _ := Multiset.coe_toList _

/-- A value of type `std::set<bool>`. -/
def onlyTrue : Val (fun _ : Unit => Bool) (.set (.base ())) := ({true} : Finset Bool)

/-- A variable of type `std::vector<std::set<bool>>`. -/
def nestedVar : ConfigVar (Val (fun _ : Unit => Bool) (.vector (.set (.base ())))) :=
  { m_val := [onlyTrue], m_cbs := [1] }

theorem reload_unchanged_example :
    ∃ text, nested.ToStr (.vector (.set (.base ()))) nestedVar.m_val = some text ∧
      ∀ call, nestedVar.fromString (nested.FromStr (.vector (.set (.base ())))) call text =
        { var := nestedVar, notified := [], exit := .returned } := by
  have htrue : nested.Plain (.base ()) true :=
    ⟨"1".toList, .scalar "1".toList, rfl, rfl, rfl, rfl⟩
  have hiter : nested.iterSet (.base ()) onlyTrue = [true] := Multiset.toList_singleton true
  have hto : nested.ToStr (.set (.base ())) onlyTrue = some "- 1".toList := by
    show nested.sequenceText _ (nested.iterSet (.base ()) onlyTrue) = _
    rw [hiter]
    rfl
  have hset : nested.Plain (.set (.base ())) onlyTrue := by
    show nested.PlainSequence _ _ (nested.iterSet (.base ()) onlyTrue)
    rw [hiter]
    refine ⟨fun i hi => List.mem_singleton.mp hi ▸ htrue, fun items hitems => ?_⟩
    obtain rfl := Option.some_inj.mp hitems
    rfl
  have hvector : nested.Plain (.vector (.set (.base ()))) nestedVar.m_val := by
    refine ⟨fun i hi => List.mem_singleton.mp hi ▸ hset, fun items hitems => ?_⟩
    have hmapM : some [Node.sequence [.scalar "1".toList]] = some items := by
      rw [← hitems, nestedVar]
      simp only [List.mapM_cons, hto]
      rfl
    obtain rfl := Option.some_inj.mp hmapM
    rfl
  exact reload_unchanged hvector

end Library

end Sylar.Config
