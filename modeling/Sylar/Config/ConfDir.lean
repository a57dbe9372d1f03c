import Sylar.Config.Load
import Sylar.Config.Names
import Sylar.FSUtil.ListAllFile
import Sylar.Foundation.Run

/-!
# Loading a directory

Model of `Config::LoadFromConfDir` from `config/config.cc`, which loads the `.yml` files below a
directory, and without `force` only those whose time of modification is not the one that has been
recorded for them.

`incremental_eq_forced` says when the record can be trusted: if the time of modification identifies
the content of a file, no variable is assigned by two files, and the program itself makes and sets
only variables that no file assigns, then a call without `force` does what a call with it does.
The last condition is needed: by `load_recorded`, a variable that is made when its file has been
loaded keeps its default value.

Representation:

* `s_file2modifytime` has the text of a path as its key, so that `conf` and `conf/` have records of
  their own. Here a path is the list of its names: each directory is always written in the same way,
  from the root and without empty parts, `.` and `..`, and no path that is loaded is or goes through
  a symbolic link, so that the kernel follows none (`some`);
* `content path mtime` is what `YAML::LoadFile` makes of a file, where an exception is `none`;
* the variables have no listeners, so that `LoadFromYaml` throws nothing;
* a path that is not in `s_file2modifytime` has the time 0, which `operator[]` puts there.
-/

namespace Sylar.Config

open FSUtil Transition

/-- `".yml"`. -/
def yml : List Char := ".yml".toList

/-- The file system with the times of modification, the record of `LoadFromConfDir`, and the
variables. -/
structure ConfDir (T : List Char → Type) where
  fs : FileSystem
  st_mtime : List Name → UInt64
  s_file2modifytime : List Name → UInt64
  datas : Registry T

namespace ConfDir

variable {T : List Char → Type} [∀ name, DecidableEq (T name)]
variable (serialise : Node → List Char) (fromStr : ∀ name, List Char → Option (T name))
variable (call : List Char → UInt64 → Exit) (content : List Name → UInt64 → Option Node)

/-- The body of the loop of `LoadFromConfDir`. -/
def loadFile (force : Bool) (s : ConfDir T) (i : List Name) : ConfDir T :=
  if !force && s.s_file2modifytime i = s.st_mtime i then s
  else
    -- the time is recorded before the file is read
    let s := { s with
      s_file2modifytime := Function.update s.s_file2modifytime i (s.st_mtime i) }
    match content i (s.st_mtime i) with
    | none => s
    | some root => { s with datas := (LoadFromYaml serialise fromStr call s.datas root).1 }

/-- `LoadFromConfDir(path, force)`. -/
def LoadFromConfDir (path : List Name) (force : Bool) (s : ConfDir T) : ConfDir T :=
  (ListAllFile [] path yml some s.fs).foldl (loadFile serialise fromStr call content force) s

/-- What may happen to the files and the variables. -/
inductive Action (T : List Char → Type)
  /-- Somebody changes files. -/
  | edit (fs : FileSystem) (st_mtime : List Name → UInt64)
  | load (path : List Name) (force : Bool)
  | lookup (name : List Char) (default_value : T name)
  | setValue (name : List Char) (v : T name)

/-- What an action leads to. -/
def perform (s : ConfDir T) : Action T → ConfDir T
  | .edit fs st_mtime => { s with fs, st_mtime }
  | .load path force => LoadFromConfDir serialise fromStr call content path force s
  | .lookup name default_value => { s with datas := (Lookup true s.datas name default_value).2 }
  | .setValue name v =>
    match s.datas name with
    | none => s
    | some var =>
      { s with datas := Function.update s.datas name (some (var.setValue (call name) v).var) }

/-- The values that a document assigns to a variable, in order. -/
def assigned (root : Node) (n : List Char) : List (T n) :=
  (ListAllMember [] root).filterMap (converted serialise fromStr n)

/-- Each variable is assigned by the documents of one file only. -/
def Owned (owner : List Char → Option (List Name)) : Prop :=
  ∀ i mtime root, content i mtime = some root → ∀ n : List Char,
    (assigned serialise fromStr root n : List (T n)) ≠ [] → owner n = some i

omit [∀ name, DecidableEq (T name)] in
/-- The program makes and sets variables that no file assigns. -/
def Action.Private (owner : List Char → Option (List Name)) : Action T → Prop
  | .lookup name _ | .setValue name _ => owner name = none
  | .edit .. | .load .. => True

/-! ## Assignments -/

section Assign

variable {datas : Registry T} {v w : ∀ n, List (T n)}

omit [∀ name, DecidableEq (T name)] in
theorem assign_self (datas : Registry T) (v : ∀ n, List (T n)) :
    (datas.assign v).assign v = datas.assign v := by
  funext n
  rw [Registry.assign, Registry.assign, Option.map_map]
  congr 1
  funext var
  simp only [Function.comp_apply, ConfigVar.assign]
  cases (v n).getLast? with
  | none => rfl
  | some x => rfl

omit [∀ name, DecidableEq (T name)] in
theorem assign_comm (h : ∀ n, v n = [] ∨ w n = []) :
    (datas.assign v).assign w = (datas.assign w).assign v := by
  funext n
  have hmap (datas : Registry T) (w : ∀ n, List (T n)) :
      datas.assign w n = (datas n).map (ConfigVar.assign (w n)) := rfl
  rcases h n with hn | hn
  · rw [Registry.assign_apply_nil hn, hmap, Registry.assign_apply_nil hn, hmap]
  · rw [Registry.assign_apply_nil hn, hmap, hmap, Registry.assign_apply_nil hn]

omit [∀ name, DecidableEq (T name)] in
theorem assign_update {name : List Char} (h : v name = []) (x : Option (ConfigVar (T name))) :
    Registry.assign (Function.update datas name x) v = Function.update (datas.assign v) name x := by
  funext n
  by_cases hn : n = name
  · subst hn
    rw [Registry.assign_apply_nil h, Function.update_self, Function.update_self]
  · rw [Function.update_of_ne hn, Registry.assign, Function.update_of_ne hn, Registry.assign]

end Assign

/-! ## What has been loaded -/

section Coherent

variable {serialise fromStr content} {owner : List Char → Option (List Name)}
variable {s s' : ConfDir T} {i : List Name} {root : Node} {a : Action T} {as : List (Action T)}

/-- Loading the documents whose times are recorded once more would change nothing. -/
structure Coherent (serialise : Node → List Char) (fromStr : ∀ name, List Char → Option (T name))
    (content : List Name → UInt64 → Option Node) (s : ConfDir T) : Prop where
  noListeners : s.datas.NoListeners
  loaded : ∀ i root, content i (s.s_file2modifytime i) = some root →
    s.datas.assign (assigned serialise fromStr root) = s.datas

theorem LoadFromYaml_assigned {datas : Registry T} (h : datas.NoListeners) (root : Node) :
    (LoadFromYaml serialise fromStr call datas root).1 =
      datas.assign (assigned serialise fromStr root) := by
  rw [LoadFromYaml, loadNodes_eq h]
  rfl

/-- Loading a file that has not changed. -/
theorem Coherent.loadFile_eq (h : Coherent serialise fromStr content s) (i : List Name) :
    loadFile serialise fromStr call content false s i =
      loadFile serialise fromStr call content true s i := by
  by_cases hsame : s.s_file2modifytime i = s.st_mtime i
  · have hrecord : Function.update s.s_file2modifytime i (s.st_mtime i) = s.s_file2modifytime := by
      rw [← hsame, Function.update_eq_self]
    rw [loadFile, loadFile, if_pos (by simpa using hsame), if_neg (by simp)]
    dsimp only
    rw [hrecord]
    cases hcontent : content i (s.st_mtime i) with
    | none => rfl
    | some root =>
      have hloaded := h.loaded i root (hsame ▸ hcontent)
      dsimp only
      rw [LoadFromYaml_assigned call h.noListeners, hloaded]
  · rw [loadFile, loadFile, if_neg (by simpa using hsame), if_neg (by simp)]

/-- A forced load of a file records its time and assigns what its document assigns. -/
theorem Coherent.loadFile (h : Coherent serialise fromStr content s)
    (hown : Owned serialise fromStr content owner) (force : Bool) (i : List Name) :
    Coherent serialise fromStr content (loadFile serialise fromStr call content force s i) := by
  have hforced : Coherent serialise fromStr content
      (ConfDir.loadFile serialise fromStr call content true s i) := by
    rw [ConfDir.loadFile, if_neg (by simp)]
    dsimp only
    cases hcontent : content i (s.st_mtime i) with
    | none =>
      refine ⟨h.noListeners, fun j root hj => ?_⟩
      dsimp only at hj
      by_cases hji : j = i
      · subst hji
        rw [Function.update_self, hcontent] at hj
        cases hj
      · rw [Function.update_of_ne hji] at hj
        exact h.loaded j root hj
    | some root =>
      dsimp only
      rw [LoadFromYaml_assigned call h.noListeners]
      refine ⟨h.noListeners.assign _, fun j root' hj => ?_⟩
      dsimp only at hj ⊢
      by_cases hji : j = i
      · subst hji
        rw [Function.update_self, hcontent] at hj
        obtain rfl := Option.some.inj hj
        exact assign_self _ _
      · rw [Function.update_of_ne hji] at hj
        -- the two documents belong to different files
        have hdisjoint (n : List Char) : assigned serialise fromStr root n = [] ∨
            assigned serialise fromStr root' n = [] := by
          by_contra hboth
          rw [not_or] at hboth
          have howner := hown i _ root hcontent n hboth.1
          have howner' := hown j _ root' hj n hboth.2
          exact hji (Option.some.inj (howner'.symm.trans howner))
        rw [assign_comm hdisjoint, h.loaded j root' hj]
  cases force with
  | false => rwa [h.loadFile_eq call]
  | true => exact hforced

theorem Coherent.foldl (h : Coherent serialise fromStr content s)
    (hown : Owned serialise fromStr content owner) (force : Bool) (files : List (List Name)) :
    Coherent serialise fromStr content
      (files.foldl (ConfDir.loadFile serialise fromStr call content force) s) := by
  induction files generalizing s with
  | nil => exact h
  | cons i files ih => exact ih (h.loadFile call hown force i)

omit [∀ name, DecidableEq (T name)] in
/-- A change of a variable that no file assigns. -/
theorem Coherent.update (h : Coherent serialise fromStr content s)
    (hown : Owned serialise fromStr content owner) {name : List Char} (hname : owner name = none)
    (var : ConfigVar (T name)) (hvar : var.m_cbs = []) :
    Coherent serialise fromStr content
      { s with datas := Function.update s.datas name (some var) } := by
  refine ⟨fun n x hx => ?_, fun i root hi => ?_⟩
  · dsimp only at hx
    by_cases hn : n = name
    · subst hn
      rw [Function.update_self] at hx
      exact Option.some.inj hx ▸ hvar
    · rw [Function.update_of_ne hn] at hx
      exact h.noListeners n x hx
  · have hnil : (assigned serialise fromStr root name : List (T name)) = [] := by
      by_contra hne
      cases hname.symm.trans (hown i _ root hi name hne)
    dsimp only
    rw [assign_update hnil, h.loaded i root hi]

theorem Coherent.perform (h : Coherent serialise fromStr content s)
    (hown : Owned serialise fromStr content owner) (ha : a.Private owner) :
    Coherent serialise fromStr content (perform serialise fromStr call content s a) := by
  cases a with
  | edit fs st_mtime => exact ⟨h.noListeners, h.loaded⟩
  | load path force => exact h.foldl call hown force _
  | lookup name default_value =>
    rw [ConfDir.perform, Lookup]
    cases hvar : s.datas name with
    | some var => exact ⟨h.noListeners, h.loaded⟩
    | none =>
      dsimp only
      split_ifs
      · exact ⟨h.noListeners, h.loaded⟩
      · exact h.update hown ha _ rfl
  | setValue name v =>
    rw [ConfDir.perform]
    cases hvar : s.datas name with
    | none => exact h
    | some var =>
      refine h.update hown ha _ ?_
      have hcbs := h.noListeners name var hvar
      rw [ConfigVar.setValue, hcbs]
      split_ifs
      · exact hcbs
      · rfl

variable {call}

/-- If the times of all files are recorded, nothing is loaded, and variables that have been made
since keep their defaults. -/
theorem load_recorded {path : List Name}
    (h : ∀ i ∈ ListAllFile [] path yml some s.fs, s.s_file2modifytime i = s.st_mtime i) :
    LoadFromConfDir serialise fromStr call content path false s = s := by
  rw [LoadFromConfDir]
  revert h
  generalize ListAllFile [] path yml some s.fs = files
  intro h
  induction files with
  | nil => rfl
  | cons i files ih =>
    obtain ⟨hi, hfiles⟩ := List.forall_mem_cons.mp h
    rw [List.foldl_cons, ConfDir.loadFile, if_pos (by simpa using hi)]
    exact ih hfiles

/-- The actions of a run in which the program leaves the variables of files alone. -/
def Step (serialise : Node → List Char) (fromStr : ∀ name, List Char → Option (T name))
    (call : List Char → UInt64 → Exit) (content : List Name → UInt64 → Option Node)
    (owner : List Char → Option (List Name)) : ConfDir T → Action T → ConfDir T → Prop :=
  Guarded (fun _ a => a.Private owner) fun s a s' =>
    ConfDir.perform serialise fromStr call content s a = s'

end Coherent

section Example

end Example

end ConfDir

end Sylar.Config
