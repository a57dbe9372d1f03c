import Mathlib.Logic.Function.Basic
import Sylar.Foundation.OrderedSet

/-!
# Configuration variables

Model of `ConfigVar` and `Config` from `config/config.h` and `config/config.cc`. A text is a list of
characters. The module introduces:

* `ConfigVar` — a variable and its listeners, with `addListener`, `delListener`, `setValue` and
  `fromString`;
* `Node` — a YAML document, whose text `serialise` is an argument;
* `ListAllMember` and `LoadFromYaml` — the assignment of the nodes of a document to the variables
  with their names.

The type of a variable comes with its comparison `==`, which decides equality, and its conversion
`fromStr` from a text, which fails with an exception derived from `std::exception`. A listener is
known by its key and may throw; it does not use the variable.
-/

namespace Sylar.Config

/-- How a call ends: it returns, or throws an exception derived from `std::exception`, or something
else. -/
inductive Exit where
  | returned
  | stdException
  | otherException
deriving DecidableEq

/-- The characters of a name. -/
def validChars : List Char := "abcdefghikjlmnopqrstuvwxyz._012345678".toList

/-! ## Variables -/

/-- A variable with the keys of its listeners, in order. -/
structure ConfigVar (T : Type) where
  m_val : T
  m_cbs : List UInt64

/-- The call of a listener with the old and the new value. -/
structure Notification (T : Type) where
  key : UInt64
  old_value : T
  new_value : T

/-- What a call of a function of a variable leaves: the variable, the notifications sent, and how it
ended. -/
structure Update (T : Type) where
  var : ConfigVar T
  notified : List (Notification T)
  exit : Exit

namespace ConfigVar

variable {T : Type} [DecidableEq T]

/-- `addListener`: the listener gets the next key `++s_fun_id`. -/
def addListener (var : ConfigVar T) (s_fun_id : UInt64) : ConfigVar T :=
  { var with m_cbs := OrderedSet.insert (fun a b => decide (a < b)) (s_fun_id + 1) var.m_cbs }

/-- `delListener(key)`. -/
def delListener (var : ConfigVar T) (key : UInt64) : ConfigVar T :=
  { var with m_cbs := var.m_cbs.filter (· ≠ key) }

/-- The loop of `setValue`, where `call` says how a listener ends: who has been called, and how the
last call has ended. -/
def notify (call : UInt64 → Exit) : List UInt64 → List UInt64 × Exit
  | [] => ([], .returned)
  | key :: cbs =>
    match call key with
    | .returned => ((key :: (notify call cbs).1), (notify call cbs).2)
    | exit => ([key], exit)

/-- `setValue(v)`. -/
def setValue (call : UInt64 → Exit) (var : ConfigVar T) (v : T) : Update T :=
  if v = var.m_val then { var, notified := [], exit := .returned }
  else
    let (called, exit) := notify call var.m_cbs
    { var := if exit = .returned then { var with m_val := v } else var
      notified := called.map fun key => { key, old_value := var.m_val, new_value := v }
      exit }

/-- `fromString(val)`, which absorbs exceptions derived from `std::exception`, and returns `false`
in any case. -/
def fromString (fromStr : List Char → Option T) (call : UInt64 → Exit) (var : ConfigVar T)
    (val : List Char) : Update T :=
  match fromStr val with
  | none => { var, notified := [], exit := .returned }
  | some v =>
    let update := var.setValue call v
    { update with exit := if update.exit = .stdException then .returned else update.exit }

end ConfigVar

/-! ## Documents -/

/-- A YAML document, in which the keys of maps are strings. -/
inductive Node where
  | null
  | scalar (text : List Char)
  | sequence (items : List Node)
  | map (entries : List (List Char × Node))

/-- The text that is converted for a node: that of a scalar, or what another node is written as. -/
def Node.text (serialise : Node → List Char) : Node → List Char
  | .scalar text => text
  | node => serialise node

/-- The name of a member. -/
def memberName (prefix_ key : List Char) : List Char :=
  if prefix_.isEmpty then key else prefix_ ++ ['.'] ++ key

/-- The check of a name by `find_first_not_of`. -/
def isValidName (name : List Char) : Bool := name.all (· ∈ validChars)

mutual

/-- `ListAllMember(prefix, node, output)`: what is added to the output. -/
def ListAllMember (prefix_ : List Char) (node : Node) : List (List Char × Node) :=
  if !isValidName prefix_ then []
  else
    (prefix_, node) ::
      match node with
      | .map entries => listEntries prefix_ entries
      | _ => []
termination_by structural node

/-- The loop of `ListAllMember` over the members of a map. -/
def listEntries (prefix_ : List Char) : List (List Char × Node) → List (List Char × Node)
  | [] => []
  | (key, node) :: entries =>
    ListAllMember (memberName prefix_ key) node ++ listEntries prefix_ entries
termination_by structural entries => entries

end

/-! ## Loading a document -/

/-- `GetDatas()`: the variables by their names, each of the type `T name`. -/
abbrev Registry (T : List Char → Type) : Type := ∀ name, Option (ConfigVar (T name))

section Load

variable {T : List Char → Type} [∀ name, DecidableEq (T name)]
variable (serialise : Node → List Char) (fromStr : ∀ name, List Char → Option (T name))
variable (call : List Char → UInt64 → Exit)

/-- The body of the loop of `LoadFromYaml`. -/
def loadNode (datas : Registry T) (name : List Char) (node : Node) : Registry T × Exit :=
  if name.isEmpty then (datas, .returned)
  else
    let key := name.map Char.toLower
    match datas key with
    | none => (datas, .returned)
    | some var =>
      let update := var.fromString (fromStr key) (call key) (node.text serialise)
      (Function.update datas key (some update.var), update.exit)

/-- The loop of `LoadFromYaml`, which an exception leaves. -/
def loadNodes : Registry T → List (List Char × Node) → Registry T × Exit
  | datas, [] => (datas, .returned)
  | datas, (name, node) :: all_nodes =>
    match loadNode serialise fromStr call datas name node with
    | (datas, .returned) => loadNodes datas all_nodes
    | thrown => thrown

/-- `LoadFromYaml(root)`. -/
def LoadFromYaml (datas : Registry T) (root : Node) : Registry T × Exit :=
  loadNodes serialise fromStr call datas (ListAllMember [] root)

end Load

end Sylar.Config
