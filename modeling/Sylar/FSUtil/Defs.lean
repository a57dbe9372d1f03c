import Mathlib.Data.Nat.Notation
import Mathlib.Logic.Function.Basic

/-!
# `FSUtil::Rm`

Model of `FSUtil::Unlink` and `FSUtil::Rm` from `util/util.cpp`, over a tree of files on which every
system call succeeds that can. A path is the list of its names below the root of the tree, so that
`path + "/" + dp->d_name` is a path with one more name.

A directory has the entries that `readdir` returns, in any order; those called `.` and `..` are
among them wherever the file system puts them.
-/

namespace Sylar.FSUtil

/-- The types of files that are not directories. -/
inductive FileType
  | regular
  | symlink
  | socket
  | fifo
  | charDevice
  | blockDevice
  deriving DecidableEq

/-- `S_IFDIR`. -/
def S_IFDIR : UInt32 := 0o040000

/-- `S_IFREG`, `S_IFLNK`, `S_IFSOCK`, `S_IFIFO`, `S_IFCHR` and `S_IFBLK`. -/
def FileType.mode : FileType → UInt32
  | regular => 0o100000
  | symlink => 0o120000
  | socket => 0o140000
  | fifo => 0o010000
  | charDevice => 0o020000
  | blockDevice => 0o060000

/-- What `readdir` returns beside `.` and `..`. -/
abbrev Name := {d_name : List Char // ¬(d_name = ['.'] ∨ d_name = ['.', '.'])}

/-- A file or a directory, with its permissions. A directory has what `readdir` returns, and the
node of each entry (`child` says nothing of other names). -/
inductive Node
  | dir (perm : BitVec 12) (entries : List (List Char)) (child : Name → Node)
  | file (type : FileType) (perm : BitVec 12)

namespace Node

/-- `st_mode`: the type and the permissions. -/
def st_mode : Node → UInt32
  | dir perm _ _ => S_IFDIR ||| ⟨perm.setWidth 32⟩
  | file type perm => type.mode ||| ⟨perm.setWidth 32⟩

/-- The node at a path below this one. -/
def lookup : List Name → Node → Option Node
  | [], node => some node
  | name :: path, dir _ entries child =>
    if name.val ∈ entries then (child name).lookup path else none
  | _ :: _, file _ _ => none

/-- The tree without the node at a path. -/
def remove : List Name → Node → Option Node
  | [], _ => none
  | name :: path, dir perm entries child =>
    if name.val ∈ entries then
      match (child name).remove path with
      | some node => some (dir perm entries (Function.update child name node))
      | none => some (dir perm (entries.filter (· ≠ name.val)) child)
    else some (dir perm entries child)
  | _ :: _, file type perm => some (file type perm)

end Node

/-- The tree, if there is one. -/
abbrev FileSystem := Option Node

/-- `lstat`: the mode, unless the call fails. -/
def lstat (path : List Name) (fs : FileSystem) : Option UInt32 :=
  (fs.bind (Node.lookup path)).map Node.st_mode

/-- `opendir`, and what `readdir` then returns, unless the call fails. -/
def opendir (path : List Name) (fs : FileSystem) : Option (List (List Char)) :=
  match fs.bind (Node.lookup path) with
  | some (.dir _ entries _) => some entries
  | _ => none

/-- `unlink`, of what is not a directory. -/
def unlink (path : List Name) (fs : FileSystem) : Bool × FileSystem :=
  match fs.bind (Node.lookup path) with
  | some (.file _ _) => (true, fs.bind (Node.remove path))
  | _ => (false, fs)

/-- `rmdir`, of a directory without entries. -/
def rmdir (path : List Name) (fs : FileSystem) : Bool × FileSystem :=
  match fs.bind (Node.lookup path) with
  | some (.dir _ entries _) =>
    if entries.all fun d_name => d_name = ['.'] ∨ d_name = ['.', '.'] then
      (true, fs.bind (Node.remove path))
    else (false, fs)
  | _ => (false, fs)

/-- `Unlink(filename, exist)`. -/
def Unlink (filename : List Name) (exist : Bool) (fs : FileSystem) : Bool × FileSystem :=
  if !exist && (lstat filename fs).isNone then (true, fs)
  else unlink filename fs

/-- The loop of `Rm` over the entries of a directory, where `rm` is `Rm`. Each entry overwrites
`ret`. -/
def rmLoop (rm : List Name → FileSystem → Option (Bool × FileSystem)) (path : List Name) :
    List (List Char) → Bool → FileSystem → Option (Bool × FileSystem)
  | [], ret, fs => some (ret, fs)
  | d_name :: dir, ret, fs =>
    if h : d_name = ['.'] ∨ d_name = ['.', '.'] then rmLoop rm path dir ret fs
    else do
      let (ret, fs) ← rm (path ++ [⟨d_name, h⟩]) fs
      rmLoop rm path dir ret fs

/-- `Rm(path)`, with a bound on the depth of the recursion. -/
def Rm : ℕ → List Name → FileSystem → Option (Bool × FileSystem)
  | 0, _, _ => none
  | fuel + 1, path, fs =>
    match lstat path fs with
    | none => some (true, fs)
    | some st_mode =>
      if st_mode &&& S_IFDIR = 0 then some (Unlink path false fs)
      else
        match opendir path fs with
        | none => some (false, fs)
        | some dir => do
          let (ret, fs) ← rmLoop (Rm fuel) path dir true fs
          let (removed, fs) := rmdir path fs
          return (if removed then ret else false, fs)

end Sylar.FSUtil
