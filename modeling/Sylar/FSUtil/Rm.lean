import Sylar.FSUtil.Defs
import Mathlib.Data.List.Basic

/-!
# What `Rm` removes

The system calls are described by what `lstat` answers at every path before and after them. From
this, `Rm` removes a tree without sockets and block devices (`rm_of_clean`), and never removes a
socket or a block device (`rm_keeps`): their modes share the bit `S_IFDIR` with directories, so
that they are opened as directories and not unlinked.
-/

namespace Sylar.FSUtil

/-- `S_IFMT`. -/
def S_IFMT : UInt32 := 0o170000

/-- `S_ISSOCK` or `S_ISBLK`. -/
def Stuck (st_mode : UInt32) : Prop :=
  st_mode &&& S_IFMT = FileType.socket.mode ∨ st_mode &&& S_IFMT = FileType.blockDevice.mode

/-! ## The mode bits -/

/-- The permissions are below the bits of the type. -/
lemma or_perm_and (mode mask : UInt32) (perm : BitVec 12)
    (hmask : ∀ i < 12, mask.toBitVec.getLsbD i = false) :
    (mode ||| ⟨perm.setWidth 32⟩) &&& mask = mode &&& mask := by
  have hperm : perm.setWidth 32 &&& mask.toBitVec = 0#32 := by
    apply BitVec.eq_of_getLsbD_eq
    intro i hi
    rw [BitVec.getLsbD_and, BitVec.getLsbD_zero, Bool.and_eq_false_iff]
    by_cases hlow : i < 12
    · exact Or.inr (hmask i hlow)
    · left
      rw [BitVec.getLsbD_setWidth, BitVec.getLsbD_of_ge perm i (Nat.le_of_not_lt hlow),
        Bool.and_false]
  apply UInt32.toBitVec_inj.1
  rw [UInt32.toBitVec_and, UInt32.toBitVec_or, UInt32.toBitVec_and, BitVec.and_or_distrib_right]
  change _ ||| perm.setWidth 32 &&& mask.toBitVec = _
  rw [hperm, BitVec.or_zero]

/-- A directory is neither a socket nor a block device. -/
lemma not_stuck_dir (perm : BitVec 12) (entries : List (List Char)) (child : Name → Node) :
    ¬ Stuck (Node.dir perm entries child).st_mode := by
  rw [Stuck, Node.st_mode, or_perm_and _ _ _ (by decide)]
  decide

/-- The test is true of sockets and block devices only. -/
lemma stuck_file (type : FileType) (perm : BitVec 12) :
    Stuck (Node.file type perm).st_mode ↔ type = .socket ∨ type = .blockDevice := by
  rw [Stuck, Node.st_mode, or_perm_and _ _ _ (by decide)]
  cases type <;> decide

/-- `Rm` takes a directory for one. -/
lemma test_dir (perm : BitVec 12) (entries : List (List Char)) (child : Name → Node) :
    (Node.dir perm entries child).st_mode &&& S_IFDIR ≠ 0 := by
  rw [Node.st_mode, or_perm_and _ _ _ (by decide)]
  decide

/-- A file passes the test of `Rm` for directories if it is a socket or a block device. -/
lemma test_file (type : FileType) (perm : BitVec 12) :
    (Node.file type perm).st_mode &&& S_IFDIR ≠ 0 ↔ Stuck (Node.file type perm).st_mode := by
  rw [stuck_file, Node.st_mode, or_perm_and _ _ _ (by decide)]
  cases type <;> decide

/-! ## Paths -/

section Paths

variable {fs : FileSystem} {path : List Name}

/-- A node is looked up in steps. -/
lemma lookup_append (p q : List Name) (node : Node) :
    node.lookup (p ++ q) = (node.lookup p).bind (Node.lookup q) := by
  induction p generalizing node with
  | nil => rfl
  | cons n p ih =>
    cases node with
    | dir perm entries child =>
      rw [List.cons_append, Node.lookup, Node.lookup]
      split_ifs with hmem
      · exact ih (child n)
      · rfl
    | file type perm => rfl

/-- Below what does not exist there is nothing. -/
lemma lstat_append_of_none (h : lstat path fs = none) (p : List Name) :
    lstat (path ++ p) fs = none := by
  rw [lstat, Option.map_eq_none_iff] at h ⊢
  cases fs with
  | none => rfl
  | some root =>
    rw [Option.bind_some] at h ⊢
    rw [lookup_append, h, Option.bind_none]

/-- The entries of a directory are what is below it. -/
lemma lstat_cons_dir (n : Name) (p : List Name) (perm : BitVec 12) (entries : List (List Char))
    (child : Name → Node) :
    lstat (n :: p) (some (.dir perm entries child)) =
      if n.val ∈ entries then lstat p (some (child n)) else none := by
  rw [lstat, Option.bind_some, Node.lookup]
  split_ifs with hmem
  · rfl
  · rfl

/-- What is removed below an entry leaves the other entries alone. -/
lemma lstat_remove_cons (m n : Name) (p path : List Name) (perm : BitVec 12)
    {entries : List (List Char)} (child : Name → Node) (hmem : n.val ∈ entries) :
    lstat (m :: p) ((Node.dir perm entries child).remove (n :: path)) =
      if m = n then lstat p ((child n).remove path)
      else lstat (m :: p) (some (.dir perm entries child)) := by
  rw [Node.remove, if_pos hmem]
  by_cases hmn : m = n
  · subst hmn
    rw [if_pos rfl]
    -- The child at this name is no entry any more, or it is replaced.
    cases (child m).remove path with
    | none =>
      dsimp only
      rw [lstat_cons_dir, if_neg (by simp)]
      rfl
    | some node =>
      dsimp only
      rw [lstat_cons_dir, if_pos hmem, Function.update_self]
  · have hval : m.val ≠ n.val := fun h => hmn (Subtype.ext h)
    rw [if_neg hmn]
    cases (child n).remove path with
    | none =>
      dsimp only
      rw [lstat_cons_dir, lstat_cons_dir]
      simp only [List.mem_filter, decide_eq_true_eq, hval, ne_eq, not_false_eq_true, and_true]
    | some node =>
      dsimp only
      rw [lstat_cons_dir, lstat_cons_dir, Function.update_of_ne hmn]

/-- What is removed is gone, with all that is below it, and nothing else. -/
lemma lstat_remove (path p : List Name) (node : Node) :
    lstat p (node.remove path) = if path <+: p then none else lstat p (some node) := by
  induction path generalizing node p with
  | nil =>
    rw [Node.remove, if_pos List.nil_prefix]
    rfl
  | cons n path ih =>
    cases node with
    | file type perm =>
      rw [Node.remove]
      split_ifs with hprefix
      · obtain ⟨q, rfl⟩ := hprefix
        rfl
      · rfl
    | dir perm entries child =>
      by_cases hmem : n.val ∈ entries
      · cases p with
        | nil =>
          rw [Node.remove, if_pos hmem, if_neg fun h => List.cons_ne_nil _ _ (List.prefix_nil.1 h)]
          cases (child n).remove path with
          | none => rfl
          | some node => rfl
        | cons m p =>
          rw [lstat_remove_cons m n p path perm child hmem, ih]
          simp only [List.cons_prefix_cons]
          by_cases hmn : m = n
          · subst hmn
            simp only [if_true, true_and, lstat_cons_dir, if_pos hmem]
          · rw [if_neg hmn, if_neg fun h => hmn h.1.symm]
      · -- There is no such entry, and nothing below it.
        rw [Node.remove, if_neg hmem]
        split_ifs with hprefix
        · obtain ⟨q, rfl⟩ := hprefix
          rw [List.cons_append, lstat_cons_dir, if_neg hmem]
        · rfl

end Paths

section Calls

variable {fs : FileSystem} {path p : List Name} {node : Node}

/-! ## The system calls -/

/-- A path has been removed, with all that is below it, and nothing else. -/
def Erased (path : List Name) (fs fs' : FileSystem) : Prop :=
  ∀ p, lstat p fs' = if path <+: p then none else lstat p fs

/-- Removing a node erases its path. -/
lemma erased_remove (path : List Name) (fs : FileSystem) :
    Erased path fs (fs.bind (Node.remove path)) := by
  intro p
  cases fs with
  | none =>
    rw [Option.bind_none]
    split_ifs with hprefix
    · rfl
    · rfl
  | some root => exact lstat_remove path p root

/-- Only a node has a mode. -/
lemma exists_node {m : UInt32} (h : lstat path fs = some m) :
    ∃ node, fs.bind (Node.lookup path) = some node ∧ node.st_mode = m :=
  Option.map_eq_some_iff.1 h

/-- The path below a node is that of the node's own tree. -/
lemma lstat_append (h : fs.bind (Node.lookup path) = some node) (p : List Name) :
    lstat (path ++ p) fs = lstat p (some node) := by
  obtain ⟨root, rfl, hroot⟩ := Option.bind_eq_some_iff.1 h
  rw [lstat, lstat, Option.bind_some, Option.bind_some, lookup_append, hroot, Option.bind_some]

/-- The entries are the names that exist. -/
lemma mem_entries_iff {perm : BitVec 12} {entries : List (List Char)} {child : Name → Node}
    (h : fs.bind (Node.lookup path) = some (.dir perm entries child)) (n : Name) :
    n.val ∈ entries ↔ lstat (path ++ [n]) fs ≠ none := by
  rw [lstat_append h, lstat_cons_dir]
  split_ifs with hmem
  · exact iff_of_true hmem (Option.some_ne_none _)
  · exact iff_of_false hmem fun hne => hne rfl

/-- There is nothing below a file. -/
lemma lstat_below_file {type : FileType} {perm : BitVec 12}
    (h : fs.bind (Node.lookup path) = some (.file type perm)) (n : Name) (p : List Name) :
    lstat (path ++ n :: p) fs = none := by
  rw [lstat_append h]
  rfl

/-- A file can be unlinked. -/
lemma unlink_file {type : FileType} {perm : BitVec 12}
    (h : fs.bind (Node.lookup path) = some (.file type perm)) :
    Unlink path false fs = (true, fs.bind (Node.remove path)) := by
  have hlstat : (lstat path fs).isNone = false := by
    rw [lstat, h]
    rfl
  rw [Unlink, hlstat, Bool.and_false, if_neg Bool.false_ne_true, unlink, h]

/-- `rmdir` succeeds if nothing is left in the directory. -/
lemma rmdir_dir {perm : BitVec 12} {entries : List (List Char)} {child : Name → Node}
    (h : fs.bind (Node.lookup path) = some (.dir perm entries child)) :
    rmdir path fs = (true, fs.bind (Node.remove path)) ∧ (∀ n, lstat (path ++ [n]) fs = none) ∨
      rmdir path fs = (false, fs) := by
  rw [rmdir, h]
  dsimp only
  split_ifs with hall
  · refine Or.inl ⟨rfl, fun n => ?_⟩
    by_contra hne
    have hdots := List.all_eq_true.1 hall n.val ((mem_entries_iff h n).2 hne)
    exact n.property (of_decide_eq_true hdots)
  · exact Or.inr rfl

/-- An empty directory can be removed. -/
lemma rmdir_of_empty {perm : BitVec 12} {entries : List (List Char)} {child : Name → Node}
    (h : fs.bind (Node.lookup path) = some (.dir perm entries child))
    (hempty : ∀ n, lstat (path ++ [n]) fs = none) :
    rmdir path fs = (true, fs.bind (Node.remove path)) := by
  rw [rmdir, h]
  dsimp only
  rw [if_pos]
  refine List.all_eq_true.2 fun d_name hmem => decide_eq_true ?_
  by_contra hname
  exact (mem_entries_iff h ⟨d_name, hname⟩).1 hmem (hempty _)

/-! ## Trees without sockets and block devices -/

/-- Nothing but removals has happened. -/
def Within (fs' fs : FileSystem) : Prop := ∀ p, lstat p fs' = none ∨ lstat p fs' = lstat p fs

/-- A tree lies within itself. -/
lemma Within.refl (fs : FileSystem) : Within fs fs := fun _ => Or.inr rfl

/-- What lies within a smaller tree lies within the larger one. -/
lemma Within.trans {fs fs' fs'' : FileSystem} (h : Within fs'' fs') (h' : Within fs' fs) :
    Within fs'' fs := by
  intro p
  obtain hnone | hsame := h p
  · exact Or.inl hnone
  · rw [hsame]
    exact h' p

/-- Erasing a path adds nothing. -/
lemma Erased.within {fs' : FileSystem} (h : Erased path fs fs') : Within fs' fs := by
  intro p
  rw [h p]
  split_ifs with hprefix
  · exact Or.inl rfl
  · exact Or.inr rfl

/-- What is left of a tree is as it was. -/
lemma Within.ne_none {fs' : FileSystem} (h : Within fs' fs) (hne : lstat p fs' ≠ none) :
    lstat p fs' = lstat p fs := (h p).resolve_left hne

/-- If every entry can be removed, in whatever is left by then, the loop removes all of them. -/
lemma rmLoop_of_clean {rm : List Name → FileSystem → Option (Bool × FileSystem)}
    {fs₀ : FileSystem} (dir : List (List Char))
    (hrm : ∀ n : Name, n.val ∈ dir → ∀ fs, Within fs fs₀ →
      ∃ fs', rm (path ++ [n]) fs = some (true, fs') ∧ Erased (path ++ [n]) fs fs')
    (hfs : Within fs fs₀) :
    ∃ fs', rmLoop rm path dir true fs = some (true, fs') ∧ Within fs' fs ∧
      (∀ n : Name, n.val ∈ dir → lstat (path ++ [n]) fs' = none) ∧
      ∀ p, (∀ n : Name, ¬ path ++ [n] <+: p) → lstat p fs' = lstat p fs := by
  induction dir generalizing fs with
  | nil => exact ⟨fs, rfl, Within.refl fs, nofun, fun _ _ => rfl⟩
  | cons d_name dir ih =>
    have hlater : ∀ n : Name, n.val ∈ dir → ∀ fs, Within fs fs₀ →
        ∃ fs', rm (path ++ [n]) fs = some (true, fs') ∧ Erased (path ++ [n]) fs fs' :=
      fun n hn => hrm n (List.mem_cons_of_mem _ hn)
    rw [rmLoop]
    split_ifs with hdots
    · -- `.` and `..` are passed over
      obtain ⟨fs', hloop, hwithin, hgone, hsame⟩ := ih hlater hfs
      refine ⟨fs', hloop, hwithin, fun n hn => ?_, hsame⟩
      obtain hn | hn := List.mem_cons.1 hn
      · exact absurd (hn ▸ hdots) n.property
      · exact hgone n hn
    · obtain ⟨fs₁, hfirst, herased⟩ := hrm ⟨d_name, hdots⟩ (List.mem_cons_self ..) fs hfs
      obtain ⟨fs', hloop, hwithin, hgone, hsame⟩ := ih hlater (herased.within.trans hfs)
      rw [hfirst]
      refine ⟨fs', hloop, hwithin.trans herased.within, fun n hn => ?_, fun p hp => ?_⟩
      · obtain hn | hn := List.mem_cons.1 hn
        · -- what the first call has removed is not there after the others
          have hfirst_gone : lstat (path ++ [n]) fs₁ = none := by
            obtain rfl : n = ⟨d_name, hdots⟩ := Subtype.ext hn
            rw [herased, if_pos (List.prefix_refl _)]
          obtain hnone | heq := hwithin (path ++ [n])
          · exact hnone
          · exact heq.trans hfirst_gone
        · exact hgone n hn
      · rw [hsame p hp, herased p, if_neg (hp _)]

/-- A directory whose entries `Rm` removes. -/
lemma rm_dir {fuel : ℕ} {perm : BitVec 12} {entries : List (List Char)} {child : Name → Node}
    (hnode : fs.bind (Node.lookup path) = some (.dir perm entries child))
    (hrm : ∀ n : Name, n.val ∈ entries → ∀ fs₁, Within fs₁ fs →
      ∃ fs', Rm fuel (path ++ [n]) fs₁ = some (true, fs') ∧ Erased (path ++ [n]) fs₁ fs') :
    ∃ fs', Rm (fuel + 1) path fs = some (true, fs') ∧ Erased path fs fs' := by
  have hmode : lstat path fs = some (Node.dir perm entries child).st_mode := by
    rw [lstat, hnode]
    rfl
  have hopen : opendir path fs = some entries := by rw [opendir, hnode]
  obtain ⟨fs₁, hloop, hwithin, hgone, hsame⟩ := rmLoop_of_clean entries hrm (Within.refl fs)
  have hpath : ∀ n : Name, ¬ path ++ [n] <+: path := fun n h => by
    have := h.length_le
    rw [List.length_append, List.length_singleton] at this
    omega
  -- The directory is still there, and none of its entries.
  obtain ⟨node, hnode₁, hmode₁⟩ := exists_node ((hsame path hpath).trans hmode)
  have hempty : ∀ n, lstat (path ++ [n]) fs₁ = none := by
    intro n
    by_cases hn : n.val ∈ entries
    · exact hgone n hn
    · by_contra hne
      exact hn ((mem_entries_iff hnode n).2 (hwithin.ne_none hne ▸ hne))
  have hrmdir : rmdir path fs₁ = (true, fs₁.bind (Node.remove path)) := by
    cases node with
    | dir perm₁ entries₁ child₁ => exact rmdir_of_empty hnode₁ hempty
    | file type perm₁ =>
      have htest := test_dir perm entries child
      rw [← hmode₁, test_file, hmode₁] at htest
      exact absurd htest (not_stuck_dir perm entries child)
  refine ⟨fs₁.bind (Node.remove path), ?_, fun p => ?_⟩
  · rw [Rm, hmode]
    dsimp only
    rw [if_neg (test_dir perm entries child), hopen]
    dsimp only
    rw [hloop, Option.bind_eq_bind, Option.bind_some]
    dsimp only
    rw [hrmdir]
    rfl
  · rw [erased_remove path fs₁ p]
    split_ifs with hprefix
    · rfl
    · exact hsame p fun n h => hprefix ((List.prefix_append path [n]).trans h)

/-- One call of `Rm`, if it removes every entry. -/
lemma rm_step {fuel : ℕ} (hclean : ∀ m, lstat path fs = some m → ¬ Stuck m)
    (hrm : ∀ n : Name, lstat (path ++ [n]) fs ≠ none → ∀ fs₁, Within fs₁ fs →
      ∃ fs', Rm fuel (path ++ [n]) fs₁ = some (true, fs') ∧ Erased (path ++ [n]) fs₁ fs') :
    ∃ fs', Rm (fuel + 1) path fs = some (true, fs') ∧ Erased path fs fs' := by
  cases hmode : lstat path fs with
  | none =>
    refine ⟨fs, by rw [Rm, hmode], fun p => ?_⟩
    split_ifs with hprefix
    · obtain ⟨q, rfl⟩ := hprefix
      exact lstat_append_of_none hmode q
    · rfl
  | some m =>
    obtain ⟨node, hnode, rfl⟩ := exists_node hmode
    cases node with
    | file type perm =>
      have htest : (Node.file type perm).st_mode &&& S_IFDIR = 0 := by
        by_contra h
        exact hclean _ hmode ((test_file type perm).1 h)
      rw [Rm, hmode]
      dsimp only
      rw [if_pos htest, unlink_file hnode]
      exact ⟨_, rfl, erased_remove path fs⟩
    | dir perm entries child =>
      exact rm_dir hnode fun n hn => hrm n ((mem_entries_iff hnode n).1 hn)

/-- `Rm` removes a tree of bounded depth without sockets and block devices. -/
lemma rm_of_clean (fuel : ℕ) (hclean : ∀ p m, lstat (path ++ p) fs = some m → ¬ Stuck m)
    (hdepth : ∀ p, lstat (path ++ p) fs ≠ none → p.length ≤ fuel) :
    ∃ fs', Rm (fuel + 1) path fs = some (true, fs') ∧ Erased path fs fs' := by
  induction fuel generalizing path fs with
  | zero =>
    -- an entry would be deeper
    refine rm_step (fun m hm => hclean [] m (by rwa [List.append_nil])) fun n hn => ?_
    exact absurd (hdepth [n] hn) (Nat.not_succ_le_zero 0)
  | succ fuel ih =>
    refine rm_step (fun m hm => hclean [] m (by rwa [List.append_nil])) fun n hn fs₁ hfs₁ => ?_
    -- What was so in the whole tree is so below the entry, in whatever is left of it.
    refine ih (fun p m hm => ?_) fun p hp => ?_
    · have hne : lstat (path ++ [n] ++ p) fs₁ ≠ none := hm ▸ Option.some_ne_none m
      rw [hfs₁.ne_none hne, List.append_assoc] at hm
      exact hclean _ m hm
    · rw [hfs₁.ne_none hp, List.append_assoc] at hp
      exact Nat.le_of_succ_le_succ (hdepth (n :: p) hp)

/-! ## Sockets and block devices -/

/-- Every socket and block device is still there. -/
def Keeps (fs fs' : FileSystem) : Prop :=
  ∀ p m, Stuck m → lstat p fs = some m → lstat p fs' = some m

/-- Doing nothing keeps the paths that `Rm` cannot remove. -/
lemma Keeps.refl (fs : FileSystem) : Keeps fs fs := fun _ _ _ h => h

/-- So do two steps that keep them. -/
lemma Keeps.trans {fs fs' fs'' : FileSystem} (h : Keeps fs fs') (h' : Keeps fs' fs'') :
    Keeps fs fs'' := fun p m hm hp => h' p m hm (h p m hm hp)

/-- A node that is no socket or block device, with nothing below it, may go. -/
lemma keeps_remove (hnode : fs.bind (Node.lookup path) = some node) (hmode : ¬ Stuck node.st_mode)
    (hbelow : ∀ n, lstat (path ++ [n]) fs = none) : Keeps fs (fs.bind (Node.remove path)) := by
  intro p m hm hp
  rw [erased_remove path fs p, if_neg, hp]
  rintro ⟨q, rfl⟩
  -- neither this node nor one below it is a socket or a block device
  cases q with
  | nil =>
    rw [lstat_append hnode] at hp
    obtain rfl : node.st_mode = m := Option.some.inj hp
    exact hmode hm
  | cons n q =>
    have hnone := lstat_append_of_none (hbelow n) q
    rw [List.append_assoc, List.singleton_append, hp] at hnone
    exact Option.some_ne_none m hnone

/-- `rmdir` keeps them, since it removes only directories. -/
lemma rmdir_keeps (path : List Name) (fs : FileSystem) : Keeps fs (rmdir path fs).2 := by
  cases hnode : fs.bind (Node.lookup path) with
  | none =>
    rw [rmdir, hnode]
    exact Keeps.refl fs
  | some node =>
    cases node with
    | file type perm =>
      rw [rmdir, hnode]
      exact Keeps.refl fs
    | dir perm entries child =>
      obtain ⟨hremoved, hempty⟩ | hfailed := rmdir_dir hnode
      · rw [hremoved]
        exact keeps_remove hnode (not_stuck_dir perm entries child) hempty
      · rw [hfailed]
        exact Keeps.refl fs

/-- The loop keeps them if the calls in it do. -/
lemma rmLoop_keeps {rm : List Name → FileSystem → Option (Bool × FileSystem)}
    (hrm : ∀ p fs b fs', rm p fs = some (b, fs') → Keeps fs fs') (dir : List (List Char))
    {ret ret' : Bool} {fs' : FileSystem} (h : rmLoop rm path dir ret fs = some (ret', fs')) :
    Keeps fs fs' := by
  induction dir generalizing ret fs with
  | nil =>
    cases h
    exact Keeps.refl _
  | cons d_name dir ih =>
    rw [rmLoop] at h
    split_ifs at h with hdots
    · exact ih h
    · obtain ⟨⟨ret₁, fs₁⟩, hfirst, hrest⟩ := Option.bind_eq_some_iff.1 h
      exact (hrm _ _ _ _ hfirst).trans (ih hrest)

/-- No socket and no block device is ever removed. -/
lemma rm_keeps (fuel : ℕ) (path : List Name) (fs : FileSystem) (b : Bool) (fs' : FileSystem)
    (h : Rm fuel path fs = some (b, fs')) : Keeps fs fs' := by
  induction fuel generalizing path fs b fs' with
  | zero => cases h
  | succ fuel ih =>
    rw [Rm] at h
    cases hmode : lstat path fs with
    | none =>
      rw [hmode] at h
      cases h
      exact Keeps.refl _
    | some m =>
      obtain ⟨node, hnode, rfl⟩ := exists_node hmode
      rw [hmode] at h
      dsimp only at h
      split_ifs at h with htest
      · cases node with
        | dir perm entries child => exact absurd htest (test_dir perm entries child)
        | file type perm =>
          rw [unlink_file hnode] at h
          cases h
          refine keeps_remove hnode (fun hstuck => ?_) fun n => lstat_below_file hnode n []
          exact (test_file type perm).2 hstuck htest
      · cases node with
        | file type perm =>
          -- the file that passes the test cannot be opened as a directory
          rw [opendir, hnode] at h
          cases h
          exact Keeps.refl _
        | dir perm entries child =>
          rw [opendir, hnode] at h
          obtain ⟨⟨ret, fs₁⟩, hloop, hrmdir⟩ := Option.bind_eq_some_iff.1 h
          cases hrmdir
          exact (rmLoop_keeps ih entries hloop).trans (rmdir_keeps path fs₁)

/-! ## Every tree -/

/-- A directory has finitely many entries. -/
lemma exists_bound (entries : List (List Char)) (depth : Name → ℕ) :
    ∃ b, ∀ n : Name, n.val ∈ entries → depth n ≤ b := by
  induction entries with
  | nil => exact ⟨0, nofun⟩
  | cons d_name entries ih =>
    obtain ⟨b, hb⟩ := ih
    by_cases hdots : d_name = ['.'] ∨ d_name = ['.', '.']
    · refine ⟨b, fun n hn => ?_⟩
      obtain hn | hn := List.mem_cons.1 hn
      · exact absurd (hn ▸ hdots) n.property
      · exact hb n hn
    · refine ⟨max (depth ⟨d_name, hdots⟩) b, fun n hn => ?_⟩
      obtain hn | hn := List.mem_cons.1 hn
      · obtain rfl : n = ⟨d_name, hdots⟩ := Subtype.ext hn
        exact Nat.le_max_left _ _
      · exact Nat.le_trans (hb n hn) (Nat.le_max_right _ _)

/-- The paths in a tree are of bounded length. -/
lemma exists_depth (fs : FileSystem) : ∃ depth, ∀ p, lstat p fs ≠ none → p.length ≤ depth := by
  cases fs with
  | none => exact ⟨0, fun p hp => absurd rfl hp⟩
  | some root =>
    induction root with
    | file type perm =>
      refine ⟨0, fun p hp => ?_⟩
      cases p with
      | nil => exact Nat.le_refl 0
      | cons n p => exact absurd rfl hp
    | dir perm entries child ih =>
      choose depth hdepth using ih
      obtain ⟨b, hb⟩ := exists_bound entries depth
      refine ⟨b + 1, fun p hp => ?_⟩
      cases p with
      | nil => exact Nat.zero_le _
      | cons n p =>
        rw [lstat_cons_dir] at hp
        split_ifs at hp with hmem
        · exact Nat.succ_le_succ (Nat.le_trans (hdepth n p hp) (hb n hmem))
        · exact absurd rfl hp

/-- `Rm` ends, returns true, and has removed the path, all that is below it, and nothing else. -/
def RmLaw (path : List Name) (fs : FileSystem) : Prop :=
  ∃ bound, ∀ fuel ≥ bound, ∃ fs', Rm fuel path fs = some (true, fs') ∧
    (∀ p, path <+: p → lstat p fs' = none) ∧ ∀ p, ¬ path <+: p → lstat p fs' = lstat p fs

end Calls

/-- `Rm` removes a tree if and only if there are no sockets and no block devices in it. -/
theorem rmLaw_iff (path : List Name) (fs : FileSystem) :
    RmLaw path fs ↔ ∀ p type perm, path <+: p →
      fs.bind (Node.lookup p) = some (.file type perm) → type ≠ .socket ∧ type ≠ .blockDevice := by
  constructor
  · rintro ⟨bound, hrm⟩ p type perm hprefix hnode
    obtain ⟨fs', hrm, hgone, -⟩ := hrm bound (Nat.le_refl bound)
    by_contra htype
    have hstuck : Stuck (Node.file type perm).st_mode := by
      rw [stuck_file]
      by_cases hsocket : type = .socket
      · exact Or.inl hsocket
      · exact Or.inr (Decidable.byContradiction fun hblock => htype ⟨hsocket, hblock⟩)
    have hmode : lstat p fs = some (Node.file type perm).st_mode := by
      rw [lstat, hnode]
      rfl
    -- what `Rm` takes for neither a file nor a directory is still there behind the call
    have hkept := rm_keeps bound path fs true fs' hrm p _ hstuck hmode
    rw [hgone p hprefix] at hkept
    exact Option.some_ne_none _ hkept.symm
  · intro htypes
    obtain ⟨depth, hdepth⟩ := exists_depth fs
    refine ⟨depth + 1, fun fuel hfuel => ?_⟩
    have hclean : ∀ p m, lstat (path ++ p) fs = some m → ¬ Stuck m := by
      intro p m hmode
      obtain ⟨node, hnode, rfl⟩ := exists_node hmode
      cases node with
      | dir perm entries child => exact not_stuck_dir perm entries child
      | file type perm =>
        obtain ⟨hsocket, hblock⟩ := htypes _ type perm (List.prefix_append path p) hnode
        rw [stuck_file]
        exact not_or_intro hsocket hblock
    cases fuel with
    | zero => exact absurd hfuel (Nat.not_succ_le_zero depth)
    | succ fuel =>
      -- the calls are nested as deep as the tree, and no deeper
      have hbound : ∀ p, lstat (path ++ p) fs ≠ none → p.length ≤ fuel := by
        intro p hp
        have := hdepth _ hp
        rw [List.length_append] at this
        omega
      obtain ⟨fs', hrm, herased⟩ := rm_of_clean fuel hclean hbound
      refine ⟨fs', hrm, fun p hp => ?_, fun p hp => ?_⟩
      · rw [herased p, if_pos hp]
      · rw [herased p, if_neg hp]

/-- A directory with a socket in it is not removed. -/
theorem not_rmLaw_socket :
    ¬ RmLaw [] (some (.dir 0o755 [['.'], ['.', '.'], ['s']] fun _ => .file .socket 0o755)) := by
  rintro ⟨bound, hrm⟩
  obtain ⟨fs', hrm, -⟩ := hrm (bound + 2) (Nat.le_add_right bound 2)
  cases hrm

end Sylar.FSUtil
