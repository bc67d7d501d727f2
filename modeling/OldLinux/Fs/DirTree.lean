import OldLinux.Fs.LinkCounts
import OldLinux.Lib.Rooted

/-!
# The tree of directories

What is left of `fs/namei.c` when only the directories in use and their entries are looked at: each call that
succeeds is one of the operations on a `Hierarchy` (`LinkStep.changes`). `sys_link` enters regular files only,
`sys_unlink` takes out regular files only, `sys_mkdir` enters a new directory and `sys_rmdir` takes out an empty
one, so that the directories stay a tree below the root (`directories_form_tree`): no directory is cut off, and
the way up through `..` always ends at the root.
-/

namespace OldLinux.Fs
open Lib Function FileSystem
open Files (isReg isDir)

variable {s s' : FileSystem} {dir x r : BitVec 16} {k : Nat} {name : Name}

namespace FileSystem

/-! ## What the calls do to the hierarchy -/

/-- A reference is no entry. -/
lemma hierarchy_hold : (s.hold x).hierarchy = s.hierarchy := rfl

/-- A reference that is given back is no entry. -/
lemma hierarchy_release {n : Nat} : ({ s with held := update s.held x n } : FileSystem).hierarchy = s.hierarchy :=
  rfl

section calls
variable (h : s.Consistent) (hl : s.Live dir) (hk : k ≤ (s.inodes dir).dir.entries)
  (hf : ¬ (s.inodes dir).dir.Live k)
include h hl hk hf

/-- `open` enters a new file. -/
lemma Consistent.hierarchy_opened {mode : BitVec 16} (hm : s.imap x = false) (hreg : isReg mode = true) :
    (s.opened dir k name x mode).hierarchy = s.hierarchy.add dir k x := by
  rw [FileSystem.opened, hierarchy_hold, hierarchy_iput, h.hierarchy_enteredFile hl hk hf hm hreg]

/-- `sys_link` enters a file. -/
lemma Consistent.hierarchy_link_call (hx0 : x ≠ 0) (hreg : isReg (s.inodes x).iMode = true) :
    (s.linked dir k name x).hierarchy = s.hierarchy.add dir k x := by
  have hput : ((s.link dir k name x).inodes dir).iNlinks ≠ 0 := by
    rw [link, iNlinks_setDir]
    exact hl.iNlinks
  rw [FileSystem.linked, iput_of_iNlinks hput, hierarchy_iput, h.hierarchy_linked hl hk hf hx0 hreg]

/-- `sys_mkdir` enters a new directory. -/
lemma Consistent.hierarchy_madeDir {mode zone : BitVec 16} (hm : s.imap x = false) (hmode : isDir mode = true)
    (hfit : (s.inodes dir).iNlinks ≠ 255) :
    (s.madeDir dir k name x mode zone).hierarchy = s.hierarchy.addDir dir k x := by
  have hn : (((s.newInode x ⟨mode, 2, .newDir zone x dir⟩).link dir k name x).inodes dir).iNlinks =
      (s.inodes dir).iNlinks := by
    rw [link, iNlinks_setDir, iNlinks_newInode, if_neg ((h.fresh hm).2 dir hl)]
  rw [FileSystem.madeDir, hn, hierarchy_iput, hierarchy_iput, h.hierarchy_enteredDir hl hk hf hm hmode hfit]

end calls

/-- `sys_unlink` takes a file out. -/
lemma Consistent.hierarchy_unlinked (h : s.Consistent) (he : s.hierarchy.entry dir k x)
    (hreg : isReg (s.inodes x).iMode = true) : (s.unlinked dir k x).hierarchy = s.hierarchy.remove dir k := by
  obtain ⟨_, _, hlinks⟩ := h.entry he
  have hreg1 : isReg ((s.unlink dir k).inodes x).iMode = true := by
    rwa [unlink, iMode_setDir]
  rw [FileSystem.unlinked, if_neg hlinks, hierarchy_iput, hierarchy_iput, hierarchy_setNlinks_isReg hreg1,
    hierarchy_unlink]

/-- `sys_rmdir` takes an empty directory out. -/
lemma Consistent.hierarchy_removedDir (h : s.Consistent) (hem : Hierarchy.WellFormed.Empty s.hierarchy dir k x) :
    (s.removedDir dir k x).hierarchy = s.hierarchy.removeDir dir k x := by
  have hn : (((s.unlink dir k).setNlinks x 0).inodes dir).iNlinks = (s.inodes dir).iNlinks := by
    rw [iNlinks_setNlinks, if_neg hem.ne.symm, unlink, iNlinks_setDir]
  rw [FileSystem.removedDir, hn, hierarchy_iput, hierarchy_iput, h.hierarchy_takenDir hem]

/-- Truncating a regular file leaves the directories. -/
lemma hierarchy_truncated {trunc : Bool} : (s.truncated x trunc).hierarchy = s.hierarchy := by
  rw [truncated]
  split
  · next ht =>
    refine hierarchy_congr (fun _ => live_setDir) fun d hd => ?_
    rw [dir_setDir, if_neg]
    rintro rfl
    exact not_live_of_isReg ht.2 hd
  · rfl

/-- A call that succeeds is one operation on the hierarchy. -/
lemma Consistent.changes {e : LinkEvent} (h : s.Consistent) (st : LinkStep s e s') (hc : CountFits s e) :
    s.hierarchy.Changes s'.hierarchy := by
  cases st with
  | create hd ha hm hreg =>
    obtain ⟨hk, hf⟩ := h.adds hd ha
    rw [h.hierarchy_opened (h.reached hd) hk hf hm hreg]
    exact .add fun hx => (h.fresh hm).2 _ hx rfl
  | old hd hf =>
    rw [hierarchy_hold, hierarchy_truncated]
    exact .same
  | mkdir hd ha hm hmode _ =>
    obtain ⟨hk, hf⟩ := h.adds hd ha
    have hl := h.reached hd
    rw [h.hierarchy_madeDir hl hk hf hm hmode hc]
    exact .addDir hl (h.slot_two_le hl hf) fun hx => (h.fresh hm).2 _ hx rfl
  | link hod hof hreg hd ha =>
    obtain ⟨hx0, _, _⟩ := h.entry (h.finds hod hof)
    obtain ⟨hk, hf⟩ := h.adds hd ha
    rw [h.hierarchy_link_call (h.reached hd) hk hf hx0 hreg]
    exact .add (not_live_of_isReg hreg)
  | unlink hd hf hreg =>
    have he := h.finds hd hf
    rw [h.hierarchy_unlinked he hreg]
    exact .remove he (not_live_of_isReg hreg)
  | @rmdir dir k reads hd hf hne hmode hempty =>
    have he := h.finds hd hf
    obtain ⟨hx0, hm, hlinks⟩ := h.entry he
    have hlx : s.Live (s.inodeAt dir k) := by
      refine ⟨hx0, hm, ?_⟩
      rw [usable, hmode, Bool.true_and, bne_iff_ne]
      exact hlinks
    have hem : Hierarchy.WellFormed.Empty s.hierarchy dir k (s.inodeAt dir k) :=
      ⟨he, hlx, hne, fun hin => Dir.emptyDir_true hempty hin.2.1⟩
    rw [h.hierarchy_removedDir hem]
    exact .removeDir hem
  | release hheld =>
    rw [hierarchy_iput, hierarchy_release]
    exact .same

/-- The directories in use form a tree with the root `r`: from each of them the way up through `..` ends at `r`
    and does not come back before, and each but `r` has one entry that is neither `.` nor `..`. -/
structure TreeBelow (s : FileSystem) (r : BitVec 16) : Prop where
  tree : s.hierarchy.IsTree r
  climbs : ∀ d, s.Live d → ∃ n, s.hierarchy.Climbs n d r
  acyclic : ∀ d n, s.Live d → d ≠ r → 0 < n → ¬ s.hierarchy.Climbs n d d
  place : ∀ d, s.Live d → d ≠ r → ∃ p k, 2 ≤ k ∧ s.hierarchy.entry p k d ∧
    ∀ p' k', 2 ≤ k' → s.hierarchy.entry p' k' d → p' = p ∧ k' = k

/-- In a consistent tree every directory is below the root. -/
lemma Consistent.treeBelow (h : s.Consistent) (ht : s.hierarchy.IsTree r) : s.TreeBelow r where
  tree := ht
  climbs _ := ht.climbs h.tree
  acyclic _ _ := ht.acyclic h.tree
  place _ := ht.place h.tree

end FileSystem

/-- In every sequence of calls that succeed, from a consistent file system whose directories form a tree, in which
    no count of 255 is incremented, the directories in use form a tree all the time. -/
theorem directories_form_tree {tr : List (LinkEvent × FileSystem)} (h0 : linkSystem.init s)
    (ht : s.hierarchy.IsTree r) (ex : linkSystem.Exec s tr) (hc : Along (fun s e _ => CountFits s e) s tr) :
    Always (fun s => s.TreeBelow r) s tr := by
  have hinv : Always (fun s => s.Consistent ∧ s.hierarchy.IsTree r) s tr ∧ Along (fun _ _ _ => True) s tr := by
    refine ex.along_of_inv ?_ ⟨h0, ht⟩ hc
    rintro s e s' ⟨h, ht⟩ st hc
    exact ⟨⟨h.step st hc, ht.changes h.tree (h.changes st hc)⟩, trivial⟩
  exact hinv.1.mono fun _ h => h.1.treeBelow h.2

/-- The sample is a tree. -/
lemma oneFile_isTree {n : Nat} : (oneFile n).hierarchy.IsTree 1 where
  live := oneFile_live.2 rfl
  top := oneFile_entry.2 ⟨rfl, .inl ⟨by decide, rfl⟩⟩
  outside := by
    rintro d k hk he
    obtain ⟨_, ⟨hlt, _⟩ | ⟨_, _, e⟩⟩ := oneFile_entry.1 he
    · omega
    · cases e
  under := by
    intro d hd
    obtain rfl := oneFile_live.1 hd
    exact .root hd

/-- A directory is made beside the file. -/
theorem directories_form_tree_made : ∃ tr, tr.length = 1 ∧ linkSystem.Exec (oneFile 1) tr ∧
    Always (fun s => s.TreeBelow 1) (oneFile 1) tr := by
  have ha : (oneFile 1).Adds 1 newName 3 := ⟨fun _ => .ok, fun _ => .ok, by decide, by decide⟩
  have ex : linkSystem.Exec (oneFile 1) [_] :=
    .cons (@LinkStep.mkdir (oneFile 1) 1 3 newName 3 0o040755 9 oneFile_reached ha rfl rfl (by decide)) .nil
  refine ⟨_, rfl, ex, directories_form_tree (oneFile_consistent (by decide)) oneFile_isTree ex ⟨?_, trivial⟩⟩
  show (2 : BitVec 8) ≠ 255
  decide

end OldLinux.Fs
