import OldLinux.Fs.NameCalls
import OldLinux.Lib.Hierarchy
import OldLinux.Lib.System
import Mathlib.Order.Interval.Finset.Nat

/-!
# Link counts

`i_nlinks` has 8 bits, and neither `sys_link` nor `sys_mkdir` looks at it before it is counted up. As
long as it does not wrap, `i_nlinks` is the number of entries that carry the inode's number
(`link_counts`).

The directories in use and their live entries form a `Hierarchy`; each call is one of its operations,
and the counts follow the number of references. That the hierarchy is well-formed is what makes the
count of a directory come to 0 when it is removed.
-/

namespace OldLinux.Fs
open Lib Function FileSystem
open Files (isReg isDir)

/-! ## What the counts should be -/

namespace FileSystem

/-- A directory in use. -/
def Live (s : FileSystem) (d : BitVec 16) : Prop := d ≠ 0 ∧ s.imap d = true ∧ s.usable d = true

/-- The directories in use and their live entries. -/
def hierarchy (s : FileSystem) : Hierarchy (BitVec 16) where
  live := s.Live
  entry d k x := s.Live d ∧ (s.inodes d).dir.Live k ∧ s.inodeAt d k = x

/-- `i_nlinks` of every allocated inode is the number of live entries of directories in use that
    carry its number, and no entry carries the number of an inode that is not allocated. -/
def LinksExact (s : FileSystem) : Prop :=
  ∀ x, x ≠ 0 → s.hierarchy.refs x = if s.imap x then (s.inodes x).iNlinks.toNat else 0

/-- A consistent file system. Inode 0 does not exist, and its bit is set. -/
structure Consistent (s : FileSystem) : Prop where
  tree : s.hierarchy.WellFormed
  links : s.LinksExact
  aligned : ∀ d, s.Live d → (s.inodes d).dir.Aligned
  reserved : s.imap 0 = true
  held : ∀ x, 0 < s.held x → x ≠ 0 ∧ s.imap x = true

end FileSystem

/-- Sequences of calls from a consistent file system. -/
def linkSystem : System FileSystem LinkEvent where
  init := FileSystem.Consistent
  step := LinkStep

/-- The count that a call increments is not 255. -/
def CountFits (s : FileSystem) : LinkEvent → Prop
  | .mkdir dir => (s.inodes dir).iNlinks ≠ 255
  | .link oldinode => (s.inodes oldinode).iNlinks ≠ 255
  | _ => True

variable {s s' : FileSystem} {dir x y d : BitVec 16} {k : Nat} {name : Name}

/-! ## The hierarchy of a state -/

namespace FileSystem

/-- States with the same directories in use, and the same entries in them, have the same hierarchy. -/
lemma hierarchy_congr (hl : ∀ d, s'.Live d ↔ s.Live d)
    (hd : ∀ d, s.Live d → (s'.inodes d).dir = (s.inodes d).dir) : s'.hierarchy = s.hierarchy := by
  refine Hierarchy.eq_of_iff hl ?_
  intro d k x
  show s'.Live d ∧ _ ∧ ((s'.inodes d).dir.slot k).inode = x ↔
    s.Live d ∧ _ ∧ ((s.inodes d).dir.slot k).inode = x
  rw [hl d]
  refine and_congr_right ?_
  intro h
  rw [hd d h]

/-- The hierarchy has the directories in use. -/
lemma live_of_hierarchy (h : s'.hierarchy = s.hierarchy) : s'.Live d ↔ s.Live d :=
  iff_of_eq (congrFun (congrArg Hierarchy.live h) d)

/-- Whether a directory is in use depends on its inode and its bit. -/
lemma live_congr (hm : s'.imap d = s.imap d) (hi : (s'.inodes d).iMode = (s.inodes d).iMode)
    (hn : (s'.inodes d).iNlinks = (s.inodes d).iNlinks) : s'.Live d ↔ s.Live d := by
  rw [Live, Live, usable, usable, hm, hi, hn]

/-- `iput` changes no directory. -/
lemma hierarchy_iput : (s.iput x).hierarchy = s.hierarchy := by
  rw [iput]
  split
  · next h =>
    have hx : ¬ s.Live x := by
      rintro ⟨_, _, hu⟩
      rw [usable, h.2] at hu
      simp at hu
    apply hierarchy_congr
    · intro d
      by_cases hd : d = x
      · subst hd
        refine iff_of_false ?_ hx
        rintro ⟨_, hm, _⟩
        simp at hm
      · refine live_congr ?_ ?_ ?_ <;> simp [hd]
    · intro d hl
      have hd : d ≠ x := fun e => hx (e ▸ hl)
      simp [hd]
  · rfl

/-- No entry carries the number of a free inode. -/
lemma Consistent.refs_eq_zero (h : s.Consistent) (hx : s.imap x = false) (d : BitVec 16) (k : Nat) :
    ¬ s.hierarchy.entry d k x := by
  by_cases hx0 : x = 0
  · subst hx0
    rw [h.reserved] at hx
    cases hx
  · have hr := h.links x hx0
    rw [if_neg (by rw [hx]; decide)] at hr
    exact h.tree.refs_eq_zero.1 hr d k

/-- What an entry refers to is allocated and has links. -/
lemma Consistent.entry (h : s.Consistent) (he : s.hierarchy.entry d k x) :
    x ≠ 0 ∧ s.imap x = true ∧ (s.inodes x).iNlinks ≠ 0 := by
  have hx0 : x ≠ 0 := by
    rintro rfl
    exact he.2.1.2 he.2.2
  have hpos := h.tree.refs_pos he
  rw [h.links x hx0] at hpos
  split at hpos
  · next hm =>
    refine ⟨hx0, hm, ?_⟩
    intro hn
    rw [hn] at hpos
    exact absurd hpos (lt_irrefl 0)
  · exact absurd hpos (lt_irrefl 0)

/-- `iput` of an inode keeps a file system consistent. -/
lemma Consistent.iput (h : s.Consistent) (hx : x ≠ 0) : (s.iput x).Consistent := by
  by_cases hf : s.held x = 0 ∧ (s.inodes x).iNlinks = 0
  · have hh := hierarchy_iput (s := s) (x := x)
    have hnot : ∀ {d}, s.Live d → d ≠ x := by
      rintro d hl rfl
      have hu := hl.2.2
      rw [usable, hf.2] at hu
      simp at hu
    rw [FileSystem.iput, if_pos hf] at hh ⊢
    refine ⟨hh ▸ h.tree, ?_, ?_, ?_, ?_⟩
    · intro y hy
      rw [hh, h.links y hy]
      by_cases hyx : y = x
      · subst hyx
        simp [hf.2]
      · simp [hyx]
    · intro d hl
      have hl' : s.Live d := (live_of_hierarchy hh).1 hl
      have ha := h.aligned d hl'
      simpa [hnot hl'] using ha
    · show update s.imap x false 0 = true
      rw [update_of_ne hx.symm]
      exact h.reserved
    · intro y hy
      have hyx : y ≠ x := by
        rintro rfl
        exact absurd hf.1 (Nat.pos_iff_ne_zero.1 hy)
      simpa [hyx] using h.held y hy
  · rw [FileSystem.iput, if_neg hf]
    exact h

/-- A reference is kept. -/
lemma Consistent.hold (h : s.Consistent) (hx : x ≠ 0) (hm : s.imap x = true) :
    (s.hold x).Consistent := by
  refine ⟨h.tree, h.links, h.aligned, h.reserved, ?_⟩
  intro y hy
  by_cases hyx : y = x
  · subst hyx
    exact ⟨hx, hm⟩
  · have hheld : (s.hold x).held y = s.held y := update_of_ne hyx _ _
    rw [hheld] at hy
    exact h.held y hy

/-- References are given back. -/
lemma Consistent.release (h : s.Consistent) {n : Nat} (hn : n ≤ s.held x) :
    ({ s with held := update s.held x n } : FileSystem).Consistent := by
  refine ⟨h.tree, h.links, h.aligned, h.reserved, ?_⟩
  intro y hy
  apply h.held y
  by_cases hyx : y = x
  · subst hyx
    change 0 < update s.held y n y at hy
    rw [update_self] at hy
    omega
  · have hheld : update s.held x n y = s.held y := update_of_ne hyx _ _
    exact hheld ▸ hy

/-! ## Path names -/

/-- `get_dir` ends in a directory in use. -/
lemma Consistent.getDir_live (h : s.Consistent) {reads : BitVec 16 → Nat → BlockRead} {path : List Name}
    (hx : x ≠ 0) (hm : s.imap x = true) (hg : s.getDir reads path x = some dir) : s.Live dir := by
  induction path generalizing x with
  | nil =>
    rw [getDir] at hg
    split at hg
    · next hu =>
      cases hg
      exact ⟨hx, hm, hu⟩
    · cases hg
  | cons name path ih =>
    rw [getDir] at hg
    split at hg
    · next hu =>
      split at hg
      · next hf =>
        -- the entry leads to an inode that is in use
        have he : s.hierarchy.entry x _ _ := ⟨⟨hx, hm, hu⟩, Dir.findEntry_found hf, rfl⟩
        obtain ⟨h0, hm', _⟩ := h.entry he
        exact ih h0 hm' hg
      · cases hg
    · cases hg

/-- So a directory that is reached is in use. -/
lemma Consistent.reached (h : s.Consistent) (hr : s.Reached dir) : s.Live dir := by
  obtain ⟨reads, path, start, hs, hg⟩ := hr
  obtain ⟨h0, hm⟩ := h.held start hs
  exact h.getDir_live h0 hm hg

/-- What `find_entry` finds in a directory. -/
lemma Consistent.finds (h : s.Consistent) (hr : s.Reached dir) (hf : s.Finds dir k) :
    s.hierarchy.entry dir k (s.inodeAt dir k) := by
  obtain ⟨reads, name, hf⟩ := hf
  exact ⟨h.reached hr, Dir.findEntry_found hf, rfl⟩

/-- Where `add_entry` puts an entry. -/
lemma Consistent.adds (h : s.Consistent) (hr : s.Reached dir) (ha : s.Adds dir name k) :
    k ≤ (s.inodes dir).dir.entries ∧ ¬ (s.inodes dir).dir.Live k := by
  obtain ⟨_, reads, _, ha⟩ := ha
  exact Dir.addEntry_some (h.aligned dir (h.reached hr)) ha

/-- A regular inode is no directory in use. -/
lemma not_live_of_isReg (h : isReg (s.inodes x).iMode = true) : ¬ s.Live x := by
  rintro ⟨_, _, hu⟩
  rw [usable, Bool.and_eq_true_iff, isDir, beq_iff_eq] at hu
  rw [isReg, beq_iff_eq, hu.1] at h
  cases h

/-! ## What the calls do to the hierarchy -/

/-- The directories in use do not depend on their entries. -/
@[simp] lemma live_setDir {d' : Dir} : (s.setDir dir d').Live d ↔ s.Live d := by
  by_cases hd : d = dir
  · subst hd
    refine live_congr rfl ?_ ?_ <;> simp [setDir]
  · refine live_congr rfl ?_ ?_ <;> simp [setDir, hd]

/-- The entries that are set. -/
lemma dir_setDir {d' : Dir} :
    ((s.setDir dir d').inodes d).dir = if d = dir then d' else (s.inodes d).dir := by
  by_cases hd : d = dir
  · subst hd
    simp [setDir]
  · simp [setDir, hd]

/-- `link` adds an entry. -/
lemma hierarchy_link (ha : (s.inodes dir).dir.Aligned) (hk : k ≤ (s.inodes dir).dir.entries)
    (hf : ¬ (s.inodes dir).dir.Live k) (hx : x ≠ 0) (hl : s.Live dir) :
    (s.link dir k name x).hierarchy = s.hierarchy.add dir k x := by
  refine Hierarchy.eq_of_iff (fun d => live_setDir) ?_
  intro d j y
  show (s.link dir k name x).Live d ∧ ((s.link dir k name x).inodes d).dir.Live j ∧
    (((s.link dir k name x).inodes d).dir.slot j).inode = y ↔
    (s.Live d ∧ (s.inodes d).dir.Live j ∧ ((s.inodes d).dir.slot j).inode = y) ∨ d = dir ∧ j = k ∧ y = x
  rw [link, live_setDir, dir_setDir]
  by_cases hd : d = dir
  · subst hd
    rw [if_pos rfl, Dir.entry_addAt ha hk hf hx]
    constructor
    · rintro ⟨hl, hold | hnew⟩
      · exact .inl ⟨hl, hold⟩
      · exact .inr ⟨rfl, hnew⟩
    · rintro (⟨hl, hold⟩ | ⟨_, hnew⟩)
      · exact ⟨hl, .inl hold⟩
      · exact ⟨hl, .inr hnew⟩
  · rw [if_neg hd]
    exact (or_iff_left fun h => hd h.1).symm

/-- `unlink` removes one. -/
lemma hierarchy_unlink : (s.unlink dir k).hierarchy = s.hierarchy.remove dir k := by
  refine Hierarchy.eq_of_iff (fun d => live_setDir) ?_
  intro d j y
  show (s.unlink dir k).Live d ∧ ((s.unlink dir k).inodes d).dir.Live j ∧
    (((s.unlink dir k).inodes d).dir.slot j).inode = y ↔
    (s.Live d ∧ (s.inodes d).dir.Live j ∧ ((s.inodes d).dir.slot j).inode = y) ∧ ¬ (d = dir ∧ j = k)
  rw [unlink, live_setDir, dir_setDir]
  by_cases hd : d = dir
  · subst hd
    rw [if_pos rfl, Dir.entry_clear, ← and_assoc]
    simp
  · rw [if_neg hd]
    simp [hd]

/-- A count of links matters to its inode only. -/
lemma live_setNlinks_of_ne {n : BitVec 8} (hd : d ≠ x) : (s.setNlinks x n).Live d ↔ s.Live d := by
  refine live_congr rfl ?_ ?_ <;> simp [setNlinks, hd]

/-- A count of links does not matter to the entries. -/
lemma dir_setNlinks {n : BitVec 8} : ((s.setNlinks x n).inodes d).dir = (s.inodes d).dir := by
  by_cases hd : d = x
  · subst hd
    simp [setNlinks]
  · simp [setNlinks, hd]

/-- A count that is set changes the hierarchy only if a directory falls out of use or comes back. -/
lemma hierarchy_setNlinks {n : BitVec 8} (h : (s.setNlinks x n).Live x ↔ s.Live x) :
    (s.setNlinks x n).hierarchy = s.hierarchy := by
  refine hierarchy_congr ?_ fun d _ => dir_setNlinks
  intro d
  by_cases hd : d = x
  · subst hd
    exact h
  · exact live_setNlinks_of_ne hd

/-- With links left the directory stays in use. -/
lemma live_setNlinks_self {n : BitVec 8} (hl : s.Live x) (hn : n ≠ 0) : (s.setNlinks x n).Live x := by
  obtain ⟨h0, hm, hu⟩ := hl
  refine ⟨h0, hm, ?_⟩
  rw [usable, Bool.and_eq_true_iff] at hu ⊢
  exact ⟨by simpa [setNlinks] using hu.1, by simpa [setNlinks] using hn⟩

/-- Without links a directory is not in use. -/
lemma not_live_setNlinks_zero : ¬ (s.setNlinks x 0).Live x := by
  rintro ⟨_, _, hu⟩
  simp [usable, setNlinks] at hu

/-- A regular inode may have any count. -/
lemma hierarchy_setNlinks_isReg {n : BitVec 8} (h : isReg (s.inodes x).iMode = true) :
    (s.setNlinks x n).hierarchy = s.hierarchy := by
  apply hierarchy_setNlinks
  refine iff_of_false (not_live_of_isReg ?_) (not_live_of_isReg h)
  simpa [setNlinks] using h

/-- A new regular file is no directory. -/
lemma hierarchy_newInode_isReg {mode : BitVec 16} {n : BitVec 8} {d' : Dir} (hm : s.imap x = false)
    (h : isReg mode = true) : (s.newInode x ⟨mode, n, d'⟩).hierarchy = s.hierarchy := by
  have hx : ¬ s.Live x := fun hl => by
    rw [hl.2.1] at hm
    cases hm
  apply hierarchy_congr
  · intro d
    by_cases hd : d = x
    · subst hd
      exact iff_of_false (not_live_of_isReg (by simpa [newInode] using h)) hx
    · refine live_congr ?_ ?_ ?_ <;> simp [newInode, hd]
  · intro d hl
    have hd : d ≠ x := fun e => hx (e ▸ hl)
    simp [newInode, hd]

/-- A directory without links is out of use, with its entries. -/
lemma hierarchy_setNlinks_zero : (s.setNlinks x 0).hierarchy =
    ⟨fun d => s.Live d ∧ d ≠ x, fun d k y => s.hierarchy.entry d k y ∧ d ≠ x⟩ := by
  have hl : ∀ d, (s.setNlinks x 0).Live d ↔ s.Live d ∧ d ≠ x := by
    intro d
    by_cases hd : d = x
    · subst hd
      exact iff_of_false not_live_setNlinks_zero fun h => h.2 rfl
    · rw [live_setNlinks_of_ne hd]
      exact (and_iff_left hd).symm
  refine Hierarchy.eq_of_iff hl ?_
  intro d j y
  show (s.setNlinks x 0).Live d ∧ ((s.setNlinks x 0).inodes d).dir.Live j ∧
    (((s.setNlinks x 0).inodes d).dir.slot j).inode = y ↔
    (s.Live d ∧ (s.inodes d).dir.Live j ∧ ((s.inodes d).dir.slot j).inode = y) ∧ d ≠ x
  rw [hl d, dir_setNlinks]
  tauto

/-- A new directory is in use, with its two entries. -/
lemma hierarchy_newInode_isDir {mode zone : BitVec 16} (hm : s.imap x = false) (hx : x ≠ 0)
    (hdir : dir ≠ 0)
    (h : isDir mode = true) : (s.newInode x ⟨mode, 2, .newDir zone x dir⟩).hierarchy =
      ⟨fun d => s.Live d ∨ d = x,
        fun d j y => s.hierarchy.entry d j y ∨ d = x ∧ (j = 0 ∧ y = x ∨ j = 1 ∧ y = dir)⟩ := by
  have hnot : ¬ s.Live x := fun hl => by
    rw [hl.2.1] at hm
    cases hm
  have hl : ∀ d, (s.newInode x ⟨mode, 2, .newDir zone x dir⟩).Live d ↔ s.Live d ∨ d = x := by
    intro d
    by_cases hd : d = x
    · subst hd
      refine iff_of_true ⟨hx, ?_, ?_⟩ (.inr rfl)
      · simp [newInode]
      · simp [usable, newInode, h]
    · rw [or_iff_left hd]
      refine live_congr ?_ ?_ ?_ <;> simp [newInode, hd]
  refine Hierarchy.eq_of_iff hl ?_
  intro d j y
  show (s.newInode x ⟨mode, 2, .newDir zone x dir⟩).Live d ∧
    ((s.newInode x ⟨mode, 2, .newDir zone x dir⟩).inodes d).dir.Live j ∧
    (((s.newInode x ⟨mode, 2, .newDir zone x dir⟩).inodes d).dir.slot j).inode = y ↔
    (s.Live d ∧ (s.inodes d).dir.Live j ∧ ((s.inodes d).dir.slot j).inode = y) ∨
      d = x ∧ (j = 0 ∧ y = x ∨ j = 1 ∧ y = dir)
  rw [hl d]
  by_cases hd : d = x
  · subst hd
    have hdata : ((s.newInode d ⟨mode, 2, .newDir zone d dir⟩).inodes d).dir = .newDir zone d dir := by
      simp [newInode]
    rw [hdata, Dir.entry_newDir hx hdir]
    simp [hnot]
  · have hdata : ((s.newInode x ⟨mode, 2, .newDir zone x dir⟩).inodes d).dir = (s.inodes d).dir := by
      simp [newInode, hd]
    rw [hdata]
    simp [hd]

/-! ## The calls keep the counts -/

/-- What is left to show for a call that takes no reference away and frees nothing. -/
lemma Consistent.of (h : s.Consistent) (tree : s'.hierarchy.WellFormed) (links : s'.LinksExact)
    (aligned : ∀ d, s'.Live d → (s'.inodes d).dir.Aligned)
    (himap : ∀ y, s.imap y = true → s'.imap y = true)
    (hheld : s'.held = s.held) : s'.Consistent := by
  refine ⟨tree, links, aligned, himap 0 h.reserved, ?_⟩
  intro y hy
  rw [hheld] at hy
  obtain ⟨h0, hm⟩ := h.held y hy
  exact ⟨h0, himap y hm⟩

/-- Setting entries leaves the links. -/
@[simp] lemma iNlinks_setDir {d' : Dir} :
    ((s.setDir dir d').inodes y).iNlinks = (s.inodes y).iNlinks := by
  by_cases hy : y = dir
  · subst hy
    simp [setDir]
  · simp [setDir, hy]

/-- Setting entries leaves the mode. -/
@[simp] lemma iMode_setDir {d' : Dir} : ((s.setDir dir d').inodes y).iMode = (s.inodes y).iMode := by
  by_cases hy : y = dir
  · subst hy
    simp [setDir]
  · simp [setDir, hy]

/-- The count that is set. -/
lemma iNlinks_setNlinks {n : BitVec 8} :
    ((s.setNlinks x n).inodes y).iNlinks = if y = x then n else (s.inodes y).iNlinks := by
  by_cases hy : y = x
  · subst hy
    simp [setNlinks]
  · simp [setNlinks, hy]

/-- The links of a new inode. -/
lemma iNlinks_newInode {inode : LinkInode} :
    ((s.newInode x inode).inodes y).iNlinks = if y = x then inode.iNlinks else (s.inodes y).iNlinks := by
  by_cases hy : y = x
  · subst hy
    simp [newInode]
  · simp [newInode, hy]

/-- A new inode leaves the entries of the others. -/
lemma dir_newInode {inode : LinkInode} (hd : d ≠ x) :
    ((s.newInode x inode).inodes d).dir = (s.inodes d).dir := by
  simp [newInode, hd]

/-- A new inode sets its bit. -/
lemma imap_newInode {inode : LinkInode} :
    (s.newInode x inode).imap y = (decide (y = x) || s.imap y) := by
  by_cases hy : y = x
  · subst hy
    simp [newInode]
  · simp [newInode, hy]

/-- An inode with links is not freed. -/
lemma iput_of_iNlinks (h : (s.inodes x).iNlinks ≠ 0) : s.iput x = s :=
  if_neg fun hf => h hf.2

/-- A directory in use has links. -/
lemma Live.iNlinks (h : s.Live d) : (s.inodes d).iNlinks ≠ 0 := by
  have hu := h.2.2
  rw [usable, Bool.and_eq_true_iff, bne_iff_ne] at hu
  exact hu.2

/-- A slot that is not live has no entry. -/
lemma not_entry (hf : ¬ (s.inodes dir).dir.Live k) (y : BitVec 16) :
    ¬ s.hierarchy.entry dir k y := fun he => hf he.2.1

/-- A count below 255 goes up. -/
lemma toNat_add_one {n : BitVec 8} (h : n ≠ 255) : (n + 1).toNat = n.toNat + 1 := by
  have hlt := n.isLt
  have hne : n.toNat ≠ 255 := fun e => h (BitVec.eq_of_toNat_eq e)
  rw [BitVec.toNat_add]
  show (n.toNat + 1) % 256 = _
  omega

/-- A count above 0 goes down. -/
lemma toNat_sub_one {n : BitVec 8} (h : n ≠ 0) : (n - 1).toNat + 1 = n.toNat := by
  have hlt := n.isLt
  have hne : n.toNat ≠ 0 := fun e => h (BitVec.eq_of_toNat_eq e)
  rw [BitVec.toNat_sub]
  show (256 - 1 + n.toNat) % 256 + 1 = _
  omega

/-- Adding an entry keeps the directories aligned. -/
lemma aligned_link (h : ∀ d, s.Live d → (s.inodes d).dir.Aligned) (d : BitVec 16)
    (hl : (s.link dir k name x).Live d) : ((s.link dir k name x).inodes d).dir.Aligned := by
  have hd := h d (live_setDir.1 hl)
  rw [link, dir_setDir]
  split
  · next e =>
    subst e
    exact Dir.aligned_addAt hd
  · exact hd

/-- Removing an entry keeps the directories aligned. -/
lemma aligned_unlink (h : ∀ d, s.Live d → (s.inodes d).dir.Aligned) (d : BitVec 16)
    (hl : (s.unlink dir k).Live d) : ((s.unlink dir k).inodes d).dir.Aligned := by
  have hd := h d (live_setDir.1 hl)
  rw [unlink, dir_setDir]
  split
  · next e =>
    subst e
    exact hd
  · exact hd

/-- A slot of a directory in use that is not live is neither `.` nor `..`. -/
lemma Consistent.slot_two_le (h : s.Consistent) (hl : s.Live dir) (hf : ¬ (s.inodes dir).dir.Live k) :
    2 ≤ k := by
  obtain ⟨y, _, he, _⟩ := h.tree.dotdot hl
  have hdot := h.tree.dot hl
  by_contra hlt
  obtain rfl | rfl : k = 0 ∨ k = 1 := by omega
  · exact not_entry hf dir hdot
  · exact not_entry hf y he

section calls
variable (h : s.Consistent) (hl : s.Live dir) (hk : k ≤ (s.inodes dir).dir.entries)
  (hf : ¬ (s.inodes dir).dir.Live k)
include h

/-- An inode that is not allocated is not 0, and no directory in use. -/
lemma Consistent.fresh (hm : s.imap x = false) : x ≠ 0 ∧ ∀ d, s.Live d → d ≠ x := by
  constructor
  · rintro rfl
    rw [h.reserved] at hm
    cases hm
  · rintro d hd rfl
    rw [hd.2.1] at hm
    cases hm

include hl hk hf

/-- `open` enters a new file. -/
lemma Consistent.hierarchy_enteredFile {mode : BitVec 16} (hm : s.imap x = false) (hreg : isReg mode = true) :
    ((s.newInode x ⟨mode, 1, .blank⟩).link dir k name x).hierarchy = s.hierarchy.add dir k x := by
  obtain ⟨hx0, hfresh⟩ := h.fresh hm
  have h1 := @hierarchy_newInode_isReg s x mode 1 .blank hm hreg
  have hl1 := (live_of_hierarchy h1).2 hl
  have hdata := @dir_newInode s x dir ⟨mode, 1, .blank⟩ (hfresh dir hl)
  rw [hierarchy_link (by rw [hdata]; exact h.aligned dir hl) (by rwa [hdata]) (by rwa [hdata]) hx0 hl1, h1]

/-- A new file is consistent. -/
lemma Consistent.opened {mode : BitVec 16} (hm : s.imap x = false) (hreg : isReg mode = true) :
    (s.opened dir k name x mode).Consistent := by
  obtain ⟨hx0, hfresh⟩ := h.fresh hm
  have hne := hfresh dir hl
  have h1 := @hierarchy_newInode_isReg s x mode 1 .blank hm hreg
  have hdata : ∀ d, d ≠ x → ((s.newInode x ⟨mode, 1, .blank⟩).inodes d).dir = (s.inodes d).dir :=
    fun d => dir_newInode
  have ha1 : ∀ d, (s.newInode x ⟨mode, 1, .blank⟩).Live d →
      ((s.newInode x ⟨mode, 1, .blank⟩).inodes d).dir.Aligned := by
    intro d hd
    have hd := (live_of_hierarchy h1).1 hd
    rw [hdata d (hfresh d hd)]
    exact h.aligned d hd
  have h2 : ((s.newInode x ⟨mode, 1, .blank⟩).link dir k name x).hierarchy =
      s.hierarchy.add dir k x := h.hierarchy_enteredFile hl hk hf hm hreg
  have hn : ∀ y, (((s.newInode x ⟨mode, 1, .blank⟩).link dir k name x).inodes y).iNlinks =
      if y = x then 1 else (s.inodes y).iNlinks := by
    intro y
    rw [link, iNlinks_setDir, iNlinks_newInode]
  have hmap : ∀ y, ((s.newInode x ⟨mode, 1, .blank⟩).link dir k name x).imap y =
      (decide (y = x) || s.imap y) := fun y => @imap_newInode s x y ⟨mode, 1, .blank⟩
  have hc : ((s.newInode x ⟨mode, 1, .blank⟩).link dir k name x).Consistent := by
    refine h.of ?_ ?_ (aligned_link ha1) ?_ rfl
    · rw [h2]
      exact h.tree.add hl (not_entry hf) fun hx => hfresh x hx rfl
    · intro y hy
      rw [h2, Hierarchy.refs_add h.tree.finite (not_entry hf), h.links y hy, hn, hmap]
      by_cases hyx : y = x
      · subst hyx
        simp [hm]
      · simp [hyx]
    · intro y hy
      rw [hmap, hy, Bool.or_true]
  have hput : (((s.newInode x ⟨mode, 1, .blank⟩).link dir k name x).inodes dir).iNlinks ≠ 0 := by
    rw [hn, if_neg hne]
    exact hl.iNlinks
  rw [FileSystem.opened, iput_of_iNlinks hput]
  exact hc.hold hx0 (by rw [hmap]; simp)

/-- `sys_link` puts one entry in. -/
lemma Consistent.hierarchy_linked {n : BitVec 8} (hx0 : x ≠ 0) (hreg : isReg (s.inodes x).iMode = true) :
    ((s.link dir k name x).setNlinks x n).hierarchy = s.hierarchy.add dir k x := by
  have hreg1 : isReg ((s.link dir k name x).inodes x).iMode = true := by
    rwa [link, iMode_setDir]
  rw [hierarchy_setNlinks_isReg hreg1, hierarchy_link (h.aligned dir hl) hk hf hx0 hl]

/-- A new name is, if the count does not wrap. -/
lemma Consistent.linked (hx0 : x ≠ 0) (hm : s.imap x = true) (hreg : isReg (s.inodes x).iMode = true)
    (hfit : (s.inodes x).iNlinks ≠ 255) : (s.linked dir k name x).Consistent := by
  have hnot := not_live_of_isReg hreg
  have hne : dir ≠ x := fun e => hnot (e ▸ hl)
  have h2 : ((s.link dir k name x).setNlinks x ((s.inodes x).iNlinks + 1)).hierarchy =
      s.hierarchy.add dir k x := h.hierarchy_linked hl hk hf hx0 hreg
  have hn : ∀ y, (((s.link dir k name x).setNlinks x ((s.inodes x).iNlinks + 1)).inodes y).iNlinks =
      if y = x then (s.inodes x).iNlinks + 1 else (s.inodes y).iNlinks := by
    intro y
    rw [iNlinks_setNlinks, link, iNlinks_setDir]
  have hc : ((s.link dir k name x).setNlinks x ((s.inodes x).iNlinks + 1)).Consistent := by
    refine h.of ?_ ?_ ?_ (fun _ hy => hy) rfl
    · rw [h2]
      exact h.tree.add hl (not_entry hf) hnot
    · intro y hy
      rw [h2, Hierarchy.refs_add h.tree.finite (not_entry hf), h.links y hy, hn]
      show _ = if s.imap y = true then _ else 0
      by_cases hyx : y = x
      · subst hyx
        rw [if_pos hm, if_pos hm, if_pos rfl, if_pos rfl, toNat_add_one hfit]
      · rw [if_neg hyx, if_neg hyx, Nat.add_zero]
    · intro d hd
      have hd : s.Live d := (iff_of_eq (congrFun (congrArg Hierarchy.live h2) d)).1 hd
      rw [dir_setNlinks]
      exact aligned_link h.aligned d (live_setDir.2 hd)
  have hput : ((s.link dir k name x).inodes dir).iNlinks ≠ 0 := by
    rw [link, iNlinks_setDir]
    exact hl.iNlinks
  have hkept : ((s.link dir k name x).inodes x).iNlinks = (s.inodes x).iNlinks := iNlinks_setDir
  rw [FileSystem.linked, iput_of_iNlinks hput, hkept]
  exact hc.iput hx0

/-- A new directory and its parent are entered before `sys_mkdir` gives them back. -/
lemma Consistent.hierarchy_enteredDir {mode zone : BitVec 16} (hm : s.imap x = false) (hmode : isDir mode = true)
    (hfit : (s.inodes dir).iNlinks ≠ 255) :
    (((s.newInode x ⟨mode, 2, .newDir zone x dir⟩).link dir k name x).setNlinks dir
      ((s.inodes dir).iNlinks + 1)).hierarchy = s.hierarchy.addDir dir k x := by
  obtain ⟨hx0, hfresh⟩ := h.fresh hm
  have h1 := @hierarchy_newInode_isDir s dir x mode zone hm hx0 hl.1 hmode
  generalize hs1 : s.newInode x ⟨mode, 2, .newDir zone x dir⟩ = s₁ at h1
  have hl1 : s₁.Live dir := (iff_of_eq (congrFun (congrArg Hierarchy.live h1) dir)).2 (.inl hl)
  have hdata : (s₁.inodes dir).dir = (s.inodes dir).dir := by
    rw [← hs1]
    exact dir_newInode (hfresh dir hl)
  have h2 : (s₁.link dir k name x).hierarchy = s₁.hierarchy.add dir k x :=
    hierarchy_link (by rw [hdata]; exact h.aligned dir hl) (by rwa [hdata]) (by rwa [hdata]) hx0 hl1
  -- the parent stays in use
  have hone : (s.inodes dir).iNlinks + 1 ≠ 0 := by
    intro e
    have := toNat_add_one hfit
    rw [e] at this
    cases this
  have hl2 : (s₁.link dir k name x).Live dir := live_setDir.2 hl1
  rw [hierarchy_setNlinks (iff_of_true (live_setNlinks_self hl2 hone) hl2), h2, h1]
  refine Hierarchy.eq_of_iff (fun _ => Iff.rfl) ?_
  intro d j y
  show (_ ∨ d = x ∧ (j = 0 ∧ y = x ∨ j = 1 ∧ y = dir)) ∨ d = dir ∧ j = k ∧ y = x ↔
    ((_ ∨ d = dir ∧ j = k ∧ y = x) ∨ d = x ∧ j = 0 ∧ y = x) ∨ d = x ∧ j = 1 ∧ y = dir
  tauto

omit hk in
/-- The counts are then exact again. -/
lemma Consistent.links_enteredDir {mode zone : BitVec 16} (hm : s.imap x = false)
    (hfit : (s.inodes dir).iNlinks ≠ 255)
    (e : (((s.newInode x ⟨mode, 2, .newDir zone x dir⟩).link dir k name x).setNlinks dir
      ((s.inodes dir).iNlinks + 1)).hierarchy = s.hierarchy.addDir dir k x) :
    (((s.newInode x ⟨mode, 2, .newDir zone x dir⟩).link dir k name x).setNlinks dir
      ((s.inodes dir).iNlinks + 1)).LinksExact := by
  obtain ⟨hx0, hfresh⟩ := h.fresh hm
  have hne := hfresh dir hl
  have hnot : ¬ s.Live x := fun hx => hfresh x hx rfl
  intro y hy
  rw [e, Hierarchy.refs_addDir h.tree hl (not_entry hf) hnot, h.links y hy, iNlinks_setNlinks, link, iNlinks_setDir,
    iNlinks_newInode]
  show _ = if (s.newInode x ⟨mode, 2, .newDir zone x dir⟩).imap y = true then _ else 0
  rw [imap_newInode]
  by_cases hyx : y = x
  · subst hyx
    simp [hm, hne.symm]
  by_cases hyd : y = dir
  · subst hyd
    have hplus := toNat_add_one hfit
    simp only [hyx, hl.2.1, if_true, if_false, decide_false, Bool.false_or]
    omega
  · simp [hyx, hyd]

omit hl hk hf in
/-- With a new directory all directories in use are aligned. -/
lemma Consistent.aligned_newDir {mode zone : BitVec 16} (hm : s.imap x = false) (hdir : dir ≠ 0)
    (hmode : isDir mode = true) (d : BitVec 16) (hd : (s.newInode x ⟨mode, 2, .newDir zone x dir⟩).Live d) :
    ((s.newInode x ⟨mode, 2, .newDir zone x dir⟩).inodes d).dir.Aligned := by
  obtain ⟨hx0, hfresh⟩ := h.fresh hm
  have h1 := @hierarchy_newInode_isDir s dir x mode zone hm hx0 hdir hmode
  obtain hd | rfl : s.Live d ∨ d = x := (iff_of_eq (congrFun (congrArg Hierarchy.live h1) d)).1 hd
  · rw [dir_newInode (hfresh d hd)]
    exact h.aligned d hd
  · show (update s.inodes d _ d).dir.Aligned
    rw [update_self]
    exact Dir.newDir_aligned

/-- A new directory is, if the count of its parent does not wrap. -/
lemma Consistent.madeDir {mode zone : BitVec 16} (hm : s.imap x = false) (hmode : isDir mode = true)
    (hfit : (s.inodes dir).iNlinks ≠ 255) : (s.madeDir dir k name x mode zone).Consistent := by
  obtain ⟨hx0, hfresh⟩ := h.fresh hm
  have hne := hfresh dir hl
  have h3 : (((s.newInode x ⟨mode, 2, .newDir zone x dir⟩).link dir k name x).setNlinks dir
      ((s.inodes dir).iNlinks + 1)).hierarchy = s.hierarchy.addDir dir k x :=
    h.hierarchy_enteredDir hl hk hf hm hmode hfit
  have hc : (((s.newInode x ⟨mode, 2, .newDir zone x dir⟩).link dir k name x).setNlinks dir
      ((s.inodes dir).iNlinks + 1)).Consistent := by
    refine h.of ?_ (h.links_enteredDir hl hf hm hfit h3) ?_ ?_ rfl
    · rw [h3]
      exact h.tree.addDir hl (h.slot_two_le hl hf) (not_entry hf) (fun hx => hfresh x hx rfl)
        fun d j => h.refs_eq_zero hm d j
    · intro d hd
      rw [dir_setNlinks]
      refine aligned_link (h.aligned_newDir hm hl.1 hmode) d ?_
      by_cases hdd : d = dir
      · subst hdd
        have h1 := @hierarchy_newInode_isDir s d x mode zone hm hx0 hl.1 hmode
        exact live_setDir.2 ((iff_of_eq (congrFun (congrArg Hierarchy.live h1) d)).2 (.inl hl))
      · exact (live_setNlinks_of_ne hdd).1 hd
    · intro y hy
      show (s.newInode x ⟨mode, 2, .newDir zone x dir⟩).imap y = true
      rw [imap_newInode, hy, Bool.or_true]
  have hdir : (((s.newInode x ⟨mode, 2, .newDir zone x dir⟩).link dir k name x).inodes dir).iNlinks =
      (s.inodes dir).iNlinks := by
    rw [link, iNlinks_setDir, iNlinks_newInode, if_neg hne]
  rw [FileSystem.madeDir, hdir]
  exact (hc.iput hl.1).iput hx0

end calls

/-- The call has found the inode `x` in the entry `k` of the directory. -/
lemma Consistent.unlinked (h : s.Consistent) (he : s.hierarchy.entry dir k x)
    (hreg : isReg (s.inodes x).iMode = true) : (s.unlinked dir k x).Consistent := by
  obtain ⟨hx0, hm, hlinks⟩ := h.entry he
  have hnot := not_live_of_isReg hreg
  have hreg1 : isReg ((s.unlink dir k).inodes x).iMode = true := by
    rwa [unlink, iMode_setDir]
  have h2 := hierarchy_setNlinks_isReg (n := (s.inodes x).iNlinks - 1) hreg1
  have hc : ((s.unlink dir k).setNlinks x ((s.inodes x).iNlinks - 1)).Consistent := by
    refine h.of ?_ ?_ ?_ (fun _ hy => hy) rfl
    · rw [h2, hierarchy_unlink]
      exact h.tree.remove he hnot
    · intro y hy
      have hr := Hierarchy.refs_remove h.tree.finite (fun z hz => h.tree.func hz he) he y
      rw [h.links y hy] at hr
      rw [h2, hierarchy_unlink, iNlinks_setNlinks, unlink, iNlinks_setDir]
      show _ = if s.imap y = true then _ else 0
      by_cases hyx : y = x
      · subst hyx
        rw [if_pos hm, if_pos rfl, ← toNat_sub_one hlinks] at hr
        rw [if_pos hm, if_pos rfl]
        exact Nat.succ.inj hr
      · rw [if_neg hyx, Nat.add_zero] at hr
        rw [if_neg hyx, hr]
    · intro d hd
      rw [dir_setNlinks]
      exact aligned_unlink h.aligned d ((live_of_hierarchy h2).1 hd)
  have hkept : ((s.unlink dir k).inodes x).iNlinks = (s.inodes x).iNlinks := iNlinks_setDir
  rw [FileSystem.unlinked, if_neg hlinks, hkept]
  exact (hc.iput hx0).iput he.1.1

section
variable (h : s.Consistent) (hem : Hierarchy.WellFormed.Empty s.hierarchy dir k x)
include h hem

/-- The links of the parent of a directory that is taken out. -/
lemma Consistent.refs_parent : (s.hierarchy.removeDir dir k x).refs dir = ((s.inodes dir).iNlinks - 1).toNat := by
  have hl := hem.entry.1
  have hdir := Hierarchy.refs_removeDir h.tree hem dir
  rw [h.links dir hl.1, if_pos hl.2.1, if_neg hem.ne.symm, if_pos rfl, ← toNat_sub_one hl.iNlinks] at hdir
  omega

/-- The parent stays in use: its own entry counts. -/
lemma Consistent.parent_used : (s.inodes dir).iNlinks - 1 ≠ 0 := by
  intro e
  have htree := Hierarchy.WellFormed.removeDir h.tree hem
  have hself := htree.refs_pos (htree.dot ⟨hem.entry.1, hem.ne.symm⟩)
  rw [h.refs_parent hem, e] at hself
  exact absurd hself (by decide)

/-- An empty directory is taken out before `sys_rmdir` gives it and its parent back. -/
lemma Consistent.hierarchy_takenDir :
    (((s.unlink dir k).setNlinks x 0).setNlinks dir ((s.inodes dir).iNlinks - 1)).hierarchy =
      s.hierarchy.removeDir dir k x := by
  have h2 := hierarchy_setNlinks_zero (s := s.unlink dir k) (x := x)
  have hl2 : ((s.unlink dir k).setNlinks x 0).Live dir :=
    (live_setNlinks_of_ne hem.ne.symm).2 (live_setDir.2 hem.entry.1)
  rw [hierarchy_setNlinks (iff_of_true (live_setNlinks_self hl2 (h.parent_used hem)) hl2), h2, hierarchy_unlink]
  refine Hierarchy.eq_of_iff (fun d => and_congr_left fun _ => live_setDir) ?_
  intro d j y
  show (_ ∧ ¬ (d = dir ∧ j = k)) ∧ d ≠ x ↔
    ((_ ∧ ¬ (d = dir ∧ j = k)) ∧ ¬ (d = x ∧ j = 0)) ∧ ¬ (d = x ∧ j = 1)
  constructor
  · rintro ⟨hin, hd⟩
    exact ⟨⟨hin, fun e => hd e.1⟩, fun e => hd e.1⟩
  · rintro ⟨⟨hin, h0⟩, h1⟩
    refine ⟨hin, ?_⟩
    rintro rfl
    have hj := hem.empty hin.1
    obtain rfl | rfl : j = 0 ∨ j = 1 := by omega
    · exact h0 ⟨rfl, rfl⟩
    · exact h1 ⟨rfl, rfl⟩

/-- The counts are then exact again. -/
lemma Consistent.links_takenDir :
    (((s.unlink dir k).setNlinks x 0).setNlinks dir ((s.inodes dir).iNlinks - 1)).LinksExact := by
  have hl := hem.entry.1
  have hne := hem.ne
  obtain ⟨_, hm, _⟩ := h.entry hem.entry
  have htree := Hierarchy.WellFormed.removeDir h.tree hem
  intro y hy
  rw [h.hierarchy_takenDir hem, iNlinks_setNlinks, iNlinks_setNlinks, unlink, iNlinks_setDir]
  show _ = if s.imap y = true then _ else 0
  by_cases hyx : y = x
  · -- nothing refers to the directory that is gone
    subst hyx
    rw [if_pos hm, if_neg hne, if_pos rfl]
    refine htree.refs_eq_zero.2 ?_
    rintro d j ⟨⟨⟨he', h0⟩, h1⟩, h2⟩
    rcases hem.only h.tree he' with e | e
    · exact h0 e
    · exact h1 e
  · by_cases hyd : y = dir
    · subst hyd
      rw [if_pos hl.2.1, if_pos rfl, h.refs_parent hem]
    · have hr := Hierarchy.refs_removeDir h.tree hem y
      rw [h.links y hy, if_neg hyx, Nat.add_zero, if_neg hyd, Nat.add_zero] at hr
      rw [if_neg hyd, if_neg hyx, hr]

/-- The directory `x` in the entry `k` is empty. -/
lemma Consistent.removedDir : (s.removedDir dir k x).Consistent := by
  have hl := hem.entry.1
  have hc : (((s.unlink dir k).setNlinks x 0).setNlinks dir ((s.inodes dir).iNlinks - 1)).Consistent := by
    refine h.of ?_ (h.links_takenDir hem) ?_ (fun _ hy => hy) rfl
    · rw [h.hierarchy_takenDir hem]
      exact Hierarchy.WellFormed.removeDir h.tree hem
    · intro d hd
      rw [dir_setNlinks, dir_setNlinks]
      refine aligned_unlink h.aligned d (live_setDir.2 ?_)
      exact ((iff_of_eq (congrFun (congrArg Hierarchy.live (h.hierarchy_takenDir hem)) d)).1 hd).1
  have hn : (((s.unlink dir k).setNlinks x 0).inodes dir).iNlinks = (s.inodes dir).iNlinks := by
    rw [iNlinks_setNlinks, if_neg hem.ne.symm, unlink, iNlinks_setDir]
  rw [FileSystem.removedDir, hn]
  exact (hc.iput hl.1).iput (h.entry hem.entry).1

end

/-! ## Runs -/

/-- A truncated file is. -/
lemma Consistent.truncated (h : s.Consistent) {trunc : Bool} : (s.truncated x trunc).Consistent := by
  rw [FileSystem.truncated]
  split
  · next ht =>
    have hnot := not_live_of_isReg ht.2
    have hh : (s.setDir x .blank).hierarchy = s.hierarchy := by
      refine hierarchy_congr (fun _ => live_setDir) ?_
      intro d hd
      rw [dir_setDir, if_neg]
      rintro rfl
      exact hnot hd
    refine h.of (hh ▸ h.tree) ?_ ?_ (fun _ hy => hy) rfl
    · intro y hy
      rw [hh, h.links y hy, iNlinks_setDir]
      rfl
    · intro d hd
      rw [live_setDir] at hd
      rw [dir_setDir, if_neg]
      · exact h.aligned d hd
      · rintro rfl
        exact hnot hd
  · exact h

/-- Every call that succeeds keeps a file system consistent, if its counts fit. -/
lemma Consistent.step {e : LinkEvent} (h : s.Consistent) (st : LinkStep s e s') (hc : CountFits s e) :
    s'.Consistent := by
  cases st with
  | create hd ha hm hreg =>
    obtain ⟨hk, hf⟩ := h.adds hd ha
    exact h.opened (h.reached hd) hk hf hm hreg
  | old hd hf =>
    obtain ⟨hx0, hm, _⟩ := h.entry (h.finds hd hf)
    refine h.truncated.hold hx0 ?_
    rw [FileSystem.truncated]
    split <;> exact hm
  | mkdir hd ha hm hmode _ =>
    obtain ⟨hk, hf⟩ := h.adds hd ha
    exact h.madeDir (h.reached hd) hk hf hm hmode hc
  | link hod hof hreg hd ha =>
    obtain ⟨hx0, hm, _⟩ := h.entry (h.finds hod hof)
    obtain ⟨hk, hf⟩ := h.adds hd ha
    exact h.linked (h.reached hd) hk hf hx0 hm hreg hc
  | unlink hd hf hreg => exact h.unlinked (h.finds hd hf) hreg
  | @rmdir dir k reads hd hf hne hmode hempty =>
    have he := h.finds hd hf
    obtain ⟨hx0, hm, hlinks⟩ := h.entry he
    have hlx : s.Live (s.inodeAt dir k) := by
      refine ⟨hx0, hm, ?_⟩
      rw [usable, hmode, Bool.true_and, bne_iff_ne]
      exact hlinks
    exact h.removedDir ⟨he, hlx, hne, fun hin => Dir.emptyDir_true hempty hin.2.1⟩
  | release hheld =>
    obtain ⟨hx0, _⟩ := h.held _ hheld
    exact (h.release (Nat.sub_le _ _)).iput hx0

end FileSystem

/-- In every sequence of calls that succeed, from a consistent file system, in which no count of 255
    is incremented: `i_nlinks` of every allocated inode is the number of live entries that carry its number, and no
    entry carries the number of an inode that is freed. -/
theorem link_counts {tr : List (LinkEvent × FileSystem)} (h0 : linkSystem.init s)
    (ex : linkSystem.Exec s tr) (hc : Along (fun s e _ => CountFits s e) s tr) :
    Always FileSystem.LinksExact s tr := by
  have hinv : Always FileSystem.Consistent s tr ∧ Along (fun _ _ _ => True) s tr :=
    ex.along_of_inv (fun _ _ _ h st hc => ⟨h.step st hc, trivial⟩) h0 hc
  exact hinv.1.mono fun _ h => h.links

/-! ## A file with many names -/

/-- The root directory, with `n` names of the inode 2. -/
def manyNames (n : Nat) : Dir where
  iSize := (n + 2) * dirEntrySize
  iZone0 := 7
  slot k :=
    if k = 0 then ⟨1, 46 :: List.replicate 13 0, Dir.length_dot⟩
    else if k = 1 then ⟨1, 46 :: 46 :: List.replicate 12 0, Dir.length_dotDot⟩
    else ⟨2, .ofNat 8 (97 + k % 26) :: .ofNat 8 (97 + k / 26) :: List.replicate 12 0, rfl⟩

/-- The root directory and a regular file with `n` names, which is open. -/
def oneFile (n : Nat) : FileSystem where
  inodes x := if x = 1 then ⟨0o040755, 2, manyNames n⟩ else ⟨0o100644, .ofNat 8 n, .blank⟩
  imap x := decide (x = 0 ∨ x = 1 ∨ x = 2)
  held x := if x = 1 ∨ x = 2 then 1 else 0

/-- The root of the sample is usable. -/
lemma oneFile_usable {n : Nat} : (oneFile n).usable 1 = true := by
  have hmode : isDir (0o040755 : BitVec 16) = true := by decide
  simpa [usable, oneFile] using hmode

/-- The root of the sample is allocated. -/
lemma oneFile_imap {n : Nat} : (oneFile n).imap 1 = true := by
  simp [oneFile]

/-- It is the only directory. -/
lemma oneFile_live {n : Nat} : (oneFile n).Live d ↔ d = 1 := by
  constructor
  · rintro ⟨_, _, hu⟩
    by_contra hd
    have hinode : (oneFile n).inodes d = ⟨0o100644, .ofNat 8 n, .blank⟩ := if_neg hd
    rw [usable, hinode] at hu
    have hmode : isDir (0o100644 : BitVec 16) = true := (Bool.and_eq_true_iff.1 hu).1
    exact absurd hmode (by decide)
  · rintro rfl
    exact ⟨by decide, oneFile_imap, oneFile_usable⟩

/-- Its entries are its own two and the names of the file. -/
lemma oneFile_entry {n : Nat} : (oneFile n).hierarchy.entry d k x ↔
    d = 1 ∧ (k < 2 ∧ x = 1 ∨ 2 ≤ k ∧ k < n + 2 ∧ x = 2) := by
  show (oneFile n).Live d ∧ ((oneFile n).inodes d).dir.Live k ∧
    (((oneFile n).inodes d).dir.slot k).inode = x ↔ _
  rw [oneFile_live]
  refine and_congr_right ?_
  rintro rfl
  have hentries : (manyNames n).entries = n + 2 := Nat.mul_div_cancel _ (by decide)
  show (k < (manyNames n).entries ∧ ((manyNames n).slot k).inode ≠ 0) ∧
    ((manyNames n).slot k).inode = x ↔ _
  rw [hentries]
  by_cases hk : k < 2
  · have hslot : ((manyNames n).slot k).inode = 1 := by
      obtain rfl | rfl : k = 0 ∨ k = 1 := by omega
      · rfl
      · rfl
    rw [hslot]
    constructor
    · rintro ⟨_, rfl⟩
      exact .inl ⟨hk, rfl⟩
    · rintro (⟨_, rfl⟩ | ⟨h2, _⟩)
      · exact ⟨⟨by omega, by decide⟩, rfl⟩
      · omega
  · have hslot : ((manyNames n).slot k).inode = 2 := by
      rw [manyNames]
      dsimp only
      rw [if_neg (by omega), if_neg (by omega)]
    rw [hslot]
    constructor
    · rintro ⟨⟨hlt, _⟩, rfl⟩
      exact .inr ⟨Nat.le_of_not_lt hk, hlt, rfl⟩
    · rintro (⟨h2, _⟩ | ⟨_, hlt, rfl⟩)
      · omega
      · exact ⟨⟨hlt, by decide⟩, rfl⟩

/-- The sample is well-formed. -/
lemma oneFile_tree {n : Nat} : (oneFile n).hierarchy.WellFormed where
  finite x := by
    refine ((Set.finite_Iio (n + 2)).image fun k => ((1 : BitVec 16), k)).subset ?_
    rintro ⟨d, k⟩ he
    obtain ⟨rfl, he⟩ := oneFile_entry.1 he
    exact ⟨k, Set.mem_Iio.2 (by omega), rfl⟩
  source he := he.1
  func he he' := he.2.2.symm.trans he'.2.2
  dot := by
    intro d hl
    obtain rfl := oneFile_live.1 hl
    exact oneFile_entry.2 ⟨rfl, .inl ⟨by decide, rfl⟩⟩
  dotdot := by
    intro d hl
    obtain rfl := oneFile_live.1 hl
    exact ⟨1, hl, oneFile_entry.2 ⟨rfl, .inl ⟨by decide, rfl⟩⟩, .inl rfl⟩
  up := by
    intro d k x he hk hl
    obtain rfl := oneFile_live.1 hl
    obtain ⟨_, ⟨hlt, _⟩ | ⟨_, _, e⟩⟩ := oneFile_entry.1 he
    · omega
    · cases e
  single := by
    intro d k k' x he _ hk _ hl
    obtain rfl := oneFile_live.1 hl
    obtain ⟨_, ⟨hlt, _⟩ | ⟨_, _, e⟩⟩ := oneFile_entry.1 he
    · omega
    · cases e

/-- Its counts are exact. -/
lemma oneFile_links {n : Nat} (hn : n < 256) : (oneFile n).LinksExact := by
  have hroot : (oneFile n).hierarchy.slots 1 =
      (fun k => ((1 : BitVec 16), k)) '' (Finset.range 2 : Set Nat) := by
    ext ⟨d, k⟩
    rw [Finset.coe_range]
    constructor
    · intro he
      obtain ⟨rfl, ⟨hlt, _⟩ | ⟨_, _, e⟩⟩ := oneFile_entry.1 he
      · exact ⟨k, hlt, rfl⟩
      · cases e
    · rintro ⟨_, hlt, e⟩
      cases e
      exact oneFile_entry.2 ⟨rfl, .inl ⟨hlt, rfl⟩⟩
  have hfile : (oneFile n).hierarchy.slots 2 =
      (fun k => ((1 : BitVec 16), k)) '' (Finset.Ico 2 (n + 2) : Set Nat) := by
    ext ⟨d, k⟩
    rw [Finset.coe_Ico]
    constructor
    · intro he
      obtain ⟨rfl, ⟨_, e⟩ | ⟨h2, hlt, _⟩⟩ := oneFile_entry.1 he
      · cases e
      · exact ⟨k, ⟨h2, hlt⟩, rfl⟩
    · rintro ⟨_, ⟨h2, hlt⟩, e⟩
      cases e
      exact oneFile_entry.2 ⟨rfl, .inr ⟨h2, hlt, rfl⟩⟩
  have hinj : Injective fun k : Nat => ((1 : BitVec 16), k) := fun _ _ e => (Prod.mk.inj e).2
  intro x hx
  by_cases h1 : x = 1
  · subst h1
    rw [Hierarchy.refs, hroot, Set.ncard_image_of_injective _ hinj, Set.ncard_coe_finset,
      Finset.card_range]
    rfl
  by_cases h2 : x = 2
  · subst h2
    rw [Hierarchy.refs, hfile, Set.ncard_image_of_injective _ hinj, Set.ncard_coe_finset, Nat.card_Ico]
    show n + 2 - 2 = (BitVec.ofNat 8 n).toNat
    rw [BitVec.toNat_ofNat, Nat.mod_eq_of_lt hn, Nat.add_sub_cancel]
  · have hmap : (oneFile n).imap x = false :=
      decide_eq_false (not_or.2 ⟨hx, not_or.2 ⟨h1, h2⟩⟩)
    rw [hmap]
    refine oneFile_tree.refs_eq_zero.2 ?_
    intro d k he
    obtain ⟨_, ⟨_, e⟩ | ⟨_, _, e⟩⟩ := oneFile_entry.1 he
    · exact h1 e
    · exact h2 e

/-- It is consistent. -/
lemma oneFile_consistent {n : Nat} (hn : n < 256) : (oneFile n).Consistent where
  tree := oneFile_tree
  links := oneFile_links hn
  aligned d hl := by
    obtain rfl := oneFile_live.1 hl
    exact Nat.dvd_mul_left _ _
  reserved := rfl
  held x hx := by
    by_cases h : x = 1 ∨ x = 2
    · obtain rfl | rfl := h
      · exact ⟨by decide, oneFile_imap⟩
      · exact ⟨by decide, by simp [oneFile]⟩
    · have hheld : (oneFile n).held x = 0 := if_neg h
      omega

/-- Its root is reached. -/
lemma oneFile_reached {n : Nat} : (oneFile n).Reached 1 :=
  ⟨fun _ _ => .ok, [], 1, Nat.one_pos, if_pos oneFile_usable⟩

/-- The first name of the file. -/
def firstName : Name := ⟨[99, 97], by decide, by decide⟩

/-- A new name of the file. -/
def newName : Name := ⟨[110], by decide, by decide⟩

/-- A file with one name gets a second one. -/
theorem link_counts_second_name : linkSystem.init (oneFile 1) ∧
    ∃ tr, tr.length = 1 ∧ linkSystem.Exec (oneFile 1) tr ∧
      Always FileSystem.LinksExact (oneFile 1) tr := by
  have h0 := oneFile_consistent (n := 1) (by decide)
  have hf : (oneFile 1).Finds 1 2 := ⟨fun _ => .ok, firstName, by decide⟩
  have ha : (oneFile 1).Adds 1 newName 3 := ⟨fun _ => .ok, fun _ => .ok, by decide, by decide⟩
  have ex : linkSystem.Exec (oneFile 1) [_] :=
    .cons (.link oneFile_reached hf rfl oneFile_reached ha) .nil
  refine ⟨h0, _, rfl, ex, link_counts h0 ex ⟨?_, trivial⟩⟩
  show (BitVec.ofNat 8 1) ≠ 255
  decide

/-- An open file with 255 names gets one more: its count wraps to 0. -/
theorem link_counts_wrap : ∃ s s', linkSystem.init s ∧ LinkStep s (.link 2) s' ∧ ¬ s'.LinksExact := by
  have h0 := oneFile_consistent (n := 255) (by decide)
  have hf : (oneFile 255).Finds 1 2 := ⟨fun _ => .ok, firstName, by decide⟩
  have ha : (oneFile 255).Adds 1 newName 257 :=
    ⟨fun _ => .ok, fun _ => .ok, by decide, by decide⟩
  refine ⟨oneFile 255, _, h0, .link oneFile_reached hf rfl oneFile_reached ha, ?_⟩
  intro hl
  -- there are 256 entries then, and the count is 0
  obtain ⟨hk, hfree⟩ := h0.adds oneFile_reached ha
  have hlive := h0.reached oneFile_reached
  have hput : (((oneFile 255).link 1 257 newName 2).inodes 1).iNlinks ≠ 0 := by
    rw [FileSystem.link, iNlinks_setDir]
    exact hlive.iNlinks
  have hr := hl 2 (by decide)
  have hcount : (((oneFile 255).linked 1 257 newName 2).inodes 2).iNlinks = 0 := by decide
  rw [show (oneFile 255).inodeAt 1 2 = 2 from rfl, hcount, show (0 : BitVec 8).toNat = 0 from rfl, ite_self,
    linked, iput_of_iNlinks hput, hierarchy_iput,
    h0.hierarchy_linked hlive hk hfree (by decide) rfl,
    Hierarchy.refs_add h0.tree.finite (not_entry hfree), if_pos rfl] at hr
  cases hr

end OldLinux.Fs
