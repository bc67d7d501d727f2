import OldLinux.Fs.Directory
import OldLinux.Files.Inode

/-!
# Calls on names

Model of `find_entry`, `add_entry`, `get_dir`, `open_namei` with `O_CREAT`, `empty_dir`, `sys_mkdir`,
`sys_rmdir`, `sys_unlink` and `sys_link` (`fs/namei.c`) and of `iput` (`fs/inode.c`) on the inodes of
a device, one call after the other. A state has the inodes with their directory entries, the bits of
the inode map, and for every inode the number of references that processes keep between the calls.
The steps are the calls that succeed.
-/

namespace OldLinux.Fs
open Lib Function
open Files (isReg isDir)

/-- What reading a block of a directory comes to: `bmap` finds none, or `bread` fails. -/
inductive BlockRead where
  | ok
  | hole
  | error
  deriving DecidableEq

namespace Dir

/-- The loop of `find_entry` at the first entry of a block, with `n` blocks to go: the entry, null,
    or nothing if `bh->b_data` is read through a null pointer. -/
def findLoop (d : Dir) (reads : Nat → BlockRead) (name : Name) (entries : Nat) :
    Nat → Nat → Option (Option Nat)
  | 0, _ => some none
  | n + 1, i =>
    if reads (i / dirEntriesPerBlock) = .ok then
      match d.findIn name entries i dirEntriesPerBlock with
      | some k => some (some k)
      | none =>
        if i + dirEntriesPerBlock < entries then findLoop d reads name entries n (i + dirEntriesPerBlock)
        else some none
    else if i = 0 then some none
    else if i + dirEntriesPerBlock < entries then none
    else some none

/-- `find_entry(dir, name, namelen, &de)`. -/
def findEntry (d : Dir) (reads : Nat → BlockRead) (name : Name) : Option (Option Nat) :=
  if d.iZone0 = 0 then some none
  else findLoop d reads name d.entries (d.entries / dirEntriesPerBlock + 1) 0

/-- The loop of `add_entry` at the first entry of a block, with `n` blocks to go. -/
def addLoop (d : Dir) (reads : Nat → BlockRead) : Nat → Nat → Option Nat
  | 0, _ => none
  | n + 1, i =>
    if reads (i / dirEntriesPerBlock) = .ok then
      match d.freeIn i dirEntriesPerBlock with
      | some k => some k
      | none => addLoop d reads n (i + dirEntriesPerBlock)
    else none

/-- The entry that `add_entry(dir, name, namelen, &de)` uses, if it succeeds. -/
def addEntry (d : Dir) (reads : Nat → BlockRead) : Option Nat :=
  if d.iZone0 = 0 then none else addLoop d reads (d.entries / dirEntriesPerBlock + 1) 0

/-- The loop of `empty_dir` inside a block, at entry `nr` with `n` entries of the block to go. -/
def emptyIn (d : Dir) : Nat → Nat → Bool
  | _, 0 => true
  | nr, n + 1 =>
    if nr < d.entries then
      if (d.slot nr).inode ≠ 0 then false else emptyIn d (nr + 1) n
    else true

/-- The loop of `empty_dir` at the first entry of a block, with `n` blocks to go. Without a block it releases the
    buffer that it has released already, and panics. -/
def emptyLoop (d : Dir) (reads : Nat → BlockRead) : Nat → Nat → Bool
  | 0, _ => true
  | n + 1, nr =>
    if nr < d.entries then
      match reads (nr / dirEntriesPerBlock) with
      | .hole => false
      | .error => false
      | .ok => emptyIn d nr dirEntriesPerBlock && emptyLoop d reads n (nr + dirEntriesPerBlock)
    else true

/-- `empty_dir(inode)` for the inode number `num`. -/
def emptyDir (d : Dir) (reads : Nat → BlockRead) (num : BitVec 16) : Bool :=
  if d.entries < 2 ∨ d.iZone0 = 0 ∨ reads 0 ≠ .ok then false
  else if (d.slot 0).inode ≠ num ∨ (d.slot 1).inode = 0 ∨
      (d.slot 0).str ≠ [46] ∨ (d.slot 1).str ≠ [46, 46] then
    false
  else
    emptyIn d 2 (dirEntriesPerBlock - 2) &&
      emptyLoop d reads (d.entries / dirEntriesPerBlock) dirEntriesPerBlock

/-- The contents of a new inode. -/
def blank : Dir where
  iSize := 0
  iZone0 := 0
  slot _ := ⟨0, List.replicate 14 0, length_noName⟩

end Dir

/-- An inode with the entries of its blocks. -/
structure LinkInode where
  iMode : BitVec 16
  iNlinks : BitVec 8
  dir : Dir

/-- The inodes of a device by their numbers, the inode map, and the references that are kept. -/
structure FileSystem where
  inodes : BitVec 16 → LinkInode
  imap : BitVec 16 → Bool
  held : BitVec 16 → Nat

namespace FileSystem

/-- `inode->i_nlinks = n`. -/
def setNlinks (s : FileSystem) (x : BitVec 16) (n : BitVec 8) : FileSystem :=
  { s with inodes := update s.inodes x { s.inodes x with iNlinks := n } }

/-- The entries of a directory are changed. -/
def setDir (s : FileSystem) (x : BitVec 16) (d : Dir) : FileSystem :=
  { s with inodes := update s.inodes x { s.inodes x with dir := d } }

/-- `new_inode(dev)`, with what its caller puts into the inode `x`. -/
def newInode (s : FileSystem) (x : BitVec 16) (inode : LinkInode) : FileSystem :=
  { s with inodes := update s.inodes x inode, imap := update s.imap x true }

/-- `iput(inode)` of a reference that the call had taken: without links and other references the
    inode is truncated and freed. -/
def iput (s : FileSystem) (x : BitVec 16) : FileSystem :=
  if s.held x = 0 ∧ (s.inodes x).iNlinks = 0 then
    { s with inodes := update s.inodes x ⟨0, 0, .blank⟩, imap := update s.imap x false }
  else s

/-- A reference is kept for a process. -/
def hold (s : FileSystem) (x : BitVec 16) : FileSystem :=
  { s with held := update s.held x (s.held x + 1) }

/-- What `permission` denies for everyone, a directory without links, and what `S_ISDIR` denies. -/
def usable (s : FileSystem) (x : BitVec 16) : Bool :=
  isDir (s.inodes x).iMode && (s.inodes x).iNlinks != 0

/-- The directory that `get_dir` reaches from `x`. -/
def getDir (s : FileSystem) (reads : BitVec 16 → Nat → BlockRead) :
    List Name → BitVec 16 → Option (BitVec 16)
  | [], x => if s.usable x then some x else none
  | name :: path, x =>
    if s.usable x then
      match (s.inodes x).dir.findEntry (reads x) name with
      | some (some k) => getDir s reads path ((s.inodes x).dir.slot k).inode
      | _ => none
    else none

/-- The call has found the directory `dir`, from the root or the working directory of its process. -/
def Reached (s : FileSystem) (dir : BitVec 16) : Prop :=
  ∃ reads path start, 0 < s.held start ∧ s.getDir reads path start = some dir

/-- `find_entry` has found the entry `k` of `dir`. -/
def Finds (s : FileSystem) (dir : BitVec 16) (k : Nat) : Prop :=
  ∃ reads name, (s.inodes dir).dir.findEntry reads name = some (some k)

/-- `find_entry` has returned null for the name, and `add_entry` uses the entry `k` of `dir`. -/
def Adds (s : FileSystem) (dir : BitVec 16) (name : Name) (k : Nat) : Prop :=
  ∃ reads reads', (s.inodes dir).dir.findEntry reads name = some none ∧
    (s.inodes dir).dir.addEntry reads' = some k

/-- The inode number in an entry. -/
def inodeAt (s : FileSystem) (dir : BitVec 16) (k : Nat) : BitVec 16 := ((s.inodes dir).dir.slot k).inode

/-- `de->inode = x` in a new entry of `dir`. -/
def link (s : FileSystem) (dir : BitVec 16) (k : Nat) (name : Name) (x : BitVec 16) : FileSystem :=
  s.setDir dir ((s.inodes dir).dir.addAt k name x)

/-- `de->inode = 0`. -/
def unlink (s : FileSystem) (dir : BitVec 16) (k : Nat) : FileSystem :=
  s.setDir dir ((s.inodes dir).dir.clear k)

/-- `if (flag & O_TRUNC) truncate(inode)`; a directory is not opened with `O_TRUNC`. -/
def truncated (s : FileSystem) (x : BitVec 16) (trunc : Bool) : FileSystem :=
  if trunc = true ∧ isReg (s.inodes x).iMode = true then s.setDir x .blank else s

/-- `open_namei`, when it has made the inode `x`. -/
def opened (s : FileSystem) (dir : BitVec 16) (k : Nat) (name : Name) (x mode : BitVec 16) :
    FileSystem :=
  let s := s.newInode x ⟨mode, 1, .blank⟩
  let s := s.link dir k name x
  let s := s.iput dir
  s.hold x

/-- `sys_mkdir`, when it has made the inode `x`. -/
def madeDir (s : FileSystem) (dir : BitVec 16) (k : Nat) (name : Name) (x mode zone : BitVec 16) :
    FileSystem :=
  let s := s.newInode x ⟨mode, 2, .newDir zone x dir⟩
  let s := s.link dir k name x
  let s := s.setNlinks dir ((s.inodes dir).iNlinks + 1)
  let s := s.iput dir
  s.iput x

/-- `sys_link`, when it has found the inode `x` of the old name. -/
def linked (s : FileSystem) (dir : BitVec 16) (k : Nat) (name : Name) (x : BitVec 16) : FileSystem :=
  let s := s.link dir k name x
  let s := s.iput dir
  let s := s.setNlinks x ((s.inodes x).iNlinks + 1)
  s.iput x

/-- `sys_unlink`, when it has found the inode `x` in the entry `k`. -/
def unlinked (s : FileSystem) (dir : BitVec 16) (k : Nat) (x : BitVec 16) : FileSystem :=
  let s := if (s.inodes x).iNlinks = 0 then s.setNlinks x 1 else s
  let s := s.unlink dir k
  let s := s.setNlinks x ((s.inodes x).iNlinks - 1)
  let s := s.iput x
  s.iput dir

/-- `sys_rmdir`, when it has found the inode `x` in the entry `k`. -/
def removedDir (s : FileSystem) (dir : BitVec 16) (k : Nat) (x : BitVec 16) : FileSystem :=
  let s := s.unlink dir k
  let s := s.setNlinks x 0
  let s := s.setNlinks dir ((s.inodes dir).iNlinks - 1)
  let s := s.iput dir
  s.iput x

end FileSystem

open FileSystem

/-- The calls: with `open` the ones that keep a reference, and with `release` those that give one
    back. -/
inductive LinkEvent where
  | open
  | mkdir (dir : BitVec 16)
  | link (oldinode : BitVec 16)
  | unlink
  | rmdir
  | release

/-- The calls that succeed. -/
inductive LinkStep : FileSystem → LinkEvent → FileSystem → Prop where
  | create {s dir k name} {x mode : BitVec 16} : s.Reached dir → s.Adds dir name k →
    s.imap x = false → isReg mode = true →
    LinkStep s .open (s.opened dir k name x mode)
  | old {s dir k trunc} : s.Reached dir → s.Finds dir k →
    LinkStep s .open ((s.truncated (s.inodeAt dir k) trunc).hold (s.inodeAt dir k))
  | mkdir {s dir k name} {x mode zone : BitVec 16} : s.Reached dir → s.Adds dir name k →
    s.imap x = false → isDir mode = true → zone ≠ 0 →
    LinkStep s (.mkdir dir) (s.madeDir dir k name x mode zone)
  | link {s dir k name olddir oldk} : s.Reached olddir → s.Finds olddir oldk →
    isReg (s.inodes (s.inodeAt olddir oldk)).iMode = true →
    s.Reached dir → s.Adds dir name k →
    LinkStep s (.link (s.inodeAt olddir oldk)) (s.linked dir k name (s.inodeAt olddir oldk))
  | unlink {s dir k} : s.Reached dir → s.Finds dir k →
    isReg (s.inodes (s.inodeAt dir k)).iMode = true →
    LinkStep s .unlink (s.unlinked dir k (s.inodeAt dir k))
  | rmdir {s dir k reads} : s.Reached dir → s.Finds dir k →
    s.inodeAt dir k ≠ dir → isDir (s.inodes (s.inodeAt dir k)).iMode = true →
    (s.inodes (s.inodeAt dir k)).dir.emptyDir reads (s.inodeAt dir k) = true →
    LinkStep s .rmdir (s.removedDir dir k (s.inodeAt dir k))
  | release {s x} : 0 < s.held x →
    LinkStep s .release ({ s with held := update s.held x (s.held x - 1) }.iput x)

variable {k i n : Nat} {name : Name} {reads : Nat → BlockRead}

/-! ## Directories -/

namespace Dir
variable {d : Dir} {entries : Nat}

/-- The search finds a used entry. -/
lemma findLoop_found (h : d.findLoop reads name entries n i = some (some k)) :
    k < entries ∧ (d.slot k).inode ≠ 0 := by
  induction n generalizing i with
  | zero => cases h
  | succ n ih =>
    rw [findLoop] at h
    split at h
    · split at h
      · next hf =>
        cases h
        obtain ⟨_, he, h0, _⟩ := findIn_some hf
        exact ⟨he, h0⟩
      · split at h
        · exact ih h
        · cases h
    split at h
    · cases h
    split at h <;> cases h

/-- `find_entry` finds live entries. -/
lemma findEntry_found (h : d.findEntry reads name = some (some k)) : d.Live k := by
  rw [findEntry] at h
  split at h
  · cases h
  · exact findLoop_found h

/-- The search for a place finds one that is not live. -/
lemma addLoop_some (ha : d.Aligned) (hi : i ≤ d.entries) (h : d.addLoop reads n i = some k) :
    k ≤ d.entries ∧ ¬ d.Live k := by
  induction n generalizing i with
  | zero => cases h
  | succ n ih =>
    rw [addLoop] at h
    split at h
    · split at h
      · next hf =>
        cases h
        exact ha.freeIn_some hi hf
      · next hf => exact ih (ha.freeIn_none (by decide) hf) h
    · cases h

/-- `add_entry` uses an entry that is not live and leaves no gap. -/
lemma addEntry_some (ha : d.Aligned) (h : d.addEntry reads = some k) : k ≤ d.entries ∧ ¬ d.Live k := by
  rw [addEntry] at h
  split at h
  · cases h
  · exact addLoop_some ha (Nat.zero_le _) h

/-- No entry of the block is live. -/
lemma emptyIn_true (h : d.emptyIn i n = true) (hi : i ≤ k) (hn : k < i + n) : ¬ d.Live k := by
  induction n generalizing i with
  | zero => omega
  | succ n ih =>
    rw [emptyIn] at h
    split at h
    · split at h
      · cases h
      · next h0 =>
        by_cases e : k = i
        · subst e
          exact fun hl => h0 hl.2
        · exact ih h (by omega) (by omega)
    · next hlt =>
      intro hl
      have := hl.1
      omega

/-- No entry of the block or of the blocks behind it is live. -/
lemma emptyLoop_true (h : d.emptyLoop reads n i = true) (hb : i % dirEntriesPerBlock = 0) (hi : i ≤ k)
    (hn : k < i + n * dirEntriesPerBlock) : ¬ d.Live k := by
  induction n generalizing i with
  | zero => omega
  | succ n ih =>
    rw [emptyLoop] at h
    split at h
    · -- the entry is in this block, or in one of the next
      have hrest : d.emptyLoop reads n (i + dirEntriesPerBlock) = true → i + dirEntriesPerBlock ≤ k →
          ¬ d.Live k := by
        intro h hk
        refine ih h (by rw [Nat.add_mod_right, hb]) hk ?_
        rw [Nat.succ_mul] at hn
        omega
      split at h
      · cases h
      · cases h
      · obtain ⟨hin, hloop⟩ := Bool.and_eq_true_iff.1 h
        by_cases hk : i + dirEntriesPerBlock ≤ k
        · exact hrest hloop hk
        · exact emptyIn_true hin hi (Nat.lt_of_not_le hk)
    · intro hl
      have := hl.1
      omega

/-- What `empty_dir` has seen: only the first two entries are live. -/
lemma emptyDir_true {num : BitVec 16} (h : d.emptyDir reads num = true) (hl : d.Live k) : k < 2 := by
  rw [emptyDir] at h
  split at h
  · cases h
  split at h
  · cases h
  obtain ⟨hin, hloop⟩ := Bool.and_eq_true_iff.1 h
  have hlt := hl.1
  by_contra h2
  have hsz : dirEntriesPerBlock = 64 := rfl
  by_cases hk : k < dirEntriesPerBlock
  · exact emptyIn_true hin (Nat.le_of_not_lt h2) (by omega) hl
  · refine emptyLoop_true hloop (by decide) (Nat.le_of_not_lt hk) ?_ hl
    rw [hsz]
    omega

/-- The entries after one has been added. -/
lemma entry_addAt (ha : d.Aligned) (hk : k ≤ d.entries) (hf : ¬ d.Live k) {x : BitVec 16} (hx : x ≠ 0)
    {j : Nat} {y : BitVec 16} :
    (d.addAt k name x).Live j ∧ ((d.addAt k name x).slot j).inode = y ↔
      d.Live j ∧ (d.slot j).inode = y ∨ j = k ∧ y = x := by
  rw [ha.live_addAt hk]
  by_cases hj : j = k
  · subst hj
    rw [slot_addAt_self]
    constructor
    · rintro ⟨_, rfl⟩
      exact .inr ⟨rfl, rfl⟩
    · rintro (⟨hl, _⟩ | ⟨_, rfl⟩)
      · exact absurd hl hf
      · exact ⟨.inr ⟨rfl, hx⟩, rfl⟩
  · rw [slot_addAt hj]
    simp [hj]

/-- A new directory has two entries. -/
lemma entry_newDir {zone x parent : BitVec 16} (hx : x ≠ 0) (hp : parent ≠ 0) {j : Nat} {y : BitVec 16} :
    (newDir zone x parent).Live j ∧ ((newDir zone x parent).slot j).inode = y ↔
      j = 0 ∧ y = x ∨ j = 1 ∧ y = parent := by
  have he : (newDir zone x parent).entries = 2 := by simp [entries, newDir, dirEntrySize]
  rw [Live, he]
  by_cases h0 : j = 0
  · subst h0
    constructor
    · rintro ⟨_, rfl⟩
      exact .inl ⟨rfl, rfl⟩
    · rintro (⟨_, rfl⟩ | ⟨e, _⟩)
      · exact ⟨⟨by decide, hx⟩, rfl⟩
      · cases e
  by_cases h1 : j = 1
  · subst h1
    constructor
    · rintro ⟨_, rfl⟩
      exact .inr ⟨rfl, rfl⟩
    · rintro (⟨e, _⟩ | ⟨_, rfl⟩)
      · cases e
      · exact ⟨⟨by decide, hp⟩, rfl⟩
  · refine iff_of_false ?_ ?_
    · rintro ⟨⟨hlt, _⟩, _⟩
      omega
    · rintro (⟨e, _⟩ | ⟨e, _⟩)
      · exact h0 e
      · exact h1 e

/-- The entries after one has been cleared. -/
lemma entry_clear {j : Nat} {y : BitVec 16} :
    (d.clear k).Live j ∧ ((d.clear k).slot j).inode = y ↔ (d.Live j ∧ (d.slot j).inode = y) ∧ j ≠ k := by
  rw [live_clear]
  by_cases hj : j = k
  · subst hj
    simp
  · have hslot : (d.clear k).slot j = d.slot j := update_of_ne hj _ _
    rw [hslot]
    simp [hj]

end Dir

end OldLinux.Fs
