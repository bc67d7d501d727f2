import OldLinux.Fs.Types
import OldLinux.Lib.Tally
import Mathlib.Data.Fintype.Prod
import Mathlib.Data.Fintype.Sum
import Mathlib.Tactic.DeriveFintype

/-!
# The tables of tasks, files and inodes

The state of the descriptor system calls: `task[]`, `file_table[]`, `inode_table[]` and the two pointers
the super block of the mounted root holds. The rest of the kernel these functions call on, the disk with
its directories and bitmaps and the memory, is a state `κ` with the operations of `Services`; nothing is
assumed about them. They are given the fields of an inode they read and give back those they write, so
that they cannot reach a counter.

A pointer to an inode is held by a file table entry in use, by the `pwd` and the `root` of a live task,
and by the super block (`Holder`); a pointer to a file table entry by a descriptor of a live task.
`Counted` says that `f_count` and `i_count` count these pointers.
-/

namespace OldLinux.Files
open Lib Fs Function

/-- `p->state`. -/
inductive TaskState where
  | running
  | interruptible
  | uninterruptible
  | zombie
  | stopped
  | dead
  deriving DecidableEq

/-- `struct task_struct`. -/
structure Task where
  state : TaskState
  signal : BitVec 64
  exitCode : Int
  pid : BitVec 64
  father : BitVec 64
  pgrp : BitVec 64
  leader : Bool
  uid : BitVec 16
  euid : BitVec 16
  gid : BitVec 16
  egid : BitVec 16
  tty : Int
  umask : BitVec 16
  pwd : Option (Fin 32)
  root : Option (Fin 32)
  closeOnExec : BitVec 64
  filp : Fin 20 → Option (Fin 64)

/-- A task that has not exited. -/
def Task.Live (t : Task) : Prop := t.state ≠ .zombie ∧ t.state ≠ .dead

instance (t : Task) : Decidable t.Live := inferInstanceAs (Decidable (_ ∧ _))

/-- The task in a slot of `task[]`, if it has not exited. -/
def liveTask (o : Option Task) : Option Task := o.filter fun t => t.Live

/-- An empty slot has no live task. -/
@[simp] lemma liveTask_none : liveTask none = none := rfl

/-- A live task is live. -/
lemma liveTask_some {t : Task} (h : t.Live) : liveTask (some t) = some t :=
  if_pos (decide_eq_true h)

/-- A task that has exited is not. -/
lemma liveTask_exited {t : Task} (h : ¬ t.Live) : liveTask (some t) = none :=
  if_neg (by rwa [decide_eq_true_eq])

/-- What `add_entry` leaves in the inode of the directory. -/
structure DirUpdate where
  inode : DInode
  ctime : Nat
  dirt : Bool

/-- What the system calls ask of the disk and of the memory. -/
structure Services (κ : Type) where
  /-- The contents `read_inode` finds for an inode number of a device. -/
  readInode : (dev nr : Nat) → Prog κ DInode
  /-- The store of `write_inode`. -/
  writeInode : (dev nr : Nat) → DInode → Prog κ Unit
  /-- `find_entry(dir, name, ..)`: the `inode` field of the entry found. -/
  findEntry : (dev : Nat) → (dir : DInode) → (name : List Char) → Prog κ (Option Nat)
  /-- `add_entry(dir, name, ..)` and, when it finds a place, `de->inode = nr`. -/
  addEntry : (dev : Nat) → (dir : DirUpdate) → (name : List Char) → (nr : Nat) →
    Prog κ (Bool × DirUpdate)
  /-- The calls of `free_block` that `truncate` makes. -/
  freeZones : (dev : Nat) → (zone : Nat → BitVec 16) → Prog κ Unit
  /-- What `free_inode` does to the inode bitmap. -/
  freeInodeBit : (dev nr : Nat) → Prog κ Unit
  /-- The inode number `new_inode` takes from the bitmap. -/
  newInodeBit : (dev : Nat) → Prog κ (Option Nat)
  /-- `get_free_page()`. -/
  getFreePage : Prog κ (Option (BitVec 64))
  /-- `free_page(addr)`. -/
  freePage : BitVec 64 → Prog κ Unit
  /-- `get_two_free_pages()`: whether there are two. -/
  getTwoFreePages : Prog κ Bool
  /-- `free_two_pages(p)` for the pages of the task in slot `nr`. -/
  freeTwoPages : (nr : Fin 64) → Prog κ Unit
  /-- `copy_page_tables(p)` for the task in slot `nr`: whether it returns 0. -/
  copyPageTables : (current nr : Fin 64) → Prog κ Bool
  /-- `free_page_tables(current)`. -/
  freePageTables : (current : Fin 64) → Prog κ Unit

/-- The tables, and the rest of the kernel. -/
structure Tables (κ : Type) where
  task : Fin 64 → Option Task
  fileTable : Fin 64 → File (Fin 32)
  inodeTable : Fin 32 → MInode
  lastAllocatedInode : Fin 32
  sIsup : Option (Fin 32)
  sImount : Option (Fin 32)
  ttyPgrp : Int → BitVec 64
  lastPid : BitVec 64
  currentTime : Nat
  kernel : κ

variable {κ : Type}

/-! ## Access to the tables -/

/-- A service of the rest of the kernel. -/
def service {α : Type} (m : Prog κ α) : Prog (Tables κ) α :=
  Prog.zoom Tables.kernel (fun s k => { s with kernel := k }) m

/-- `current`, the task in slot `c`. -/
def current (c : Fin 64) : Prog (Tables κ) Task := do
  let s ← Prog.get
  match s.task c with
  | some t => pure t
  | none => Prog.fault

/-- Sets fields of `current`. -/
def setCurrent (c : Fin 64) (f : Task → Task) : Prog (Tables κ) Unit :=
  Prog.modify fun s => { s with task := update s.task c ((s.task c).map f) }

/-- The inode in slot `i` of `inode_table`. -/
def inodeAt (i : Fin 32) : Prog (Tables κ) MInode := do
  let s ← Prog.get
  pure (s.inodeTable i)

/-- Sets fields of an inode. -/
def setInode (i : Fin 32) (f : MInode → MInode) : Prog (Tables κ) Unit :=
  Prog.modify fun s => { s with inodeTable := update s.inodeTable i (f (s.inodeTable i)) }

/-- The entry in slot `i` of `file_table`. -/
def fileAt (i : Fin 64) : Prog (Tables κ) (File (Fin 32)) := do
  let s ← Prog.get
  pure (s.fileTable i)

/-- Sets fields of a file table entry. -/
def setFile (i : Fin 64) (f : File (Fin 32) → File (Fin 32)) : Prog (Tables κ) Unit :=
  Prog.modify fun s => { s with fileTable := update s.fileTable i (f (s.fileTable i)) }

/-- `CURRENT_TIME`. -/
def currentTime : Prog (Tables κ) Nat := do
  let s ← Prog.get
  pure s.currentTime

/-! ## References -/

/-- What can point to an inode. -/
inductive Holder where
  | file (f : Fin 64)
  | pwd (t : Fin 64)
  | root (t : Fin 64)
  | isup
  | imount
  deriving DecidableEq, Fintype

namespace Tables

/-- The live task in a slot. -/
def live (s : Tables κ) (t : Fin 64) : Option Task := liveTask (s.task t)

/-- The file table entry a descriptor of a live task points to. -/
def fileRef (s : Tables κ) (d : Fin 64 × Fin 20) : Option (Fin 64) :=
  (s.live d.1).bind fun t => t.filp d.2

/-- The inode a holder points to. -/
def inodeRef (s : Tables κ) : Holder → Option (Fin 32)
  | .file f => if (s.fileTable f).fCount = 0 then none else (s.fileTable f).fInode
  | .pwd t => (s.live t).bind Task.pwd
  | .root t => (s.live t).bind Task.root
  | .isup => s.sIsup
  | .imount => s.sImount

/-- Every `f_count` is the number of descriptors of live tasks that point to the entry, and every
    `i_count` the number of file table entries in use, `pwd` and `root` pointers of live tasks and
    pointers of the mounted root that point to the inode. -/
structure Counted (s : Tables κ) : Prop where
  file : ∀ f, (s.fileTable f).fCount = tally s.fileRef f
  inode : ∀ i, (s.inodeTable i).iCount = tally s.inodeRef i

end Tables

end OldLinux.Files
