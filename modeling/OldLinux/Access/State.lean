import OldLinux.Files.Syscalls
import OldLinux.Fs.FileDev
import OldLinux.Fs.Directory

/-!
# Files and the process that uses them

The state for the system calls with which a process gets at the contents of files: the file system with
the contents of all files, the process with its descriptors, and the file table. An inode is named by
its device and number; `fs.inode k` is the inode in memory if it is there and the one on the disk if it
is not, and an inode that is not allocated is zero. Pipes, terminals and block devices are operations of
`Services` on the rest of the kernel.

Also `iget`, `iput`, `truncate` and the functions of `fs/bitmap.c` on this state.
-/

namespace OldLinux.Access
open Lib Fs Function
open Files (Task isReg isDir isChr)

/-- An inode, by device and number. -/
abbrev Ino := Nat × Nat

/-- What an entry of the file table is open on. -/
inductive Node where
  | file (k : Ino)
  | pipe (p : Nat)
  deriving DecidableEq

/-- The file system, the process and the file table; `pwd` and `root` are `current->pwd` and
`current->root`. -/
structure State (ρ : Type) where
  fs : FileSys Ino
  inodeMap : Ino → Bool
  task : Task
  pwd : Option Ino
  root : Option Ino
  fileTable : Fin 64 → File Node
  now : Nat
  rest : ρ

/-- The rest of the kernel, and its operations on the bitmaps. -/
structure Services (ρ : Type) where
  /-- `new_block(dev)`. -/
  newBlock : Disk → Nat → Nat × Disk
  /-- `free_block(dev, block)`. -/
  freeBlock : (dev block : Nat) → Prog (Disk × ρ) Unit
  /-- The inode number `new_inode` takes from the bitmap. -/
  newInode : (dev : Nat) → Prog ((Ino → Bool) × ρ) (Option Nat)
  /-- What `free_inode` does to the inode bitmap. -/
  freeInode : (dev nr : Nat) → Prog ((Ino → Bool) × ρ) Unit
  /-- What `read_inode` finds for an inode that is not allocated. -/
  stale : Ino → MInode
  /-- `tty_table[tty].pgrp = pgrp`. -/
  setPgrp : (tty : Nat) → (pgrp : BitVec 64) → ρ → ρ
  /-- `rw_char(rw, dev, buf, count)`. -/
  rwChar : (write : Bool) → (dev : BitVec 16) → Bytes → (count : Int) → Prog ρ (Int × Bytes)
  /-- `read_pipe(inode, buf, count)`. -/
  readPipe : (pipe : Nat) → Bytes → (count : Int) → Prog ρ (Int × Bytes)
  /-- `write_pipe(inode, buf, count)`. -/
  writePipe : (pipe : Nat) → Bytes → (count : Int) → Prog ρ Int
  /-- `iput` of the inode of a pipe. -/
  iputPipe : (pipe : Nat) → Prog ρ Unit
  /-- `block_read(dev, &f_pos, buf, count)`: the value returned, the buffer and `f_pos`. -/
  blockRead : (dev : BitVec 16) → Nat → Bytes → (count : Int) → Prog (Disk × ρ) (Int × Bytes × Nat)
  /-- `block_write(dev, &f_pos, buf, count)`: the value returned and `f_pos`. -/
  blockWrite : (dev : BitVec 16) → Nat → Bytes → (count : Int) → Prog (Disk × ρ) (Int × Nat)

variable {ρ : Type} (sv : Services ρ)

/-- An operation of the rest of the kernel. -/
def service {α : Type} (m : Prog ρ α) : Prog (State ρ) α :=
  Prog.zoom State.rest (fun s r => { s with rest := r }) m

/-- An operation on the blocks of the disks. -/
def diskService {α : Type} (m : Prog (Disk × ρ) α) : Prog (State ρ) α :=
  Prog.zoom (fun s => (s.fs.disk, s.rest))
    (fun s p => { s with fs := { s.fs with disk := p.1 }, rest := p.2 }) m

/-- An operation on the inode bitmaps. -/
def mapService {α : Type} (m : Prog ((Ino → Bool) × ρ) α) : Prog (State ρ) α :=
  Prog.zoom (fun s => (s.inodeMap, s.rest)) (fun s p => { s with inodeMap := p.1, rest := p.2 }) m

/-- The inode `k`. -/
def inodeAt (k : Ino) : Prog (State ρ) MInode := do
  let s ← Prog.get
  pure (s.fs.inode k)

/-- Sets fields of an inode. -/
def setInode (k : Ino) (f : MInode → MInode) : Prog (State ρ) Unit :=
  Prog.modify fun s => { s with fs := { s.fs with inode := update s.fs.inode k (f (s.fs.inode k)) } }

/-- `CURRENT_TIME`. -/
def currentTime : Prog (State ρ) Nat := do
  let s ← Prog.get
  pure s.now

/-- `free_block(dev, block)`. -/
def freeBlock (dev block : Nat) : Prog (State ρ) Unit := diskService (sv.freeBlock dev block)

/-- The loop of `free_ind` and `free_dind` over the entries of a block. -/
def forEntries (dev block : Nat) (body : Nat → Prog (State ρ) Unit) : Prog (State ρ) Unit :=
  forM (List.range 512) fun i => do
    let s ← Prog.get
    let p := (entry (s.fs.disk.blocks (dev, block)) i).toNat
    if p ≠ 0 then body p else pure ()

/-- `free_ind(dev, block)`. -/
def freeInd (dev block : Nat) : Prog (State ρ) Unit := do
  if block = 0 then pure ()
  else
    forEntries dev block (freeBlock sv dev)
    freeBlock sv dev block

/-- `free_dind(dev, block)`. -/
def freeDind (dev block : Nat) : Prog (State ρ) Unit := do
  if block = 0 then pure ()
  else
    forEntries dev block (freeInd sv dev)
    freeBlock sv dev block

/-- `truncate(inode)`. -/
def truncate (k : Ino) : Prog (State ρ) Unit := do
  let inode ← inodeAt k
  if isReg inode.iMode || isDir inode.iMode then
    forM (List.range 7) fun i => do
      let inode ← inodeAt k
      if inode.iZone i ≠ 0 then
        freeBlock sv inode.iDev (inode.iZone i).toNat
        setInode k fun inode => { inode with iZone := update inode.iZone i 0 }
      else pure ()
    freeInd sv inode.iDev (inode.iZone 7).toNat
    freeDind sv inode.iDev (inode.iZone 8).toNat
    let now ← currentTime
    setInode k fun inode =>
      { inode with
        iZone := update (update inode.iZone 8 0) 7 0, iSize := 0, iDirt := true
        iMtime := now, iCtime := now }
  else pure ()

/-- `free_inode(inode)`. -/
def freeInode (k : Ino) : Prog (State ρ) Unit := do
  let inode ← inodeAt k
  if inode.iDev = 0 then setInode k fun _ => .zero
  else if inode.iCount > 1 then Prog.panic "free_inode"
  else if inode.iNlinks ≠ 0 then Prog.panic "trying to free inode with links"
  else do
    mapService (sv.freeInode inode.iDev inode.iNum)
    setInode k fun _ => .zero

/-- `iput(inode)`. -/
def iput (k : Ino) : Prog (State ρ) Unit := do
  let inode ← inodeAt k
  if inode.iCount = 0 then Prog.panic "iput: trying to free free inode"
  else if inode.iDev = 0 ∨ inode.iCount > 1 then
    setInode k fun inode => { inode with iCount := inode.iCount - 1 }
  else if inode.iNlinks = 0 then do
    truncate sv k
    freeInode sv k
  else setInode k fun inode => { inode with iCount := inode.iCount - 1, iDirt := false }

/-- `inode->i_count++`, of an `unsigned short`. -/
def addCount (k : Ino) : Prog (State ρ) Unit :=
  setInode k fun inode => { inode with iCount := (inode.iCount + 1) % 65536 }

/-- `iget(dev, nr)`. -/
def iget (dev nr : Nat) : Prog (State ρ) Ino := do
  if dev = 0 then Prog.panic "iget with dev==0"
  else
    let s ← Prog.get
    if s.inodeMap (dev, nr) then
      addCount (dev, nr)
    else setInode (dev, nr) fun _ => { sv.stale (dev, nr) with iCount := 1, iDev := dev, iNum := nr }
    pure (dev, nr)

/-- `new_inode(dev)`. -/
def newInode (dev : Nat) : Prog (State ρ) (Option Ino) := do
  match ← mapService (sv.newInode dev) with
  | none => pure none
  | some nr =>
    let now ← currentTime
    setInode (dev, nr) fun _ =>
      { MInode.zero with
        iCount := 1, iNlinks := 1, iDev := dev, iDirt := true, iNum := nr
        iMtime := now, iAtime := now, iCtime := now }
    pure (some (dev, nr))

end OldLinux.Access
