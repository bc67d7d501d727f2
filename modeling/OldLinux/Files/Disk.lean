import OldLinux.Bitmap.Alloc
import OldLinux.Files.Namei
import OldLinux.Fs.DirFile

/-!
# The mounted disk

The disk of the mounted root as the functions on inodes find it, with the operations of `Services`: the
blocks of the inodes, the blocks of files and directories, and the super block with the bitmaps. Some
blocks may be unreadable, always the same ones, but for a zone that `new_block` has just given: its buffer is
up to date (`delivers`). The memory is left as it was. The calls run one at a time, so that nobody else has a
buffer of a zone that is taken or freed.

`find_entry` only reads, so it is that of `FileSys` on a single file. `create_block` and `add_entry` are
translated again, since here `new_block` is that of the bitmaps and can panic.
-/

namespace OldLinux.Files
open Lib Fs Function

/-- The disk, with the zones that `new_block` has returned and those that `free_block` was given. -/
structure RootDisk (μ : Type) where
  super : SuperBlock
  /-- The inodes by number; none for one whose block cannot be read. -/
  dinode : Nat → Option DInode
  blocks : Nat × Nat → Bytes
  currentTime : Nat
  taken : List (Nat × Nat)
  given : List (Nat × Nat)
  memory : μ

/-- What a path has between two slashes, as a name. -/
def nameOf (name : List Char) : Option Name :=
  let chars := name.map fun c => BitVec.ofNat 8 c.toNat
  if h : chars ≠ [] ∧ 0 ∉ chars then some ⟨chars, h.1, h.2⟩ else none

namespace RootDisk
variable {μ : Type}

/-! ## Inodes -/

/-- The loads of `read_inode`; without a super block, it follows a null pointer. -/
def readInode (dev nr : Nat) : Prog (RootDisk μ) DInode := do
  let k ← Prog.get
  match Bitmap.getSuper k.super dev, k.dinode nr with
  | none, _ => Prog.fault
  | some _, none => Prog.panic "unable to read i-node block"
  | some _, some d => pure d

/-- The stores of `write_inode`. -/
def writeInode (dev nr : Nat) (d : DInode) : Prog (RootDisk μ) Unit := do
  let k ← Prog.get
  match Bitmap.getSuper k.super dev, k.dinode nr with
  | none, _ => Prog.fault
  | some _, none => Prog.panic "unable to read i-node block"
  | some _, some _ => Prog.modify fun k => { k with dinode := update k.dinode nr (some d) }

/-- What `new_inode` does to the inode bitmap: the number that it takes. -/
def newInodeBit (dev : Nat) : Prog (RootDisk μ) (Option Nat) := fun k =>
  match Bitmap.newInode k.super dev (some .zero) k.currentTime with
  | .ret (inode, sb) => .ret (inode.map MInode.iNum, { k with super := sb })
  | .panic msg => .panic msg
  | .fault => .fault

/-- What `free_inode` does to the inode bitmap, for an inode without links. -/
def freeInodeBit (dev nr : Nat) : Prog (RootDisk μ) Unit := fun k =>
  match Bitmap.freeInode k.super (some { MInode.zero with iDev := dev, iNum := nr }) with
  | .ret (_, sb) => .ret ((), { k with super := sb })
  | .panic msg => .panic msg
  | .fault => .fault

/-! ## Zones -/

/-- `new_block(dev)`; zone 0 is no zone of a file. -/
def newBlock (dev : Nat) : Prog (RootDisk μ) Int := fun k =>
  match Bitmap.newBlock k.super dev fun _ => some 1 with
  | .ret (z, sb) =>
    let k := { k with super := sb }
    if z = 0 then .ret (0, k)
    else .ret (z, { k with
      blocks := update k.blocks (dev, z.toNat) fun _ => 0
      taken := (dev, z.toNat) :: k.taken })
  | .panic msg => .panic msg
  | .fault => .fault

/-- `free_block(dev, block)`. -/
def freeBlock (dev block : Nat) : Prog (RootDisk μ) Unit := fun k =>
  match Bitmap.freeBlock k.super dev block none with
  | .ret sb => .ret ((), { k with super := sb, given := (dev, block) :: k.given })
  | .panic msg => .panic msg
  | .fault => .fault

variable (reads : Nat × Nat → Bool)

/-- `for (i=0;i<512;i++,p++) if (*p) f(dev,*p);` on the block in a zone, if it can be read. -/
def forEntries (dev block : Nat) (f : Nat → Prog (RootDisk μ) Unit) : Prog (RootDisk μ) Unit := do
  let k ← Prog.get
  if reads (dev, block) then
    forM (List.range 512) fun i =>
      let p := (entry (k.blocks (dev, block)) i).toNat
      if p ≠ 0 then f p else pure ()
  else pure ()

/-- `free_ind(dev, block)`. -/
def freeInd (dev block : Nat) : Prog (RootDisk μ) Unit :=
  if block = 0 then pure ()
  else do
    forEntries reads dev block (freeBlock dev)
    freeBlock dev block

/-- `free_dind(dev, block)`. -/
def freeDind (dev block : Nat) : Prog (RootDisk μ) Unit :=
  if block = 0 then pure ()
  else do
    forEntries reads dev block (freeInd reads dev)
    freeBlock dev block

/-- The zones that `truncate` frees. -/
def freeZones (dev : Nat) (zone : Nat → BitVec 16) : Prog (RootDisk μ) Unit := do
  forM (List.range 7) fun i => if zone i ≠ 0 then freeBlock dev (zone i).toNat else pure ()
  freeInd reads dev (zone 7).toNat
  freeDind reads dev (zone 8).toNat

/-! ## The blocks of a file -/

/-- `if (!inode->i_zone[i]) if (inode->i_zone[i]=new_block(inode->i_dev)) ..`. -/
def ensureZone (inode : MInode) (i : Nat) : Prog (RootDisk μ) MInode := do
  if inode.iZone i = 0 then
    let z ← newBlock inode.iDev
    let k ← Prog.get
    let inode := { inode with iZone := update inode.iZone i (.ofInt 16 z) }
    if inode.iZone i ≠ 0 then pure { inode with iCtime := k.currentTime, iDirt := true }
    else pure inode
  else pure inode

/-- `bread` of the index block in zone `z`, and its entry `e`, with
    `if (!i) if (i=new_block(inode->i_dev)) ..`; 0 if it cannot be read. -/
def readEntry (dev z e : Nat) : Prog (RootDisk μ) Nat := do
  let k ← Prog.get
  if reads (dev, z) then
    let i := (entry (k.blocks (dev, z)) e).toNat
    if i = 0 then
      let i ← newBlock dev
      if i ≠ 0 then
        Prog.modify fun k => { k with
          blocks := update k.blocks (dev, z) (setEntry (k.blocks (dev, z)) e (.ofInt 16 i)) }
        pure i.toNat
      else pure 0
    else pure i
  else pure 0

/-- `create_block(inode, block)`: the zone, and the inode afterwards. -/
def createBlock (inode : MInode) (block : Nat) : Prog (RootDisk μ) (Nat × MInode) := do
  if block ≥ maxBlocks then Prog.panic "_bmap: block>big"
  else if block < 7 then
    let inode ← ensureZone inode block
    pure ((inode.iZone block).toNat, inode)
  else if block - 7 < 512 then
    let inode ← ensureZone inode 7
    if inode.iZone 7 = 0 then pure (0, inode)
    else
      let z ← readEntry reads inode.iDev (inode.iZone 7).toNat (block - 7)
      pure (z, inode)
  else
    let block := block - 7 - 512
    let inode ← ensureZone inode 8
    if inode.iZone 8 = 0 then pure (0, inode)
    else
      let i ← readEntry reads inode.iDev (inode.iZone 8).toNat (block >>> 9)
      if i = 0 then pure (0, inode)
      else
        let z ← readEntry reads inode.iDev i (block &&& 511)
        pure (z, inode)

/-! ## Directories -/

/-- A file of its own, for the functions that only read and write in its blocks. -/
def fileSys (k : RootDisk μ) (inode : MInode) : FileSys Unit :=
  ⟨⟨k.blocks, fun _ => false⟩, fun _ => inode⟩

/-- `find_entry(dir, name, namelen, &de)`: the inode number of the entry. -/
def findEntry (dev : Nat) (dir : DInode) (name : List Char) : Prog (RootDisk μ) (Option Nat) := do
  let k ← Prog.get
  let fs := k.fileSys { MInode.zero with toDInode := dir, iDev := dev }
  match nameOf name with
  | none => pure none
  | some name =>
    -- `bmap` takes no new block
    match fs.findEntry (fun disk _ => (0, disk)) k.currentTime reads () name with
    | .ret de => pure (de.map fun de => (fs.deref de).inode.toNat)
    | .panic msg => Prog.panic msg
    | .fault => Prog.fault

/-- The bit of a zone is set. -/
def marked (k : RootDisk μ) (z : Nat) : Bool :=
  let bit := (z - ((k.super.sFirstdatazone.toNat : Int) - 1)).toNat
  match k.super.sZmap (bit / 8192) with
  | some bh => bh.bData.bit (bit % 8192)
  | none => false

/-- The blocks that `bread` delivers in a turn that begins in `k`: those that can be read, and the zones that
    get marked in it, since `new_block` leaves their buffers up to date. -/
def delivers (k : RootDisk μ) (a : Nat × Nat) : Bool := reads a || !k.marked a.2

/-- The head of a turn of `add_entry` at entry `i`. -/
def fetchOrCreate (dir : MInode) (de : Option EntryPtr) (i : Nat) :
    Prog (RootDisk μ) (Fetched × MInode) := do
  match de with
  | none => Prog.fault
  | some de =>
    if de.index < dirEntriesPerBlock then pure (.entry de, dir)
    else
      let k ← Prog.get
      let (block, dir) ← createBlock (k.delivers reads) dir (i / dirEntriesPerBlock)
      if block = 0 then pure (.null, dir)
      else if k.delivers reads (dir.iDev, block) then pure (.entry ⟨(dir.iDev, block), 0⟩, dir)
      else pure (.skip, dir)

/-- The rest of the turn: whether the entry is used. -/
def useEntry (dir : MInode) (name : Name) (de : EntryPtr) (i : Nat) :
    Prog (RootDisk μ) (Bool × MInode) := do
  let k ← Prog.get
  let (used, fs) := (k.fileSys dir).useEntry k.currentTime () name de i
  Prog.modify fun k => { k with blocks := fs.disk.blocks }
  pure (used, fs.inode ())

/-- The loop of `add_entry` at entry `i`; the first argument bounds its number of turns. -/
def addFrom (name : Name) :
    Nat → Option EntryPtr → Nat → MInode → Prog (RootDisk μ) (Option EntryPtr × MInode)
  | 0, _, _, _ => Prog.fault
  | n + 1, de, i, dir => do
    match ← fetchOrCreate reads dir de i with
    | (.entry de, dir) =>
      let (used, dir) ← useEntry dir name de i
      if used then pure (some de, dir) else addFrom name n (some de.next) (i + 1) dir
    | (.skip, dir) => addFrom name n none (i + dirEntriesPerBlock) dir
    | (.null, dir) => pure (none, dir)

/-- `add_entry(dir, name, namelen, &de)` and, when it finds a place, `de->inode = nr`. -/
def addEntry (dev : Nat) (upd : DirUpdate) (name : List Char) (nr : Nat) :
    Prog (RootDisk μ) (Bool × DirUpdate) := do
  let dir := { MInode.zero with
    toDInode := upd.inode, iDev := dev, iCtime := upd.ctime, iDirt := upd.dirt }
  match nameOf name with
  | none => pure (false, upd)
  | some name =>
    if dir.iZone 0 = 0 ∨ ¬ reads (dev, (dir.iZone 0).toNat) then pure (false, upd)
    else
      let (de, dir) ← addFrom reads name (dir.iSize.toNat / dirEntrySize + 2)
        (some ⟨(dev, (dir.iZone 0).toNat), 0⟩) 0 dir
      let upd := ⟨dir.toDInode, dir.iCtime, dir.iDirt⟩
      match de with
      | none => pure (false, upd)
      | some de =>
        Prog.modify fun k => { k with
          blocks := ((k.fileSys dir).setEntryInode de (.ofNat 16 nr)).disk.blocks }
        pure (true, upd)

/-! ## The services -/

/-- A function on the memory. -/
def onMemory {α : Type} (m : Prog μ α) : Prog (RootDisk μ) α :=
  Prog.zoom RootDisk.memory (fun k x => { k with memory := x }) m

/-- What the system calls ask of the mounted disk; the memory is as in `sv`. -/
def services (sv : Services μ) : Services (RootDisk μ) where
  readInode := readInode
  writeInode := writeInode
  findEntry := findEntry reads
  addEntry := addEntry reads
  freeZones := freeZones reads
  freeInodeBit := freeInodeBit
  newInodeBit := newInodeBit
  getFreePage := onMemory sv.getFreePage
  freePage p := onMemory (sv.freePage p)
  getTwoFreePages := onMemory sv.getTwoFreePages
  freeTwoPages nr := onMemory (sv.freeTwoPages nr)
  copyPageTables c nr := onMemory (sv.copyPageTables c nr)
  freePageTables c := onMemory (sv.freePageTables c)

end RootDisk

end OldLinux.Files
