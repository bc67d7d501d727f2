import OldLinux.Access.State

/-!
# Path names and directories

Model of `find_entry`, `add_entry`, `get_dir`, `dir_namei` and `open_namei` (`fs/namei.c`) on the state of
`Access.State`. The entries of a directory are read from its blocks; `bread` always succeeds. What
`add_entry` returns is where the new entry is, so that the caller can put the inode number into it.
-/

namespace OldLinux.Access
open Lib Fs Function
open Files (Task isReg isDir isChr permission mayExec mayWrite accMode oAccmode oCreat oExcl oTrunc
  openFlag dirNames basename enoent eacces eexist eisdir eperm enospc)

variable {ρ : Type} (sv : Services ρ)

/-- The characters of a name. -/
def bytes (name : List Char) : List (BitVec 8) := name.map fun c => .ofNat 8 c.toNat

/-- `((struct dir_entry *) b_data)[e]`. -/
def dirEntry (data : Bytes) (e : Nat) : DirEntry where
  inode := data.load 2 (dirEntrySize * e)
  name := List.ofFn fun i : Fin nameLen => data (dirEntrySize * e + 2 + i)
  length_name := List.length_ofFn

/-- `((struct dir_entry *) b_data)[e].inode = nr`. -/
def setDirInode (data : Bytes) (e : Nat) (nr : BitVec 16) : Bytes :=
  data.store (n := 2) (dirEntrySize * e) nr

/-- `for (i=0; i < NAME_LEN ; i++) de->name[i]=(i<namelen)?*(name+i):0` for the entry `e`. -/
def setDirName (data : Bytes) (e : Nat) (name : List (BitVec 8)) : Bytes := fun a =>
  if dirEntrySize * e + 2 ≤ a ∧ a < dirEntrySize * e + 2 + nameLen then
    (name.take nameLen).getD (a - (dirEntrySize * e + 2)) 0
  else data a

/-- A program on the file system that may fail. -/
def onFs {α : Type} (f : FileSys Ino → Result (α × FileSys Ino)) : Prog (State ρ) α :=
  Prog.zoom State.fs (fun s fs => { s with fs := fs }) f

/-- `bmap(inode, block)`. -/
def bmap (k : Ino) (block : Nat) : Prog (State ρ) Nat := do
  let now ← currentTime
  onFs fun fs => fs.bmap sv.newBlock now k block

/-- `create_block(inode, block)`. -/
def createBlock (k : Ino) (block : Nat) : Prog (State ρ) Nat := do
  let now ← currentTime
  onFs fun fs => fs.createBlock sv.newBlock now k block

/-- The data of a block. -/
def bread (dev block : Nat) : Prog (State ρ) Bytes := do
  let s ← Prog.get
  pure (s.fs.disk.blocks (dev, block))

/-- New data for a block. -/
def bwrite (dev block : Nat) (data : Bytes) : Prog (State ρ) Unit :=
  Prog.modify fun s => { s with fs := s.fs.putBlock (dev, block) data }

/-- The block of entry `i` in `find_entry`; `block` is that of the entry before. -/
def findBlock (dir : Ino) (i block : Nat) : Prog (State ρ) Nat :=
  if i % dirEntriesPerBlock = 0 ∧ i ≠ 0 then bmap sv dir (i / dirEntriesPerBlock) else pure block

/-- The block of entry `i` in `add_entry`. -/
def addBlock (dir : Ino) (i block : Nat) : Prog (State ρ) Nat :=
  if i % dirEntriesPerBlock = 0 ∧ i ≠ 0 then createBlock sv dir (i / dirEntriesPerBlock) else pure block

/-- The loop of `find_entry` at entry `i`, with the block it is in: the `inode` field of the entry
found. The first argument bounds the number of turns. -/
def findLoop (dir : Ino) (name : List (BitVec 8)) (entries : Nat) :
    Nat → Nat → Nat → Prog (State ρ) (Option Nat)
  | 0, _, _ => pure none
  | n + 1, i, block => do
    let inode ← inodeAt dir
    if i < entries then do
      let block ← findBlock sv dir i block
      if block = 0 then
        -- the next turn looks at `bh->b_data`, and `bh` is a null pointer
        if i + dirEntriesPerBlock < entries then Prog.fault else pure none
      else
        let data ← bread inode.iDev block
        let de := dirEntry data (i % dirEntriesPerBlock)
        if matchEntry (min name.length nameLen) name de then pure (some de.inode.toNat)
        else findLoop dir name entries n (i + 1) block
    else pure none

/-- `find_entry(dir, name, namelen, &de)`: the `inode` field of the entry. -/
def findEntry (dir : Ino) (name : List Char) : Prog (State ρ) (Option Nat) := do
  let inode ← inodeAt dir
  let entries := inode.iSize.toNat / dirEntrySize
  if name = [] then pure none
  else if inode.iZone 0 = 0 then pure none
  else findLoop sv dir (bytes name) entries entries 0 (inode.iZone 0).toNat

/-- `if (i*sizeof(struct dir_entry) >= dir->i_size) ..` for the entry `e` of a block. -/
def extendDir (dir : Ino) (i block e : Nat) : Prog (State ρ) Unit := do
  let inode ← inodeAt dir
  if i * dirEntrySize ≥ inode.iSize.toNat then
    let data ← bread inode.iDev block
    bwrite inode.iDev block (setDirInode data e 0)
    let now ← currentTime
    setInode dir fun inode =>
      { inode with iSize := .ofNat 64 ((i + 1) * dirEntrySize), iDirt := true, iCtime := now }
  else pure ()

/-- The loop of `add_entry` at entry `i`, with the block it is in: the block and the place in it of the
entry that is used. The first argument bounds the number of turns. -/
def addLoop (dir : Ino) (name : List (BitVec 8)) :
    Nat → Nat → Nat → Prog (State ρ) (Option (Nat × Nat))
  | 0, _, _ => pure none
  | n + 1, i, block => do
    let block ← addBlock sv dir i block
    if block = 0 then pure none
    else
      let e := i % dirEntriesPerBlock
      extendDir dir i block e
      let inode ← inodeAt dir
      let data ← bread inode.iDev block
      if (dirEntry data e).inode = 0 then
        let now ← currentTime
        setInode dir fun inode => { inode with iMtime := now }
        bwrite inode.iDev block (setDirName data e name)
        pure (some (block, e))
      else addLoop dir name n (i + 1) block

/-- `add_entry(dir, name, namelen, &de)`. -/
def addEntry (dir : Ino) (name : List Char) : Prog (State ρ) (Option (Nat × Nat)) := do
  let inode ← inodeAt dir
  if name = [] then pure none
  else if inode.iZone 0 = 0 then pure none
  else addLoop sv dir (bytes name) (inode.iSize.toNat / dirEntrySize + 2) 0 (inode.iZone 0).toNat

/-- The loop of `get_dir` at a directory, with the names still to go. -/
def getDirLoop : List (List Char) → Ino → Prog (State ρ) (Option Ino)
  | names, k => do
    let inode ← inodeAt k
    let s ← Prog.get
    if ¬ isDir inode.iMode ∨ permission s.task inode mayExec = 0 then do
      iput sv k
      pure none
    else
      match names with
      | [] => pure (some k)
      | name :: names => do
        match ← findEntry sv k name with
        | none =>
          iput sv k
          pure none
        | some inr =>
          iput sv k
          let k ← iget sv inode.iDev inr
          getDirLoop names k

/-- `!p || !p->i_count` for a pointer to an inode. -/
def unused (p : Option Ino) : Prog (State ρ) Bool := do
  match p with
  | none => pure true
  | some k =>
    let inode ← inodeAt k
    pure (inode.iCount == 0)

/-- `get_dir(pathname)`. -/
def getDir (pathname : List Char) : Prog (State ρ) (Option Ino) := do
  let s ← Prog.get
  if ← unused s.root then Prog.panic "No root inode"
  else if ← unused s.pwd then Prog.panic "No cwd inode"
  else
    match if pathname.head? = some '/' then s.root else if pathname ≠ [] then s.pwd else none with
    | none => pure none
    | some k =>
      addCount k
      getDirLoop sv (dirNames pathname) k

/-- `dir_namei(pathname, ..)`; the name within the directory is `basename pathname`. -/
def dirNamei (pathname : List Char) : Prog (State ρ) (Option Ino) := getDir sv pathname

/-- The part of `open_namei` that makes a new file in the directory `dir`. -/
def openCreate (dir : Ino) (name : List Char) (flag : BitVec 32) (mode : BitVec 16) :
    Prog (State ρ) (Except Int Ino) := do
  let inode ← inodeAt dir
  let s ← Prog.get
  if flag &&& oCreat = 0 then do
    iput sv dir
    pure (.error (-enoent))
  else if permission s.task inode mayWrite = 0 then do
    iput sv dir
    pure (.error (-eacces))
  else
    match ← newInode sv inode.iDev with
    | none =>
      iput sv dir
      pure (.error (-enospc))
    | some k =>
      setInode k fun inode => { inode with iMode := mode, iDirt := true }
      match ← addEntry sv dir name with
      | none =>
        setInode k fun inode => { inode with iNlinks := inode.iNlinks - 1 }
        iput sv k
        iput sv dir
        pure (.error (-enospc))
      | some (block, e) =>
        let new ← inodeAt k
        let inode ← inodeAt dir
        let data ← bread inode.iDev block
        bwrite inode.iDev block (setDirInode data e (.ofNat 16 new.iNum))
        iput sv dir
        pure (.ok k)

/-- The part of `open_namei` that opens the inode `inr` of a device. -/
def openFound (dev inr : Nat) (flag : BitVec 32) : Prog (State ρ) (Except Int Ino) := do
  if flag &&& oExcl ≠ 0 then pure (.error (-eexist))
  else
    let k ← iget sv dev inr
    let inode ← inodeAt k
    let s ← Prog.get
    if (isDir inode.iMode ∧ flag &&& oAccmode ≠ 0) ∨
        permission s.task inode (accMode flag) ≠ accMode flag then do
      iput sv k
      pure (.error (-eperm))
    else
      let now ← currentTime
      setInode k fun inode => { inode with iAtime := now }
      if flag &&& oTrunc ≠ 0 then do
        truncate sv k
        pure (.ok k)
      else pure (.ok k)

/-- `open_namei(pathname, flag, mode, res_inode)`: the inode in `*res_inode` or the error. -/
def openNamei (pathname : List Char) (flag : BitVec 32) (mode : BitVec 16) :
    Prog (State ρ) (Except Int Ino) := do
  let s ← Prog.get
  let flag := openFlag flag
  let mode := (mode &&& 0o777#16 &&& ~~~s.task.umask) ||| 0o100000#16
  match ← dirNamei sv pathname with
  | none => pure (.error (-enoent))
  | some dir =>
    if basename pathname = [] then
      if flag &&& (oAccmode ||| oCreat ||| oTrunc) = 0 then pure (.ok dir)
      else do
        iput sv dir
        pure (.error (-eisdir))
    else
      let inode ← inodeAt dir
      match ← findEntry sv dir (basename pathname) with
      | none => openCreate sv dir (basename pathname) flag mode
      | some inr =>
        iput sv dir
        openFound sv inode.iDev inr flag

end OldLinux.Access
