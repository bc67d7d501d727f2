import OldLinux.Access.Namei
import OldLinux.Fs.Offsets
import OldLinux.Lib.System

/-!
# Getting at the contents of files

Model of `do_open` and `do_close` (`fs/open.c`), `dupfd`, `sys_dup`, `sys_dup2` and `sys_fcntl`
(`fs/fcntl.c`), `sys_lseek`, `sys_read` and `sys_write` (`fs/read_write.c`), and of the runs in which a
process makes these calls one after another.
-/

namespace OldLinux.Access
open Lib Fs Function
open Files (Task isReg isDir isChr oCreat oTrunc oNonblock eperm ebadf einval emfile)

variable {ρ : Type} (sv : Services ρ)

/-- `ESPIPE`. -/
def espipe : Int := 29

def isBlk (m : BitVec 16) : Bool := m &&& Files.sIfmt == 0o060000#16

/-- `IS_BLOCKDEV(MAJOR(dev))`. -/
def isBlockdev (dev : Nat) : Bool := dev >>> 8 == 2 || dev >>> 8 == 3

/-! ## Descriptors -/

/-- The first free descriptor from `arg` on. -/
def freeFd (t : Task) (arg : Nat) : Option (Fin 20) :=
  (List.finRange 20).find? fun fd => arg ≤ fd ∧ t.filp fd = none

/-- The first file table entry not in use. -/
def freeFile (s : State ρ) : Option (Fin 64) :=
  (List.finRange 64).find? fun f => (s.fileTable f).fCount = 0

/-- Sets fields of `current`. -/
def setCurrent (f : Task → Task) : Prog (State ρ) Unit :=
  Prog.modify fun s => { s with task := f s.task }

/-- `current->filp[fd] = f`. -/
def setFd (fd : Fin 20) (f : Option (Fin 64)) : Prog (State ρ) Unit :=
  setCurrent fun t => { t with filp := update t.filp fd f }

/-- `current->close_on_exec &= ~(1<<fd)`. -/
def clearCloseOnExec (fd : Fin 20) : Prog (State ρ) Unit :=
  setCurrent fun t => { t with closeOnExec := t.closeOnExec &&& ~~~(1#64 <<< fd.val) }

/-- The entry in slot `f` of `file_table`. -/
def fileAt (f : Fin 64) : Prog (State ρ) (File Node) := do
  let s ← Prog.get
  pure (s.fileTable f)

/-- Sets fields of a file table entry. -/
def setFile (f : Fin 64) (g : File Node → File Node) : Prog (State ρ) Unit :=
  Prog.modify fun s => { s with fileTable := update s.fileTable f (g (s.fileTable f)) }

/-- `f->f_count = n`. -/
def setFCount (f : Fin 64) (n : Nat) : Prog (State ρ) Unit :=
  setFile f fun file => { file with fCount := n }

/-- `f->f_count++`. -/
def addFCount (f : Fin 64) : Prog (State ρ) Unit :=
  setFile f fun file => { file with fCount := file.fCount + 1 }

/-- The terminal part of `do_open`: whether the open goes on. -/
def openTty (inode : MInode) : Prog (State ρ) Bool := do
  let s ← Prog.get
  let major := inode.iZone 0 >>> 8
  let minor := (inode.iZone 0 &&& 0xff).toNat
  if isChr inode.iMode ∧ major = 4 then
    if s.task.leader ∧ s.task.tty < 0 then do
      setCurrent fun t => { t with tty := minor }
      Prog.modify fun s => { s with rest := sv.setPgrp minor s.task.pgrp s.rest }
      pure true
    else pure true
  else pure (!(isChr inode.iMode ∧ major = 5 ∧ s.task.tty < 0))

/-- `do_open(filename, flag, mode)`. -/
def doOpen (filename : List Char) (flag : BitVec 32) (mode : BitVec 16) : Prog (State ρ) Int := do
  let s ← Prog.get
  let mode := mode &&& (0o777#16 &&& ~~~s.task.umask)
  match freeFd s.task 0 with
  | none => pure (-einval)
  | some fd =>
    clearCloseOnExec fd
    match freeFile s with
    | none => pure (-einval)
    | some f =>
      setFd fd (some f)
      addFCount f
      match ← openNamei sv filename flag mode with
      | .error e =>
        setFd fd none
        setFCount f 0
        pure e
      | .ok k =>
        let inode ← inodeAt k
        if ← openTty sv inode then
          setFile f fun _ =>
            { fMode := inode.iMode, fFlags := flag.setWidth 16, fCount := 1, fInode := some (.file k)
              fPos := 0 }
          pure (fd.val : Int)
        else
          iput sv k
          setFd fd none
          setFCount f 0
          pure (-eperm)

/-- `sys_open`. -/
def sysOpen (filename : List Char) (flag : BitVec 32) (mode : BitVec 16) : Prog (State ρ) Int :=
  doOpen sv filename flag mode

/-- `sys_creat`. -/
def sysCreat (pathname : List Char) (mode : BitVec 16) : Prog (State ρ) Int :=
  doOpen sv pathname (oCreat ||| oTrunc) mode

/-- `iput(filp->f_inode)`. -/
def iputNode : Option Node → Prog (State ρ) Unit
  | none => pure ()
  | some (.file k) => iput sv k
  | some (.pipe p) => service (sv.iputPipe p)

/-- `do_close(fd)`. -/
def doClose (fd : Nat) : Prog (State ρ) Int := do
  if h : fd < 20 then
    clearCloseOnExec ⟨fd, h⟩
    let s ← Prog.get
    match s.task.filp ⟨fd, h⟩ with
    | none => pure (-einval)
    | some f =>
      setFd ⟨fd, h⟩ none
      let file ← fileAt f
      if file.fCount = 0 then Prog.panic "Close: file count is 0"
      else
        setFCount f (file.fCount - 1)
        if file.fCount - 1 ≠ 0 then pure 0
        else
          iputNode sv file.fInode
          pure 0
  else pure (-einval)

/-- `dupfd(fd, arg)`. -/
def dupfd (fd arg : Nat) : Prog (State ρ) Int := do
  let s ← Prog.get
  if h : fd < 20 then
    match s.task.filp ⟨fd, h⟩ with
    | none => pure (-ebadf)
    | some f =>
      if arg ≥ 20 then pure (-einval)
      else
        match freeFd s.task arg with
        | none => pure (-emfile)
        | some new =>
          clearCloseOnExec new
          setFd new (some f)
          addFCount f
          pure (new.val : Int)
  else pure (-ebadf)

/-- `sys_dup2`. -/
def sysDup2 (oldfd newfd : Nat) : Prog (State ρ) Int := do
  let _ ← doClose sv newfd
  dupfd oldfd newfd

/-- `sys_dup`. -/
def sysDup (fildes : Nat) : Prog (State ρ) Int := dupfd fildes 0

/-- `sys_fcntl`. -/
def sysFcntl (fd cmd : Nat) (arg : BitVec 64) : Prog (State ρ) Int := do
  let s ← Prog.get
  if h : fd < 20 then
    match s.task.filp ⟨fd, h⟩ with
    | none => pure (-ebadf)
    | some f =>
      match cmd with
      | 0 => dupfd fd (arg.toNat % 2 ^ 32)
      | 1 => pure ((s.task.closeOnExec >>> fd) &&& 1).toNat
      | 2 =>
        setCurrent fun t =>
          { t with
            closeOnExec :=
              if arg &&& 1 ≠ 0 then t.closeOnExec ||| (1#64 <<< fd)
              else t.closeOnExec &&& ~~~(1#64 <<< fd) }
        pure 0
      | 3 =>
        let file ← fileAt f
        pure file.fFlags.toNat
      | 4 =>
        let keep := oAppend ||| oNonblock.setWidth 16
        setFile f fun file =>
          { file with fFlags := (file.fFlags &&& ~~~keep) ||| (arg.setWidth 16 &&& keep) }
        pure 0
      | _ => pure (-1)
  else pure (-ebadf)

/-! ## Contents -/

/-- The file table entry of a descriptor. -/
def filp (t : Task) (fd : Nat) : Option (Fin 64) :=
  if h : fd < 20 then t.filp ⟨fd, h⟩ else none

/-- `file->f_pos = pos`, and the value that `sys_lseek` returns for it. -/
def seekTo (f : Fin 64) (pos : BitVec 64) : Prog (State ρ) Int := do
  if pos.slt 0 then pure (-einval)
  else
    setFile f fun file => { file with fPos := pos.toNat }
    pure (pos.setWidth 32).toInt

/-- `sys_lseek`. -/
def sysLseek (fd : Nat) (offset : BitVec 64) (origin : BitVec 32) : Prog (State ρ) Int := do
  let s ← Prog.get
  match filp s.task fd with
  | none => pure (-ebadf)
  | some f =>
    let file ← fileAt f
    match file.fInode with
    | none => pure (-ebadf)
    -- `i_dev` of a pipe is 0
    | some (.pipe _) => pure (-ebadf)
    | some (.file k) =>
      let inode ← inodeAt k
      if ¬ isBlockdev inode.iDev then pure (-ebadf)
      else if inode.iPipe then pure (-espipe)
      else if origin = 0 then seekTo f offset
      else if origin = 1 then seekTo f (.ofNat 64 file.fPos + offset)
      -- the sum goes through an `int`
      else if origin = 2 then seekTo f (((inode.iSize + offset).setWidth 32).signExtend 64)
      else pure (-einval)

/-- `filp` for the functions of `fs/file_dev.c`, open on the file `k`. -/
def File.on (file : File Node) (k : Ino) : File Ino :=
  ⟨file.fMode, file.fFlags, file.fCount, some k, file.fPos⟩

section
variable (breads : Nat → Nat × Nat → Bool)

/-- `file_read(inode, filp, buf, count)`: the value returned and the buffer. -/
def fileRead (k : Ino) (f : Fin 64) (buf : Bytes) (count : Int) : Prog (State ρ) (Int × Bytes) := do
  let now ← currentTime
  let file ← fileAt f
  let (n, buf, pos) ← onFs fun fs =>
    (fs.fileReadInt sv.newBlock now breads k (File.on file k) buf count).map
      fun (n, buf, file, fs) => ((n, buf, file.fPos), fs)
  setFile f fun file => { file with fPos := pos }
  pure (n, buf)

/-- `file_write(inode, filp, buf, count)`. -/
def fileWrite (k : Ino) (f : Fin 64) (buf : Bytes) (count : Int) : Prog (State ρ) Int := do
  let now ← currentTime
  let file ← fileAt f
  let (n, pos) ← onFs fun fs =>
    (fs.fileWriteInt sv.newBlock now breads k (File.on file k) buf count).map
      fun (n, file, fs) => ((n, file.fPos), fs)
  setFile f fun file => { file with fPos := pos }
  pure n

/-- `sys_read` with `read` for `file_read`: the value returned and the buffer. -/
def sysReadWith (read : Ino → Fin 64 → Bytes → Int → Prog (State ρ) (Int × Bytes)) (fd : Nat) (buf : Bytes)
    (count : Int) : Prog (State ρ) (Int × Bytes) := do
  let s ← Prog.get
  match filp s.task fd with
  | none => pure (-einval, buf)
  | some f =>
    if count < 0 then pure (-einval, buf)
    else if count = 0 then pure (0, buf)
    else
      let file ← fileAt f
      match file.fInode with
      | none => Prog.fault
      | some (.pipe p) =>
        if file.fMode &&& 1 ≠ 0 then service (sv.readPipe p buf count) else pure (-1, buf)
      | some (.file k) =>
        let inode ← inodeAt k
        if isChr inode.iMode then service (sv.rwChar false (inode.iZone 0) buf count)
        else if isBlk inode.iMode then do
          let (n, buf, pos) ← diskService (sv.blockRead (inode.iZone 0) file.fPos buf count)
          setFile f fun file => { file with fPos := pos }
          pure (n, buf)
        else if isDir inode.iMode || isReg inode.iMode then do
          let count := if count + file.fPos > inode.iSize.toNat then
            ((inode.iSize - .ofNat 64 file.fPos).setWidth 32).toInt else count
          if count ≤ 0 then pure (0, buf) else read k f buf count
        else pure (-einval, buf)

/-- `sys_write` with `write` for `file_write`. -/
def sysWriteWith (write : Ino → Fin 64 → Bytes → Int → Prog (State ρ) Int) (fd : Nat) (buf : Bytes)
    (count : Int) : Prog (State ρ) Int := do
  let s ← Prog.get
  match filp s.task fd with
  | none => pure (-einval)
  | some f =>
    if count < 0 then pure (-einval)
    else if count = 0 then pure 0
    else
      let file ← fileAt f
      match file.fInode with
      | none => Prog.fault
      | some (.pipe p) =>
        if file.fMode &&& 2 ≠ 0 then service (sv.writePipe p buf count) else pure (-1)
      | some (.file k) =>
        let inode ← inodeAt k
        if isChr inode.iMode then do
          let (n, _) ← service (sv.rwChar true (inode.iZone 0) buf count)
          pure n
        else if isBlk inode.iMode then do
          let (n, pos) ← diskService (sv.blockWrite (inode.iZone 0) file.fPos buf count)
          setFile f fun file => { file with fPos := pos }
          pure n
        else if isReg inode.iMode then write k f buf count
        else pure (-einval)

/-- `sys_read`. -/
def sysRead (fd : Nat) (buf : Bytes) (count : Int) : Prog (State ρ) (Int × Bytes) :=
  sysReadWith sv (fileRead sv breads) fd buf count

/-- `sys_write`. -/
def sysWrite (fd : Nat) (buf : Bytes) (count : Int) : Prog (State ρ) Int :=
  sysWriteWith sv (fileWrite sv breads) fd buf count

end

/-! ## Runs -/

/-- A system call. -/
inductive Call where
  | open (filename : List Char) (flag : BitVec 32) (mode : BitVec 16)
  | creat (pathname : List Char) (mode : BitVec 16)
  | dup (fildes : Nat)
  | dup2 (oldfd newfd : Nat)
  | fcntl (fd cmd : Nat) (arg : BitVec 64)
  | lseek (fd : Nat) (offset : BitVec 64) (origin : BitVec 32)
  | read (fd : Nat) (buf : Bytes) (count : Int)
  | write (fd : Nat) (buf : Bytes) (count : Int)

/-- A system call of the process: the value returned. In these runs all blocks can be read. -/
def systemCall : Call → Prog (State ρ) Int
  | .open filename flag mode => sysOpen sv filename flag mode
  | .creat pathname mode => sysCreat sv pathname mode
  | .dup fildes => sysDup fildes
  | .dup2 oldfd newfd => sysDup2 sv oldfd newfd
  | .fcntl fd cmd arg => sysFcntl fd cmd arg
  | .lseek fd offset origin => sysLseek fd offset origin
  | .read fd buf count => do
    let (n, _) ← sysRead sv (fun _ _ => true) fd buf count
    pure n
  | .write fd buf count => sysWrite sv (fun _ _ => true) fd buf count

end OldLinux.Access
