import OldLinux.Files.Namei
import OldLinux.Lib.System

/-!
# System calls on descriptors

Model of `do_open`, `do_close` and `sys_chdir` (`fs/open.c`), `dupfd`, `sys_dup`, `sys_dup2` and
`sys_fcntl` (`fs/fcntl.c`), `sys_pipe` (`fs/pipe.c`), `copy_process` (`kernel/fork.c`) and `do_exit`
(`kernel/exit.c`), each for the task in slot `c`, and of the runs in which the tasks make these calls
one after another. The descriptors that `sys_pipe` stores in user memory are left out.
-/

namespace OldLinux.Files
open Lib Fs Function

variable {κ : Type} (sv : Services κ) (c : Fin 64)

/-! ## Descriptors -/

/-- The first free descriptor from `arg` on. -/
def freeFd (t : Task) (arg : Nat) : Option (Fin 20) :=
  (List.finRange 20).find? fun fd => arg ≤ fd ∧ t.filp fd = none

/-- The first file table entry not in use. -/
def freeFile (s : Tables κ) : Option (Fin 64) :=
  (List.finRange 64).find? fun f => (s.fileTable f).fCount = 0

/-- `current->filp[fd] = f`. -/
def setFd (fd : Fin 20) (f : Option (Fin 64)) : Prog (Tables κ) Unit :=
  setCurrent c fun t => { t with filp := update t.filp fd f }

/-- `current->close_on_exec &= ~(1<<fd)`. -/
def clearCloseOnExec (fd : Fin 20) : Prog (Tables κ) Unit :=
  setCurrent c fun t => { t with closeOnExec := t.closeOnExec &&& ~~~(1#64 <<< fd.val) }

/-- `f->f_count = n`. -/
def setFCount (f : Fin 64) (n : Nat) : Prog (Tables κ) Unit :=
  setFile f fun file => { file with fCount := n }

/-- `f->f_count++`. -/
def addFCount (f : Fin 64) : Prog (Tables κ) Unit :=
  setFile f fun file => { file with fCount := file.fCount + 1 }

/-- The terminal part of `do_open`: whether the open goes on. -/
def openTty (inode : MInode) : Prog (Tables κ) Bool := do
  let t ← current c
  let major := inode.iZone 0 >>> 8
  let minor := (inode.iZone 0 &&& 0xff).toNat
  if isChr inode.iMode ∧ major = 4 then
    if t.leader ∧ t.tty < 0 then do
      setCurrent c fun t => { t with tty := minor }
      Prog.modify fun s => { s with ttyPgrp := update s.ttyPgrp minor t.pgrp }
      pure true
    else pure true
  else pure (!(isChr inode.iMode ∧ major = 5 ∧ t.tty < 0))

/-- `do_open(filename, flag, mode)`. -/
def doOpen (filename : List Char) (flag : BitVec 32) (mode : BitVec 16) : Prog (Tables κ) Int := do
  let t ← current c
  let mode := mode &&& (0o777#16 &&& ~~~t.umask)
  match freeFd t 0 with
  | none => pure (-einval)
  | some fd =>
    clearCloseOnExec c fd
    let s ← Prog.get
    match freeFile s with
    | none => pure (-einval)
    | some f =>
      setFd c fd (some f)
      addFCount f
      match ← openNamei sv c filename flag mode with
      | .error e =>
        setFd c fd none
        setFCount f 0
        pure e
      | .ok i =>
        let inode ← inodeAt i
        if ← openTty c inode then
          setFile f fun _ =>
            { fMode := inode.iMode, fFlags := flag.setWidth 16, fCount := 1, fInode := some i, fPos := 0 }
          pure (fd.val : Int)
        else
          iput sv (some i)
          setFd c fd none
          setFCount f 0
          pure (-eperm)

/-- `sys_open`. -/
def sysOpen (filename : List Char) (flag : BitVec 32) (mode : BitVec 16) : Prog (Tables κ) Int :=
  doOpen sv c filename flag mode

/-- `sys_creat`. -/
def sysCreat (pathname : List Char) (mode : BitVec 16) : Prog (Tables κ) Int :=
  doOpen sv c pathname (oCreat ||| oTrunc) mode

/-- `do_close(fd)`. -/
def doClose (fd : Nat) : Prog (Tables κ) Int := do
  if h : fd < 20 then
    clearCloseOnExec c ⟨fd, h⟩
    let t ← current c
    match t.filp ⟨fd, h⟩ with
    | none => pure (-einval)
    | some f =>
      setFd c ⟨fd, h⟩ none
      let file ← fileAt f
      if file.fCount = 0 then Prog.panic "Close: file count is 0"
      else
        setFCount f (file.fCount - 1)
        if file.fCount - 1 ≠ 0 then pure 0
        else
          iput sv file.fInode
          pure 0
  else pure (-einval)

/-- `dupfd(fd, arg)`. -/
def dupfd (fd arg : Nat) : Prog (Tables κ) Int := do
  let t ← current c
  if h : fd < 20 then
    match t.filp ⟨fd, h⟩ with
    | none => pure (-ebadf)
    | some f =>
      if arg ≥ 20 then pure (-einval)
      else
        match freeFd t arg with
        | none => pure (-emfile)
        | some new =>
          clearCloseOnExec c new
          setFd c new (some f)
          addFCount f
          pure (new.val : Int)
  else pure (-ebadf)

/-- `sys_dup2`. -/
def sysDup2 (oldfd newfd : Nat) : Prog (Tables κ) Int := do
  let _ ← doClose sv c newfd
  dupfd c oldfd newfd

/-- `sys_dup`. -/
def sysDup (fildes : Nat) : Prog (Tables κ) Int := dupfd c fildes 0

/-- `sys_fcntl`. -/
def sysFcntl (fd cmd : Nat) (arg : BitVec 64) : Prog (Tables κ) Int := do
  let t ← current c
  if h : fd < 20 then
    match t.filp ⟨fd, h⟩ with
    | none => pure (-ebadf)
    | some f =>
      match cmd with
      | 0 => dupfd c fd (arg.toNat % 2 ^ 32)
      | 1 => pure ((t.closeOnExec >>> fd) &&& 1).toNat
      | 2 =>
        setCurrent c fun t =>
          { t with
            closeOnExec :=
              if arg &&& 1 ≠ 0 then t.closeOnExec ||| (1#64 <<< fd)
              else t.closeOnExec &&& ~~~(1#64 <<< fd) }
        pure 0
      | 3 =>
        let file ← fileAt f
        pure file.fFlags.toNat
      | 4 =>
        let keep := (oAppend ||| oNonblock).setWidth 16
        setFile f fun file =>
          { file with fFlags := (file.fFlags &&& ~~~keep) ||| (arg.setWidth 16 &&& keep) }
        pure 0
      | _ => pure (-1)
  else pure (-ebadf)

/-- `sys_pipe`. -/
def sysPipe : Prog (Tables κ) Int := do
  match freeFile (← Prog.get) with
  | none => pure (-1)
  | some f₀ =>
    addFCount f₀
    match freeFile (← Prog.get) with
    | none =>
      setFCount f₀ 0
      pure (-1)
    | some f₁ =>
      addFCount f₁
      match freeFd (← current c) 0 with
      | none =>
        setFCount f₁ 0
        setFCount f₀ 0
        pure (-1)
      | some fd₀ =>
        setFd c fd₀ (some f₀)
        match freeFd (← current c) 0 with
        | none =>
          setFd c fd₀ none
          setFCount f₁ 0
          setFCount f₀ 0
          pure (-1)
        | some fd₁ =>
          setFd c fd₁ (some f₁)
          match ← getPipeInode sv with
          | none =>
            setFd c fd₁ none
            setFd c fd₀ none
            setFCount f₁ 0
            setFCount f₀ 0
            pure (-1)
          | some i =>
            setFile f₀ fun file => { file with fInode := some i, fPos := 0, fMode := 1 }
            setFile f₁ fun file => { file with fInode := some i, fPos := 0, fMode := 2 }
            pure 0

/-- `sys_chdir`. -/
def sysChdir (filename : List Char) : Prog (Tables κ) Int := do
  match ← namei sv c filename with
  | none => pure (-enoent)
  | some i =>
    let inode ← inodeAt i
    if ¬ isDir inode.iMode then do
      iput sv (some i)
      pure (-enotdir)
    else
      let t ← current c
      iput sv t.pwd
      setCurrent c fun t => { t with pwd := some i }
      pure 0

/-! ## Tasks -/

/-- The `repeat` loop of `find_empty_process`: the next pid that no task has. Each turn tries another
    pid, so one more turn than there are tasks is enough. -/
def nextPid (used : BitVec 64 → Bool) (pid : BitVec 64) : Nat → BitVec 64
  | 0 => pid
  | n + 1 =>
    let pid := if (pid + 1).slt 0 then 1 else pid + 1
    if used pid then nextPid used pid n else pid

/-- The first free slot of `task[]`, after slot 0. -/
def freeTask (s : Tables κ) : Option (Fin 64) :=
  (List.finRange 64).find? fun i => i ≠ 0 ∧ (s.task i).isNone

/-- `find_empty_process()`. -/
def findEmptyProcess : Prog (Tables κ) (Option (Fin 64)) := do
  let s ← Prog.get
  let used := fun pid => (List.finRange 64).any fun i => (s.task i).any fun t => t.pid == pid
  Prog.modify fun s => { s with lastPid := nextPid used s.lastPid 65 }
  pure (freeTask s)

/-- `copy_process(regs)`. -/
def copyProcess : Prog (Tables κ) Int := do
  match ← findEmptyProcess with
  | none => pure (-eagain)
  | some nr =>
    if ← service sv.getTwoFreePages then
      let t ← current c
      let s ← Prog.get
      let p := { t with
        state := .running, pid := s.lastPid, father := t.pid, signal := 0, leader := false }
      if ← service (sv.copyPageTables c nr) then
        Prog.modify fun s => { s with task := update s.task nr (some p) }
        pure s.lastPid.toInt
      else
        service (sv.freeTwoPages nr)
        pure (-eagain)
    else pure (-eagain)

/-- `send_sig(sig, p, priv)`. -/
def sendSig (t : Task) (sig : Int) (priv : Bool) (p : Task) : Task :=
  if sig < 1 ∨ sig > 32 then p
  else if priv ∨ t.uid = p.uid ∨ t.euid = p.uid ∨ t.uid = p.euid ∨ t.euid = p.euid then
    { p with signal := p.signal ||| (1#32 <<< (sig.toNat - 1)).signExtend 64 }
  else p

/-- The tasks that `do_kill(pid, ..)` of the task `t` sends to. -/
def killed (t : Task) (pid : BitVec 64) (p : Task) : Bool :=
  if pid = 0 then p.pgrp = t.pid
  else if BitVec.slt 0 pid then p.pid = pid
  else if pid = -1 then true
  else p.pgrp = -pid

/-- `do_kill(pid, sig, priv)`. -/
def doKill (pid : BitVec 64) (sig : Int) (priv : Bool) : Prog (Tables κ) Unit := do
  let t ← current c
  Prog.modify fun s =>
    { s with
      task := fun i => (s.task i).map fun p =>
        if i ≠ 0 ∧ killed t pid p then sendSig t sig priv p else p }

/-- `for (i=0 ; i<NR_OPEN ; i++) if (current->filp[i]) do_close(i)`. -/
def closeAll : Prog (Tables κ) PUnit :=
  forM (List.finRange 20) fun fd => do
    let t ← current c
    if (t.filp fd).isSome then
      let _ ← doClose sv c fd
      pure ()
    else pure ()

/-- `if (task[i] && task[i]->father == pid) task[i]->father = 0` for all tasks. -/
def orphan (pid : BitVec 64) : Prog (Tables κ) Unit :=
  Prog.modify fun s =>
    { s with
      task := fun i => (s.task i).map fun p => if p.father = pid then { p with father := 0 } else p }

/-- `SIGCHLD`. -/
def sigchld : Int := 17

/-- `do_exit(code)`, up to the call of `schedule`. -/
def doExit (code : Int) : Prog (Tables κ) Unit := do
  if c = 0 then Prog.panic "Try to do_exit on TASK 0."
  else
    service (sv.freePageTables c)
    let t ← current c
    orphan t.pid
    closeAll sv c
    let t ← current c
    iput sv t.pwd
    setCurrent c fun t => { t with pwd := none }
    let t ← current c
    iput sv t.root
    setCurrent c fun t => { t with root := none }
    let t ← current c
    Prog.modify fun s =>
      { s with ttyPgrp := if t.leader ∧ t.tty ≥ 0 then update s.ttyPgrp t.tty 0 else s.ttyPgrp }
    if t.father ≠ 0 then do
      setCurrent c fun t => { t with state := .zombie }
      doKill c t.father sigchld true
      setCurrent c fun t => { t with exitCode := code }
    else setCurrent c fun t => { t with state := .dead }

/-! ## Runs -/

/-- A system call. -/
inductive Call where
  | open (filename : List Char) (flag : BitVec 32) (mode : BitVec 16)
  | creat (pathname : List Char) (mode : BitVec 16)
  | close (fd : Nat)
  | dup (fildes : Nat)
  | dup2 (oldfd newfd : Nat)
  | fcntl (fd cmd : Nat) (arg : BitVec 64)
  | pipe
  | chdir (filename : List Char)
  | fork
  | exit (code : Int)

/-- A system call of the task in slot `c`. -/
def systemCall : Call → Prog (Tables κ) Unit
  | .open filename flag mode => do let _ ← sysOpen sv c filename flag mode
  | .creat pathname mode => do let _ ← sysCreat sv c pathname mode
  | .close fd => do let _ ← doClose sv c fd
  | .dup fildes => do let _ ← sysDup c fildes
  | .dup2 oldfd newfd => do let _ ← sysDup2 sv c oldfd newfd
  | .fcntl fd cmd arg => do let _ ← sysFcntl c fd cmd arg
  | .pipe => do let _ ← sysPipe sv c
  | .chdir filename => do let _ ← sysChdir sv c filename
  | .fork => do let _ ← copyProcess sv c
  | .exit code => doExit sv c code

/-- What happens in a run. -/
inductive Event where
  | call (c : Fin 64) (k : Call)
  | release (p : Fin 64)
  | other

/-- A live task makes a system call, the slot of a task that has exited is given back, or something
    happens in the rest of the kernel. -/
inductive Step : Tables κ → Event → Tables κ → Prop where
  | call {s s' c t k} : s.task c = some t → t.Live → systemCall sv c k s = .ret ((), s') →
    Step s (.call c k) s'
  | release {s p t} : s.task p = some t → ¬ t.Live →
    Step s (.release p) { s with task := update s.task p none }
  | other {s k now} : Step s .other { s with kernel := k, currentTime := now }

/-- The system calls, from any tables that are counted right. -/
def system : System (Tables κ) Event := ⟨Tables.Counted, Step sv⟩

end OldLinux.Files
