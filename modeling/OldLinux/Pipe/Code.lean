import OldLinux.Lib.RingBuffer
import OldLinux.Sched.WaitQueue

/-!
# The pipe code

Model of `read_pipe`, `write_pipe` (`fs/pipe.c`), of `get_pipe_inode` and the pipe branch of `iput`
(`fs/inode.c`) and of the macros `PIPE_HEAD` .. `INC_PIPE` (`include/linux/fs.h`). `PIPE_HEAD` and
`PIPE_TAIL` are the two 64-bit words stored over `i_zone`. Both functions are cut where they call
`sleep_on`: a call runs until it returns or goes to sleep, and what a sleeping call still has to do
is a `PipeOp`; running the `PipeOp` again is the next turn of the `while` loop the call sleeps in.

`accepted` and `delivered` are not in the source. They record every byte stored into the page (with
the writer) and every byte taken out of it, in order.
-/

namespace OldLinux.Pipe
open Lib Sched Function

/-- A pipe inode: the page `i_size` points to, the two offsets, `i_count` and the queue `i_wait`, with
    the signal words of the tasks and the record of the bytes that went in and out. -/
structure PipeInode (τ : Type*) where
  page : Nat → UInt8
  head : BitVec 64
  tail : BitVec 64
  iCount : Nat
  wait : WaitQueue τ
  signal : τ → BitVec 64
  accepted : List (τ × UInt8)
  delivered : List UInt8

/-- What a call that went to sleep still has to do: a reader with its count, a writer with its buffer,
    the number `b - buf` of bytes stored so far and the number of bytes left. -/
inductive PipeOp where
  | reading (count : Int)
  | writing (buf : Nat → UInt8) (b left : Nat)

/-- How far a call gets: it returns a value, or it sleeps with something left to do. -/
inductive Outcome (τ : Type*) where
  | ret (n : Int) (p : PipeInode τ)
  | sleep (k : PipeOp) (p : PipeInode τ)

/-- `INC_PIPE`. -/
def incPipe (x : BitVec 64) : BitVec 64 := (x + 1) &&& 0xFFF

/-- `1 << (SIGPIPE - 1)`. -/
def sigpipeMask : BitVec 64 := 1 <<< 12

namespace PipeInode
variable {τ : Type*} [DecidableEq τ]

/-- The inode `get_pipe_inode` returns when `get_free_page` gave it a page: `i_count` is 2, "sum of
    readers/writers", and both offsets are 0. -/
def getPipeInode (page : Nat → UInt8) (wait : WaitQueue τ) (signal : τ → BitVec 64) :
    PipeInode τ where
  page := page
  head := 0
  tail := 0
  iCount := 2
  wait := wait
  signal := signal
  accepted := []
  delivered := []

/-- `PIPE_SIZE`. -/
def pipeSize (p : PipeInode τ) : BitVec 64 := (p.head - p.tail) &&& 4095

/-- `PIPE_EMPTY`. -/
abbrev PipeEmpty (p : PipeInode τ) : Prop := p.head = p.tail

/-- `PIPE_FULL`. -/
abbrev PipeFull (p : PipeInode τ) : Prop := p.pipeSize = 4095

/-- `wake_up(&inode->i_wait)`. -/
def wakeUp (p : PipeInode τ) : PipeInode τ := { p with wait := p.wait.wakeUp }

/-- `sleep_on(&inode->i_wait)` called by `t`, up to the switch. -/
def sleepOn (p : PipeInode τ) (t : τ) : PipeInode τ := { p with wait := p.wait.sleepOn t }

/-- The rest of `sleep_on(&inode->i_wait)` when `t` runs again. -/
def resume (p : PipeInode τ) (t : τ) : PipeInode τ := { p with wait := p.wait.resume t }

/-- `current->signal |= (1<<(SIGPIPE-1))`. -/
def raiseSigpipe (p : PipeInode τ) (t : τ) : PipeInode τ :=
  { p with signal := update p.signal t (p.signal t ||| sigpipeMask) }

/-- `((char *)inode->i_size)[PIPE_HEAD(*inode)] = *(b++); INC_PIPE( PIPE_HEAD(*inode) )`. -/
def store (p : PipeInode τ) (t : τ) (x : UInt8) : PipeInode τ :=
  { p with
    page := update p.page p.head.toNat x
    head := incPipe p.head
    accepted := p.accepted ++ [(t, x)] }

/-- `*(b++) = ((char *)inode->i_size)[PIPE_TAIL(*inode)]; INC_PIPE( PIPE_TAIL(*inode) )`. -/
def take (p : PipeInode τ) : PipeInode τ :=
  { p with
    tail := incPipe p.tail
    delivered := p.delivered ++ [p.page p.tail.toNat] }

/-- The copy loop of `read_pipe`: the number of bytes copied and the pipe afterwards. -/
def readLoop : Nat → PipeInode τ → Nat × PipeInode τ
  | 0, p => (0, p)
  | n + 1, p =>
    if p.PipeEmpty then (0, p)
    else
      let (k, p') := readLoop n p.take
      (k + 1, p')

/-- `read_pipe(inode, buf, count)` run by `t`. -/
def readPipe (p : PipeInode τ) (t : τ) (count : Int) : Outcome τ :=
  if p.PipeEmpty then
    let p := p.wakeUp
    if p.iCount ≠ 2 then .ret 0 p
    else .sleep (.reading count) (p.sleepOn t)
  else
    let (k, p) := readLoop count.toNat p
    .ret k p.wakeUp

/-- The loop of `write_pipe` with `b` bytes stored and `left` bytes to go. -/
def writeLoop (t : τ) (buf : Nat → UInt8) : Nat → Nat → PipeInode τ → Outcome τ
  | 0, b, p => .ret b p.wakeUp
  | left + 1, b, p =>
    if p.PipeFull then
      let p := p.wakeUp
      if p.iCount ≠ 2 then .ret b (p.raiseSigpipe t)
      else .sleep (.writing buf b (left + 1)) (p.sleepOn t)
    else
      writeLoop t buf left (b + 1) (p.store t (buf b)).wakeUp

/-- `write_pipe(inode, buf, count)` run by `t`. -/
def writePipe (p : PipeInode τ) (t : τ) (buf : Nat → UInt8) (count : Int) : Outcome τ :=
  let p := p.wakeUp
  if p.iCount ≠ 2 then .ret (-1) (p.raiseSigpipe t)
  else writeLoop t buf count.toNat 0 p

/-- The next turn of the loop a call sleeps in, once `sleep_on` has returned. -/
def again (p : PipeInode τ) (t : τ) : PipeOp → Outcome τ
  | .reading count => p.readPipe t count
  | .writing buf b left => writeLoop t buf left b p

/-- `iput(inode)` on a pipe with `i_count > 0`. `i_lock` is never set on a pipe, so `wait_on_inode` does
    not sleep; at the last reference the page is freed. -/
def iput (p : PipeInode τ) : PipeInode τ :=
  { p.wakeUp with iCount := p.iCount - 1 }

end PipeInode

end OldLinux.Pipe
