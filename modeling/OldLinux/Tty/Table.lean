import OldLinux.Lib.Numerals
import Mathlib.Data.Fin.VecNotation
import Mathlib.Data.Fintype.Basic
import OldLinux.Tty.Queue

/-!
# The terminals

Model of `struct termios` (`include/termios.h`), of `struct tty_struct` (`include/linux/tty.h`), of
`tty_table` with the flag macros `L_CANON` .. `O_LCUC` (`kernel/tty_io.c`), and of `tolower` and
`toupper` (`include/ctype.h`, `lib/ctype.c`).

Of a terminal the model keeps what the line discipline reads and writes. `pgrp`, which only `tty_intr`
reads, `c_cflag` and `c_line`, which nothing reads, are left out. The console's `write` is a null
pointer.
-/

namespace OldLinux.Tty
open Lib Function

/-- `struct termios`. -/
structure Termios where
  iflag : BitVec 64
  oflag : BitVec 64
  lflag : BitVec 64
  cc : Fin 17 → BitVec 8

/-- `INIT_C_CC`. -/
def initCCc : Fin 17 → BitVec 8 :=
  ![3, 28, 127, 21, 4, 0, 1, 0, 17, 19, 25, 0, 18, 15, 23, 22, 0]

/-- What a `write` pointer of `tty_table` holds. -/
inductive Driver where
  | null
  | rsWrite
  deriving DecidableEq

/-- The three queues of a terminal. -/
inductive QueueName where
  | readQ
  | writeQ
  | secondary
  deriving DecidableEq

instance : Fintype QueueName where
  elems := {.readQ, .writeQ, .secondary}
  complete n := by cases n <;> decide

/-- `struct tty_struct`, with the queues by name. -/
structure TtyStruct where
  termios : Termios
  stopped : Bool
  write : Driver
  queue : QueueName → TtyQueue

/-- A control character equals the `signed char` `c`: both are converted to `int`. -/
abbrev CharIs (c cc : BitVec 8) : Prop := c.toInt = cc.toNat

namespace TtyStruct
variable (tty : TtyStruct)

/-- `_I_FLAG`. -/
def iFlag (f : BitVec 64) : Bool := tty.termios.iflag &&& f ≠ 0

/-- `_O_FLAG`. -/
def oFlag (f : BitVec 64) : Bool := tty.termios.oflag &&& f ≠ 0

/-- `_L_FLAG`, with the flags that use it. -/
def lFlag (f : BitVec 64) : Bool := tty.termios.lflag &&& f ≠ 0

def lCanon : Bool := tty.lFlag 0o2
def lIsig : Bool := tty.lFlag 0o1
def lEcho : Bool := tty.lFlag 0o10
def lEchoctl : Bool := tty.lFlag 0o1000

def iUclc : Bool := tty.iFlag 0o1000
def iNlcr : Bool := tty.iFlag 0o100
def iCrnl : Bool := tty.iFlag 0o400
def iNocr : Bool := tty.iFlag 0o200

def oPost : Bool := tty.oFlag 0o1
def oNlcr : Bool := tty.oFlag 0o4
def oCrnl : Bool := tty.oFlag 0o10
def oNlret : Bool := tty.oFlag 0o40
def oLcuc : Bool := tty.oFlag 0o2

/-- `EOF_CHAR` and the other control characters. -/
def eofChar : BitVec 8 := tty.termios.cc 4
def intrChar : BitVec 8 := tty.termios.cc 0
def stopChar : BitVec 8 := tty.termios.cc 9
def startChar : BitVec 8 := tty.termios.cc 8
def eraseChar : BitVec 8 := tty.termios.cc 2
def vtime : BitVec 8 := tty.termios.cc 5
def vmin : BitVec 8 := tty.termios.cc 6

variable {tty} in
/-- An operation on one of the queues. -/
def onQueue (tty : TtyStruct) (n : QueueName) (op : QueueOp) : TtyStruct :=
  { tty with queue := update tty.queue n ((tty.queue n).run op) }

/-- An operation on a queue leaves the settings. -/
@[simp] lemma termios_onQueue (n : QueueName) (op : QueueOp) :
    (tty.onQueue n op).termios = tty.termios := rfl

/-- An operation on a queue leaves the write function. -/
@[simp] lemma write_onQueue (n : QueueName) (op : QueueOp) :
    (tty.onQueue n op).write = tty.write := rfl

/-- It is on that queue. -/
@[simp] lemma queue_onQueue (n : QueueName) (op : QueueOp) :
    (tty.onQueue n op).queue = update tty.queue n ((tty.queue n).run op) := rfl

end TtyStruct

/-- A queue as `tty_table` initialises it. -/
def TtyQueue.initial (data : BitVec 64) : TtyQueue where
  data := data
  ring := { slot := fun _ => 0, head := 0, tail := 0, head_lt := ttyBufSize_pos, tail_lt := ttyBufSize_pos }

/-- An entry of `tty_table` for a serial line at a port. -/
def rsTty (port : BitVec 64) : TtyStruct where
  termios := { iflag := 0, oflag := 0o1 ||| 0o40, lflag := 0, cc := initCCc }
  stopped := false
  write := .rsWrite
  queue
    | .readQ => .initial port
    | .writeQ => .initial port
    | .secondary => .initial 0

/-- The entry of `tty_table` for the console. -/
def consoleTty : TtyStruct where
  termios := {
    iflag := 0
    oflag := 0o1 ||| 0o4
    lflag := 0o2 ||| 0o10 ||| 0o1000 ||| 0o4000
    cc := initCCc }
  stopped := false
  write := .null
  queue _ := .initial 0

/-- `tty_table`. -/
def ttyTable : Fin 3 → TtyStruct := ![consoleTty, rsTty 0x3f8, rsTty 0x2f8]

/-- `tolower`: `isupper(c)` holds of `A` to `Z`, and the source adds `'a'+'A'`. -/
def tolower (c : BitVec 8) : BitVec 8 := if 65 ≤ c.toNat ∧ c.toNat ≤ 90 then c + (97 + 65) else c

/-- `toupper`: `islower(c)` holds of `a` to `z`, and the source adds `'A'-'a'`. -/
def toupper (c : BitVec 8) : BitVec 8 := if 97 ≤ c.toNat ∧ c.toNat ≤ 122 then c + (65 - 97) else c

end OldLinux.Tty
