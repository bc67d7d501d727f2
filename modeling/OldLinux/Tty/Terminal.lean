import Mathlib.Algebra.BigOperators.Group.Finset.Basic
import OldLinux.Lib.System
import OldLinux.Tty.Code

/-!
# Terminals in use

The three terminals of `tty_table` with any number of activities on them: calls of `copy_to_cooked`,
`tty_read` and `tty_write`, interleaved statement by statement, and between the statements characters
that arrive, characters that are sent, signals, and the clock. An activity may be an interrupt or a
process; which of them can interrupt which is left open, so that every interleaving is covered.

`read_char` and `write_char` (`kernel/rs_io.c`) find their queue in `table_list`; the entries they use
are 3 and 4. Here any entry may be used, `read_char` being `receive 3` and `write_char` `transmit 4`.
`read_char` calls `do_tty_interrupt(63)` afterwards, which is past the end of `tty_table`; here a call
of `copy_to_cooked` on any terminal may begin at any time.
-/

namespace OldLinux.Tty
open Lib Function

/-- A call on one of the terminals, or none. -/
inductive Activity where
  | idle
  | cooking (ch : Fin 3) (k : CookState)
  | reading (ch : Fin 3) (k : ReadState)
  | writing (ch : Fin 3) (k : WriteState)

/-- The activity is over. -/
def Activity.Over : Activity → Prop
  | idle | cooking _ .returned | reading _ (.returned _) | writing _ (.returned _ _) => True
  | _ => False

instance : DecidablePred Activity.Over := fun a => by
  unfold Activity.Over
  split <;> infer_instance

/-- The terminals, the static `cr_flag` of `tty_write`, `jiffies`, and for every activity the task it
    runs in and how far it is. -/
structure Terminals (ι : Type*) where
  tty : Fin 3 → TtyStruct
  crFlag : Bool
  jiffies : Int
  cur : ι → Current
  act : ι → Activity

/-- What can happen: a call begins, a call executes its next statement, a character is received or
    sent through an entry of `table_list`, `current->signal` and `current->alarm` of an activity
    change from outside, and the clock ticks. -/
inductive Event (ι : Type*) where
  | cook (i : ι) (ch : Fin 3)
  | read (i : ι) (channel : Fin 3) (nr : Int)
  | write (i : ι) (channel : Fin 3) (buf : Nat → BitVec 8) (nr : Int)
  | run (i : ι)
  | receive (k : Fin 6) (c : BitVec 8)
  | transmit (k : Fin 6)
  | signal (i : ι) (cur : Current)
  | tick

/-- `table_list`. -/
def tableList : Fin 6 → Fin 3 × QueueName :=
  ![(0, .readQ), (0, .writeQ), (1, .readQ), (1, .writeQ), (2, .readQ), (2, .writeQ)]

namespace Terminals
variable {ι : Type*} [DecidableEq ι] (s : Terminals ι)

/-- A queue. -/
def queue (p : Fin 3 × QueueName) : TtyQueue := (s.tty p.1).queue p.2

/-- The queue is replaced. -/
def setQueue (p : Fin 3 × QueueName) (q : TtyQueue) : Terminals ι :=
  let tty := s.tty p.1
  { s with tty := update s.tty p.1 { tty with queue := update tty.queue p.2 q } }

/-- The next statement of an activity. -/
def run (i : ι) : Option (Terminals ι) :=
  match s.act i with
  | .idle => none
  | .cooking ch k => (cookStep (s.tty ch) k).map fun (k', tty) =>
    { s with tty := update s.tty ch tty, act := update s.act i (.cooking ch k') }
  | .reading ch k => (readStep (s.tty ch) s.jiffies (s.cur i) k).map fun (k', tty, cur) =>
    { s with
      tty := update s.tty ch tty
      cur := update s.cur i cur
      act := update s.act i (.reading ch k') }
  | .writing ch k => (writeStep (s.tty ch) s.crFlag (s.cur i) k).map fun (k', crFlag, put) =>
    { s with
      tty := match put with
        | none => s.tty
        | some x => update s.tty ch ((s.tty ch).onQueue .writeQ (.put x))
      crFlag := crFlag
      act := update s.act i (.writing ch k') }

/-- The steps, as a function. -/
def step : Event ι → Option (Terminals ι)
  | .cook i ch =>
    if (s.act i).Over then some { s with act := update s.act i (.cooking ch .loop) } else none
  | .read i channel nr =>
    if (s.act i).Over then
      let (k, cur) := ttyRead (s.tty channel) s.jiffies (s.cur i) nr
      some { s with cur := update s.cur i cur, act := update s.act i (.reading channel k) }
    else none
  | .write i channel buf nr =>
    if (s.act i).Over then some { s with act := update s.act i (.writing channel (ttyWrite buf nr)) }
    else none
  | .run i => s.run i
  | .receive k c => some (s.setQueue (tableList k) ((s.queue (tableList k)).receive c))
  | .transmit k =>
    let q := s.queue (tableList k)
    some (if q.Empty then s else s.setQueue (tableList k) (q.run .send))
  | .signal i cur => some { s with cur := update s.cur i cur }
  | .tick => some { s with jiffies := s.jiffies + 1 }

end Terminals

/-- The terminals with nobody at them, whatever their settings and their queues, and everything that
    can happen from there. -/
def terminals (ι : Type*) [DecidableEq ι] : System (Terminals ι) (Event ι) where
  init s := ∀ i, s.act i = .idle
  step s e s' := s.step e = some s'

/-! ## What a step does to the queues -/

/-- The operation of the next statement of `copy_to_cooked` on a queue. -/
def CookState.move : CookState → Option (QueueName × QueueOp)
  | .getch => some (.readQ, .get)
  | .stmts (s :: _) => s.op
  | _ => none

/-- The operation that a step of `tty_read` does. -/
def ReadState.move : ReadState → Option (QueueName × QueueOp)
  | .getch _ => some (.secondary, .get)
  | _ => none

/-- The operation that a step of `tty_write` does. -/
def WriteState.move (tty : TtyStruct) (crFlag : Bool) (cur : Current) (k : WriteState) :
    Option (QueueName × QueueOp) :=
  (writeStep tty crFlag cur k).bind fun (_, _, put) => put.map fun x => (.writeQ, .put x)

namespace Terminals
variable {ι : Type*} [DecidableEq ι] (s : Terminals ι)

/-- The operation a step carries out on a queue, if any. -/
def move : Event ι → Option ((Fin 3 × QueueName) × QueueOp)
  | .run i =>
    match s.act i with
    | .idle => none
    | .cooking ch k => k.move.map fun (n, op) => ((ch, n), op)
    | .reading ch k => k.move.map fun (n, op) => ((ch, n), op)
    | .writing ch k => (k.move (s.tty ch) s.crFlag (s.cur i)).map fun (n, op) => ((ch, n), op)
  | .receive k c => if (s.queue (tableList k)).Full then none else some (tableList k, .put c)
  | .transmit k => if (s.queue (tableList k)).Empty then none else some (tableList k, .send)
  | _ => none

end Terminals

end OldLinux.Tty
