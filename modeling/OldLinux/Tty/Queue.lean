import OldLinux.Lib.RingBuffer

/-!
# Terminal queues

Model of `struct tty_queue` and of the macros `INC` .. `PUTCH` (`include/linux/tty.h`). A queue is a
ring of `TTY_BUF_SIZE` characters with the word `data`; `head` and `tail` only ever change by `INC` and
`DEC`, which keep them below `TTY_BUF_SIZE`, and the ring carries that bound. Characters are bytes: a
plain `char` is unsigned on RISC-V, and where the source declares a `signed char` the model compares
with `toInt`.

A `QueueOp` is one of the things the code does to a queue, and `QueueOp.spec` is what it does to the
list of the stored characters as long as the queue has room, or something stored (`QueueOp.Fits`).
-/

namespace OldLinux.Tty
open Lib

/-- `TTY_BUF_SIZE`. -/
abbrev ttyBufSize : Nat := 1024

/-- The buffer is not empty. -/
lemma ttyBufSize_pos : 0 < ttyBufSize := by decide

/-- `struct tty_queue`, without `proc_list`. -/
structure TtyQueue where
  data : BitVec 64
  ring : RingBuffer (BitVec 8) ttyBufSize

namespace TtyQueue

/-- `EMPTY`. -/
abbrev Empty (q : TtyQueue) : Prop := q.ring.head = q.ring.tail

/-- `LEFT`: the 64-bit difference, masked with `TTY_BUF_SIZE-1`. -/
def left (q : TtyQueue) : Nat := (q.ring.tail + (ttyBufSize - 1 - q.ring.head)) % ttyBufSize

/-- `FULL`. -/
abbrev Full (q : TtyQueue) : Prop := q.left = 0

/-- `LAST`. -/
def last (q : TtyQueue) : BitVec 8 := q.ring.newest

/-- The character `GETCH` fetches. -/
def first (q : TtyQueue) : BitVec 8 := q.ring.slot q.ring.tail

end TtyQueue

/-- `PUTCH`, `GETCH` and `DEC(head)` on a queue, and what `write_char` does to the tail of the queue it
    sends from. -/
inductive QueueOp where
  | put (c : BitVec 8)
  | get
  | dec
  | send
  deriving DecidableEq

namespace QueueOp

/-- The operation on the ring. `write_char` moves the tail down where `GETCH` moves it up. -/
def run (op : QueueOp) (r : RingBuffer (BitVec 8) ttyBufSize) : RingBuffer (BitVec 8) ttyBufSize :=
  match op with
  | put c => r.push c
  | get => r.pop
  | dec => r.unpush
  | send => { r with
      tail := (r.tail + (ttyBufSize - 1)) % ttyBufSize
      tail_lt := Nat.mod_lt _ (by decide) }

/-- The operation on the list of the stored characters: `PUTCH` appends, `GETCH` and a transmission
    take the oldest one, `DEC` removes the newest one. -/
def spec (op : QueueOp) (l : List (BitVec 8)) : List (BitVec 8) :=
  match op with
  | put c => l ++ [c]
  | get => l.tail
  | dec => l.dropLast
  | send => l.tail

/-- There is room for what the operation stores, something stored for it to take. -/
def Fits (op : QueueOp) (q : TtyQueue) : Prop :=
  match op with
  | put _ => ¬ q.Full
  | _ => ¬ q.Empty

end QueueOp

namespace TtyQueue
variable {q : TtyQueue}

/-- The operation on a queue. -/
def run (op : QueueOp) (q : TtyQueue) : TtyQueue := { q with ring := op.run q.ring }

/-- An operation on a queue is one on its ring. -/
@[simp] lemma ring_run {op : QueueOp} : (q.run op).ring = op.run q.ring := rfl

/-- An operation on a queue leaves its count of lines. -/
@[simp] lemma data_run {op : QueueOp} : (q.run op).data = q.data := rfl

/-- What `read_char` does to a queue with the character it has received: the character is stored at
    `head` in any case, and `head` moves if the queue is not full. -/
def receive (q : TtyQueue) (c : BitVec 8) : TtyQueue :=
  if q.Full then { q with ring := q.ring.poke c } else q.run (.put c)

/-- The stored characters, oldest first. -/
abbrev contents (q : TtyQueue) : List (BitVec 8) := q.ring.contents

/-- The room that is left and what is in the queue. -/
lemma left_eq (q : TtyQueue) : q.left + q.ring.size = 1023 := by
  have hN : ttyBufSize = 1024 := rfl
  have h1 := q.ring.head_lt
  have h2 := q.ring.tail_lt
  rw [left, RingBuffer.mod_of_lt_two (by omega), RingBuffer.size_eq]
  split <;> split <;> omega

/-- There is room for a character. -/
lemma not_full : ¬ q.Full ↔ q.ring.size + 1 < ttyBufSize := by
  have hN : ttyBufSize = 1024 := rfl
  have h := q.left_eq
  omega

/-- There is a character. -/
lemma not_empty : ¬ q.Empty ↔ q.ring.size ≠ 0 := not_congr RingBuffer.size_eq_zero.symm

/-- There are 1023 characters at most. -/
lemma length_contents_le (q : TtyQueue) : q.contents.length ≤ 1023 := by
  have h := q.left_eq
  rw [RingBuffer.length_contents]
  omega

/-- What `GETCH` fetches is the oldest character. -/
lemma contents_get (h : ¬ q.Empty) : q.contents = q.first :: (q.run .get).contents :=
  RingBuffer.contents_pop (not_empty.1 h)

/-- `LAST` is the newest character. -/
lemma contents_dec (h : ¬ q.Empty) : q.contents = (q.run .dec).contents ++ [q.last] :=
  RingBuffer.contents_unpush (not_empty.1 h)

/-- A character is put in behind the others. -/
lemma contents_put (h : ¬ q.Full) (c : BitVec 8) : (q.run (.put c)).contents = q.contents ++ [c] :=
  RingBuffer.contents_push c (not_full.1 h)

/-- An operation of the kernel's macros that fits does what it should to the stored characters. -/
theorem contents_run {op : QueueOp} (hop : op ≠ .send) (h : op.Fits q) :
    (q.run op).contents = op.spec q.contents := by
  cases op with
  | put c => exact contents_put h c
  | get => rw [contents_get h]; rfl
  | dec => rw [contents_dec h, QueueOp.spec, List.dropLast_concat]
  | send => exact absurd rfl hop

/-- Putting a character in is one more. -/
lemma size_put (h : ¬ q.Full) (c : BitVec 8) : (q.run (.put c)).ring.size = q.ring.size + 1 :=
  RingBuffer.size_push c (not_full.1 h)

/-- One is taken out. -/
lemma size_get (h : ¬ q.Empty) : (q.run .get).ring.size + 1 = q.ring.size :=
  RingBuffer.size_pop (not_empty.1 h)

/-- Taking one out at the other end is one less. -/
lemma size_dec (h : ¬ q.Empty) : (q.run .dec).ring.size + 1 = q.ring.size :=
  RingBuffer.size_unpush (not_empty.1 h)

end TtyQueue

end OldLinux.Tty
