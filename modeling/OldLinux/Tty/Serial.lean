import OldLinux.Tty.Overrun

/-!
# The serial line

Model of `read_char`, `write_char` and `rs_write` (`kernel/rs_io.c`) and of `do_tty_interrupt`
(`kernel/tty_io.c`), at terminals that are in use. A character is received or sent at any time, whatever
the interrupt was; `copy_to_cooked`, which `do_tty_interrupt` calls, is an activity of its own and may
begin at any time. The entry 63 that `read_char` asks for is past the end of `tty_table`: what is done
there is done to none of the three terminals.

`sent`, `put` and `cooked` are not in the source. They record the bytes that have been stored into the
transmit register, the bytes that have been put into `tty_table[1].write_q`, and the terminals
`do_tty_interrupt` has been called for.
-/

namespace OldLinux.Tty
open Lib Function

/-- `startup`. -/
def startup : Nat := 256

/-- The bit of the interrupt enable register for the transmitter. -/
def ierWrite : BitVec 8 := 0x02

/-- The other bits of the interrupt enable register. -/
def ierOthers : BitVec 8 := 0x0d

/-- The terminals with the `proc_list` of every queue, the tasks that are `TASK_RUNNING`, and the
    interrupt enable register. -/
structure Serial (ι : Type*) where
  terminals : Terminals ι
  procList : Fin 3 × QueueName → Option ι
  running : ι → Bool
  ier : BitVec 8
  sent : List (BitVec 8)
  put : List (BitVec 8)
  cooked : List Nat

/-- What happens on the line: a step of the terminals, and a call of `read_char`, with what it finds in
    the receive register, or of `write_char`. -/
inductive SerialEvent (ι : Type*) where
  | tty (e : Event ι)
  | readChar (c : BitVec 8)
  | writeChar

/-- The step is one that only the serial interrupt makes. -/
def Event.Interrupt {ι : Type*} : Event ι → Prop
  | receive .. | transmit _ => True
  | _ => False

instance {ι : Type*} (e : Event ι) : Decidable e.Interrupt :=
  match e with
  | .receive .. | .transmit _ => .isTrue trivial
  | .cook .. | .read .. | .write .. | .run _ | .signal .. | .tick => .isFalse id

/-- The statement that is next is a call of `tty->write`. -/
def Activity.callsWrite : Activity → Option (Fin 3)
  | cooking ch (.stmts (.write :: _)) => some ch
  | writing ch (.flush _) => some ch
  | _ => none

namespace Serial
variable {ι : Type*} [DecidableEq ι] (s : Serial ι)

abbrev queue (p : Fin 3 × QueueName) : TtyQueue := s.terminals.queue p

/-- What an operation puts into `write_q` of the line. -/
def puts (m : Option ((Fin 3 × QueueName) × QueueOp)) : List (BitVec 8) :=
  match opOn m (1, .writeQ) with
  | some (.put c) => [c]
  | _ => []

/-- `rs_write`. -/
def rsWrite (ch : Fin 3) : Serial ι :=
  if (s.queue (ch, .writeQ)).Empty then s else { s with ier := s.ier ||| ierWrite }

/-- `do_tty_interrupt`. -/
def doTtyInterrupt (tty : Nat) : Serial ι := { s with cooked := s.cooked ++ [tty] }

/-- `read_char`, with the character in the receive register. -/
def readChar (c : BitVec 8) : Serial ι :=
  let p := tableList 3
  let s := { s with
    terminals := s.terminals.setQueue p ((s.queue p).receive c)
    put := s.put ++ puts (s.terminals.move (.receive 3 c)) }
  s.doTtyInterrupt 63

/-- The task at `proc_list` is made `TASK_RUNNING`. -/
def wake (p : Fin 3 × QueueName) : Serial ι :=
  match s.procList p with
  | none => s
  | some t => { s with running := update s.running t true }

/-- What `write_char` does when its queue is empty. -/
def writeOff (p : Fin 3 × QueueName) : Serial ι :=
  let s := s.wake p
  { s with ier := s.ier ||| ierOthers }

/-- `write_char`. -/
def writeChar : Serial ι :=
  let p := tableList 4
  let q := s.queue p
  let nr := q.ring.size
  if nr = 0 then s.writeOff p
  else
    let s := if nr ≤ startup then s.wake p else s
    let q' := q.run .send
    let s := { s with sent := s.sent ++ [q.first], terminals := s.terminals.setQueue p q' }
    if q'.Empty then s.writeOff p else s

/-- `rs_write` is called by the statement that is next. -/
def call : Event ι → Serial ι
  | .run i =>
    match (s.terminals.act i).callsWrite with
    | some ch => s.rsWrite ch
    | none => s
  | _ => s

/-- The steps. -/
def step : SerialEvent ι → Option (Serial ι)
  | .tty e =>
    if e.Interrupt then none
    else (s.terminals.step e).map fun t =>
      { s.call e with terminals := t, put := s.put ++ puts (s.terminals.move e) }
  | .readChar c => some (s.readChar c)
  | .writeChar => some s.writeChar

end Serial

section
variable {ι : Type*}

/-- The line with nobody at the terminals, whatever their settings, nothing in the queues, and
    nothing recorded yet. -/
structure Serial.Idle (s : Serial ι) : Prop where
  idle : ∀ i, s.terminals.act i = .idle
  empty : ∀ p, (s.terminals.queue p).Empty
  sent : s.sent = []
  put : s.put = []

/-- Everything that can happen from there. -/
def serialLine (ι : Type*) [DecidableEq ι] : System (Serial ι) (SerialEvent ι) where
  init := Serial.Idle
  step s e s' := s.step e = some s'

/-- What has been sent is a prefix of what has been put into `write_q`. -/
def SentInOrder (s : Serial ι) : Prop := s.sent <+: s.put

variable [DecidableEq ι]

/-- A character that is received is appended to `read_q` of the line unless that is full, and
    `do_tty_interrupt` is called for the line; sending a character leaves `read_q`. -/
def Delivered (s : Serial ι) : SerialEvent ι → Serial ι → Prop
  | .readChar c, s' =>
    (s'.queue (1, .readQ)).contents = (if (s.queue (1, .readQ)).Full
      then (s.queue (1, .readQ)).contents else (s.queue (1, .readQ)).contents ++ [c]) ∧
    s'.cooked = s.cooked ++ [1]
  | .writeChar, s' => (s'.queue (1, .readQ)).contents = (s.queue (1, .readQ)).contents
  | .tty _, _ => True

/-- Nothing is received. -/
def Unheard (_ : Serial ι) : SerialEvent ι → Serial ι → Prop
  | .readChar _, _ => False
  | _, _ => True

instance (s : Serial ι) (e : SerialEvent ι) (s' : Serial ι) : Decidable (Unheard s e s') := by
  unfold Unheard
  split <;> infer_instance

end

/-! ## Nothing is ever sent -/

namespace Terminals
variable {ι : Type*} [DecidableEq ι] {t t' : Terminals ι} {e : Event ι} {i : ι}

/-- The queue that `write_char` sends from holds nothing, and nobody is about to take from it. -/
structure Unfed (t : Terminals ι) : Prop where
  empty : (t.queue (2, .readQ)).Empty
  unread : ∀ i, t.act i ≠ .cooking 2 .getch

/-- A queue is empty if it has no contents. -/
lemma empty_iff {q : TtyQueue} : q.Empty ↔ q.contents = [] := by
  rw [← List.length_eq_zero_iff, RingBuffer.length_contents]
  exact RingBuffer.size_eq_zero.symm

/-- No statement of `copy_to_cooked` but the `GETCH` touches `read_q`. -/
lemma cook_move {k : CookState} {op : QueueOp} (h : k.move = some (.readQ, op)) : k = .getch := by
  cases k with
  | getch => rfl
  | stmts l =>
    cases l with
    | nil => cases h
    | cons c l =>
      cases c with
      | putWrite | write | decHead | stopped | ttyIntr | count | putSecondary => cases h
  | loop | fetched | returned => cases h

omit [DecidableEq ι] in
/-- Nobody but the interrupt takes what is received. -/
lemma move_unfed (hu : t.Unfed) (hi : ¬ e.Interrupt) : opOn (t.move e) (2, .readQ) = none := by
  by_contra hne
  obtain ⟨op, hop⟩ := Option.ne_none_iff_exists'.1 hne
  have hm := opOn_eq_some.1 hop
  cases e with
  | run i =>
    rw [move] at hm
    split at hm
    case h_1 => cases hm
    case h_2 ch k hk =>
      -- a `GETCH` of the terminal 2, which nobody is at
      obtain ⟨⟨n, op'⟩, hmove, he⟩ := Option.map_eq_some_iff.1 hm
      cases he
      rw [cook_move hmove] at hk
      exact hu.unread i hk
    case h_3 ch k hk =>
      -- `tty_read` takes from the secondary queue only
      obtain ⟨⟨n, op'⟩, hmove, he⟩ := Option.map_eq_some_iff.1 hm
      cases he
      cases k with
      | loop | asleep | getch | test | returned => cases hmove
    case h_4 ch k hk =>
      obtain ⟨⟨n, op'⟩, hmove, he⟩ := Option.map_eq_some_iff.1 hm
      cases he
      obtain ⟨_, -, hput⟩ := Option.bind_eq_some_iff.1 hmove
      obtain ⟨_, -, he⟩ := Option.map_eq_some_iff.1 hput
      cases he
  | receive | transmit => exact hi trivial
  | cook | read | write | signal | tick => cases hm

/-- `copy_to_cooked` comes to its `GETCH` only when there is something to get. -/
lemma cookStep_getch {tty tty' : TtyStruct} {k : CookState} (h : cookStep tty k = some (.getch, tty')) :
    ¬ (tty.queue .readQ).Empty := by
  cases k with
  | loop =>
    obtain ⟨he, -⟩ := Prod.mk.inj (Option.some.inj h)
    split at he
    case isTrue ht => exact ht.1
    case isFalse => cases he
  | stmts l =>
    cases l with
    | nil => cases h
    | cons c l =>
      obtain ⟨_, -, he⟩ := Option.map_eq_some_iff.1 h
      cases he
  | getch | fetched | returned => cases h

/-- Nobody else does then. -/
lemma unread_update {a : Activity} (hu : t.Unfed) (hact : t'.act = update t.act i a)
    (ha : a ≠ .cooking 2 .getch) (j : ι) : t'.act j ≠ .cooking 2 .getch := by
  rw [hact]
  by_cases hj : j = i
  · rw [hj, update_self]
    exact ha
  · rw [update_of_ne hj]
    exact hu.unread j

/-- The step lemma: what the terminals do leaves the queue empty. -/
theorem Unfed.step (hu : t.Unfed) (hi : ¬ e.Interrupt) (st : t.step e = some t') : t'.Unfed := by
  have hempty : (t'.queue (2, .readQ)).Empty := by
    have hq := step_carried st (2, .readQ)
    rw [move_unfed hu hi] at hq
    rw [empty_iff, show (t'.queue (2, .readQ)).contents = (t.queue (2, .readQ)).contents from hq]
    exact empty_iff.1 hu.empty
  refine ⟨hempty, ?_⟩
  cases e with
  | cook i ch =>
    obtain ⟨-, he⟩ := Option.ite_none_right_eq_some.1 st
    cases he
    exact unread_update hu rfl (by simp)
  | read i ch nr | write i ch buf nr =>
    obtain ⟨-, he⟩ := Option.ite_none_right_eq_some.1 st
    cases he
    exact unread_update hu rfl (by simp)
  | run i =>
    rw [Terminals.step, run] at st
    split at st
    case h_1 => cases st
    case h_2 ch k hk =>
      obtain ⟨⟨k', tty⟩, hstep, he⟩ := Option.map_eq_some_iff.1 st
      cases he
      -- the loop of `copy_to_cooked` is not entered for an empty queue
      refine unread_update hu rfl fun hg => ?_
      cases hg
      exact cookStep_getch hstep hu.empty
    case h_3 ch k hk =>
      obtain ⟨⟨k', tty, cur⟩, hstep, he⟩ := Option.map_eq_some_iff.1 st
      cases he
      exact unread_update hu rfl (by simp)
    case h_4 ch k hk =>
      obtain ⟨⟨k', crFlag, put⟩, hstep, he⟩ := Option.map_eq_some_iff.1 st
      cases he
      exact unread_update hu rfl (by simp)
  | receive | transmit => exact absurd trivial hi
  | signal i cur | tick =>
    cases st
    exact hu.unread

end Terminals

section
variable {ι : Type*} [DecidableEq ι] {s s' : Serial ι} {e : SerialEvent ι}

/-- `write_char` finds nothing to send. -/
lemma writeChar_unfed (hu : s.terminals.Unfed) : s.writeChar = s.writeOff (2, .readQ) :=
  if_pos (RingBuffer.size_eq_zero.2 hu.empty)

/-- What is lost in a full buffer changes nothing else. -/
lemma writeOff_eq (p : Fin 3 × QueueName) :
    (s.writeOff p).terminals = s.terminals ∧ (s.writeOff p).sent = s.sent ∧
      (s.writeOff p).put = s.put := by
  unfold Serial.writeOff Serial.wake
  dsimp only
  split <;> exact ⟨rfl, rfl, rfl⟩

omit [DecidableEq ι] in
/-- A call sends nothing. -/
lemma sent_call {e : Event ι} : (s.call e).sent = s.sent := by
  cases e with
  | run i =>
    rw [Serial.call]
    split
    case h_1 ch =>
      rw [Serial.rsWrite]
      split <;> rfl
    case h_2 => rfl
  | cook | read | write | receive | transmit | signal | tick => rfl

omit [DecidableEq ι] in
/-- The character goes into `write_q` of the line; no other queue changes. -/
lemma readChar_queue {c : BitVec 8} {p : Fin 3 × QueueName} (hp : p ≠ (1, .writeQ)) :
    (s.readChar c).queue p = s.queue p := by
  show (s.terminals.setQueue (1, .writeQ) _).queue p = _
  rw [Terminals.queue_setQueue, update_of_ne hp]

/-- Nothing is sent, in any step. -/
lemma unfed_step (hu : s.terminals.Unfed) (h0 : s.sent = []) (st : s.step e = some s') :
    s'.terminals.Unfed ∧ s'.sent = [] := by
  cases e with
  | tty e =>
    rw [Serial.step] at st
    split at st
    case isTrue => cases st
    case isFalse hi =>
      obtain ⟨t, ht, he⟩ := Option.map_eq_some_iff.1 st
      cases he
      refine ⟨hu.step hi ht, ?_⟩
      exact sent_call.trans h0
  | readChar c =>
    cases st
    refine ⟨⟨?_, hu.unread⟩, h0⟩
    rw [show (s.readChar c).terminals.queue (2, .readQ) = s.queue (2, .readQ) from
      readChar_queue (by decide)]
    exact hu.empty
  | writeChar =>
    cases st
    rw [writeChar_unfed hu]
    obtain ⟨ht, hs, -⟩ := writeOff_eq (s := s) (2, .readQ)
    rw [ht, hs]
    exact ⟨hu, h0⟩

/-- A step in which nothing is received is as it should be. -/
lemma delivered_step (hu : s.terminals.Unfed) (st : s.step e = some s') (hn : Unheard s e s') :
    Delivered s e s' := by
  cases e with
  | tty e => trivial
  | readChar c => exact hn.elim
  | writeChar =>
    cases st
    rw [Delivered, writeChar_unfed hu, Serial.queue, (writeOff_eq (s := s) _).1]

/-- `read_char` never calls `do_tty_interrupt` for the line. -/
lemma unheard_of_delivered (st : s.step e = some s') (h : Delivered s e s') : Unheard s e s' := by
  cases e with
  | tty | writeChar => trivial
  | readChar c =>
    cases st
    -- the argument is another one
    have hc : s.cooked ++ [63] = s.cooked ++ [1] := h.2
    simp at hc

/-- A run sends in order and delivers what it receives exactly when it receives nothing; `write_char`
    sends from a queue into which nothing is ever put. -/
theorem serial_line_iff {tr} (ex : (serialLine ι).Exec s tr) (h0 : (serialLine ι).init s) :
    Always SentInOrder s tr ∧ Along Delivered s tr ↔ Along Unheard s tr := by
  have hinit : s.terminals.Unfed ∧ s.sent = [] :=
    ⟨⟨h0.empty _, fun i h => by rw [h0.idle i] at h; cases h⟩, h0.sent⟩
  have hsent : SentInOrder s := by
    rw [SentInOrder, h0.sent]
    exact List.nil_prefix
  rw [always_and_along_iff hsent]
  refine ex.along_iff (I := fun s => s.terminals.Unfed ∧ s.sent = []) ?_ ?_ hinit
  · intro s e s' hs st hn
    have hs' := unfed_step hs.1 hs.2 st
    refine ⟨hs', ?_, delivered_step hs.1 st hn⟩
    rw [SentInOrder, hs'.2]
    exact List.nil_prefix
  · intro s e s' _ st hq
    exact unheard_of_delivered st hq.2

end

/-- The line as the kernel sets it up. -/
def bootLine : Serial (Fin 1) where
  terminals := {
    tty := ttyTable
    crFlag := false
    jiffies := 0
    cur _ := { signal := 0, alarm := 0 }
    act _ := .idle }
  procList _ := none
  running _ := true
  ier := ierOthers
  sent := []
  put := []
  cooked := []

/-- The sample is idle. -/
lemma bootLine_idle : (serialLine (Fin 1)).init bootLine where
  idle _ := rfl
  empty := by decide
  sent := rfl
  put := rfl

/-- A byte is written to the line, and the transmitter asks for it. -/
def writeByte : List (SerialEvent (Fin 1)) :=
  .tty (.write 0 1 (fun _ => 97) 1) :: List.replicate 4 (.tty (.run 0)) ++ [.writeChar]

/-- Nothing is received, so nothing goes wrong, and nothing is sent. -/
theorem serial_line_write : ∃ tr, (serialLine (Fin 1)).Exec bootLine tr ∧
    Always SentInOrder bootLine tr ∧ Along Delivered bootLine tr ∧
    (last bootLine tr).put = [97] ∧ (last bootLine tr).sent = [] := by
  have hrun : (trace Serial.step bootLine writeByte).map (fun tr =>
      (decide (Along Unheard bootLine tr), (last bootLine tr).put, (last bootLine tr).sent)) =
      some (true, [97], []) := by decide
  obtain ⟨tr, htr, hlast⟩ := Option.map_eq_some_iff.1 hrun
  simp only [Prod.mk.injEq, decide_eq_true_eq] at hlast
  obtain ⟨hu, hput, hsent⟩ := hlast
  have ex : (serialLine (Fin 1)).Exec bootLine tr := System.exec_of_trace (fun _ _ _ => id) htr
  obtain ⟨ha, hd⟩ := (serial_line_iff ex bootLine_idle).2 hu
  exact ⟨tr, ex, ha, hd, hput, hsent⟩

/-- A byte that is received goes into `write_q` of the line, and another terminal's number to
    `do_tty_interrupt`. -/
theorem serial_line_received : ∃ tr, (serialLine (Fin 1)).init bootLine ∧
    (serialLine (Fin 1)).Exec bootLine tr ∧
    ((last bootLine tr).queue (1, .readQ)).contents = [] ∧
    ((last bootLine tr).queue (1, .writeQ)).contents = [97] ∧ (last bootLine tr).cooked = [63] ∧
    ¬ Along Delivered bootLine tr := by
  refine ⟨[(.readChar 97, bootLine.readChar 97)], bootLine_idle, .cons rfl .nil, by decide,
    by decide, rfl, fun h => ?_⟩
  have hc : [63] = [1] := h.1.2
  simp at hc

end OldLinux.Tty
