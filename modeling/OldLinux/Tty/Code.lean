import OldLinux.Tty.Table

/-!
# The line discipline

Model of `copy_to_cooked`, `tty_read` and `tty_write` (`kernel/tty_io.c`). Each function is cut into its
statements, so that another activity can come in between any two of them: `CookState`, `ReadState` and
`WriteState` say where a call stands, and a step function carries it on from there. A test of a
queue, a macro on a queue with the assignments beside it, and a call of `tty->write` are one step
each.

What `copy_to_cooked` does with a character after it has looked at it is a list of statements
(`cookStmts`). Calling `tty->write` through a null pointer does not return; a step function is `none`
there.

The members `given`, `accepted`, `stored` and `half` of a `Writer` are not in the source. They record
the bytes a call of `tty_write` was given, those it has counted as written, the bytes it has put into
the queue, and whether it stands between an inserted CR and the newline it was inserted for.
-/

namespace OldLinux.Tty
open Lib Function

/-! ## `copy_to_cooked` -/

/-- The statements of `copy_to_cooked` that come after its tests. -/
inductive CookStmt where
  | putWrite (c : BitVec 8)
  | write
  | decHead
  | stopped (b : Bool)
  | ttyIntr
  | count
  | putSecondary (c : BitVec 8)

namespace TtyStruct
variable (tty : TtyStruct)

/-- The CR/NL translation and `IUCLC`; `none` is the `continue` of `IGNCR`. -/
def inputMap (c : BitVec 8) : Option (BitVec 8) :=
  let mapped :=
    if c = 13 then
      if tty.iCrnl then some 10 else if tty.iNocr then none else some c
    else if c = 10 ∧ tty.iNlcr then some 13 else some c
  mapped.map fun c => if tty.iUclc then tolower c else c

/-- What the erase character does: `c` is now the last character of `secondary`. -/
def eraseStmts : List CookStmt :=
  let secondary := tty.queue .secondary
  let c := secondary.last
  if secondary.Empty ∨ c = 10 ∨ CharIs c tty.eofChar then []
  else
    (if tty.lEcho then
      (if c.toInt < 32 then [.putWrite 127] else []) ++ [.putWrite 127, .write]
    else []) ++ [.decHead]

/-- The echo of a character. -/
def echoStmts (c : BitVec 8) : List CookStmt :=
  if tty.lEcho then
    (if c = 10 then [.putWrite 10, .putWrite 13]
    else if c.toInt < 32 then
      if tty.lEchoctl then [.putWrite 94, .putWrite (c + 64)] else []
    else [.putWrite c]) ++ [.write]
  else []

/-- What `copy_to_cooked` does with a character it has fetched. -/
def cookStmts (c : BitVec 8) : List CookStmt :=
  match tty.inputMap c with
  | none => []
  | some c =>
    if tty.lCanon ∧ CharIs c tty.eraseChar then tty.eraseStmts
    else if tty.lCanon ∧ CharIs c tty.stopChar then [.stopped true]
    else if tty.lCanon ∧ CharIs c tty.startChar then [.stopped false]
    else if ¬ tty.lIsig ∧ CharIs c tty.intrChar then [.ttyIntr]
    else
      (if c = 10 ∨ CharIs c tty.eofChar then [.count] else []) ++ tty.echoStmts c ++ [.putSecondary c]

/-- `tty->write(tty)`: `rs_write` only switches the transmitter interrupt on. -/
def callWrite : Option TtyStruct :=
  match tty.write with
  | .null => none
  | .rsWrite => some tty

/-- The test of the `while` of `copy_to_cooked`. -/
abbrev CookTest : Prop := ¬ (tty.queue .readQ).Empty ∧ ¬ (tty.queue .secondary).Full

end TtyStruct

/-- A statement of `copy_to_cooked`. -/
def CookStmt.run (tty : TtyStruct) : CookStmt → Option TtyStruct
  | putWrite c => some (tty.onQueue .writeQ (.put c))
  | write => tty.callWrite
  | decHead => some (tty.onQueue .secondary .dec)
  | stopped b => some { tty with stopped := b }
  | ttyIntr => some tty
  | count =>
    let q := tty.queue .secondary
    some { tty with queue := update tty.queue .secondary { q with data := q.data + 1 } }
  | putSecondary c => some (tty.onQueue .secondary (.put c))

/-- What a statement does to which queue. -/
def CookStmt.op : CookStmt → Option (QueueName × QueueOp)
  | putWrite c => some (.writeQ, .put c)
  | decHead => some (.secondary, .dec)
  | putSecondary c => some (.secondary, .put c)
  | _ => none

/-- Where a call of `copy_to_cooked` stands: at the test of its loop, at the `GETCH`, after it with a
    character, or in the statements that follow. -/
inductive CookState where
  | loop
  | getch
  | fetched (c : BitVec 8)
  | stmts (l : List CookStmt)
  | returned

/-- One step of `copy_to_cooked(tty)`. -/
def cookStep (tty : TtyStruct) : CookState → Option (CookState × TtyStruct)
  | .loop => some (if tty.CookTest then .getch else .returned, tty)
  | .getch => some (.fetched (tty.queue .readQ).first, tty.onQueue .readQ .get)
  | .fetched c => some (.stmts (tty.cookStmts c), tty)
  | .stmts [] => some (.loop, tty)
  | .stmts (s :: l) => (s.run tty).map fun tty' => (.stmts l, tty')
  | .returned => none

/-! ## `tty_read` -/

/-- `current->signal` and `current->alarm`. -/
structure Current where
  signal : BitVec 64
  alarm : Int

/-- `ALRMMASK`. -/
def alrmmask : BitVec 64 := 1 <<< 13

/-- `EINTR`. -/
def EINTR : Int := 4

/-- The locals of `tty_read`, with the characters stored from `buf` to `b`. -/
structure Reader where
  nr : Int
  got : List (BitVec 8)
  minimum : Int
  time : Int
  flag : Bool
  oldalarm : Int

/-- Where a call of `tty_read` stands: at the test of its outer loop, in `sleep_if_empty`, at a
    `GETCH`, or at the test of the `do` loop. -/
inductive ReadState where
  | loop (r : Reader)
  | asleep (r : Reader)
  | getch (r : Reader)
  | test (r : Reader)
  | returned (n : Int)

namespace Reader
variable (tty : TtyStruct) (jiffies : Int) (cur : Current) (r : Reader)

/-- The end of `tty_read`. -/
def finish : ReadState × Current :=
  (.returned (if cur.signal ≠ 0 ∧ r.got = [] then -EINTR else r.got.length),
    { cur with alarm := r.oldalarm })

/-- The tests at the start of a turn of the outer loop. -/
def loop : ReadState × Current :=
  if r.nr ≤ 0 then r.finish cur
  else if r.flag ∧ cur.signal &&& alrmmask ≠ 0 then
    r.finish { cur with signal := cur.signal &&& ~~~alrmmask }
  else if cur.signal ≠ 0 then r.finish cur
  else
    let q := tty.queue .secondary
    if q.Empty ∨ tty.lCanon ∧ q.data = 0 ∧ 20 < q.left then (.asleep r, cur)
    else (.getch r, cur)

/-- What follows the `do` loop. -/
def afterDo : ReadState × Current :=
  let again : Bool := r.time ≠ 0 ∧ ¬ tty.lCanon
  let flag : Bool := r.oldalarm = 0 ∨ r.time + jiffies < r.oldalarm
  let r := if again then { r with flag := flag } else r
  let cur := if again then
      { cur with alarm := if flag then r.time + jiffies else r.oldalarm }
    else cur
  if tty.lCanon then
    if r.got ≠ [] then r.finish cur else (.loop r, cur)
  else if r.minimum ≤ r.got.length then r.finish cur
  else (.loop r, cur)

/-- The body of the `do` loop. The `return` at the end-of-file character leaves `current->alarm`. -/
def getch : ReadState × TtyStruct :=
  let q := tty.queue .secondary
  let c := q.first
  let q := q.run .get
  let q := if c = tty.eofChar ∨ c = 10 then { q with data := q.data - 1 } else q
  let tty' := { tty with queue := update tty.queue .secondary q }
  if c = tty.eofChar ∧ tty.lCanon then (.returned r.got.length, tty')
  else (.test { r with got := r.got ++ [c], nr := r.nr - 1 }, tty')

/-- The test of the `do` loop. -/
def test : ReadState × Current :=
  if 0 < r.nr ∧ ¬ (tty.queue .secondary).Empty then (.getch r, cur) else r.afterDo tty jiffies cur

end Reader

/-- The start of `tty_read(channel, buf, nr)` on the terminal of the channel. -/
def ttyRead (tty : TtyStruct) (jiffies : Int) (cur : Current) (nr : Int) : ReadState × Current :=
  if nr < 0 then (.returned (-1), cur)
  else
    let time : Int := 10 * tty.vtime.toNat
    let minimum : Int := tty.vmin.toNat
    let timed : Bool := time ≠ 0 ∧ minimum = 0
    let minimum := if timed then 1 else minimum
    let flag : Bool := timed ∧ (cur.alarm = 0 ∨ time + jiffies < cur.alarm)
    (.loop {
      nr := nr
      got := []
      minimum := if nr < minimum then nr else minimum
      time := time
      flag := flag
      oldalarm := cur.alarm },
    { cur with alarm := if flag then time + jiffies else cur.alarm })

/-- One step of `tty_read`. A call in `sleep_if_empty` goes on when there is a signal or a
    character. -/
def readStep (tty : TtyStruct) (jiffies : Int) (cur : Current) :
    ReadState → Option (ReadState × TtyStruct × Current)
  | .loop r =>
    let (k, cur) := r.loop tty cur
    some (k, tty, cur)
  | .asleep r =>
    some (if cur.signal ≠ 0 ∨ ¬ (tty.queue .secondary).Empty then .loop r else .asleep r, tty, cur)
  | .getch r =>
    let (k, tty) := r.getch tty
    some (k, tty, cur)
  | .test r =>
    let (k, cur) := r.test tty jiffies cur
    some (k, tty, cur)
  | .returned _ => none

/-! ## `tty_write` -/

/-- A call of `tty_write`: the bytes from `b` on that are left, and the record of the call. -/
structure Writer where
  left : List (BitVec 8)
  given : List (BitVec 8)
  accepted : List (BitVec 8)
  stored : List (BitVec 8)
  half : Bool

/-- Where a call of `tty_write` stands: at the outer loop, in the loop of `sleep_if_full`, at the test
    of the inner loop, in its body, or at the call of `tty->write`. -/
inductive WriteState where
  | loop (w : Writer)
  | asleep (w : Writer)
  | test (w : Writer)
  | char (w : Writer)
  | flush (w : Writer)
  | returned (n : Int) (w : Writer)

namespace TtyStruct
variable (tty : TtyStruct)

/-- The CR/NL translation of the output. -/
def outputMap (c : BitVec 8) : BitVec 8 :=
  if c = 13 ∧ tty.oCrnl then 10 else if c = 10 ∧ tty.oNlret then 13 else c

end TtyStruct

namespace Writer
variable (tty : TtyStruct) (w : Writer)

/-- `return (b-buf)`. -/
def finish : WriteState := .returned w.accepted.length w

/-- What follows `sleep_if_full`. -/
def awake (cur : Current) : WriteState := if cur.signal ≠ 0 then w.finish else .test w

/-- The body of the inner loop with the static `cr_flag`: the call goes on with `w`, `cr_flag` has a
    value and a character goes into `write_q`. -/
def char (crFlag : Bool) (c : BitVec 8) (rest : List (BitVec 8)) : Writer × Bool × BitVec 8 :=
  let put (x : BitVec 8) : Writer × Bool × BitVec 8 :=
    ({ w with left := rest, accepted := w.accepted ++ [c], stored := w.stored ++ [x], half := false },
      false, x)
  if tty.oPost then
    let x := tty.outputMap c
    if x = 10 ∧ ¬ crFlag ∧ tty.oNlcr then
      ({ w with stored := w.stored ++ [13], half := true }, true, 13)
    else put (if tty.oLcuc then toupper x else x)
  else put c

end Writer

/-- The start of `tty_write(channel, buf, nr)`. -/
def ttyWrite (buf : Nat → BitVec 8) (nr : Int) : WriteState :=
  let bytes := (List.range nr.toNat).map buf
  let w := { left := bytes, given := bytes, accepted := [], stored := [], half := false }
  if nr < 0 then .returned (-1) w else .loop w

/-- One step of `tty_write`: where the call stands afterwards, `cr_flag`, and what it puts into
    `write_q`. -/
def writeStep (tty : TtyStruct) (crFlag : Bool) (cur : Current) :
    WriteState → Option (WriteState × Bool × Option (BitVec 8))
  | .loop w => some (if w.left = [] then w.finish
      else if (tty.queue .writeQ).Full then .asleep w else w.awake cur, crFlag, none)
  | .asleep w => some (if cur.signal = 0 ∧ (tty.queue .writeQ).left < 128 then .asleep w
      else w.awake cur, crFlag, none)
  | .test w => some (if w.left ≠ [] ∧ ¬ (tty.queue .writeQ).Full then .char w else .flush w,
      crFlag, none)
  | .char w =>
    match w.left with
    | [] => none
    | c :: rest =>
      let (w', crFlag', x) := w.char tty crFlag c rest
      some (.test w', crFlag', some x)
  | .flush w => tty.callWrite.map fun _ => (.loop w, crFlag, none)
  | .returned _ _ => none

end OldLinux.Tty
