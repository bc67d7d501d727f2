import OldLinux.Sched.Schedule

/-!
# Processes

Model of `kernel/exit.c`, `do_signal` (`kernel/signal.c`), `tty_intr` and the other places that send or
clear signals, and of the switch from one task to the next (`kernel/sched.c`), on the fields of
`task_struct` that they use.

A call runs on the one processor until it returns or sleeps. Masks are `int` shifts, with the sign
extension of the compiler's 32-bit `int` (`1<<31` is negative). `do_signal` runs with interrupts on, so
`tty_intr` may come before each of its turns. A switch lands in the task that it chooses (that `schedule`
hands over an index is for `Sched.Schedule`). `finish_task_switch` has no place in it: its call behind
`switch_to` is commented out, and the other one, in `schedule_tail`, is behind `ret_from_fork`, whose address
is stored in no `thread.ra` (`Sched.Fork`).
Files, inodes, page tables and what `verify_area` does are left out.
-/

namespace OldLinux.Sched
open Lib Function Mm

/-- What these functions use of a `task_struct`; `page` is its address. -/
structure Task where
  state : TaskState
  signal : BitVec 64
  sigFn : Fin 32 → BitVec 64
  exitCode : BitVec 32
  pid : BitVec 64
  father : BitVec 64
  pgrp : BitVec 64
  uid : BitVec 16
  euid : BitVec 16
  alarm : BitVec 64
  utime : BitVec 64
  stime : BitVec 64
  cutime : BitVec 64
  cstime : BitVec 64
  page : BitVec 64

/-- `task[]`, the slot of the running task, `jiffies` and the memory. -/
structure Tasks where
  task : Fin 64 → Option Task
  current : Fin 64
  jiffies : BitVec 64
  memory : Memory

def sigInt : BitVec 64 := 2

def sigPipe : BitVec 64 := 13

def sigChld : BitVec 64 := 17

/-- `1<<(sig-1)`, as a `long`. -/
def sigMask (sig : BitVec 64) : BitVec 64 := (1#32 <<< (sig - 1).toNat).signExtend 64

/-- `~(1<<(sig-1))`, as a `long`. -/
def clearMask (sig : BitVec 64) : BitVec 64 := (~~~(1#32 <<< (sig - 1).toNat)).signExtend 64

namespace Tasks

/-- `*current`. -/
def cur (s : Tasks) : Option Task := s.task s.current

/-- A change of the task in a slot, if there is one. -/
def onSlot (f : Task → Task) (s : Tasks) (i : Fin 64) : Tasks :=
  match s.task i with
  | none => s
  | some t => { s with task := update s.task i (some (f t)) }

/-- A loop over slots. -/
def forSlots (l : List (Fin 64)) (f : Task → Task) (s : Tasks) : Tasks := l.foldl (onSlot f) s

/-- A change of the running task. -/
def onCurrent (f : Task → Task) (s : Tasks) : Tasks := onSlot f s s.current

/-! ## Sending signals -/

/-- `send_sig(sig, p, priv)` of the task `c`. -/
def sendSig (c : Task) (sig : BitVec 64) (priv : Bool) (p : Task) : Task :=
  if sig.slt 1 ∨ (32#64).slt sig then p
  else if priv ∨ c.uid = p.uid ∨ c.euid = p.uid ∨ c.uid = p.euid ∨ c.euid = p.euid then
    { p with signal := p.signal ||| sigMask sig }
  else p

/-- The tests of `do_kill` for the task `c`. -/
def wanted (c : Task) (pid : BitVec 64) (p : Task) : Bool :=
  if pid = 0 then p.pgrp = c.pid
  else if (0#64).slt pid then p.pid = pid
  else if pid = -1 then true
  else p.pgrp = -pid

/-- `do_kill(pid, sig, priv)`. -/
def doKill (pid sig : BitVec 64) (priv : Bool) (s : Tasks) : Tasks :=
  match s.cur with
  | none => s
  | some c => s.forSlots SchedState.slots fun p => if wanted c pid p then sendSig c sig priv p else p

/-- `sys_kill`, with `pid` and `sig` as `int`s. -/
def sysKill (pid sig : BitVec 32) (s : Tasks) : Tasks :=
  match s.cur with
  | none => s
  | some c => s.doKill (pid.signExtend 64) (sig.signExtend 64) !(c.uid ≠ 0 || c.euid ≠ 0)

/-- `tty_intr(tty, SIGINT)`, for a terminal with the process group `pgrp`. -/
def ttyIntr (pgrp : BitVec 32) (s : Tasks) : Tasks :=
  if pgrp.sle 0 then s
  else s.forSlots (List.finRange 64) fun p =>
    if p.pgrp = pgrp.signExtend 64 then { p with signal := p.signal ||| sigMask sigInt } else p

/-- `write_pipe` without readers. -/
def brokenPipe (s : Tasks) : Tasks :=
  s.onCurrent fun p => { p with signal := p.signal ||| sigMask sigPipe }

/-- The body of the first loop of `schedule`. -/
def check (jiffies : BitVec 64) (p : Task) : Task :=
  let p := if p.alarm ≠ 0 ∧ p.alarm.slt jiffies then
      { p with signal := p.signal ||| sigAlrm, alarm := 0 } else p
  if p.signal ≠ 0 ∧ p.state = .interruptible then { p with state := .running } else p

/-- `tty_read` takes the alarm that it has set. -/
def takeAlarm (s : Tasks) : Tasks :=
  s.onCurrent fun p => { p with signal := p.signal &&& clearMask 14 }

/-! ## Exit and wait -/

/-- `release(task[i])`. -/
def release (i : Fin 64) : Prog Tasks Unit := do
  let s ← Prog.get
  match s.task i with
  | none => Prog.panic "trying to release non-existent task"
  | some p =>
    if i = 0 then Prog.panic "trying to release non-existent task"
    else do
      Prog.modify fun s => { s with task := update s.task i none }
      Prog.zoom Tasks.memory (fun s m => { s with memory := m }) (freeTwoPages p.page)

/-- `do_exit(code)`, up to `schedule`. -/
def doExit (code : BitVec 64) : Prog Tasks Unit := do
  let s ← Prog.get
  match s.cur with
  | none => Prog.fault
  | some c =>
    if s.current = 0 then Prog.panic "Try to do_exit on TASK 0."
    else do
      Prog.modify (forSlots (List.finRange 64) fun p =>
        if p.father = c.pid then { p with father := 0 } else p)
      Prog.modify (onCurrent fun p => { p with state := .zombie })
      let s ← Prog.get
      match s.cur with
      | none => Prog.fault
      | some c =>
        if c.father ≠ 0 then do
          Prog.modify (doKill c.father sigChld true)
          Prog.modify (onCurrent fun p => { p with exitCode := code.setWidth 32 })
        else Prog.modify (onCurrent fun p => { p with state := .dead })

/-- The tests of `sys_waitpid` for the task `c`, before that for its father. -/
def waitsFor (c : Task) (pid : BitVec 64) (p : Task) : Bool :=
  pid = -1 ∨ p.pid = pid ∨ (pid = 0 ∧ p.pgrp = c.pgrp) ∨ (pid.slt 0 ∧ p.pgrp = -pid)

/-- A child that `sys_waitpid` takes into account. -/
def isChild (s : Tasks) (c : Task) (pid : BitVec 64) (i : Fin 64) : Bool :=
  match s.task i with
  | none => false
  | some p => i ≠ s.current && waitsFor c pid p && p.father = c.pid

/-- A child that it can return. -/
def isReady (s : Tasks) (c : Task) (pid : BitVec 64) (i : Fin 64) : Bool :=
  isChild s c pid i && (s.task i).any fun p => p.state = .zombie

/-- What a turn of `sys_waitpid` comes to: it returns, or it sleeps in `do_pause`. -/
inductive Waited where
  | child (pid exitCode : BitVec 64)
  | noHang
  | pause
  | noChild

/-- `sys_waitpid` from the label `repeat` on, up to `do_pause`. -/
def waitpid (pid : BitVec 32) (noHang : Bool) : Prog Tasks Waited := do
  let s ← Prog.get
  match s.cur with
  | none => Prog.fault
  | some c =>
    match SchedState.slots.find? (isReady s c (pid.signExtend 64)) with
    | some i =>
      match s.task i with
      | none => Prog.fault
      | some p => do
        Prog.modify (onCurrent fun c =>
          { c with cutime := c.cutime + p.utime, cstime := c.cstime + p.stime })
        release i
        pure (.child p.pid (p.exitCode.signExtend 64))
    | none =>
      if SchedState.slots.any (isChild s c (pid.signExtend 64)) then
        if noHang then pure .noHang
        else do
          Prog.modify (onCurrent fun p => { p with state := .interruptible })
          pure .pause
      else pure .noChild

/-- `current->signal &= ~(1<<(SIGCHLD-1))`, after `do_pause`. -/
def afterPause (s : Tasks) : Tasks :=
  s.onCurrent fun p => { p with signal := p.signal &&& clearMask sigChld }

/-! ## Taking signals -/

/-- How `do_signal` ends: it returns, or it ends the task. -/
inductive SignalEnd where
  | returned
  | exited
  deriving DecidableEq

/-- The loop of `do_signal` over the signals `l`, with the process groups whose terminals interrupt it
    before each turn. -/
def signalLoop (intr : Fin 32 → List (BitVec 32)) : List (Fin 32) → Prog Tasks SignalEnd
  | [] => pure .returned
  | nr :: l => do
    Prog.modify fun s => (intr nr).foldl (fun s pgrp => ttyIntr pgrp s) s
    let s ← Prog.get
    match s.cur with
    | none => Prog.fault
    | some p =>
      let mask := 1#64 <<< nr.val
      if p.signal &&& mask = 0 then signalLoop intr l
      else do
        Prog.modify (onCurrent fun p => { p with signal := p.signal &&& ~~~mask })
        if p.sigFn nr = 0 then
          if nr.val + 1 = sigChld.toNat then signalLoop intr l
          else do
            doExit (.ofNat 64 (nr.val + 1))
            pure .exited
        else if p.sigFn nr = 1 then signalLoop intr l
        else Prog.panic "No implement of customized signal."

/-- `do_signal(regs)`. -/
def doSignal (userMode : Bool) (intr : Fin 32 → List (BitVec 32)) : Prog Tasks SignalEnd := do
  let s ← Prog.get
  match s.cur with
  | none => Prog.fault
  | some p =>
    if s.current = 0 then pure .returned
    else if !userMode then pure .returned
    else if p.signal = 0 then pure .returned
    else signalLoop intr (List.finRange 32)

/-! ## Switching -/

/-- `context_switch(current, task[next])`; the call of `finish_task_switch` behind `switch_to` is commented
    out. -/
def contextSwitch (next : Fin 64) : Prog Tasks Unit := do
  let s ← Prog.get
  match s.task next with
  | none => Prog.fault
  | some _ => Prog.modify fun s => { s with current := next }

/-- `schedule()`, for the task that it selects. -/
def schedule (next : Fin 64) : Prog Tasks Unit := do
  Prog.modify fun s => s.forSlots SchedState.slots (check s.jiffies)
  contextSwitch next

/-! ## Runs -/

/-- The running task has not exited. -/
def Alive (s : Tasks) : Prop := ∃ c, s.cur = some c ∧ c.state ≠ .zombie ∧ c.state ≠ .dead

/-- The new task that `copy_process` makes of `c`. -/
def child (c : Task) (pid page : BitVec 64) : Task :=
  { c with
    state := .running, signal := 0, pid := pid, father := c.pid, alarm := 0, utime := 0, stime := 0,
    cutime := 0, cstime := 0, page := page }

/-- Other things that happen to a task: it sleeps or is woken, its ids, alarm and times change. -/
structure Other (p p' : Task) : Prop where
  signal : p'.signal = p.signal
  pid : p'.pid = p.pid
  father : p'.father = p.father
  page : p'.page = p.page
  zombie : p'.state = .zombie ↔ p.state = .zombie
  dead : p'.state = .dead ↔ p.state = .dead

end Tasks

/-- The calls of the tasks, the interrupts of the terminals, and all else. -/
inductive TaskEvent where
  | fork (nr : Fin 64)
  | exit (code : BitVec 64)
  | waitpid (pid : BitVec 32) (noHang : Bool)
  | afterPause
  | kill (pid sig : BitVec 32)
  | brokenPipe
  | takeAlarm
  | doSignal (userMode : Bool) (intr : Fin 32 → List (BitVec 32))
  | ttyIntr (pgrp : BitVec 32)
  | schedule (next : Fin 64)
  | other

open Tasks

/-- The steps. What a fork does to the memory is left open. -/
inductive TaskStep : Tasks → TaskEvent → Tasks → Prop where
  | fork {s c nr pid page memory} : s.Alive → s.cur = some c → nr ≠ 0 → s.task nr = none →
    (∀ i t, s.task i = some t → t.pid ≠ pid) → (0#64).slt pid = true →
    TaskStep s (.fork nr)
      { s with task := update s.task nr (some (child c pid page)), memory := memory }
  | exit {s code s'} : s.Alive → Tasks.doExit code s = .ret ((), s') → TaskStep s (.exit code) s'
  | waitpid {s pid noHang r s'} : s.Alive → Tasks.waitpid pid noHang s = .ret (r, s') →
    TaskStep s (.waitpid pid noHang) s'
  | afterPause {s} : s.Alive → TaskStep s .afterPause s.afterPause
  | kill {s pid sig} : s.Alive → TaskStep s (.kill pid sig) (s.sysKill pid sig)
  | brokenPipe {s} : s.Alive → TaskStep s .brokenPipe s.brokenPipe
  | takeAlarm {s} : s.Alive → TaskStep s .takeAlarm s.takeAlarm
  | doSignal {s userMode intr r s'} : s.Alive → Tasks.doSignal userMode intr s = .ret (r, s') →
    TaskStep s (.doSignal userMode intr) s'
  | ttyIntr {s pgrp} : TaskStep s (.ttyIntr pgrp) (s.ttyIntr pgrp)
  | schedule {s next s'} : (∃ t, s.task next = some t ∧ t.state ≠ .zombie ∧ t.state ≠ .dead) →
    Tasks.schedule next s = .ret ((), s') → TaskStep s (.schedule next) s'
  | other {s s'} : s'.current = s.current →
    (∀ i, s'.task i = none ↔ s.task i = none) →
    (∀ i t t', s.task i = some t → s'.task i = some t' → Other t t') → TaskStep s .other s'

/-- The tasks from `sched_init` on: `init_task` alone, which has no father and no signals. -/
def taskSystem : System Tasks TaskEvent where
  init s := s.current = 0 ∧ (∃ t, s.task 0 = some t ∧ t.state = .running ∧ t.signal = 0 ∧ t.father = -1 ∧
    t.pid = 0) ∧ ∀ i, i ≠ 0 → s.task i = none
  step := TaskStep

/-- `init_task` before it has forked. -/
def initTask : Task where
  state := .running
  signal := 0
  sigFn _ := 0
  exitCode := 0
  pid := 0
  father := -1
  pgrp := 0
  uid := 0
  euid := 0
  alarm := 0
  utime := 0
  stime := 0
  cutime := 0
  cstime := 0
  page := p2v paKernel

def bootTasks : Tasks where
  task i := if i = 0 then some initTask else none
  current := 0
  jiffies := 0
  memory := ⟨fun _ _ => 0, fun i => if i < 8 then 1 else 0, fun _ => none, p2v paKernel⟩

/-- The sample is initial. -/
lemma bootTasks_init : taskSystem.init bootTasks := by
  refine ⟨rfl, ⟨initTask, rfl, rfl, rfl, rfl, rfl⟩, fun i hi => ?_⟩
  exact if_neg hi

/-- The running task has forked `task[nr]`. -/
def Tasks.forked (s : Tasks) (nr : Fin 64) (pid page : BitVec 64) : Tasks :=
  { s with task := update s.task nr (s.cur.map fun c => child c pid page) }

/-- The task in a slot is in state `TASK_RUNNING`. -/
def Tasks.runs (s : Tasks) (i : Fin 64) : Bool := (s.task i).any fun p => p.state = .running

section
variable {s : Tasks} {nr : Fin 64}

/-- A task runs if its state says so. -/
lemma Tasks.runs_iff {i : Fin 64} : s.runs i = true ↔ ∃ p, s.task i = some p ∧ p.state = .running := by
  rw [runs, Option.any_eq_true]
  simp only [decide_eq_true_eq]

/-- The current task is alive. -/
lemma Tasks.alive_of_runs (h : s.runs s.current = true) : s.Alive := by
  obtain ⟨p, hp, hs⟩ := runs_iff.1 h
  exact ⟨p, hp, by rw [hs]; decide, by rw [hs]; decide⟩

/-- A fork into a free slot is a step. -/
lemma fork_step {pid page : BitVec 64} (hl : s.runs s.current = true) (h0 : nr ≠ 0)
    (hfree : (s.task nr).isNone = true)
    (hpid : ((List.finRange 64).all fun i => (s.task i).all fun t => t.pid ≠ pid) = true)
    (hpos : (0#64).slt pid = true) : TaskStep s (.fork nr) (s.forked nr pid page) := by
  obtain ⟨c, hc, _⟩ := runs_iff.1 hl
  have hnew : s.forked nr pid page =
      { s with task := update s.task nr (some (child c pid page)), memory := s.memory } := by
    rw [Tasks.forked, cur, hc]
    rfl
  rw [hnew]
  refine .fork (alive_of_runs hl) hc h0 (Option.isNone_iff_eq_none.1 hfree) (fun i t ht => ?_) hpos
  have h := List.all_eq_true.1 hpid i (List.mem_finRange i)
  rw [ht] at h
  simpa using h

/-- An exit is a step. -/
lemma exit_step {code : BitVec 64} (hl : s.runs s.current = true)
    (h : Prog.halts (Tasks.doExit code) s = true) :
    TaskStep s (.exit code) (Prog.after (Tasks.doExit code) s) := by
  obtain ⟨_, e⟩ := Prog.ret_after h
  exact .exit (alive_of_runs hl) e

/-- A switch is a step. -/
lemma schedule_step {next : Fin 64} (hn : s.runs next = true)
    (h : Prog.halts (Tasks.schedule next) s = true) :
    TaskStep s (.schedule next) (Prog.after (Tasks.schedule next) s) := by
  obtain ⟨_, e⟩ := Prog.ret_after h
  obtain ⟨t, ht, hs⟩ := runs_iff.1 hn
  exact .schedule ⟨t, ht, by rw [hs]; decide, by rw [hs]; decide⟩ e

end

/-- A first task has been forked from `init_task`. -/
def firstFork : Tasks := bootTasks.forked 1 1 (pageAddr 0)

/-- The first task runs. -/
def firstRuns : Tasks := Prog.after (Tasks.schedule 1) firstFork

/-- The first fork. -/
lemma firstFork_step : TaskStep bootTasks (.fork 1) firstFork :=
  fork_step (by decide) (by decide) (by decide) (by decide) (by decide)

/-- The child runs. -/
lemma firstRuns_step : TaskStep firstFork (.schedule 1) firstRuns :=
  schedule_step (by decide) (by decide)

/-! ## What the loops do -/

namespace Tasks
variable {s : Tasks} {f : Task → Task} {i : Fin 64} {l : List (Fin 64)}

/-- A slot is changed. -/
lemma onSlot_task {j : Fin 64} :
    (onSlot f s i).task j = if j = i then (s.task i).map f else s.task j := by
  rw [onSlot]
  split
  · next h =>
    split
    · next e => rw [e, h, Option.map_none]
    · rfl
  · next t h =>
    rw [h, Option.map_some]
    exact update_apply _ _ _ _

/-- Changing a slot changes nothing else. -/
lemma onSlot_rest : (onSlot f s i).current = s.current ∧ (onSlot f s i).jiffies = s.jiffies ∧
    (onSlot f s i).memory = s.memory := by
  rw [onSlot]
  split
  · exact ⟨rfl, rfl, rfl⟩
  · exact ⟨rfl, rfl, rfl⟩

/-- A loop over different slots changes the task of each. -/
lemma forSlots_task (hn : l.Nodup) :
    (forSlots l f s).task i = if i ∈ l then (s.task i).map f else s.task i := by
  induction l generalizing s with
  | nil => rfl
  | cons j l ih =>
    obtain ⟨hj, hn⟩ := List.nodup_cons.1 hn
    have h : forSlots (j :: l) f s = forSlots l f (onSlot f s j) := rfl
    rw [h, ih hn, onSlot_task]
    by_cases hi : i = j
    · subst hi
      rw [if_neg hj, if_pos rfl, if_pos List.mem_cons_self]
    · rw [if_neg hi]
      simp only [List.mem_cons, hi, false_or]

/-- Changing slots leaves the rest. -/
lemma forSlots_rest : (forSlots l f s).current = s.current ∧ (forSlots l f s).jiffies = s.jiffies ∧
    (forSlots l f s).memory = s.memory := by
  induction l generalizing s with
  | nil => exact ⟨rfl, rfl, rfl⟩
  | cons j l ih =>
    obtain ⟨hc, hj, hm⟩ := ih (s := onSlot f s j)
    obtain ⟨hc', hj', hm'⟩ := onSlot_rest (f := f) (s := s) (i := j)
    exact ⟨hc.trans hc', hj.trans hj', hm.trans hm'⟩

/-- No slot is twice in the list. -/
lemma slots_nodup : SchedState.slots.Nodup := by decide

/-- All but the first are in it. -/
lemma mem_slots : i ∈ SchedState.slots ↔ i ≠ 0 := by
  revert i
  decide

/-- All slots are changed. -/
lemma allSlots_task : (forSlots (List.finRange 64) f s).task i = (s.task i).map f := by
  rw [forSlots_task (List.nodup_finRange 64), if_pos (List.mem_finRange i)]

/-- The current task is changed. -/
lemma onCurrent_task :
    (onCurrent f s).task i = if i = s.current then (s.task i).map f else s.task i := by
  rw [onCurrent, onSlot_task]
  split
  · next h => rw [h]
  · rfl

/-- The current task stays current when it is changed. -/
lemma onCurrent_current : (onCurrent f s).current = s.current := onSlot_rest.1

/-- It is as it was changed to. -/
lemma onCurrent_cur {c : Task} (h : s.cur = some c) : (onCurrent f s).cur = some (f c) := by
  rw [cur, onCurrent_current, onCurrent_task, if_pos rfl, ← cur, h]
  rfl

/-- The tasks after `do_kill`. -/
lemma doKill_task {c : Task} {pid sig : BitVec 64} {priv : Bool} (h : s.cur = some c) :
    (doKill pid sig priv s).task i = if i ≠ 0 then
      (s.task i).map fun p => if wanted c pid p then sendSig c sig priv p else p else s.task i := by
  rw [doKill, h]
  show (forSlots _ _ s).task i = _
  rw [forSlots_task slots_nodup]
  simp only [mem_slots]

/-- `do_kill` leaves the current task. -/
lemma doKill_current {pid sig : BitVec 64} {priv : Bool} :
    (doKill pid sig priv s).current = s.current := by
  rw [doKill]
  split
  · rfl
  · exact forSlots_rest.1

/-- The father of `c` once `do_exit` has given its children to nobody. -/
def fatherLeft (c : Task) : BitVec 64 := if c.father = c.pid then 0 else c.father

/-- What `do_exit` of the task `c` makes of the task `p`; `own` says whether they are the same. -/
def exited (c : Task) (code : BitVec 64) (own slotZero : Bool) (p : Task) : Task where
  state := if own then if fatherLeft c ≠ 0 then .zombie else .dead else p.state
  signal := if fatherLeft c ≠ 0 ∧ slotZero = false ∧ wanted c (fatherLeft c) p then
    p.signal ||| sigMask sigChld else p.signal
  sigFn := p.sigFn
  exitCode := if own ∧ fatherLeft c ≠ 0 then code.setWidth 32 else p.exitCode
  pid := p.pid
  father := if p.father = c.pid then 0 else p.father
  pgrp := p.pgrp
  uid := p.uid
  euid := p.euid
  alarm := p.alarm
  utime := p.utime
  stime := p.stime
  cutime := p.cutime
  cstime := p.cstime
  page := p.page

/-- A signal that may be sent sets its bit. -/
lemma sendSig_priv {c p : Task} {sig : BitVec 64} (h : ¬ (sig.slt 1 ∨ (32#64).slt sig)) :
    sendSig c sig true p = { p with signal := p.signal ||| sigMask sig } := by
  rw [sendSig, if_neg h, if_pos (.inl rfl)]

/-- What `do_exit` does to the tasks. -/
lemma doExit_spec {c : Task} {code : BitVec 64} (h : s.cur = some c) :
    Prog.wp (Tasks.doExit code) (fun _ s' => s.current ≠ 0 ∧ s'.current = s.current ∧
      ∀ i, s'.task i = (s.task i).map (exited c code (i = s.current) (i = 0))) s := by
  rw [Tasks.doExit, Prog.wp_bind, Prog.wp_get, h]
  show Prog.wp (if _ then _ else _) _ s
  split
  · exact Prog.wp_panic
  next h0 =>
  rw [Prog.wp_bind, Prog.wp_modify, Prog.wp_bind, Prog.wp_modify, Prog.wp_bind, Prog.wp_get]
  generalize hf : (fun p : Task => if p.father = c.pid then { p with father := 0 } else p) = f
  generalize hs₁ : forSlots (List.finRange 64) f s = s₁
  have hc₁ : s₁.current = s.current := hs₁ ▸ forSlots_rest.1
  have ht₁ : ∀ i, s₁.task i = (s.task i).map f := fun i => hs₁ ▸ allSlots_task
  have h₁ : s₁.cur = some (f c) := by
    rw [cur, hc₁, ht₁, ← cur, h]
    rfl
  rw [onCurrent_cur h₁]
  -- the loop over the children sets no field but `father`
  have hfields : ∀ p, f p = { p with father := if p.father = c.pid then 0 else p.father } := by
    intro p
    rw [← hf]
    dsimp only
    split
    · rfl
    · rfl
  have hfather : (f c).father = fatherLeft c := by
    rw [hfields]
    rfl
  have h₂ : (onCurrent (fun p => { p with state := .zombie }) s₁).cur =
      some { f c with state := .zombie } := onCurrent_cur h₁
  show Prog.wp (if (f c).father ≠ 0 then _ else _) _ _
  rw [hfather]
  split
  · next hl =>
    rw [Prog.wp_bind, Prog.wp_modify, Prog.wp_modify]
    refine ⟨h0, ?_, fun i => ?_⟩
    · rw [onCurrent_current, doKill_current, onCurrent_current, hc₁]
    · rw [onCurrent_task, doKill_current, onCurrent_current, doKill_task h₂, onCurrent_task, hc₁, ht₁]
      cases s.task i with
      | none => simp
      | some p =>
        have hl' : ¬ fatherLeft c = 0#64 := hl
        have hchld : ¬ (sigChld.slt 1 ∨ (32#64).slt sigChld) := by decide
        -- `do_kill` looks at the pid and the group only, which have not changed
        have hw : ∀ q : Task, q.pid = p.pid → q.pgrp = p.pgrp →
            wanted { f c with state := .zombie } (fatherLeft c) q = wanted c (fatherLeft c) p := by
          intro q hp hg
          simp only [wanted, hp, hg, hfields]
        by_cases hi : i = s.current
        · have hi0 : i ≠ 0 := fun e => h0 (hi ▸ e)
          simp only [hi, h0, if_true, Option.map_some, sendSig_priv hchld, ne_eq, not_false_eq_true]
          rw [hw _ (by rw [hfields]) (by rw [hfields])]
          cases hwv : wanted c (fatherLeft c) p with
          | true => simp [Tasks.exited, hfields, hl', hwv]
          | false => simp [Tasks.exited, hfields, hl', hwv]
        · simp only [hi, if_false, Option.map_some, sendSig_priv hchld]
          by_cases hi0 : i = 0
          · simp [Tasks.exited, hfields, hl', hi0]
          · simp only [hi0, ne_eq, not_false_eq_true, if_true]
            rw [hw _ (by rw [hfields]) (by rw [hfields])]
            cases hwv : wanted c (fatherLeft c) p with
            | true => simp [Tasks.exited, hfields, hl', hwv]
            | false => simp [Tasks.exited, hfields, hl', hwv]
  · next hl =>
    rw [Prog.wp_modify]
    refine ⟨h0, ?_, fun i => ?_⟩
    · rw [onCurrent_current, onCurrent_current, hc₁]
    · rw [onCurrent_task, onCurrent_current, onCurrent_task, hc₁, ht₁]
      cases s.task i with
      | none => simp
      | some p =>
        have hl : fatherLeft c = 0 := not_not.1 hl
        by_cases hi : i = s.current
        · simp [hi, Tasks.exited, hl, hfields]
        · simp [hi, Tasks.exited, hl, hfields]

/-- `task[i] = NULL` and `free_two_pages`. -/
structure Released (i : Fin 64) (p : Task) (s s' : Tasks) : Prop where
  task : s'.task = update s.task i none
  current : s'.current = s.current
  pages : freeTwoPages p.page s.memory = .ret ((), s'.memory)

/-- `release` frees the slot and its pages. -/
lemma release_spec {p : Task} (h : s.task i = some p) :
    Prog.wp (release i) (fun _ s' => Released i p s s') s := by
  rw [release, Prog.wp_bind, Prog.wp_get, h]
  show Prog.wp (if _ then _ else _) _ s
  split
  · exact Prog.wp_panic
  · rw [Prog.wp_bind, Prog.wp_modify, Prog.wp_zoom]
    intro _ m e
    exact ⟨rfl, rfl, e⟩

/-- The rest of the tasks is as it was. -/
lemma Released.some {p q : Task} {j : Fin 64} (h : Released i p s s') (hq : s'.task j = some q) :
    j ≠ i ∧ s.task j = some q := by
  rw [h.task, update_apply] at hq
  split at hq
  case isTrue => cases hq
  case isFalse hj => exact ⟨hj, hq⟩

/-- A release that returns. -/
lemma release_released : Prog.wp (release i) (fun _ s' => ∃ p, Released i p s s') s := by
  cases h : s.task i with
  | none =>
    rw [release, Prog.wp_bind, Prog.wp_get, h]
    exact Prog.wp_panic
  | some p => exact (release_spec h).mono fun _ _ hr => ⟨p, hr⟩

/-- What a turn of `waitpid` does: nothing, or the task goes to sleep, or it takes over the times of a
    child, which is released. -/
lemma waitpid_spec {pid : BitVec 32} {noHang : Bool} :
    Prog.wp (waitpid pid noHang) (fun _ s' => s' = s ∨
      s' = s.onCurrent (fun c => { c with state := .interruptible }) ∨
      ∃ i p utime stime, Released i p (s.onCurrent fun c =>
        { c with cutime := c.cutime + utime, cstime := c.cstime + stime }) s') s := by
  rw [waitpid, Prog.wp_bind, Prog.wp_get]
  cases s.cur with
  | none => exact Prog.wp_fault
  | some c =>
    show Prog.wp (match SchedState.slots.find? _ with | some i => _ | none => _) _ s
    cases SchedState.slots.find? (isReady s c (pid.signExtend 64)) with
    | some i =>
      show Prog.wp (match s.task i with | none => _ | some p => _) _ s
      cases s.task i with
      | none => exact Prog.wp_fault
      | some p =>
        show Prog.wp (_ >>= _) _ s
        rw [Prog.wp_bind, Prog.wp_modify, Prog.wp_bind]
        refine release_released.mono fun _ s' ⟨q, hr⟩ => ?_
        rw [Prog.wp_pure]
        exact .inr (.inr ⟨i, q, p.utime, p.stime, hr⟩)
    | none =>
      show Prog.wp (if _ then _ else _) _ s
      split
      · split
        · rw [Prog.wp_pure]
          exact .inl rfl
        · rw [Prog.wp_bind, Prog.wp_modify, Prog.wp_pure]
          exact .inr (.inl rfl)
      · rw [Prog.wp_pure]
        exact .inl rfl

/-- A switch sets `current` and nothing else. -/
lemma contextSwitch_spec {next : Fin 64} :
    Prog.wp (contextSwitch next) (fun _ s' => s' = { s with current := next }) s := by
  rw [contextSwitch, Prog.wp_bind, Prog.wp_get]
  cases s.task next with
  | none => exact Prog.wp_fault
  | some t => exact Prog.wp_modify.2 rfl

end Tasks

end OldLinux.Sched
