import OldLinux.Trap.Frame
import OldLinux.Sched.Processes
import Mathlib.Data.List.FinRange

/-!
# System call arguments

What `system_call` (`kernel/system_call.c`) hands to the handlers of `exit`, `open`, `link` and
`mkdir`, and what it leaves in `a0`. Every handler is called through `sys_call_table` with one
argument, the address of the trap frame; `sys_exit` and `sys_link` are declared with other parameters
and take them from the argument registers as they stand, and `sys_open` ends without a `return`.

The operations behind the handlers are a parameter: what matters is which one is performed
(`Operation`, with its arguments) and what becomes of its result. The status of an exit is followed
further, through `do_exit` to `sys_waitpid` (`kernel/exit.c`). The headline is
`arguments_passed_iff`.
-/

namespace OldLinux.Trap
open Lib Sched Function

/-- The C string at an address: its characters before the first null. -/
def cString (mem : BitVec 64 → BitVec 8) (p : BitVec 64) (i : Nat) : Option (BitVec 8) :=
  if ∀ j ≤ i, mem (p + .ofNat 64 j) ≠ 0 then some (mem (p + .ofNat 64 i)) else none

/-- The operations of the four system calls: `do_exit(code)`, `do_open(filename, flag, mode)`, the
    link of an old path to a new one, and the creation of a directory with the given `i_mode`. -/
inductive Operation where
  | exit (code : BitVec 64)
  | open (path : Nat → Option (BitVec 8)) (flag mode : BitVec 32)
  | link (old new : Nat → Option (BitVec 8))
  | mkdir (path : Nat → Option (BitVec 8)) (iMode : BitVec 16)

/-- The machine when `system_call` calls the handler: the frame and its address, the memory, the umask,
    the second argument register, and the value that a function leaves which ends without a `return`. -/
structure CallSite where
  regsAddr : BitVec 64
  regs : PtRegs
  mem : BitVec 64 → BitVec 8
  umask : BitVec 16
  argument1 : BitVec 64
  left : BitVec 32

/-- A handler that performs an operation, and what it returns given the operation's result. -/
structure Handled where
  op : Operation
  result : BitVec 32 → BitVec 32

/-! ## The handlers -/

/-- `(error_code&0xff)<<8`. -/
def exitStatus (errorCode : BitVec 32) : BitVec 32 := (errorCode &&& 0xff) <<< 8

/-- `sys_exit(error_code)`. -/
def sysExit (errorCode : BitVec 32) : Handled where
  op := .exit ((exitStatus errorCode).signExtend 64)
  result r := r

/-- `sys_open(regs)`. -/
def sysOpen (e : CallSite) : Handled where
  op := .open (cString e.mem e.regs.a0) (e.regs.a1.setWidth 32) (e.regs.a2.setWidth 32)
  result _ := e.left

/-- `sys_link(oldname, newname)`. -/
def sysLink (e : CallSite) (oldname newname : BitVec 64) : Handled where
  op := .link (cString e.mem oldname) (cString e.mem newname)
  result r := r

/-- `I_DIRECTORY | (mode & 0777 & ~current->umask)`. -/
def directoryMode (mode : BitVec 32) (umask : BitVec 16) : BitVec 16 :=
  0o40000#16 ||| (mode.setWidth 16 &&& 0o777#16 &&& ~~~umask)

/-- `sys_mkdir(regs)`. -/
def sysMkdir (e : CallSite) : Handled where
  op := .mkdir (cString e.mem e.regs.a0) (directoryMode (e.regs.a0.setWidth 32) e.umask)
  result r := r

/-- The entries of `sys_call_table` for the four calls, called with the one argument `regs`. -/
def handled (e : CallSite) : Option Handled :=
  match e.regs.a7.toNat with
  | 1 => some (sysExit (e.regsAddr.setWidth 32))
  | 5 => some (sysOpen e)
  | 9 => some (sysLink e e.regsAddr e.argument1)
  | 39 => some (sysMkdir e)
  | _ => none

/-- `system_call(regs)` with the handler `h`: the frame it leaves. -/
def systemCallWith {κ : Type} (perform : Operation → Prog κ (BitVec 32)) (doSignal : Prog κ Unit)
    (e : CallSite) (h : Handled) : Prog κ PtRegs := do
  let r ← perform h.op
  doSignal
  pure { e.regs with
    epc := e.regs.epc + 4
    origA0 := e.regs.a0
    a0 := (h.result r).signExtend 64 }

/-! ## The status of an exit -/

/-- What `do_exit(code)` leaves of the entry of its own task. -/
def exited (p : Task) (code : BitVec 64) : Task :=
  if p.father ≠ 0 then { p with state := .zombie, exitCode := code.setWidth 32 }
  else { p with state := .dead }

/-- The loop of `sys_waitpid`: the slot of the zombie it releases with the status it stores. -/
def waitpidScan (s : Tasks) (pid : BitVec 32) : Option (Fin 64 × BitVec 32) :=
  match s.cur with
  | none => none
  | some me => (SchedState.slots.find? (s.isReady me (pid.signExtend 64))).bind fun i =>
    (s.task i).map fun p => (i, p.exitCode)

/-- The status with which the task in slot `c` leaves, as every later `sys_waitpid` that releases it
    sees it: `s` are any tasks of which that in slot `c` is as `do_exit(code)` left it. -/
def StatusSeen (code : BitVec 64) (status : BitVec 32) : Prop :=
  ∀ (p : Task) (s : Tasks) (c : Fin 64) (pid st : BitVec 32),
    s.task c = some (exited p code) → waitpidScan s pid = some (c, st) → st = status

/-! ## What the calls should do -/

/-- What the frame asks for. -/
def Asked (e : CallSite) : Option Operation :=
  match e.regs.a7.toNat with
  | 5 => some (.open (cString e.mem e.regs.a0) (e.regs.a1.setWidth 32) (e.regs.a2.setWidth 32))
  | 9 => some (.link (cString e.mem e.regs.a0) (cString e.mem e.regs.a1))
  | 39 => some (.mkdir (cString e.mem e.regs.a0) (directoryMode (e.regs.a1.setWidth 32) e.umask))
  | _ => none

section
variable {κ : Type} (perform : Operation → Prog κ (BitVec 32)) (doSignal : Prog κ Unit)

/-- In the kernel state `k`, `system_call` performs what the frame asks for and leaves its result in
    `a0`; for `exit`, the parent sees the status `(a0 & 0xff) << 8`. -/
def ArgumentsPassed (e : CallSite) (k : κ) : Prop :=
  ∀ h, handled e = some h →
    (∀ op, Asked e = some op → h.op = op ∧
      ∀ r k' regs k'', perform op k = .ret (r, k') →
        systemCallWith perform doSignal e h k = .ret (regs, k'') → regs.a0 = r.signExtend 64) ∧
    (e.regs.a7.toNat = 1 → ∃ code, h.op = .exit code ∧
      StatusSeen code (exitStatus (e.regs.a0.setWidth 32)))

/-- For `exit`, the low bytes of `a0` and of the address of the frame are equal; for `open`, the
    value left by the missing `return` is the result; for `link`, the address of the frame and the
    second argument register hold the same strings as `a0` and `a1`; for `mkdir`, `a0` and `a1` give
    the same mode. -/
def ArgumentsFit (e : CallSite) (k : κ) : Prop :=
  match e.regs.a7.toNat with
  | 1 => e.regsAddr.setWidth 8 = e.regs.a0.setWidth 8
  | 5 => ∀ r k' k'',
      perform (.open (cString e.mem e.regs.a0) (e.regs.a1.setWidth 32) (e.regs.a2.setWidth 32)) k =
        .ret (r, k') → doSignal k' = .ret ((), k'') → e.left = r
  | 9 => cString e.mem e.regsAddr = cString e.mem e.regs.a0 ∧
      cString e.mem e.argument1 = cString e.mem e.regs.a1
  | 39 => directoryMode (e.regs.a0.setWidth 32) e.umask = directoryMode (e.regs.a1.setWidth 32) e.umask
  | _ => True

end

/-! ## Exit statuses -/

/-- The exit status is the low byte, one byte up. -/
lemma exitStatus_toNat (x : BitVec 32) : (exitStatus x).toNat = (x.setWidth 8).toNat * 256 := by
  have hmask : (x &&& 0xff).toNat = x.toNat % 256 := by
    rw [BitVec.toNat_and]
    exact Nat.and_two_pow_sub_one_eq_mod x.toNat 8
  rw [exitStatus, BitVec.toNat_shiftLeft, hmask, BitVec.toNat_setWidth, Nat.shiftLeft_eq]
  omega

/-- The status keeps the low byte and nothing else. -/
lemma exitStatus_eq_iff {x y : BitVec 32} :
    exitStatus x = exitStatus y ↔ x.setWidth 8 = y.setWidth 8 := by
  constructor
  · intro h
    apply BitVec.eq_of_toNat_eq
    have h' := congrArg BitVec.toNat h
    rw [exitStatus_toNat, exitStatus_toNat] at h'
    omega
  · intro h
    apply BitVec.eq_of_toNat_eq
    rw [exitStatus_toNat, exitStatus_toNat, h]

/-- What `sys_waitpid` stores is the exit code of the zombie it releases. -/
lemma waitpidScan_some {s : Tasks} {c : Fin 64} {pid st : BitVec 32} (h : waitpidScan s pid = some (c, st)) :
    ∃ p, s.task c = some p ∧ p.state = .zombie ∧ p.exitCode = st := by
  rw [waitpidScan] at h
  split at h
  · cases h
  · obtain ⟨i, hi, hmap⟩ := Option.bind_eq_some_iff.1 h
    obtain ⟨p, hp, e⟩ := Option.map_eq_some_iff.1 hmap
    cases e
    have hready := List.find?_some hi
    rw [Tasks.isReady, Bool.and_eq_true, hp] at hready
    exact ⟨p, hp, of_decide_eq_true hready.2, rfl⟩

/-- A task that has exited is released with the code it gave. -/
lemma exitCode_of_zombie {p : Task} {code : BitVec 64} (h : (exited p code).state = .zombie) :
    (exited p code).exitCode = code.setWidth 32 := by
  rw [exited] at h ⊢
  split
  · rfl
  · next hf =>
    rw [if_neg hf] at h
    cases h

/-- A task with a pid and a father. -/
def bareTask (pid father : BitVec 64) : Task where
  state := .running
  signal := 0
  sigFn _ := 0
  exitCode := 0
  pid := pid
  father := father
  pgrp := 0
  uid := 0
  euid := 0
  alarm := 0
  utime := 0
  stime := 0
  cutime := 0
  cstime := 0
  page := 0

/-- Task 63, the first one the loop comes to, with its father in slot 0. -/
def fatherAndChild (code : BitVec 64) : Tasks where
  task i := if i = 63 then some (exited (bareTask 2 1) code) else if i = 0 then some (bareTask 1 0) else none
  current := 0
  jiffies := 0
  memory := ⟨fun _ _ => 0, fun _ => 0, fun _ => none, 0⟩

/-- Some `sys_waitpid` sees the exit code of a task that has a father. -/
lemma statusSeen_iff {code : BitVec 64} {status : BitVec 32} :
    StatusSeen code status ↔ code.setWidth 32 = status := by
  constructor
  · intro h
    exact h (bareTask 2 1) (fatherAndChild code) 63 (-1) (code.setWidth 32) rfl rfl
  · rintro rfl p s c pid st hc hw
    obtain ⟨p', hp', hz, rfl⟩ := waitpidScan_some hw
    rw [hc] at hp'
    cases hp'
    exact exitCode_of_zombie hz

/-! ## The four calls -/

section
variable {κ : Type} {perform : Operation → Prog κ (BitVec 32)} {doSignal : Prog κ Unit}
  {e : CallSite} {k : κ}

/-- What `system_call` leaves in `a0` is what the handler returns. -/
lemma systemCallWith_a0 {h : Handled} {regs : PtRegs} {k'' : κ}
    (hr : systemCallWith perform doSignal e h k = .ret (regs, k'')) :
    ∃ r k', perform h.op k = .ret (r, k') ∧ doSignal k' = .ret ((), k'') ∧
      regs.a0 = (h.result r).signExtend 64 := by
  have hw : Prog.wp (systemCallWith perform doSignal e h) (fun regs k'' => ∃ r k',
      perform h.op k = .ret (r, k') ∧ doSignal k' = .ret ((), k'') ∧
        regs.a0 = (h.result r).signExtend 64) k := by
    rw [systemCallWith, Prog.wp_bind]
    intro r k' hp
    rw [Prog.wp_bind]
    intro _ k'' hs
    rw [Prog.wp_pure]
    exact ⟨r, k', hp, hs, rfl⟩
  exact hw regs k'' hr

/-- A handler that returns the operation's result leaves it in `a0`. -/
lemma result_left {h : Handled} (hid : ∀ r, h.result r = r) {r : BitVec 32} {k' : κ}
    {regs : PtRegs} {k'' : κ} (hp : perform h.op k = .ret (r, k'))
    (hr : systemCallWith perform doSignal e h k = .ret (regs, k'')) : regs.a0 = r.signExtend 64 := by
  obtain ⟨r', _, hp', _, ha⟩ := systemCallWith_a0 hr
  rw [hp] at hp'
  cases hp'
  rw [ha, hid]

/-- `exit` gets the low byte of the address of the frame. -/
lemma passed_exit (h7 : e.regs.a7.toNat = 1) :
    ArgumentsPassed perform doSignal e k ↔ e.regsAddr.setWidth 8 = e.regs.a0.setWidth 8 := by
  have hh : handled e = some (sysExit (e.regsAddr.setWidth 32)) := by simp only [handled, h7]
  have ha : Asked e = none := by simp only [Asked, h7]
  have hw : ∀ x : BitVec 64, (x.setWidth 32).setWidth 8 = x.setWidth 8 := by
    intro x
    exact BitVec.setWidth_setWidth_of_le x (by decide)
  have key : StatusSeen ((exitStatus (e.regsAddr.setWidth 32)).signExtend 64)
      (exitStatus (e.regs.a0.setWidth 32)) ↔ e.regsAddr.setWidth 8 = e.regs.a0.setWidth 8 := by
    rw [statusSeen_iff, setWidth_signExtend, exitStatus_eq_iff, hw, hw]
  rw [ArgumentsPassed, hh, ha, ← key]
  constructor
  · intro hp
    obtain ⟨code, hc, hs⟩ := (hp _ rfl).2 h7
    cases hc
    exact hs
  · intro hs h e'
    cases e'
    exact ⟨nofun, fun _ => ⟨_, rfl, hs⟩⟩

/-- For the calls other than `exit`, the operation has to be the one asked for and its result has to be
    left. -/
lemma passed_iff {h : Handled} {op : Operation} (h1 : e.regs.a7.toNat ≠ 1) (hh : handled e = some h)
    (ha : Asked e = some op) :
    ArgumentsPassed perform doSignal e k ↔ h.op = op ∧ ∀ r k' regs k'', perform op k = .ret (r, k') →
      systemCallWith perform doSignal e h k = .ret (regs, k'') → regs.a0 = r.signExtend 64 := by
  rw [ArgumentsPassed, hh, ha]
  constructor
  · intro hp
    exact (hp h rfl).1 op rfl
  · intro hp h' e'
    cases e'
    refine ⟨?_, fun h7 => (h1 h7).elim⟩
    intro op' e'
    cases e'
    exact hp

/-- `open` gets its arguments if they fit. -/
lemma passed_open (h7 : e.regs.a7.toNat = 5) :
    ArgumentsPassed perform doSignal e k ↔ ArgumentsFit perform doSignal e k := by
  have hh : handled e = some (sysOpen e) := by simp only [handled, h7]
  have ha : Asked e = some (sysOpen e).op := by
    simp only [Asked, h7]
    rfl
  rw [passed_iff (by omega) hh ha]
  simp only [ArgumentsFit, h7]
  constructor
  · rintro ⟨_, hp⟩ r k' k'' hr hs
    change perform (sysOpen e).op k = .ret (r, k') at hr
    have hcall : systemCallWith perform doSignal e (sysOpen e) k =
        .ret ({ e.regs with
          epc := e.regs.epc + 4
          origA0 := e.regs.a0
          a0 := e.left.signExtend 64 }, k'') := by
      rw [systemCallWith, Prog.bind_of_ret hr, Prog.bind_of_ret hs]
      rfl
    have hleft := congrArg (BitVec.setWidth 32) (hp r k' _ k'' hr hcall)
    rwa [setWidth_signExtend, setWidth_signExtend] at hleft
  · intro hp
    refine ⟨trivial, ?_⟩
    intro r k' regs k'' hr hcall
    obtain ⟨r', k₁, hr', hs, ha0⟩ := systemCallWith_a0 hcall
    rw [hr] at hr'
    cases hr'
    rw [ha0, ← hp r k' k'' hr hs]
    rfl

/-- So does `link`. -/
lemma passed_link (h7 : e.regs.a7.toNat = 9) :
    ArgumentsPassed perform doSignal e k ↔ ArgumentsFit perform doSignal e k := by
  have hh : handled e = some (sysLink e e.regsAddr e.argument1) := by simp only [handled, h7]
  have ha : Asked e = some (.link (cString e.mem e.regs.a0) (cString e.mem e.regs.a1)) := by
    simp only [Asked, h7]
  rw [passed_iff (by omega) hh ha]
  simp only [ArgumentsFit, h7]
  constructor
  · rintro ⟨hop, _⟩
    injection hop with hold hnew
    exact ⟨hold, hnew⟩
  · rintro ⟨hold, hnew⟩
    have hop : (sysLink e e.regsAddr e.argument1).op =
        .link (cString e.mem e.regs.a0) (cString e.mem e.regs.a1) := by
      rw [sysLink, hold, hnew]
    refine ⟨hop, ?_⟩
    intro r k' regs k'' hr hcall
    rw [← hop] at hr
    exact result_left (fun _ => rfl) hr hcall

/-- `mkdir` passes its arguments exactly if they fit. -/
lemma passed_mkdir (h7 : e.regs.a7.toNat = 39) :
    ArgumentsPassed perform doSignal e k ↔ ArgumentsFit perform doSignal e k := by
  have hh : handled e = some (sysMkdir e) := by simp only [handled, h7]
  have ha : Asked e = some (.mkdir (cString e.mem e.regs.a0)
      (directoryMode (e.regs.a1.setWidth 32) e.umask)) := by
    simp only [Asked, h7]
  rw [passed_iff (by omega) hh ha]
  simp only [ArgumentsFit, h7]
  constructor
  · rintro ⟨hop, _⟩
    injection hop
  · intro hmode
    have hop : (sysMkdir e).op = .mkdir (cString e.mem e.regs.a0)
        (directoryMode (e.regs.a1.setWidth 32) e.umask) := by
      rw [sysMkdir, hmode]
    refine ⟨hop, ?_⟩
    intro r k' regs k'' hr hcall
    rw [← hop] at hr
    exact result_left (fun _ => rfl) hr hcall

end

/-- For every frame, and whatever the operations do, `exit`, `open`, `link` and `mkdir` are performed
    with the arguments of the frame and leave their result in `a0` exactly when the arguments fit. -/
theorem arguments_passed_iff {κ : Type} (perform : Operation → Prog κ (BitVec 32))
    (doSignal : Prog κ Unit) (e : CallSite) (k : κ) :
    ArgumentsPassed perform doSignal e k ↔ ArgumentsFit perform doSignal e k := by
  by_cases h1 : e.regs.a7.toNat = 1
  · rw [passed_exit h1]
    simp only [ArgumentsFit, h1]
  by_cases h5 : e.regs.a7.toNat = 5
  · exact passed_open h5
  by_cases h9 : e.regs.a7.toNat = 9
  · exact passed_link h9
  by_cases h39 : e.regs.a7.toNat = 39
  · exact passed_mkdir h39
  have hh : handled e = none := by
    rw [handled]
    split <;> first | contradiction | rfl
  have hf : ArgumentsFit perform doSignal e k := by
    rw [ArgumentsFit]
    split <;> first | contradiction | trivial
  refine iff_of_true ?_ hf
  intro h e'
  rw [hh] at e'
  cases e'

/-- `mkdir(0x1000, 0755)` with umask 022 and `exit(3)`, from a frame at the top of an aligned kernel
    stack. -/
def mkdirCall : CallSite where
  regsAddr := 0xFFFFFFC000401EE0
  regs := { a0 := 0x1000, a1 := 0o755, a7 := 39 }
  mem _ := 0
  umask := 0o022
  argument1 := 0
  left := 0

def exitCall : CallSite := { mkdirCall with regs := { a0 := 3, a7 := 1 } }

/-- The directory gets no permission bits, and the parent sees the status `0xe0 << 8`. -/
theorem arguments_lost_mkdir_exit :
    ¬ ArgumentsPassed (fun _ => pure 0) (pure ()) mkdirCall () ∧
    ¬ ArgumentsPassed (fun _ => pure 0) (pure ()) exitCall () := by
  constructor
  · intro h
    have hop := ((h _ rfl).1 _ rfl).1
    injection hop with _ hmode
    exact absurd hmode (by decide)
  · intro h
    obtain ⟨code, hc, hs⟩ := (h _ rfl).2 rfl
    injection hc with hc
    subst hc
    exact absurd (statusSeen_iff.1 hs) (by decide)

end OldLinux.Trap
