import OldLinux.Trap.Irq

/-!
# Interrupts and trap handlers

Model of what the trap handlers do to `sstatus.SIE`: the dispatch of `handle_exception`
(`kernel/entry.S`), the exception handlers and their table (`kernel/traps.c`), `system_call`
(`kernel/system_call.c`), `printk` with `tty_write` and `sleep_if_full` (`kernel/printk.c`,
`kernel/tty_io.c`), `context_switch` (`kernel/sched.c`), and the ends of `do_exit` and `do_page_fault`.

The rest of the kernel is a parameter `Kernel` about which nothing is assumed: the system calls and
`do_signal` may do anything to the processor, a task that is switched away may or may not come back, and
so on. A program that returns has reached `ret_from_exception`. The headline is `interrupts_off_iff`.
-/

namespace OldLinux.Trap
open Lib

/-- The part of the processor that matters here, the frame of the trap, and the kernel. -/
structure Cpu (κ : Type) where
  sstatus : BitVec 64
  regs : PtRegs
  irq : IrqState Unit
  kernel : κ

/-- `sstatus.SIE`. -/
def Cpu.sie {κ : Type} (c : Cpu κ) : Bool := c.sstatus.getLsbD 1

def nrSystemCalls : Nat := 67

/-- The rest of the kernel: the system calls and `do_signal`, what `printk` looks at (whether it writes
    to the tty, `current->signal`, whether the write queue of the console is full), the loop in which
    `sleep_if_full` sleeps, `do_exit` up to `schedule()`, the switch to another task and back, and the
    part of `do_page_fault` behind the check of the address, which tells whether it ends in
    `do_exit(SIGSEGV)`. -/
structure Kernel (κ : Type) where
  sysCallTable : Fin nrSystemCalls → Prog (Cpu κ) (BitVec 32)
  doSignal : Prog (Cpu κ) Unit
  printkTty : κ → Bool
  signal : κ → BitVec 64
  writeFull : κ → Bool
  sleep : Prog κ Unit
  exitBody : BitVec 64 → Prog (Cpu κ) Unit
  switchTo : Prog κ Unit
  pageIn : PtRegs → Prog κ Bool

section
variable {κ : Type}

/-- `local_irq_enable()`. -/
def localIrqEnable : Prog (Cpu κ) Unit := Prog.modify fun c => { c with sstatus := c.sstatus ||| srSie }

/-- `local_irq_disable()`. -/
def localIrqDisable : Prog (Cpu κ) Unit :=
  Prog.modify fun c => { c with sstatus := c.sstatus &&& ~~~srSie }

/-- Runs code that does not touch the processor. -/
def inKernel {α : Type} (m : Prog κ α) : Prog (Cpu κ) α :=
  Prog.zoom Cpu.kernel (fun c k => { c with kernel := k }) m

/-- `regs->epc += 4`. -/
def skipInsn : Prog (Cpu κ) Unit :=
  Prog.modify fun c => { c with regs := { c.regs with epc := c.regs.epc + 4 } }

variable (K : Kernel κ)

/-! ## Switching and printing -/

/-- `context_switch(prev, next)`. -/
def contextSwitch : Prog (Cpu κ) Unit := do
  localIrqDisable
  inKernel K.switchTo
  localIrqEnable

/-- `do_exit(code)`. -/
def doExit (code : BitVec 64) : Prog (Cpu κ) Unit := do
  K.exitBody code
  contextSwitch K

/-- The wait of `sleep_if_full`: `while (!current->signal && LEFT(*queue)<128) ..`. -/
def wait : Prog κ Unit := do
  let k ← Prog.get
  if K.signal k = 0 then K.sleep else pure ()

/-- `sleep_if_full(queue)`. -/
def sleepIfFull : Prog (Cpu κ) Unit := do
  let c ← Prog.get
  if K.writeFull c.kernel then do
    localIrqDisable
    inKernel (wait K)
    localIrqEnable
  else pure ()

/-- `tty_write(0, buf, nr)` with `nr > 0`. Without a signal the characters are queued and
    `tty->write` is called, which is a null pointer for the console. -/
def ttyWrite : Prog (Cpu κ) Unit := do
  sleepIfFull K
  let c ← Prog.get
  if K.signal c.kernel ≠ 0 then pure () else Prog.fault

/-- `printk(fmt, ..)`, which in this module never prints an empty text. -/
def printk (_fmt : String) : Prog (Cpu κ) Unit := do
  let c ← Prog.get
  if K.printkTty c.kernel then ttyWrite K else pure ()

/-! ## Exceptions -/

/-- `die(str, regs)`. -/
def die (_str : String) : Prog (Cpu κ) Unit := do
  printk K "%s: %02x\n\r"
  printk K "EPC:\t%p\nRA:\t%p\nSP:\t%p\nSTATUS:\t%p\nBADADDR:\t%p\n"
  printk K "Pid: %d\n\r"
  printk K "\n\r"
  doExit K 11

/-- The handlers that end the task: `die(str, regs); regs->epc += 4`. -/
def dieAndSkip (str : String) : Prog (Cpu κ) Unit := do
  die K str
  skipInsn

def doReserved : Prog (Cpu κ) Unit := dieAndSkip K "Reserved Exception"

def doInsnIllegal : Prog (Cpu κ) Unit := dieAndSkip K "Reserved Exception"

def doMisaligned : Prog (Cpu κ) Unit := dieAndSkip K "Misaligned Exception"

def doAccessFault : Prog (Cpu κ) Unit := dieAndSkip K "Access Fault Exception"

def doImpossibleEcall : Prog (Cpu κ) Unit := dieAndSkip K "Impossible Ecall Exception"

def doTrapUnknown : Prog (Cpu κ) Unit := dieAndSkip K "Unknown Exception"

/-- `do_break(regs)`. -/
def doBreak : Prog (Cpu κ) Unit := do
  printk K "Breakpoint From %s Mode.\n"
  printk K "Register in pt_regs:\n"
  forM (List.range 7) fun _ => printk K "%s:\t\t0x%p\n"
  skipInsn

/-- The check of the address in `do_page_fault`; `badaddr` is signed there. -/
def badAddress (regs : PtRegs) : Bool :=
  let badaddr := regs.badaddr &&& ~~~0xFFF#64
  badaddr.slt 4096 || 0x3FFFFFFFFF#64 ≤ badaddr

/-- The first statement of `do_page_fault`. -/
def checkAddress (regs : PtRegs) : Prog (Cpu κ) Unit :=
  if badAddress regs then do
    printk K "Page Fault on pid:%d at %p.\n"
    doExit K 11
  else pure ()

/-- `do_page_fault(regs)`. -/
def doPageFault : Prog (Cpu κ) Unit := do
  let c ← Prog.get
  checkAddress K c.regs
  let ends ← inKernel (K.pageIn c.regs)
  if ends then doExit K 11 else pure ()

/-- `system_call(regs)`. -/
def systemCall : Prog (Cpu κ) Unit := do
  let c ← Prog.get
  skipInsn
  Prog.modify fun c => { c with regs := { c.regs with origA0 := c.regs.a0 } }
  localIrqEnable
  if h : c.regs.a7.toNat < nrSystemCalls then do
    let r ← K.sysCallTable ⟨c.regs.a7.toNat, h⟩
    Prog.modify fun c => { c with regs := { c.regs with a0 := r.signExtend 64 } }
    K.doSignal
    localIrqDisable
  else
    Prog.modify fun c => { c with regs := { c.regs with a0 := -1 } }

/-- `do_irq(regs)`. -/
def doIrqCpu : Prog (Cpu κ) Unit := do
  let c ← Prog.get
  Prog.zoom Cpu.irq (fun c i => { c with irq := i }) (doIrq c.regs)

/-- `excp_vect_table` as `trap_init` sets it. -/
def excpVectTable : List (Prog (Cpu κ) Unit) :=
  [doMisaligned K, doAccessFault K, doInsnIllegal K, doBreak K,
    doMisaligned K, doAccessFault K, doMisaligned K, doAccessFault K,
    systemCall K, doImpossibleEcall K, doReserved K, doImpossibleEcall K,
    doPageFault K, doPageFault K, doReserved K, doPageFault K]

/-- The handler for the exception `n`: an entry of `excp_vect_table`, or `do_trap_unknown` behind its
    end. -/
def handlerOf (n : Nat) : Prog (Cpu κ) Unit :=
  match (excpVectTable K)[n]? with
  | some handler => handler
  | none => doTrapUnknown K

/-- The dispatch of `handle_exception`: an interrupt if `scause` is negative, else an exception. -/
def dispatch : Prog (Cpu κ) Unit := do
  let c ← Prog.get
  if c.regs.cause.slt 0 then doIrqCpu else handlerOf K c.regs.cause.toNat

end

/-- A trap from user mode: the hardware moves `SIE` to `SPIE`, clears it and clears `SPP`, and
    `handle_exception` saves `sstatus` and clears `SUM`, `FS` and `VS`. -/
def trapFromUser {κ : Type} (c : Cpu κ) : Cpu κ :=
  let status := (c.sstatus &&& ~~~(srSie ||| srSpie ||| srSpp)) ||| (if c.sie then srSpie else 0)
  { c with
    sstatus := status &&& ~~~(srSum ||| srFs ||| srVs)
    regs := { c.regs with status := status } }

/-- Whenever control reaches `ret_from_exception` after a trap from user mode in `c`, `SIE` is clear. -/
def InterruptsOff {κ : Type} (K : Kernel κ) (c : Cpu κ) : Prop :=
  ∀ c', dispatch K (trapFromUser c) = .ret ((), c') → c'.sie = false

/-! ## When interrupts stay off -/

section
variable {κ : Type} (K : Kernel κ)

/-- `printk` goes to the tty, the write queue is full, and the wait for room in it ends with a
    signal. -/
def PrintkEnables (k : κ) : Prop :=
  K.printkTty k ∧ K.writeFull k ∧ ∃ k', wait K k = .ret ((), k') ∧ K.signal k' ≠ 0

/-- The page fault handler calls `do_exit`. -/
def FaultExits (c : Cpu κ) : Prop :=
  badAddress c.regs ∨ ∃ k, K.pageIn c.regs c.kernel = .ret (true, k)

/-- What has to hold of the frame and the kernel at the start of a handler: a system call has a
    number in the table; a breakpoint does not have to wait for the console; and a task that has
    called `do_exit` does not come back. -/
def Disciplined (c : Cpu κ) : Prop :=
  if c.regs.cause.slt 0 then True
  else if c.regs.cause = excSyscall then c.regs.a7.toNat < nrSystemCalls
  else if c.regs.cause = excBreakpoint then ¬ PrintkEnables K c.kernel
  else if c.regs.cause = excInstPageFault ∨ c.regs.cause = excLoadPageFault ∨
      c.regs.cause = excStorePageFault then
    FaultExits K c → Prog.halts (doPageFault K) c = false
  else Prog.halts (dieAndSkip K "") c = false

end

variable {κ : Type} {K : Kernel κ} {c : Cpu κ}

/-- Interrupts are on. -/
@[simp] lemma sie_enable (c : Cpu κ) : Cpu.sie { c with sstatus := c.sstatus ||| srSie } = true := by
  rw [Cpu.sie, BitVec.getLsbD_or]
  simp [srSie]

/-- Interrupts are off. -/
@[simp] lemma sie_disable (c : Cpu κ) :
    Cpu.sie { c with sstatus := c.sstatus &&& ~~~srSie } = false := by
  rw [Cpu.sie, BitVec.getLsbD_and]
  simp [srSie]

/-- They are off in a trap. -/
lemma sie_trapFromUser (c : Cpu κ) : (trapFromUser c).sie = false := by
  rw [trapFromUser, Cpu.sie, BitVec.getLsbD_and, BitVec.getLsbD_or, BitVec.getLsbD_and]
  split <;> simp [srSie, srSpie, srSpp, srSum, srFs, srVs]

/-- A program that leaves with `SIE` set keeps it off only by not returning. -/
lemma off_iff_of_on {m : Prog (Cpu κ) Unit} (h : Prog.wp m (fun _ c' => c'.sie = true) c) :
    (∀ c', m c = .ret ((), c') → c'.sie = false) ↔ Prog.halts m c = false := by
  constructor
  · intro hoff
    by_contra hh
    obtain ⟨a, e⟩ := Prog.ret_after (Bool.eq_true_of_not_eq_false hh)
    have hon : (Prog.after m c).sie = true := h a _ e
    rw [hoff _ e] at hon
    cases hon
  · intro hh c' e
    rw [Prog.halts, e] at hh
    cases hh

/-! ## The handlers one by one -/

/-- A context switch leaves them on. -/
lemma contextSwitch_on : Prog.wp (contextSwitch K) (fun _ c' => c'.sie = true) c := by
  rw [contextSwitch, Prog.wp_bind, localIrqDisable, Prog.wp_modify, Prog.wp_bind, inKernel,
    Prog.wp_zoom]
  intro _ k _
  rw [localIrqEnable, Prog.wp_modify]
  exact sie_enable _

/-- `do_exit` leaves interrupts on. -/
lemma doExit_on {code : BitVec 64} : Prog.wp (doExit K code) (fun _ c' => c'.sie = true) c := by
  rw [doExit, Prog.wp_bind]
  intro _ c' _
  exact contextSwitch_on

/-- The end of a task in a trap leaves interrupts on. -/
lemma dieAndSkip_on {str : String} :
    Prog.wp (dieAndSkip K str) (fun _ c' => c'.sie = true) c := by
  rw [dieAndSkip, Prog.wp_bind, die]
  simp only [Prog.wp_bind]
  intro _ c₁ _ _ c₂ _ _ c₃ _ _ c₄ _
  refine doExit_on.mono ?_
  intro _ c₅ h
  rw [skipInsn, Prog.wp_modify]
  exact h

/-- A system call leaves them off. -/
lemma systemCall_off (h : c.regs.a7.toNat < nrSystemCalls) :
    Prog.wp (systemCall K) (fun _ c' => c'.sie = false) c := by
  rw [systemCall, Prog.wp_bind, Prog.wp_get]
  simp only [skipInsn, localIrqEnable, Prog.wp_bind, Prog.wp_modify]
  rw [dif_pos h]
  simp only [localIrqDisable, Prog.wp_bind, Prog.wp_modify]
  intro r c₁ _ _ c₂ _
  exact sie_disable _

/-- A number outside the table is answered with interrupts on. -/
lemma systemCall_on (h : ¬ c.regs.a7.toNat < nrSystemCalls) :
    Prog.returns (systemCall K) (fun _ c' => c'.sie = true) c := by
  rw [systemCall]
  apply Prog.returns_bind
  apply Prog.returns_get
  apply Prog.returns_bind
  apply Prog.returns_modify
  apply Prog.returns_bind
  apply Prog.returns_modify
  apply Prog.returns_bind
  apply Prog.returns_modify
  rw [dif_neg h]
  apply Prog.returns_modify
  exact sie_enable _

/-- A `printk` that does not have to wait for the console changes nothing. -/
lemma printk_quiet {fmt : String} (h : ¬ PrintkEnables K c.kernel) :
    Prog.wp (printk K fmt) (fun _ c' => c' = c) c := by
  rw [printk, Prog.wp_bind, Prog.wp_get]
  split
  · next htty =>
    rw [ttyWrite, Prog.wp_bind, sleepIfFull, Prog.wp_bind, Prog.wp_get]
    split
    · next hfull =>
      simp only [localIrqDisable, localIrqEnable, inKernel, Prog.wp_bind, Prog.wp_modify, Prog.wp_zoom]
      intro _ k hk
      rw [Prog.wp_get]
      -- the wait ended without a signal, so the null pointer is called
      have hs : ¬ K.signal k ≠ 0 := fun hs => h ⟨htty, hfull, k, hk, hs⟩
      rw [if_neg hs]
      exact Prog.wp_fault
    · rw [Prog.wp_pure, Prog.wp_bind, Prog.wp_get]
      split
      · exact Prog.wp_pure.2 rfl
      · exact Prog.wp_fault
  · exact Prog.wp_pure.2 rfl

/-- A `printk` that waits for the console and gets a signal comes back with interrupts on. -/
lemma printk_enables {fmt : String} (h : PrintkEnables K c.kernel) :
    Prog.returns (printk K fmt) (fun _ c' => c'.sie = true ∧ K.signal c'.kernel ≠ 0) c := by
  obtain ⟨htty, hfull, k, hk, hs⟩ := h
  rw [printk]
  apply Prog.returns_bind
  apply Prog.returns_get
  rw [if_pos htty, ttyWrite]
  apply Prog.returns_bind
  rw [sleepIfFull]
  apply Prog.returns_bind
  apply Prog.returns_get
  rw [if_pos hfull]
  apply Prog.returns_bind
  apply Prog.returns_modify
  apply Prog.returns_bind
  apply Prog.returns_zoom
  refine ⟨(), k, hk, ?_⟩
  apply Prog.returns_modify
  apply Prog.returns_bind
  apply Prog.returns_get
  rw [if_pos hs]
  apply Prog.returns_pure
  exact ⟨sie_enable _, hs⟩

/-- With a signal and interrupts on, `printk` returns and leaves them on. -/
lemma printk_on {fmt : String} (hon : c.sie = true) (hs : K.signal c.kernel ≠ 0) :
    Prog.returns (printk K fmt) (fun _ c' => c'.sie = true ∧ K.signal c'.kernel ≠ 0) c := by
  by_cases h : PrintkEnables K c.kernel
  · exact printk_enables h
  rw [printk]
  apply Prog.returns_bind
  apply Prog.returns_get
  split
  · next htty =>
    have hfull : ¬ K.writeFull c.kernel := by
      intro hfull
      refine h ⟨htty, hfull, c.kernel, ?_, hs⟩
      show (if K.signal c.kernel = 0 then K.sleep else pure ()) c.kernel = _
      rw [if_neg hs]
      rfl
    rw [ttyWrite]
    apply Prog.returns_bind
    rw [sleepIfFull]
    apply Prog.returns_bind
    apply Prog.returns_get
    rw [if_neg hfull]
    apply Prog.returns_pure
    apply Prog.returns_bind
    apply Prog.returns_get
    rw [if_pos hs]
    apply Prog.returns_pure
    exact ⟨hon, hs⟩
  · apply Prog.returns_pure
    exact ⟨hon, hs⟩

/-- A breakpoint that does not print leaves interrupts off. -/
lemma doBreak_off (h : ¬ PrintkEnables K c.kernel) (hoff : c.sie = false) :
    Prog.wp (doBreak K) (fun _ c' => c'.sie = false) c := by
  rw [doBreak, Prog.wp_bind]
  refine (printk_quiet h).mono ?_
  rintro _ _ rfl
  rw [Prog.wp_bind]
  refine (printk_quiet h).mono ?_
  rintro _ _ rfl
  rw [Prog.wp_bind]
  refine (Prog.wp_forM (I := fun _ c' => ¬ PrintkEnables K c'.kernel ∧ c'.sie = false) ?_
    ⟨h, hoff⟩).mono ?_
  · rintro _ _ c' hc'
    refine (printk_quiet hc'.1).mono ?_
    rintro _ _ rfl
    exact hc'
  · intro _ c' hc'
    rw [skipInsn, Prog.wp_modify]
    exact hc'.2

/-- A breakpoint that prints leaves interrupts on. -/
lemma doBreak_on (h : PrintkEnables K c.kernel) :
    Prog.returns (doBreak K) (fun _ c' => c'.sie = true) c := by
  rw [doBreak]
  apply Prog.returns_bind
  refine (printk_enables h).mono ?_
  rintro _ c₁ ⟨hon, hs⟩
  apply Prog.returns_bind
  refine (printk_on hon hs).mono ?_
  rintro _ c₂ hc₂
  apply Prog.returns_bind
  refine (Prog.returns_forM (I := fun c' => c'.sie = true ∧ K.signal c'.kernel ≠ 0) ?_ hc₂).mono ?_
  · intro _ c' hc'
    exact printk_on hc'.1 hc'.2
  · intro _ c₃ hc₃
    apply Prog.returns_modify
    exact hc₃.1

/-- A page fault handler that does not call `do_exit` leaves `SIE` alone. -/
lemma doPageFault_off (h : ¬ FaultExits K c) (hoff : c.sie = false) :
    Prog.wp (doPageFault K) (fun _ c' => c'.sie = false) c := by
  have hbad : ¬ badAddress c.regs := fun hb => h (.inl hb)
  rw [doPageFault, Prog.wp_bind, Prog.wp_get, Prog.wp_bind, checkAddress, if_neg hbad, Prog.wp_pure,
    Prog.wp_bind, inKernel, Prog.wp_zoom]
  intro ends k hk
  cases ends with
  | true => exact (h (.inr ⟨k, hk⟩)).elim
  | false => exact Prog.wp_pure.2 hoff

/-- A page fault handler that calls `do_exit` can only come back with interrupts on. -/
lemma doPageFault_on (h : FaultExits K c) :
    Prog.wp (doPageFault K) (fun _ c' => c'.sie = true) c := by
  rw [doPageFault, Prog.wp_bind, Prog.wp_get, Prog.wp_bind, checkAddress]
  by_cases hbad : badAddress c.regs
  · rw [if_pos hbad, Prog.wp_bind]
    intro _ c₁ _
    refine doExit_on.mono ?_
    intro _ c₂ hc₂
    rw [Prog.wp_bind, inKernel, Prog.wp_zoom]
    intro ends k _
    cases ends with
    | true => exact doExit_on
    | false => exact Prog.wp_pure.2 hc₂
  · obtain ⟨k, hk⟩ := h.resolve_left hbad
    rw [if_neg hbad, Prog.wp_pure, Prog.wp_bind, inKernel, Prog.wp_zoom]
    intro ends k' hk'
    rw [hk] at hk'
    cases hk'
    exact doExit_on

/-! ## Every trap -/

/-- All handlers but those of breakpoints, system calls and page faults end the task. -/
lemma handlerOf_die (n : Nat) (h3 : n ≠ 3) (h8 : n ≠ 8) (h12 : n ≠ 12) (h13 : n ≠ 13) (h15 : n ≠ 15) :
    ∃ str, handlerOf K n = dieAndSkip K str := by
  match n with
  | 0 | 1 | 2 | 4 | 5 | 6 | 7 | 9 | 10 | 11 | 14 => exact ⟨_, rfl⟩
  | 3 => exact (h3 rfl).elim
  | 8 => exact (h8 rfl).elim
  | 12 => exact (h12 rfl).elim
  | 13 => exact (h13 rfl).elim
  | 15 => exact (h15 rfl).elim
  | n + 16 => exact ⟨_, rfl⟩

/-- An interrupt of the CLINT panics. -/
lemma dispatch_interrupt (h : c.regs.cause.slt 0) :
    dispatch K c = .panic "Unknown IRQ from CLINT" := by
  show (if c.regs.cause.slt 0 then doIrqCpu else handlerOf K c.regs.cause.toNat) c = _
  have e : doIrqCpu c = Prog.zoom Cpu.irq (fun c i => { c with irq := i }) (doIrq c.regs) c := rfl
  rw [if_pos h, e, Prog.zoom, doIrq_eq]

/-- An exception has its handler. -/
lemma dispatch_exception (h : ¬ c.regs.cause.slt 0) :
    dispatch K c = handlerOf K c.regs.cause.toNat c := by
  show (if c.regs.cause.slt 0 then doIrqCpu else handlerOf K c.regs.cause.toNat) c = _
  rw [if_neg h]

/-- From a state with interrupts off, control reaches `ret_from_exception` only with interrupts off
    exactly when the state is disciplined. -/
lemma dispatch_off_iff (hoff : c.sie = false) :
    (∀ c', dispatch K c = .ret ((), c') → c'.sie = false) ↔ Disciplined K c := by
  rw [Disciplined]
  split_ifs with hneg h8 h3 hpf
  · rw [dispatch_interrupt hneg]
    exact iff_of_true nofun trivial
  all_goals rw [dispatch_exception hneg]
  · rw [h8]
    constructor
    · intro h
      by_contra hlt
      obtain ⟨_, c', e, hon⟩ := systemCall_on (K := K) hlt
      rw [h c' e] at hon
      cases hon
    · intro hlt c' e
      exact systemCall_off hlt _ c' e
  · rw [h3]
    constructor
    · intro h hp
      obtain ⟨_, c', e, hon⟩ := doBreak_on hp
      rw [h c' e] at hon
      cases hon
    · intro hp c' e
      exact doBreak_off hp hoff _ c' e
  · have hh : handlerOf K c.regs.cause.toNat = doPageFault K := by
      rcases hpf with e | e | e <;> rw [e] <;> rfl
    rw [hh]
    constructor
    · intro h hx
      exact (off_iff_of_on (doPageFault_on hx)).1 h
    · intro h
      by_cases hx : FaultExits K c
      · exact (off_iff_of_on (doPageFault_on hx)).2 (h hx)
      · intro c' e
        exact doPageFault_off hx hoff _ c' e
  · have hn : ∀ n : BitVec 64, c.regs.cause ≠ n → c.regs.cause.toNat ≠ n.toNat :=
      fun n hne e => hne (BitVec.eq_of_toNat_eq e)
    obtain ⟨str, hh⟩ := handlerOf_die (K := K) c.regs.cause.toNat (hn _ h3) (hn _ h8)
      (hn _ fun e => hpf (.inl e)) (hn _ fun e => hpf (.inr (.inl e)))
      (hn _ fun e => hpf (.inr (.inr e)))
    rw [hh]
    exact off_iff_of_on dieAndSkip_on

/-- After a trap from user mode, whatever its cause and the system call number, control reaches
    `ret_from_exception` only with `SIE` clear exactly when a system call has a number in the table, a
    breakpoint's `printk` does not wait for the console, and a task that has called `do_exit` does not
    come back. -/
theorem interrupts_off_iff (K : Kernel κ) (c : Cpu κ) :
    InterruptsOff K c ↔ Disciplined K (trapFromUser c) :=
  dispatch_off_iff (sie_trapFromUser c)

/-- A kernel whose system calls return 0, whose console is never full and whose dead tasks stay away. -/
def plainKernel : Kernel Unit where
  sysCallTable _ := pure 0
  doSignal := pure ()
  printkTty _ := false
  signal _ := 0
  writeFull _ := false
  sleep := pure ()
  exitBody _ := pure ()
  switchTo := Prog.fault
  pageIn _ := pure false

/-- A task in user mode, with interrupts on, that makes the system call 67. -/
def badCall : Cpu Unit where
  sstatus := srSie
  regs := { a7 := 67, cause := excSyscall }
  irq := quietIrq
  kernel := ()

/-- The system call 67 is answered with `SIE` set. -/
theorem interrupts_on_bad_call :
    ∃ c', dispatch plainKernel (trapFromUser badCall) = .ret ((), c') ∧ c'.sie = true ∧
      ¬ InterruptsOff plainKernel badCall := by
  have hlt : ¬ (trapFromUser badCall).regs.a7.toNat < nrSystemCalls := by decide
  obtain ⟨_, c', e, hon⟩ := systemCall_on (K := plainKernel) hlt
  have e' : dispatch plainKernel (trapFromUser badCall) = .ret ((), c') :=
    (dispatch_exception (by decide)).trans e
  refine ⟨c', e', hon, ?_⟩
  intro h
  rw [h c' e'] at hon
  cases hon

end OldLinux.Trap
