import OldLinux.Trap.Frame

/-!
# Interrupt dispatch

Model of `kernel/irq.c`: the dispatcher `do_irq` and the handlers for software, timer and external
interrupts. What the handlers call further on (`do_timer` and the functions in `plic_intr_table`) is
a parameter `IrqHandlers`, and the state keeps a record of these calls and of what is written to the
PLIC.

The `switch` of `do_irq` has a label for each interrupt but no code at the labels, so every interrupt
falls through to `do_irq_unknown`. The headline `do_irq_serves_iff` says what that means for
sequences of interrupts; `handler_serves` that the handlers the labels are named after would do what
they should.
-/

namespace OldLinux.Trap
open Lib

/-- The code the interrupt handlers call. A function of `plic_intr_table` may change the frame it is
    given; a null entry is `none`. -/
structure IrqHandlers (κ : Type) where
  doTimer : PtRegs → Prog κ Unit
  plicIntrTable : Nat → Option (PtRegs → Prog κ PtRegs)

/-- What the interrupt handlers read and write: `jiffies`, `sip`, the clock and the timer, the
    numbers the PLIC gives out at the next claims, the calls of `do_timer` and of the functions in
    `plic_intr_table`, and the numbers written to the completion register. -/
structure IrqState (κ : Type) where
  jiffies : BitVec 64
  sip : BitVec 64
  time : BitVec 64
  timer : BitVec 64
  claims : List (BitVec 32)
  timerRuns : Nat
  passed : List (BitVec 32)
  completed : List (BitVec 32)
  kernel : κ

section
variable {κ : Type} (K : IrqHandlers κ)

/-- `CLINT_IRQ`. -/
def clintIrq : BitVec 64 := rvIrqSoft ||| rvIrqTimer ||| rvIrqExt

/-- `LATCH`. -/
def latch : BitVec 64 := 100000#64

def plicSourceNr : Nat := 54

/-- Runs code of the rest of the kernel. -/
def onKernel {α : Type} (m : Prog κ α) : Prog (IrqState κ) α :=
  Prog.zoom IrqState.kernel (fun s k => { s with kernel := k }) m

/-- `do_irq_unknown(regs)`. -/
def doIrqUnknown (_regs : PtRegs) : Prog (IrqState κ) Unit :=
  Prog.panic "Unknown IRQ from CLINT"

/-- `do_irq_software(regs)`. -/
def doIrqSoftware (_regs : PtRegs) : Prog (IrqState κ) Unit :=
  Prog.modify fun s => { s with sip := s.sip &&& ~~~rvIrqSoft }

/-- `do_irq_timer(regs)`. -/
def doIrqTimer (regs : PtRegs) : Prog (IrqState κ) Unit := do
  Prog.modify fun s => { s with jiffies := s.jiffies + 1, timer := s.time + latch }
  Prog.modify fun s => { s with timerRuns := s.timerRuns + 1 }
  onKernel (K.doTimer regs)

/-- The read of `PLIC_SCLAIM`: the next number, or 0 if there is none. -/
def plicClaim : Prog (IrqState κ) (BitVec 32) := do
  let s ← Prog.get
  Prog.modify fun s => { s with claims := s.claims.tail }
  pure (s.claims.headD 0)

/-- `do_irq_external(regs)`. -/
def doIrqExternal (regs : PtRegs) : Prog (IrqState κ) Unit := do
  let irq ← plicClaim
  let regs := { regs with origA0 := irq.signExtend 64 }
  if irq.toNat < plicSourceNr then
    match K.plicIntrTable irq.toNat with
    | none => Prog.fault
    | some handler =>
      Prog.modify fun s => { s with passed := s.passed ++ [irq] }
      let regs ← onKernel (handler regs)
      Prog.modify fun s => { s with completed := s.completed ++ [regs.origA0.setWidth 32] }
  else Prog.fault

/-- `do_irq(regs)`. The three labels of the `switch` stand before `default` without code of their
    own. -/
def doIrq (regs : PtRegs) : Prog (IrqState κ) Unit :=
  let intrType := regs.cause &&& clintIrq
  if intrType = rvIrqSoft then doIrqUnknown regs
  else if intrType = rvIrqTimer then doIrqUnknown regs
  else if intrType = rvIrqExt then doIrqUnknown regs
  else doIrqUnknown regs

end

/-- The supervisor interrupts. -/
inductive Interrupt where
  | software | timer | external
  deriving DecidableEq

/-- The value of `scause`. -/
def Interrupt.cause : Interrupt → BitVec 64
  | .software => causeIrqFlag ||| rvIrqSoft
  | .timer => causeIrqFlag ||| rvIrqTimer
  | .external => causeIrqFlag ||| rvIrqExt

/-- What a sequence of interrupts should come to, from `s` to `s'`: `jiffies` and the calls of
    `do_timer` grow by the number of timer interrupts; one number is claimed from the PLIC for each
    external interrupt, and the numbers claimed are passed to `plic_intr_table` and completed in that
    order. -/
structure Served {κ : Type} (l : List Interrupt) (s s' : IrqState κ) : Prop where
  jiffies : s'.jiffies = s.jiffies + .ofNat 64 (l.count .timer)
  timerRuns : s'.timerRuns = s.timerRuns + l.count .timer
  passed : s'.passed = s.passed ++ s.claims.take (l.count .external)
  completed : s'.completed = s.completed ++ s.claims.take (l.count .external)
  claims : s'.claims = s.claims.drop (l.count .external)

/-- The frame is that of a trap by this interrupt. -/
def Interrupt.Raised (i : Interrupt) (regs : PtRegs) : Prop := regs.cause = i.cause

variable {κ : Type} {s : IrqState κ}

/-- Whatever the cause, `do_irq` panics. -/
lemma doIrq_eq (regs : PtRegs) : doIrq regs s = .panic "Unknown IRQ from CLINT" := by
  rw [doIrq]
  split_ifs <;> rfl

/-- A sequence of interrupts, each with its frame, is served exactly when it is empty: the first
    interrupt panics. -/
theorem do_irq_serves_iff (l : List Interrupt) (frames : List PtRegs)
    (h : List.Forall₂ Interrupt.Raised l frames) :
    Prog.returns (forM frames doIrq) (fun _ s' => Served l s s') s ↔ l = [] := by
  constructor
  · intro hr
    cases h with
    | nil => rfl
    | @cons _ regs _ _ _ _ =>
      obtain ⟨_, _, e, _⟩ := hr
      rw [List.forM_cons] at e
      change Prog.andThen (doIrq regs) _ s = _ at e
      rw [Prog.andThen, doIrq_eq] at e
      cases e
  · intro e
    subst e
    cases h
    apply Prog.returns_pure
    exact ⟨by simp, rfl, by simp, by simp, rfl⟩

/-- A state in which nothing has happened yet and the PLIC has number 33 to give out. -/
def quietIrq : IrqState Unit where
  jiffies := 0
  sip := 0
  time := 0
  timer := 0
  claims := [33]
  timerRuns := 0
  passed := []
  completed := []
  kernel := ()

/-- The frame of a timer interrupt in user mode. -/
def timerFrame : PtRegs := { cause := causeIrqFlag ||| rvIrqTimer }

/-- No interrupt is served where none comes, and a timer interrupt is not served. -/
theorem do_irq_serves_iff_timer :
    Prog.returns (forM [] doIrq) (fun _ s' => Served [] quietIrq s') quietIrq ∧
    ¬ Prog.returns (forM [timerFrame] doIrq) (fun _ s' => Served [.timer] quietIrq s') quietIrq := by
  refine ⟨(do_irq_serves_iff [] [] .nil).2 rfl, ?_⟩
  intro h
  cases (do_irq_serves_iff [.timer] [timerFrame] (.cons rfl .nil)).1 h

/-- One timer interrupt in user mode panics, so `jiffies` does not grow. -/
theorem do_irq_panics_timer :
    Interrupt.timer.Raised timerFrame ∧
    forM [timerFrame] doIrq quietIrq = .panic "Unknown IRQ from CLINT" ∧
    ¬ Prog.returns (forM [timerFrame] doIrq) (fun _ s' => Served [.timer] quietIrq s') quietIrq := by
  have e : forM [timerFrame] doIrq quietIrq = .panic "Unknown IRQ from CLINT" := by
    rw [List.forM_cons]
    change Prog.andThen (doIrq timerFrame) _ quietIrq = _
    rw [Prog.andThen, doIrq_eq]
  refine ⟨rfl, e, ?_⟩
  rintro ⟨_, _, hr, _⟩
  rw [e] at hr
  cases hr

/-! ## The handlers -/

/-- The handler that a label of the `switch` is named after. -/
def Interrupt.handler (K : IrqHandlers κ) : Interrupt → PtRegs → Prog (IrqState κ) Unit
  | .software => doIrqSoftware
  | .timer => doIrqTimer K
  | .external => doIrqExternal K

/-- The code behind the handlers returns, and a function of `plic_intr_table` that is installed for a
    claimed number leaves `orig_a0` alone. -/
structure IrqHandlers.Sound (K : IrqHandlers κ) (s : IrqState κ) : Prop where
  doTimer : ∀ regs k, Prog.returns (K.doTimer regs) (fun _ _ => True) k
  installed : ∀ irq ∈ s.claims, irq.toNat < plicSourceNr ∧ ∃ f, K.plicIntrTable irq.toNat = some f ∧
    ∀ regs k, Prog.returns (f regs) (fun regs' _ => regs'.origA0 = regs.origA0) k

/-- The handlers serve the interrupts: what is missing is only that `do_irq` calls them. -/
theorem handler_serves (K : IrqHandlers κ) (i : Interrupt) (regs : PtRegs) (hK : K.Sound s)
    (hc : i = .external → s.claims ≠ []) :
    Prog.returns (i.handler K regs) (fun _ s' => Served [i] s s') s := by
  cases i with
  | software =>
    apply Prog.returns_modify
    exact ⟨by simp, by simp, by simp, by simp, by simp⟩
  | timer =>
    apply Prog.returns_bind
    apply Prog.returns_modify
    apply Prog.returns_bind
    apply Prog.returns_modify
    apply Prog.returns_zoom
    refine (hK.doTimer regs _).mono ?_
    intro _ k _
    exact ⟨by simp, by simp, by simp, by simp, by simp⟩
  | external =>
    obtain ⟨irq, rest, hcl⟩ := List.exists_cons_of_ne_nil (hc rfl)
    -- the first interrupt that waits is claimed, and it has a handler
    obtain ⟨hlt, f, hf, hret⟩ := hK.installed irq (by rw [hcl]; exact List.mem_cons_self)
    show Prog.returns (doIrqExternal K regs) _ s
    rw [doIrqExternal]
    apply Prog.returns_bind
    have hclaim : Prog.returns plicClaim
        (fun a s' => a = irq ∧ s' = { s with claims := rest }) s := by
      apply Prog.returns_bind
      apply Prog.returns_get
      apply Prog.returns_bind
      apply Prog.returns_modify
      apply Prog.returns_pure
      rw [hcl]
      exact ⟨rfl, rfl⟩
    refine hclaim.mono ?_
    rintro _ _ ⟨rfl, rfl⟩
    dsimp only
    rw [if_pos hlt, hf]
    apply Prog.returns_bind
    apply Prog.returns_modify
    apply Prog.returns_bind
    apply Prog.returns_zoom
    refine (hret _ _).mono ?_
    intro regs' k ho
    apply Prog.returns_modify
    rw [ho]
    refine ⟨by simp, by simp, ?_, ?_, ?_⟩
    · simp [hcl]
    · simp [hcl, setWidth_signExtend]
    · simp [hcl]

end OldLinux.Trap
