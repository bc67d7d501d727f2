import OldLinux.Trap.Frame
import Mathlib.Data.List.Nodup
import Mathlib.Logic.Function.Basic

/-!
# Trap entry and return

Model of `handle_exception` up to its dispatch and of `ret_from_exception` (`kernel/entry.S`), one
definition for each run of instructions, over the registers, the CSRs and the memory. Memory is accessed
in aligned words, so it is a function on addresses. The offsets are those of `asm_offsets.h`.

What runs between the two is `Handler`: kernel code, which does not use `sscratch`, and further traps
taken from kernel mode, each with a handler of its own that returns (`Returned`) with `sp`, `tp` and its
frame unchanged. The headline `trap_restores` is about a trap from either mode with any such handler.
-/

namespace OldLinux.Trap
open Function

/-- The registers, the CSRs that the trap code uses, and the memory by words. -/
structure Machine where
  x : Fin 32 → BitVec 64
  mem : BitVec 64 → BitVec 64
  sscratch : BitVec 64
  sepc : BitVec 64
  stval : BitVec 64
  scause : BitVec 64
  sstatus : BitVec 64

/-! ## Offsets -/

def ptSize : Nat := 288

def ptEpc : Nat := 0

def ptRa : Nat := 8

def ptSp : Nat := 16

def ptGp : Nat := 24

def ptTp : Nat := 32

def ptT0 : Nat := 40

def ptStatus : Nat := 256

def ptBadaddr : Nat := 264

def ptCause : Nat := 272

def taskTiKernelSp : Nat := 8

def taskTiUserSp : Nat := 16

def threadSize : Nat := 8192

/-! ## Instructions -/

namespace Machine

/-- `rd := v`. -/
def set (m : Machine) (rd : Fin 32) (v : BitVec 64) : Machine := { m with x := update m.x rd v }

/-- The address `off(base)`. -/
def addr (m : Machine) (base : Fin 32) (off : Nat) : BitVec 64 := m.x base + .ofNat 64 off

/-- `REG_S rs, off(base)`. -/
def regS (m : Machine) (rs : Fin 32) (off : Nat) (base : Fin 32) : Machine :=
  { m with mem := update m.mem (m.addr base off) (m.x rs) }

/-- `REG_L rd, off(base)`. -/
def regL (m : Machine) (rd : Fin 32) (off : Nat) (base : Fin 32) : Machine :=
  m.set rd (m.mem (m.addr base off))

/-- A run of `REG_S` relative to a base register. -/
def savesAt (base : Fin 32) (m : Machine) (l : List (Fin 32 × Nat)) : Machine :=
  l.foldl (fun m p => m.regS p.1 p.2 base) m

/-- A run of `REG_L` relative to a base register. -/
def restoresAt (base : Fin 32) (m : Machine) (l : List (Fin 32 × Nat)) : Machine :=
  l.foldl (fun m p => m.regL p.1 p.2 base) m

/-- A run of `REG_S` relative to `sp`. -/
def saves (m : Machine) (l : List (Fin 32 × Nat)) : Machine := l.foldl (fun m p => m.regS p.1 p.2 2) m

/-- A run of `REG_L` relative to `sp`. -/
def restores (m : Machine) (l : List (Fin 32 × Nat)) : Machine := l.foldl (fun m p => m.regL p.1 p.2 2) m

end Machine

/-- The lines of `save_from_x6_to_x31` and of `restore_from_x6_to_x31`. -/
def fromX6ToX31 : List (Fin 32 × Nat) :=
  [(6, 48), (7, 56), (8, 64), (9, 72), (10, 80), (11, 88), (12, 96), (13, 104), (14, 112), (15, 120),
    (16, 128), (17, 136), (18, 144), (19, 152), (20, 160), (21, 168), (22, 176), (23, 184), (24, 192),
    (25, 200), (26, 208), (27, 216), (28, 224), (29, 232), (30, 240), (31, 248)]

/-- The registers that `save_context` saves first. -/
def savedRegs : List (Fin 32 × Nat) := [(1, ptRa), (3, ptGp), (5, ptT0)] ++ fromX6ToX31

/-- The values that `save_context` saves from `s0` to `s5`. -/
def savedCsrs : List (Fin 32 × Nat) :=
  [(8, ptSp), (9, ptStatus), (18, ptEpc), (19, ptBadaddr), (20, ptCause), (21, ptTp)]

/-- The registers that `ret_from_exception` restores before `sp`. -/
def restoredRegs : List (Fin 32 × Nat) := [(1, ptRa), (3, ptGp), (4, ptTp), (5, ptT0)] ++ fromX6ToX31

namespace Machine

/-- `handle_exception` up to `save_context`. -/
def swapTp (m : Machine) : Machine :=
  let m := { m.set 4 m.sscratch with sscratch := m.x 4 }
  if m.x 4 ≠ 0 then m
  else
    let m := m.set 4 m.sscratch
    m.regS 2 taskTiKernelSp 4

/-- `save_context` up to the saved registers. -/
def saveRegs (m : Machine) : Machine :=
  let m := m.regS 2 taskTiUserSp 4
  let m := m.regL 2 taskTiKernelSp 4
  let m := m.set 2 (m.x 2 - .ofNat 64 ptSize)
  m.saves savedRegs

/-- The reads of `save_context` into `t0` and `s0` to `s5`. -/
def readCsrs (m : Machine) : Machine :=
  let m := m.set 5 (srSum ||| (srFs ||| srVs))
  let m := m.regL 8 taskTiUserSp 4
  let m := { m.set 9 m.sstatus with sstatus := m.sstatus &&& ~~~m.x 5 }
  let m := m.set 18 m.sepc
  let m := m.set 19 m.stval
  let m := m.set 20 m.scause
  m.set 21 m.sscratch

/-- `handle_exception` up to the dispatch; `ra` is left to the dispatch. -/
def handleException (m : Machine) : Machine :=
  let m := m.swapTp.saveRegs.readCsrs.saves savedCsrs
  let m := { m with sscratch := 0 }
  m.set 10 (m.x 2)

/-- The first part of `ret_from_exception`, which sets `kernel_sp` and `sscratch` for user mode. -/
def leaveKernel (m : Machine) : Machine :=
  let m := m.regL 8 ptStatus 2
  let m := m.set 8 (m.x 8 &&& srSpp)
  if m.x 8 ≠ 0 then m
  else
    let m := m.set 8 (m.x 2 + .ofNat 64 ptSize)
    let m := m.regS 8 taskTiKernelSp 4
    { m with sscratch := m.x 4 }

/-- The part of `ret_from_exception` that restores `sstatus` and `sepc`. The `sc.d` stores what has just
    been loaded, or fails. -/
def restoreCsrs (stored : Bool) (m : Machine) : Machine :=
  let m := m.regL 10 ptStatus 2
  let m := m.regL 12 ptEpc 2
  let m := if stored then m.regS 12 ptEpc 2 else m
  { m with sstatus := m.x 10, sepc := m.x 12 }

/-- `ret_from_exception` up to `sret`. -/
def retFromException (stored : Bool) (m : Machine) : Machine :=
  ((m.leaveKernel.restoreCsrs stored).restores restoredRegs).regL 2 ptSp 2

/-- `sret`, on `sstatus`: `SIE` becomes `SPIE`, `SPIE` is set and `SPP` cleared. -/
def sret (m : Machine) : Machine :=
  { m with sstatus := (m.sstatus &&& ~~~(srSie ||| srSpp)) ||| srSpie |||
      (if m.sstatus &&& srSpie ≠ 0 then srSie else 0) }

/-- What the hardware does to `sstatus` at a trap from kernel mode. -/
def trapStatus (sstatus : BitVec 64) : BitVec 64 :=
  (sstatus &&& ~~~(srSie ||| srSpie)) ||| srSpp ||| (if sstatus &&& srSie ≠ 0 then srSpie else 0)

/-- A trap from kernel mode. -/
def trapFromKernel (m : Machine) (epc cause tval : BitVec 64) : Machine :=
  { m with sepc := epc, scause := cause, stval := tval, sstatus := trapStatus m.sstatus }

/-- The words of the frame at `sp`. -/
def frame (m : Machine) (k : Fin 36) : BitVec 64 := m.mem (m.addr 2 (8 * k))

end Machine

open Machine

/-- The handler that started in `m` comes to `ret_from_exception` in `m'`: `sp`, `tp` and the frame are
    unchanged and interrupts are disabled. -/
structure Returned (m m' : Machine) : Prop where
  sp : m'.x 2 = m.x 2
  tp : m'.x 4 = m.x 4
  frame : m'.frame = m.frame
  sie : m'.sstatus &&& srSie = 0

/-- What may run from the dispatch of a trap to `ret_from_exception`. -/
inductive Handler : Machine → Machine → Prop where
  | done {m} : Handler m m
  | code {m m' m''} : m'.sscratch = m.sscratch → Handler m' m'' → Handler m m''
  | trap {m m₁ m'} {epc cause tval : BitVec 64} {stored : Bool} :
    Handler (m.trapFromKernel epc cause tval).handleException m₁ →
    Returned (m.trapFromKernel epc cause tval).handleException m₁ →
    Handler (m₁.retFromException stored).sret m' → Handler m m'

/-- User mode: `sscratch` is the task, whose kernel stack is empty. -/
structure UserConvention (task : BitVec 64) (m : Machine) : Prop where
  ne : task ≠ 0
  sscratch : m.sscratch = task
  kernelSp : m.mem (task + .ofNat 64 taskTiKernelSp) = task + .ofNat 64 threadSize

/-- A trap has been taken from user mode. -/
structure FromUser (task : BitVec 64) (m : Machine) : Prop extends UserConvention task m where
  spp : m.sstatus &&& srSpp = 0

/-- The stack pointer is in the kernel stack of the task, above `thread_info` and with room for a
    frame. -/
def InStack (task sp : BitVec 64) : Prop :=
  32 + ptSize ≤ (sp - task).toNat ∧ (sp - task).toNat ≤ threadSize

/-- A trap has been taken from kernel mode: `sscratch` is 0, `tp` is the task. -/
structure FromKernel (m : Machine) : Prop where
  sscratch : m.sscratch = 0
  spp : m.sstatus &&& srSpp ≠ 0
  inStack : InStack (m.x 4) (m.x 2)

/-- The context of `m` is back in `m'`. -/
structure Restored (m m' : Machine) : Prop where
  x : ∀ i, i ≠ 0 → m'.x i = m.x i
  sepc : m'.sepc = m.sepc
  sstatus : m'.sstatus = m.sstatus

variable {m m' m₁ : Machine} {task sp : BitVec 64}

/-! ## Runs of loads and stores -/

namespace Machine

/-- The register that is set. -/
@[simp] lemma set_self (m : Machine) (rd : Fin 32) (v : BitVec 64) : (m.set rd v).x rd = v :=
  update_self _ _ _

/-- The other registers. -/
lemma set_of_ne {rd i : Fin 32} (h : i ≠ rd) (v : BitVec 64) : (m.set rd v).x i = m.x i :=
  update_of_ne h _ _

/-- Different small offsets give different addresses. -/
lemma add_offset_inj {p : BitVec 64} {o o' : Nat} (ho : o < 2 ^ 64) (ho' : o' < 2 ^ 64)
    (h : p + .ofNat 64 o = p + .ofNat 64 o') : o = o' := by
  have h' := congrArg BitVec.toNat ((BitVec.add_right_inj p).1 h)
  rw [BitVec.toNat_ofNat, BitVec.toNat_ofNat] at h'
  omega

section
variable {base : Fin 32} {a : BitVec 64} {i : Fin 32} {l : List (Fin 32 × Nat)}

/-- Saving registers leaves them and the CSRs. -/
lemma savesAt_fields (base : Fin 32) (l : List (Fin 32 × Nat)) :
    ∀ m : Machine, (m.savesAt base l).x = m.x ∧ (m.savesAt base l).sscratch = m.sscratch ∧
      (m.savesAt base l).sepc = m.sepc ∧ (m.savesAt base l).sstatus = m.sstatus := by
  induction l with
  | nil => exact fun _ => ⟨rfl, rfl, rfl, rfl⟩
  | cons p l ih => exact fun m => ih (m.regS p.1 p.2 base)

/-- A run of stores changes no other word. -/
lemma savesAt_mem_of_ne (l : List (Fin 32 × Nat)) :
    ∀ m : Machine, (∀ p ∈ l, a ≠ m.addr base p.2) → (m.savesAt base l).mem a = m.mem a := by
  induction l with
  | nil => exact fun _ _ => rfl
  | cons p l ih =>
    intro m h
    refine (ih (m.regS p.1 p.2 base) fun q hq => h q (List.mem_cons_of_mem _ hq)).trans ?_
    exact update_of_ne (h p List.mem_cons_self) _ _

/-- A run of stores to different offsets stores each register. -/
lemma savesAt_mem_of_mem (base : Fin 32) (hn : (l.map Prod.snd).Nodup) (hlt : ∀ p ∈ l, p.2 < 2 ^ 64) :
    ∀ m : Machine, ∀ p ∈ l, (m.savesAt base l).mem (m.addr base p.2) = m.x p.1 := by
  induction l with
  | nil => exact nofun
  | cons q l ih =>
    intro m p hp
    rw [List.map_cons, List.nodup_cons] at hn
    rcases List.mem_cons.1 hp with rfl | hp
    · -- later stores go to other offsets
      refine (savesAt_mem_of_ne l (m.regS p.1 p.2 base) ?_).trans (update_self _ _ _)
      intro r hr e
      have heq : p.2 = r.2 :=
        add_offset_inj (hlt p List.mem_cons_self) (hlt r (List.mem_cons_of_mem _ hr)) e
      exact hn.1 (heq ▸ List.mem_map_of_mem hr)
    · exact ih hn.2 (fun r hr => hlt r (List.mem_cons_of_mem _ hr)) (m.regS q.1 q.2 base) p hp

/-- Restoring them leaves the memory and the CSRs. -/
lemma restoresAt_fields (base : Fin 32) (l : List (Fin 32 × Nat)) :
    ∀ m : Machine, (m.restoresAt base l).mem = m.mem ∧ (m.restoresAt base l).sscratch = m.sscratch ∧
      (m.restoresAt base l).sepc = m.sepc ∧ (m.restoresAt base l).sstatus = m.sstatus := by
  induction l with
  | nil => exact fun _ => ⟨rfl, rfl, rfl, rfl⟩
  | cons p l ih => exact fun m => ih (m.regL p.1 p.2 base)

/-- A run of loads changes no other register. -/
lemma restoresAt_x_of_not_mem (l : List (Fin 32 × Nat)) :
    ∀ m : Machine, i ∉ l.map Prod.fst → (m.restoresAt base l).x i = m.x i := by
  induction l with
  | nil => exact fun _ _ => rfl
  | cons p l ih =>
    intro m h
    rw [List.map_cons, List.mem_cons, not_or] at h
    exact (ih (m.regL p.1 p.2 base) h.2).trans (set_of_ne h.1 _)

/-- A run of loads into different registers other than the base register loads each. -/
lemma restoresAt_x_of_mem (base : Fin 32) (hn : (l.map Prod.fst).Nodup)
    (hb : base ∉ l.map Prod.fst) :
    ∀ m : Machine, ∀ p ∈ l, (m.restoresAt base l).x p.1 = m.mem (m.addr base p.2) := by
  induction l with
  | nil => exact nofun
  | cons q l ih =>
    intro m p hp
    rw [List.map_cons, List.nodup_cons] at hn
    rw [List.map_cons, List.mem_cons, not_or] at hb
    have hbase : (m.regL q.1 q.2 base).x base = m.x base := set_of_ne hb.1 _
    rcases List.mem_cons.1 hp with rfl | hp
    · exact (restoresAt_x_of_not_mem l (m.regL p.1 p.2 base) hn.1).trans (set_self _ _ _)
    · refine (ih hn.2 hb.2 (m.regL q.1 q.2 base) p hp).trans ?_
      rw [addr, addr, hbase]
      rfl

end

/-- The same on the stack. -/
lemma saves_fields (l : List (Fin 32 × Nat)) (m : Machine) :
    (m.saves l).x = m.x ∧ (m.saves l).sscratch = m.sscratch ∧
      (m.saves l).sepc = m.sepc ∧ (m.saves l).sstatus = m.sstatus :=
  savesAt_fields 2 l m

/-- Saving leaves the memory beside. -/
lemma saves_mem_of_ne {a : BitVec 64} (l : List (Fin 32 × Nat)) (m : Machine)
    (h : ∀ p ∈ l, a ≠ m.addr 2 p.2) : (m.saves l).mem a = m.mem a :=
  savesAt_mem_of_ne l m h

/-- A register is in its place. -/
lemma saves_mem_of_mem {l : List (Fin 32 × Nat)} (hn : (l.map Prod.snd).Nodup)
    (hlt : ∀ p ∈ l, p.2 < ptSize) (m : Machine) (p : Fin 32 × Nat) (hp : p ∈ l) :
    (m.saves l).mem (m.addr 2 p.2) = m.x p.1 := by
  refine savesAt_mem_of_mem 2 hn (fun q hq => ?_) m p hp
  exact Nat.lt_trans (hlt q hq) (by decide)

/-- Restoring from the stack leaves the memory and the CSRs. -/
lemma restores_fields (l : List (Fin 32 × Nat)) (m : Machine) :
    (m.restores l).mem = m.mem ∧ (m.restores l).sscratch = m.sscratch ∧
      (m.restores l).sepc = m.sepc ∧ (m.restores l).sstatus = m.sstatus :=
  restoresAt_fields 2 l m

/-- A register that is not restored stays. -/
lemma restores_x_of_not_mem {i : Fin 32} (l : List (Fin 32 × Nat)) (m : Machine)
    (h : i ∉ l.map Prod.fst) : (m.restores l).x i = m.x i :=
  restoresAt_x_of_not_mem l m h

/-- One that is comes from its place. -/
lemma restores_x_of_mem {l : List (Fin 32 × Nat)} (hn : (l.map Prod.fst).Nodup)
    (h2 : 2 ∉ l.map Prod.fst) (m : Machine) (p : Fin 32 × Nat) (hp : p ∈ l) :
    (m.restores l).x p.1 = m.mem (m.addr 2 p.2) :=
  restoresAt_x_of_mem 2 hn h2 m p hp

end Machine

/-! ## Entry -/

/-- The words of `thread_info` are not in a frame pushed onto the stack. -/
lemma InStack.ne (h : InStack task sp) {t off : Nat} (ht : t < 32) (ho : off < ptSize) :
    task + .ofNat 64 t ≠ sp - .ofNat 64 ptSize + .ofNat 64 off := by
  obtain ⟨hlo, hhi⟩ := h
  rw [ptSize] at ho hlo ⊢
  rw [threadSize] at hhi
  intro e
  bv_omega

/-- The top of the stack is in it. -/
lemma inStack_top (task : BitVec 64) : InStack task (task + .ofNat 64 threadSize) := by
  have e : task + .ofNat 64 threadSize - task = .ofNat 64 threadSize := by
    rw [BitVec.add_comm, BitVec.add_sub_cancel]
  rw [InStack, e]
  decide

/-- What `handle_exception` has done before `save_context`: `tp` is the task, whose `kernel_sp` is the
    kernel stack to use, and `sscratch` has the old `tp`. -/
structure Swapped (task sp : BitVec 64) (m m' : Machine) : Prop where
  tp : m'.x 4 = task
  x : ∀ i, i ≠ 4 → m'.x i = m.x i
  sscratch : m'.sscratch = m.x 4
  kernelSp : m'.mem (task + .ofNat 64 taskTiKernelSp) = sp
  sepc : m'.sepc = m.sepc
  sstatus : m'.sstatus = m.sstatus

/-- From user mode the kernel stack is taken up. -/
lemma swapTp_user (h : UserConvention task m) :
    Swapped task (task + .ofNat 64 threadSize) m m.swapTp := by
  have hne : m.sscratch ≠ 0 := by
    rw [h.sscratch]
    exact h.ne
  have e : m.swapTp = { m.set 4 m.sscratch with sscratch := m.x 4 } :=
    if_pos (by rw [set_self]; exact hne)
  rw [e]
  refine ⟨(set_self m 4 m.sscratch).trans h.sscratch, ?_, rfl, h.kernelSp, rfl, rfl⟩
  intro i hi
  exact set_of_ne hi m.sscratch

/-- From the kernel the stack is kept. -/
lemma swapTp_kernel (h : m.sscratch = 0) : Swapped (m.x 4) (m.x 2) m m.swapTp := by
  have hz : (m.set 4 m.sscratch).x 4 = 0 := (set_self _ _ _).trans h
  have e : m.swapTp =
      ({ m.set 4 m.sscratch with sscratch := m.x 4 }.set 4 (m.x 4)).regS 2 taskTiKernelSp 4 :=
    if_neg (not_not_intro hz)
  have h4 : ({ m.set 4 m.sscratch with sscratch := m.x 4 }.set 4 (m.x 4)).x 4 = m.x 4 := set_self _ _ _
  have hx : ∀ i, i ≠ 4 →
      ({ m.set 4 m.sscratch with sscratch := m.x 4 }.set 4 (m.x 4)).x i = m.x i :=
    fun i hi => (set_of_ne hi _).trans (set_of_ne hi m.sscratch)
  rw [e]
  refine ⟨h4, hx, rfl, ?_, rfl, rfl⟩
  show update _ (_ + _) _ (m.x 4 + _) = _
  rw [h4, update_self]
  exact hx 2 (by decide)

/-- The frame at `sp` holds the context of `m`, and the handler runs on the stack below it. -/
structure Saved (task sp : BitVec 64) (m m' : Machine) : Prop where
  sp : m'.x 2 = sp - .ofNat 64 ptSize
  tp : m'.x 4 = task
  x : ∀ i : Fin 32, i ≠ 0 → m'.mem (m'.addr 2 (8 * i)) = m.x i
  epc : m'.mem (m'.addr 2 ptEpc) = m.sepc
  status : m'.mem (m'.addr 2 ptStatus) = m.sstatus

/-- All registers but three are saved. -/
lemma savedRegs_mem : ∀ i : Fin 32, i ≠ 0 → i ≠ 2 → i ≠ 4 → (i, 8 * i.val) ∈ savedRegs := by
  decide

/-- The registers are saved within the frame. -/
lemma savedRegs_lt : ∀ p ∈ savedRegs, p.2 < ptSize := by
  decide

/-- Each register is saved in its own place. -/
lemma savedRegs_nodup : (savedRegs.map Prod.snd).Nodup := by
  decide

/-- The CSRs are within the frame. -/
lemma savedCsrs_lt : ∀ p ∈ savedCsrs, p.2 < ptSize := by
  decide

/-- Each CSR is saved in its own place. -/
lemma savedCsrs_nodup : (savedCsrs.map Prod.snd).Nodup := by
  decide

/-- The registers are at other offsets than the CSRs, `sp` and `tp`. -/
lemma savedCsrs_ne : ∀ i : Fin 32, i ≠ 0 → i ≠ 2 → i ≠ 4 → ∀ p ∈ savedCsrs, 8 * i.val ≠ p.2 := by
  decide

/-- What `save_context` leaves before the CSRs are read. -/
lemma saveRegs_spec (hs : Swapped task sp m m') (hin : InStack task sp) :
    m'.saveRegs.x 2 = sp - .ofNat 64 ptSize ∧ (∀ i, i ≠ 2 → m'.saveRegs.x i = m'.x i) ∧
    m'.saveRegs.mem (task + .ofNat 64 taskTiUserSp) = m.x 2 ∧
    (∀ i : Fin 32, i ≠ 0 → i ≠ 2 → i ≠ 4 →
      m'.saveRegs.mem (sp - .ofNat 64 ptSize + .ofNat 64 (8 * i)) = m.x i) := by
  let p₁ := m'.regS 2 taskTiUserSp 4
  let p₂ := p₁.regL 2 taskTiKernelSp 4
  let p₃ := p₂.set 2 (p₂.x 2 - .ofNat 64 ptSize)
  have hx : m'.saveRegs.x = p₃.x := (saves_fields savedRegs p₃).1
  have hk : p₁.mem (m'.x 4 + .ofNat 64 taskTiKernelSp) = sp := by
    rw [hs.tp]
    refine (update_of_ne ?_ _ _).trans hs.kernelSp
    show _ ≠ m'.x 4 + _
    rw [hs.tp]
    exact fun e => absurd (add_offset_inj (by decide) (by decide) e) (by decide)
  have h2 : p₃.x 2 = sp - .ofNat 64 ptSize := by
    rw [← hk]
    exact (set_self p₂ 2 _).trans (congrArg (· - _) (set_self p₁ 2 _))
  have hx3 : ∀ i, i ≠ 2 → p₃.x i = m'.x i := fun i hi => (set_of_ne hi _).trans (set_of_ne hi _)
  have hu : p₃.mem (task + .ofNat 64 taskTiUserSp) = m.x 2 := by
    rw [← hs.tp]
    exact (update_self _ _ _).trans (hs.x 2 (by decide))
  refine ⟨by rw [hx, h2], fun i hi => by rw [hx, hx3 i hi], ?_, ?_⟩
  · refine (saves_mem_of_ne savedRegs p₃ ?_).trans hu
    intro p hp
    rw [addr, h2]
    exact hin.ne (by decide) (savedRegs_lt p hp)
  · intro i h0 hi2 hi4
    have hm := saves_mem_of_mem savedRegs_nodup savedRegs_lt p₃ _ (savedRegs_mem i h0 hi2 hi4)
    rw [addr, h2, hx3 i hi2, hs.x i hi4] at hm
    exact hm

/-- What the reads of the CSRs leave. -/
lemma readCsrs_spec (m : Machine) :
    m.readCsrs.mem = m.mem ∧ m.readCsrs.x 2 = m.x 2 ∧ m.readCsrs.x 4 = m.x 4 ∧
    m.readCsrs.x 8 = m.mem (m.x 4 + .ofNat 64 taskTiUserSp) ∧ m.readCsrs.x 9 = m.sstatus ∧
    m.readCsrs.x 18 = m.sepc ∧ m.readCsrs.x 21 = m.sscratch := by
  refine ⟨rfl, ?_, ?_, ?_, ?_, ?_, ?_⟩ <;> simp [readCsrs, Machine.set, regL, addr]

/-- The machine at the dispatch, before `sscratch` and `a0` are set. -/
lemma handleException_fields (m : Machine) :
    m.handleException.mem = (m.swapTp.saveRegs.readCsrs.saves savedCsrs).mem ∧
    m.handleException.x 2 = m.swapTp.saveRegs.readCsrs.x 2 ∧
    m.handleException.x 4 = m.swapTp.saveRegs.readCsrs.x 4 ∧ m.handleException.sscratch = 0 := by
  have hx := (saves_fields savedCsrs m.swapTp.saveRegs.readCsrs).1
  refine ⟨rfl, ?_, ?_, rfl⟩
  · rw [← hx]
    exact set_of_ne (by decide) _
  · rw [← hx]
    exact set_of_ne (by decide) _

/-- The frame stays where it is. -/
lemma handleException_addr (m : Machine) (off : Nat) :
    m.handleException.addr 2 off = m.swapTp.saveRegs.readCsrs.addr 2 off := by
  rw [addr, addr, (handleException_fields m).2.1]

/-- A value saved from `s0` to `s5` is in the frame. -/
lemma handleException_csr (m : Machine) {p : Fin 32 × Nat} (hp : p ∈ savedCsrs) :
    m.handleException.mem (m.handleException.addr 2 p.2) = m.swapTp.saveRegs.readCsrs.x p.1 := by
  rw [handleException_addr, (handleException_fields m).1]
  exact saves_mem_of_mem savedCsrs_nodup savedCsrs_lt _ p hp

/-- Saving the registers leaves the CSRs. -/
lemma saveRegs_csrs (m : Machine) : m.saveRegs.sstatus = m.sstatus ∧ m.saveRegs.sepc = m.sepc ∧
    m.saveRegs.sscratch = m.sscratch := by
  obtain ⟨_, h₁, h₂, h₃⟩ := saves_fields savedRegs
    (((m.regS 2 taskTiUserSp 4).regL 2 taskTiKernelSp 4).set 2
      (((m.regS 2 taskTiUserSp 4).regL 2 taskTiKernelSp 4).x 2 - .ofNat 64 ptSize))
  exact ⟨h₃, h₂, h₁⟩

/-- `handle_exception` saves the context. -/
lemma handleException_saved (hs : Swapped task sp m m.swapTp) (hin : InStack task sp) :
    Saved task sp m m.handleException := by
  obtain ⟨hsp, hx, huser, hregs⟩ := saveRegs_spec hs hin
  obtain ⟨hmem, hr2, hr4, hr8, hr9, hr18, hr21⟩ := readCsrs_spec m.swapTp.saveRegs
  obtain ⟨hst, hepc, hsc⟩ := saveRegs_csrs m.swapTp
  obtain ⟨hm, h2, h4, _⟩ := handleException_fields m
  have htp : m.swapTp.saveRegs.x 4 = task := (hx 4 (by decide)).trans hs.tp
  refine ⟨?_, ?_, ?_, ?_, ?_⟩
  · rw [h2, hr2, hsp]
  · rw [h4, hr4, htp]
  · intro i h0
    by_cases hi2 : i = 2
    · subst hi2
      refine (handleException_csr m (p := (8, ptSp)) (by decide)).trans ?_
      rw [hr8, htp, huser]
    by_cases hi4 : i = 4
    · subst hi4
      refine (handleException_csr m (p := (21, ptTp)) (by decide)).trans ?_
      rw [hr21, hsc, hs.sscratch]
    rw [handleException_addr, hm]
    refine (saves_mem_of_ne savedCsrs _ ?_).trans ?_
    · intro p hp e
      have hlt := savedCsrs_lt p hp
      rw [ptSize] at hlt
      exact savedCsrs_ne i h0 hi2 hi4 p hp (add_offset_inj (by omega) (by omega) e)
    · rw [hmem, addr, hr2, hsp]
      exact hregs i h0 hi2 hi4
  · refine (handleException_csr m (p := (18, ptEpc)) (by decide)).trans ?_
    rw [hr18, hepc, hs.sepc]
  · refine (handleException_csr m (p := (9, ptStatus)) (by decide)).trans ?_
    rw [hr9, hst, hs.sstatus]

/-! ## Return -/

/-- All registers but two are restored. -/
lemma restoredRegs_mem : ∀ i : Fin 32, i ≠ 0 → i ≠ 2 → (i, 8 * i.val) ∈ restoredRegs := by
  decide

/-- Each register is restored once. -/
lemma restoredRegs_nodup : (restoredRegs.map Prod.fst).Nodup := by
  decide

/-- The stack pointer is none of those that are restored. -/
lemma restoredRegs_sp : 2 ∉ restoredRegs.map Prod.fst := by
  decide

/-- The part that restores the CSRs changes neither memory nor `sp` nor `sscratch`. -/
lemma restoreCsrs_spec (stored : Bool) (m : Machine) :
    (m.restoreCsrs stored).mem = m.mem ∧ (m.restoreCsrs stored).x 2 = m.x 2 ∧
    (m.restoreCsrs stored).sscratch = m.sscratch ∧
    (m.restoreCsrs stored).sstatus = m.mem (m.addr 2 ptStatus) ∧
    (m.restoreCsrs stored).sepc = m.mem (m.addr 2 ptEpc) := by
  cases stored with
  | false => refine ⟨rfl, ?_, rfl, ?_, ?_⟩ <;> simp [restoreCsrs, Machine.set, regL, addr]
  | true =>
    refine ⟨?_, ?_, rfl, ?_, ?_⟩
    · simp [restoreCsrs, Machine.set, regL, regS, addr]
    · simp [restoreCsrs, Machine.set, regL, regS, addr]
    · simp [restoreCsrs, Machine.set, regL, regS, addr]
    · simp [restoreCsrs, Machine.set, regL, regS, addr]

/-- `ret_from_exception` after its first part loads everything from the frame. -/
lemma retFromException_spec (stored : Bool) (m : Machine) (hsp : m.leaveKernel.x 2 = m.x 2) :
    (m.retFromException stored).mem = m.leaveKernel.mem ∧
    (m.retFromException stored).sscratch = m.leaveKernel.sscratch ∧
    (m.retFromException stored).sstatus = m.leaveKernel.mem (m.addr 2 ptStatus) ∧
    (m.retFromException stored).sepc = m.leaveKernel.mem (m.addr 2 ptEpc) ∧
    ∀ i : Fin 32, i ≠ 0 → (m.retFromException stored).x i = m.leaveKernel.mem (m.addr 2 (8 * i)) := by
  obtain ⟨hmem, h2, hsc, hst, hepc⟩ := restoreCsrs_spec stored m.leaveKernel
  obtain ⟨fmem, fsc, fepc, fst⟩ := restores_fields restoredRegs (m.leaveKernel.restoreCsrs stored)
  have haddr : ∀ off, (m.leaveKernel.restoreCsrs stored).addr 2 off = m.addr 2 off := by
    intro off
    rw [addr, addr, h2, hsp]
  have haddr' : ∀ off, m.leaveKernel.addr 2 off = m.addr 2 off := by
    intro off
    rw [addr, addr, hsp]
  refine ⟨fmem.trans hmem, fsc.trans hsc, ?_, ?_, ?_⟩
  · refine fst.trans ?_
    rw [hst, haddr']
  · refine fepc.trans ?_
    rw [hepc, haddr']
  · intro i h0
    by_cases hi2 : i = 2
    · subst hi2
      refine (set_self _ _ _).trans ?_
      rw [addr, restores_x_of_not_mem restoredRegs _ restoredRegs_sp, fmem, hmem, h2, hsp]
      rfl
    · refine (set_of_ne hi2 _).trans ?_
      refine (restores_x_of_mem restoredRegs_nodup restoredRegs_sp _ _
        (restoredRegs_mem i h0 hi2)).trans ?_
      rw [hmem, haddr]

/-- Back to user mode the kernel stack pointer is kept in the task. -/
lemma leaveKernel_user (h : m.mem (m.addr 2 ptStatus) &&& srSpp = 0) :
    m.leaveKernel.mem =
      update m.mem (m.x 4 + .ofNat 64 taskTiKernelSp) (m.x 2 + .ofNat 64 ptSize) ∧
    m.leaveKernel.sscratch = m.x 4 ∧ m.leaveKernel.x 2 = m.x 2 := by
  simp [leaveKernel, Machine.set, regL, regS, addr] at h ⊢
  simp [h]

/-- Back to the kernel nothing is. -/
lemma leaveKernel_kernel (h : m.mem (m.addr 2 ptStatus) &&& srSpp ≠ 0) :
    m.leaveKernel.mem = m.mem ∧ m.leaveKernel.sscratch = m.sscratch ∧ m.leaveKernel.x 2 = m.x 2 := by
  simp [leaveKernel, Machine.set, regL, regS, addr] at h ⊢
  simp [h]

/-! ## Handlers -/

/-- The status is read as it was. -/
lemma swapTp_sstatus (m : Machine) : m.swapTp.sstatus = m.sstatus := by
  rw [swapTp]
  dsimp only
  split <;> rfl

/-- The saved `sstatus`, wherever the frame is. -/
lemma handleException_status (m : Machine) :
    m.handleException.mem (m.handleException.addr 2 ptStatus) = m.sstatus := by
  refine (handleException_csr m (p := (9, ptStatus)) (by decide)).trans ?_
  rw [(readCsrs_spec _).2.2.2.2.1, (saveRegs_csrs _).1, swapTp_sstatus]

/-- A trap from the kernel is marked as one. -/
lemma trapStatus_spp (sstatus : BitVec 64) : trapStatus sstatus &&& srSpp ≠ 0 := by
  intro e
  have hbit := congrArg (fun v => v.getLsbD 8) e
  simp [trapStatus, srSpp, srSie, srSpie] at hbit

/-- The words of the frame that a handler leaves alone. -/
lemma Returned.word (hr : Returned m m₁) (k : Fin 36) :
    m₁.mem (m₁.addr 2 (8 * k)) = m.mem (m.addr 2 (8 * k)) :=
  congrFun hr.frame k

/-- Traps taken from kernel mode leave `sscratch` 0, at any depth. -/
lemma Handler.sscratch (h : Handler m m') : m.sscratch = 0 → m'.sscratch = 0 := by
  induction h with
  | done => exact fun h => h
  | code e _ ih =>
    intro h
    exact ih (e.trans h)
  | @trap m m₁ m' epc cause tval stored _ hr _ ih ih' =>
    intro _
    apply ih'
    have h1 : m₁.sscratch = 0 := ih (handleException_fields _).2.2.2
    -- the frame of this trap says that it came from kernel mode
    have hst : m₁.mem (m₁.addr 2 ptStatus) &&& srSpp ≠ 0 := by
      rw [show ptStatus = 8 * (32 : Fin 36).val from rfl, hr.word 32]
      rw [show 8 * (32 : Fin 36).val = ptStatus from rfl, handleException_status]
      exact trapStatus_spp _
    obtain ⟨_, hsc, hsp⟩ := leaveKernel_kernel hst
    exact ((retFromException_spec stored m₁ hsp).2.1.trans hsc).trans h1

/-- What a returned handler's frame gives back. -/
lemma Saved.of_returned (hs : Saved task sp m m') (hr : Returned m' m₁) :
    m₁.x 2 = sp - .ofNat 64 ptSize ∧ m₁.x 4 = task ∧
    m₁.mem (m₁.addr 2 ptStatus) = m.sstatus ∧ m₁.mem (m₁.addr 2 ptEpc) = m.sepc ∧
    ∀ i : Fin 32, i ≠ 0 → m₁.mem (m₁.addr 2 (8 * i)) = m.x i := by
  refine ⟨hr.sp.trans hs.sp, hr.tp.trans hs.tp, ?_, ?_, ?_⟩
  · exact (hr.word 32).trans hs.status
  · exact (hr.word 0).trans hs.epc
  · intro i h0
    exact (hr.word ⟨i, by omega⟩).trans (hs.x i h0)

/-- A trap from user mode, with `sscratch` the task and its kernel stack empty, or from kernel mode,
    with `sscratch` 0 and `tp` the task, and a handler that takes any properly nested further traps
    and returns: at `sret` the registers, `sepc` and `sstatus` are those of the trap, and `sscratch`
    and `kernel_sp` are as the mode returned to expects them. -/
theorem trap_restores (stored : Bool) (hh : Handler m.handleException m₁)
    (hr : Returned m.handleException m₁) :
    (∀ task, FromUser task m →
      Restored m (m₁.retFromException stored) ∧ UserConvention task (m₁.retFromException stored)) ∧
    (FromKernel m →
      Restored m (m₁.retFromException stored) ∧ (m₁.retFromException stored).sscratch = 0) := by
  constructor
  · intro task hu
    have hin := inStack_top task
    obtain ⟨h2, h4, hst, hepc, hx⟩ :=
      (handleException_saved (swapTp_user hu.toUserConvention) hin).of_returned hr
    obtain ⟨hmem, hsc, hsp⟩ := leaveKernel_user (m := m₁) (by rw [hst]; exact hu.spp)
    obtain ⟨rmem, rsc, rst, repc, rx⟩ := retFromException_spec stored m₁ hsp
    -- the store to `kernel_sp` misses the frame
    have hkeep : ∀ off < ptSize, m₁.leaveKernel.mem (m₁.addr 2 off) = m₁.mem (m₁.addr 2 off) := by
      intro off hoff
      rw [hmem, addr, h4, h2]
      exact update_of_ne (hin.ne (by decide) hoff).symm _ _
    refine ⟨⟨?_, ?_, ?_⟩, hu.ne, ?_, ?_⟩
    · intro i h0
      have hi : 8 * i.val < ptSize := by
        rw [ptSize]
        omega
      rw [rx i h0, hkeep _ hi, hx i h0]
    · rw [repc, hkeep _ (by decide), hepc]
    · rw [rst, hkeep _ (by decide), hst]
    · rw [rsc, hsc, h4]
    · rw [rmem, hmem, h4, update_self, h2, BitVec.sub_add_cancel]
  · intro hk
    obtain ⟨_, _, hst, hepc, hx⟩ :=
      (handleException_saved (swapTp_kernel hk.sscratch) hk.inStack).of_returned hr
    obtain ⟨hmem, hsc, hsp⟩ := leaveKernel_kernel (m := m₁) (by rw [hst]; exact hk.spp)
    obtain ⟨_, rsc, rst, repc, rx⟩ := retFromException_spec stored m₁ hsp
    have h0 : m₁.sscratch = 0 := hh.sscratch (handleException_fields m).2.2.2
    refine ⟨⟨?_, ?_, ?_⟩, ?_⟩
    · intro i hi
      rw [rx i hi, hmem, hx i hi]
    · rw [repc, hmem, hepc]
    · rw [rst, hmem, hst]
    · rw [rsc, hsc, h0]

/-- A task at `0x10000` in user mode. -/
def userTrap : Machine where
  x i := .ofNat 64 (100 + i)
  mem a := if a = 0x10008#64 then 0x12000#64 else 7
  sscratch := 0x10000
  sepc := 0x400
  stval := 0
  scause := excSyscall
  sstatus := srSpie

/-- A page fault is taken from kernel mode during a system call; the user's registers come back. -/
theorem trap_restores_nested :
    Restored userTrap (userTrap.handleException.retFromException true) ∧
    UserConvention 0x10000 (userTrap.handleException.retFromException true) := by
  have hr : Returned userTrap.handleException userTrap.handleException := ⟨rfl, rfl, rfl, by decide⟩
  have hn : Returned (userTrap.handleException.trapFromKernel 0x80 13 0x5000).handleException
      (userTrap.handleException.trapFromKernel 0x80 13 0x5000).handleException :=
    ⟨rfl, rfl, rfl, by decide⟩
  have hone : Handler userTrap.handleException
      ((userTrap.handleException.trapFromKernel 0x80 13 0x5000).handleException.retFromException
        false).sret := .trap .done hn .done
  have hsc := hone.sscratch rfl
  have hh : Handler userTrap.handleException userTrap.handleException :=
    .trap .done hn (.code hsc.symm .done)
  refine (trap_restores true hh hr).1 0x10000 ⟨⟨by decide, rfl, ?_⟩, by decide⟩
  decide

end OldLinux.Trap
