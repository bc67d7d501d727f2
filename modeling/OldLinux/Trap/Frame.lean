import OldLinux.Lib.Numerals
import OldLinux.Lib.Program
import Mathlib.Data.BitVec

/-!
# Trap frames

`struct pt_regs` (`include/asm/ptrace.h`), the bits of `sstatus` and the causes of a trap
(`include/asm/system.h`).
-/

namespace OldLinux.Trap

/-- `struct pt_regs`. -/
structure PtRegs where
  epc : BitVec 64 := 0
  ra : BitVec 64 := 0
  sp : BitVec 64 := 0
  gp : BitVec 64 := 0
  tp : BitVec 64 := 0
  t0 : BitVec 64 := 0
  t1 : BitVec 64 := 0
  t2 : BitVec 64 := 0
  s0 : BitVec 64 := 0
  s1 : BitVec 64 := 0
  a0 : BitVec 64 := 0
  a1 : BitVec 64 := 0
  a2 : BitVec 64 := 0
  a3 : BitVec 64 := 0
  a4 : BitVec 64 := 0
  a5 : BitVec 64 := 0
  a6 : BitVec 64 := 0
  a7 : BitVec 64 := 0
  s2 : BitVec 64 := 0
  s3 : BitVec 64 := 0
  s4 : BitVec 64 := 0
  s5 : BitVec 64 := 0
  s6 : BitVec 64 := 0
  s7 : BitVec 64 := 0
  s8 : BitVec 64 := 0
  s9 : BitVec 64 := 0
  s10 : BitVec 64 := 0
  s11 : BitVec 64 := 0
  t3 : BitVec 64 := 0
  t4 : BitVec 64 := 0
  t5 : BitVec 64 := 0
  t6 : BitVec 64 := 0
  status : BitVec 64 := 0
  badaddr : BitVec 64 := 0
  cause : BitVec 64 := 0
  origA0 : BitVec 64 := 0

/-! ## Bits of `sstatus` -/

def srSie : BitVec 64 := 0x2#64

def srSpie : BitVec 64 := 0x20#64

def srSpp : BitVec 64 := 0x100#64

def srSum : BitVec 64 := 0x40000#64

def srFs : BitVec 64 := 0x6000#64

def srVs : BitVec 64 := 0x600#64

/-- `user_mode(regs)`. -/
def PtRegs.userMode (regs : PtRegs) : Bool := regs.status &&& srSpp = 0

/-! ## Causes -/

/-- `CAUSE_IRQ_FLAG`. -/
def causeIrqFlag : BitVec 64 := 0x8000000000000000#64

def rvIrqSoft : BitVec 64 := 1#64

def rvIrqTimer : BitVec 64 := 5#64

def rvIrqExt : BitVec 64 := 9#64

def excBreakpoint : BitVec 64 := 3#64

def excSyscall : BitVec 64 := 8#64

def excInstPageFault : BitVec 64 := 12#64

def excLoadPageFault : BitVec 64 := 13#64

def excStorePageFault : BitVec 64 := 15#64

/-- `int` to `unsigned long` and back. -/
lemma setWidth_signExtend (x : BitVec 32) : (x.signExtend 64).setWidth 32 = x := by
  ext i hi
  have h64 : i < 64 := by omega
  simp [BitVec.getElem_signExtend, hi, h64]

end OldLinux.Trap
