import OldLinux.Tty.Serial

/-!
# The interrupt of the serial line

Model of `rs_interrupt` (`kernel/rs_io.c`) over the values that it reads from the interrupt identification
register, one for each turn of its loop. Bit 0 of a value is clear when an interrupt is pending, and bits 1
and 2 then tell its type. `Serves` says that the loop does what the type asks for, once for each pending
interrupt, and returns at the first value that has none.

The test of bit 0 is the other way round, and `IIR_reg && IIR_TYPE_MASK` is 0 or 1 whatever the type, so the
loop never serves anything (`rsInterrupt_serves_nothing`).
-/

namespace OldLinux.Tty
open Lib Function

/-- `IIR_INTR`. -/
def iirIntr : BitVec 8 := 0x01

/-- `IIR_TYPE_MASK`. -/
def iirTypeMask : BitVec 8 := 0x06

/-- What `rs_interrupt` does about an interrupt. -/
inductive Service where
  /-- `uart_read_reg(MSR)`. -/
  | modemStatus
  | writeChar
  | readChar
  /-- `uart_read_reg(LSR)`. -/
  | lineStatus
  deriving DecidableEq

/-- The line, with the values that are read from `IIR` and from the receive register by the number of the
    turn; `turns` are the turns that have begun, and `served` is what has been done in them. -/
structure Uart (ι : Type*) where
  serial : Serial ι
  iir : Nat → BitVec 8
  rbr : Nat → BitVec 8
  turns : Nat
  served : List Service

/-- The `switch` of `rs_interrupt`. -/
def serviceOf : Nat → Option Service
  | 0x00 => some .modemStatus
  | 0x02 => some .writeChar
  | 0x04 => some .readChar
  | 0x06 => some .lineStatus
  | _ => none

/-- `a && b`. -/
def andAlso (a b : BitVec 8) : Nat := if a ≠ 0 ∧ b ≠ 0 then 1 else 0

namespace Uart
variable {ι : Type*} [DecidableEq ι]

/-- Calls the service, with the character `c` in the receive register. -/
def serve (u : Uart ι) (c : BitVec 8) (x : Service) : Uart ι :=
  let serial := match x with
    | .readChar => u.serial.readChar c
    | .writeChar => u.serial.writeChar
    | .modemStatus | .lineStatus => u.serial
  { u with serial := serial, served := u.served ++ [x] }

/-- A turn of `rs_interrupt`: `inl` when it breaks out of the loop. -/
def turn (u : Uart ι) : Uart ι ⊕ Uart ι :=
  let iir := u.iir u.turns
  let rbr := u.rbr u.turns
  let u := { u with turns := u.turns + 1 }
  if iir &&& iirIntr = 0 then .inl u
  else if iir > 6 then .inl u
  else
    match serviceOf (andAlso iir iirTypeMask) with
    | some x => .inr (u.serve rbr x)
    | none => .inr u

/-- `rs_interrupt` for `n` turns at most: whether it has returned. -/
def rsInterrupt : Nat → Uart ι → Bool × Uart ι
  | 0, u => (false, u)
  | n + 1, u =>
    match u.turn with
    | .inl u => (true, u)
    | .inr u => rsInterrupt n u

end Uart

/-! ## What the register asks for -/

/-- An interrupt is pending. -/
def Pending (iir : BitVec 8) : Prop := iir.getLsbD 0 = false

instance (iir : BitVec 8) : Decidable (Pending iir) := inferInstanceAs (Decidable (_ = _))

/-- What its type asks for. -/
def due (iir : BitVec 8) : Service :=
  match iir.getLsbD 2, iir.getLsbD 1 with
  | false, false => .modemStatus
  | false, true => .writeChar
  | true, false => .readChar
  | true, true => .lineStatus

section
variable {ι : Type*} [DecidableEq ι] {u u' : Uart ι} {n : Nat}

/-- As long as interrupts are pending, each of them is served once, and at the first value with none
    `rs_interrupt` returns. -/
def Serves (u : Uart ι) : Prop :=
  ∀ n, (∀ k < n, Pending (u.iir (u.turns + k))) →
    ((Uart.rsInterrupt n u).1 = false ∧
      (Uart.rsInterrupt n u).2.served = u.served ++ (List.range n).map fun k => due (u.iir (u.turns + k))) ∧
    (¬ Pending (u.iir (u.turns + n)) → (Uart.rsInterrupt (n + 1) u).1 = true ∧
      (Uart.rsInterrupt (n + 1) u).2.served = (Uart.rsInterrupt n u).2.served)

/-! ## The loop -/

/-- An interrupt is pending if the bit is clear. -/
lemma pending_iff {iir : BitVec 8} : Pending iir ↔ iir &&& iirIntr = 0 := by
  revert iir
  decide

/-- No type is 0 or 1 with bit 0 set. -/
lemma serviceOf_andAlso {iir : BitVec 8} (h : ¬ Pending iir) : serviceOf (andAlso iir iirTypeMask) = none := by
  have hne : iir ≠ 0 := fun h0 => h (h0 ▸ rfl)
  rw [andAlso, if_pos ⟨hne, by decide⟩]
  rfl

/-- A turn breaks out of the loop or does nothing. -/
lemma turn_eq : u.turn = if Pending (u.iir u.turns) ∨ 6 < u.iir u.turns
    then .inl { u with turns := u.turns + 1 } else .inr { u with turns := u.turns + 1 } := by
  have hturn : u.turn = if u.iir u.turns &&& iirIntr = 0 then .inl { u with turns := u.turns + 1 }
      else if u.iir u.turns > 6 then .inl { u with turns := u.turns + 1 }
      else match serviceOf (andAlso (u.iir u.turns) iirTypeMask) with
        | some x => .inr (Uart.serve { u with turns := u.turns + 1 } (u.rbr u.turns) x)
        | none => .inr { u with turns := u.turns + 1 } := rfl
  rw [hturn]
  by_cases hp : Pending (u.iir u.turns)
  · rw [if_pos (pending_iff.1 hp), if_pos (.inl hp)]
  rw [if_neg fun h => hp (pending_iff.2 h), serviceOf_andAlso hp]
  by_cases h6 : 6 < u.iir u.turns
  · rw [if_pos h6, if_pos (.inr h6)]
  · rw [if_neg h6, if_neg (not_or.2 ⟨hp, h6⟩)]

/-- However many turns there are, nothing is served. -/
lemma rsInterrupt_serves_nothing :
    (Uart.rsInterrupt n u).2.served = u.served ∧ (Uart.rsInterrupt n u).2.serial = u.serial := by
  induction n generalizing u with
  | zero => exact ⟨rfl, rfl⟩
  | succ n ih =>
    rw [Uart.rsInterrupt, turn_eq]
    split_ifs with h
    · exact ⟨rfl, rfl⟩
    · exact ih

/-- The first turn returns if an interrupt is pending, or bits above the type are set. -/
lemma rsInterrupt_one : (Uart.rsInterrupt 1 u).1 = true ↔ Pending (u.iir u.turns) ∨ 6 < u.iir u.turns := by
  rw [Uart.rsInterrupt, turn_eq]
  split_ifs with h
  · exact iff_of_true rfl h
  · exact iff_of_false Bool.false_ne_true h

/-- While no interrupt is pending and no other bits are set, the loop goes on. -/
lemma rsInterrupt_goes_on (h : ∀ k < n, ¬ Pending (u.iir (u.turns + k)) ∧ ¬ 6 < u.iir (u.turns + k)) :
    (Uart.rsInterrupt n u).1 = false := by
  induction n generalizing u with
  | zero => rfl
  | succ n ih =>
    have h0 : ¬ (Pending (u.iir u.turns) ∨ 6 < u.iir u.turns) := not_or.2 (h 0 (Nat.succ_pos n))
    rw [Uart.rsInterrupt, turn_eq, if_neg h0]
    refine ih fun k hk => ?_
    have hk := h (k + 1) (Nat.succ_lt_succ hk)
    rwa [Nat.add_comm k 1, ← Nat.add_assoc] at hk

/-- An interrupt that is pending at first is not served. -/
lemma Serves.not_pending (h : Serves u) : ¬ Pending (u.iir u.turns) := by
  intro hp
  -- it should be served in the first turn, which returns
  obtain ⟨⟨hret, -⟩, -⟩ := h 1 fun k hk => by
    rw [Nat.lt_one_iff.1 hk]
    exact hp
  rw [rsInterrupt_one.2 (.inl hp)] at hret
  cases hret

/-- `rs_interrupt` serves the line exactly when there is nothing to serve and the register shows more than the
    type. -/
theorem rs_interrupt_iff : Serves u ↔ ¬ Pending (u.iir u.turns) ∧ 6 < u.iir u.turns := by
  constructor
  · intro h
    have hp := h.not_pending
    obtain ⟨-, hret⟩ := h 0 nofun
    exact ⟨hp, (rsInterrupt_one.1 (hret hp).1).resolve_left hp⟩
  · intro ⟨hp, h6⟩ n hn
    cases n with
    | zero =>
      refine ⟨⟨rfl, (List.append_nil _).symm⟩, fun _ => ⟨rsInterrupt_one.2 (.inr h6), ?_⟩⟩
      exact rsInterrupt_serves_nothing.1
    | succ n => exact absurd (hn 0 (Nat.succ_pos n)) hp

end

/-- The line with a character received, and no interrupt after that. -/
def received : Uart (Fin 1) where
  serial := bootLine
  iir k := if k = 0 then 0x04 else 0x01
  rbr _ := 97
  turns := 0
  served := []

/-- The character is not read; and a call with nothing pending does not return. -/
theorem rs_interrupt_neglects : ¬ Serves received ∧ Pending (received.iir 0) ∧
    due (received.iir 0) = .readChar ∧ (∀ n, (Uart.rsInterrupt n received).2.served = []) ∧
    ∀ n, (Uart.rsInterrupt n { received with turns := 1 }).1 = false := by
  refine ⟨fun h => h.not_pending rfl, rfl, rfl, fun n => rsInterrupt_serves_nothing.1, fun n => ?_⟩
  · refine rsInterrupt_goes_on fun k _ => ?_
    have hiir : received.iir (1 + k) = 0x01 := if_neg (by omega)
    exact ⟨fun h => absurd (hiir ▸ h :) (by decide), fun h => absurd (hiir ▸ h :) (by decide)⟩

end OldLinux.Tty
