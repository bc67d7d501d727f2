import OldLinux.Hd.EndToEnd
import OldLinux.Lib.Refinement

/-!
# The queue of the disk

Model of `virtio_cmd` (`kernel/virtio.c`) with the descriptors and the available ring of `struct virtq`
(`include/linux/virtio.h`). A device looks at the ring from where it has come to, follows the descriptors, and
executes the command that it finds at the address of the first.

`virtio_cmd` writes the addresses of the kernel into the descriptors, where `struct virtq_desc` says that they are
guest-physical. So it depends on the device what it finds there: `resolve` gives the variable at an address. A
device that resolves addresses as the kernel does executes what the driver asks for, and one that does not find
the header executes nothing. (The page of the queue itself, also given by its kernel address, it is taken to find.)

All commands use the same three descriptors, the same header and the same buffer, and the index of the ring goes
around. That is well because the driver never has two commands under way: it issues one only when it waits for no
interrupt (`Driver.Balanced`). So the driver with the queue refines the driver of `Hd.EndToEnd`, which counts the
commands and hands them over by itself (`queue_refines`).
-/

namespace OldLinux.Hd
open Lib Fs Function

/-! ## The queue -/

/-- `VIRTQ_DESC_F_NEXT`. -/
def descNext : BitVec 16 := 1

/-- `VIRTQ_DESC_F_WRITE`. -/
def descWrite : BitVec 16 := 2

/-- `struct virtq_desc`. -/
structure Desc where
  addr : BitVec 64
  len : BitVec 32
  flags : BitVec 16
  next : BitVec 16

/-- `struct virtio_blk_req`. -/
structure BlkReq where
  type : BitVec 32
  reserved : BitVec 32
  sector : BitVec 64

/-- `VIRTIO_BLK_T_IN`. -/
def blkIn : BitVec 32 := 0

/-- `VIRTIO_BLK_T_OUT`. -/
def blkOut : BitVec 32 := 1

/-- Of `struct virtq` what the driver writes, `virt_request` and `virt_status`. -/
structure Virtq where
  desc : Fin 4 → Desc
  availIdx : BitVec 16
  availRing : Fin 4 → BitVec 16
  virtRequest : BlkReq
  virtStatus : BitVec 8

/-- The variables that descriptors lead to: `virt_request`, `virt_buffer` and `virt_status`. -/
inductive Var where
  | request
  | buffer
  | status
deriving DecidableEq

/-- The addresses of the variables in the kernel. -/
abbrev Places := Var → BitVec 64

/-- `idx % QUEUE_SIZE`. -/
def ringSlot (idx : BitVec 16) : Fin 4 := ⟨idx.toNat % 4, Nat.mod_lt _ (by decide)⟩

variable (places : Places)

/-- The descriptor of `virt_request`. -/
def headDesc : Desc := ⟨places .request, 16, descNext, 1⟩

/-- The descriptor of `virt_buffer`; the device may write to it when the command is a read. -/
def dataDesc (write : BitVec 32) : Desc :=
  ⟨places .buffer, 512, (if write ≠ 0 then 0 else descWrite) ||| descNext, 2⟩

/-- The descriptor of `virt_status`. -/
def statusDesc : Desc := ⟨places .status, 1, descWrite, 0⟩

/-- `virtio_cmd(write, sector)`, up to the notification. -/
def Virtq.virtioCmd (q : Virtq) (write : BitVec 32) (sector : BitVec 64) : Virtq where
  virtRequest := ⟨if write ≠ 0 then blkOut else blkIn, 0, sector⟩
  desc := update (update (update q.desc 0 (headDesc places)) 1 (dataDesc places write)) 2 (statusDesc places)
  virtStatus := 0xFF
  availRing := update q.availRing (ringSlot q.availIdx) 0
  availIdx := q.availIdx + 1

/-! ## The device -/

/-- The descriptors from `i` on, at most as many as there are in the table. -/
def chainFrom (desc : Fin 4 → Desc) : Nat → BitVec 16 → Option (List Desc)
  | 0, _ => none
  | n + 1, i =>
    if h : i.toNat < 4 then
      let d := desc ⟨i.toNat, h⟩
      if d.flags &&& descNext ≠ 0 then (chainFrom desc n d.next).map fun l => d :: l else some [d]
    else none

/-- A device that has come to `last` in the ring: nothing new, or the descriptors of the next command. -/
def Virtq.next (q : Virtq) (last : BitVec 16) : Option (Option (List Desc)) :=
  if q.availIdx = last then none else some (chainFrom q.desc 4 (q.availRing (ringSlot last)))

variable (resolve : BitVec 64 → Option Var)

/-- The header that a device finds at an address. -/
def Virtq.header (q : Virtq) (addr : BitVec 64) : Option BlkReq :=
  if resolve addr = some .request then some q.virtRequest else none

/-- The layout of a command for a block device: a header to read, 512 bytes to read or to write, as the type in the
    header says, and a status to write. -/
inductive Virtq.Framed (q : Virtq) : List Desc → BlkReq → Prop where
  | intro {head data status : Desc} {req : BlkReq} : q.header resolve head.addr = some req → head.len = 16 →
    head.flags &&& descWrite = 0 → resolve data.addr = some .buffer → data.len = 512 →
    (data.flags &&& descWrite = 0 ↔ req.type = blkOut) → resolve status.addr = some .status → status.len = 1 →
    status.flags &&& descWrite ≠ 0 → Framed q [head, data, status] req

/-- The device finds the variables where the kernel has them. -/
def Resolves : Prop := ∀ v, resolve (places v) = some v

section
variable {places resolve} {q : Virtq} {write : BitVec 32} {sector : BitVec 64} {last i : BitVec 16}
  {desc : Fin 4 → Desc} {n : Nat}

/-- A descriptor with the flag has another one behind it. -/
lemma chainFrom_next {d : Desc} (h : i.toNat < 4) (hd : desc ⟨i.toNat, h⟩ = d) (hf : d.flags &&& descNext ≠ 0) :
    chainFrom desc (n + 1) i = (chainFrom desc n d.next).map fun l => d :: l := by
  subst hd
  rw [chainFrom, dif_pos h]
  exact if_pos hf

/-- Without it the chain ends. -/
lemma chainFrom_last {d : Desc} (h : i.toNat < 4) (hd : desc ⟨i.toNat, h⟩ = d) (hf : d.flags &&& descNext = 0) :
    chainFrom desc (n + 1) i = some [d] := by
  subst hd
  rw [chainFrom, dif_pos h]
  exact if_neg (not_not.2 hf)

/-- The flags of the descriptor of the data. -/
lemma flags_dataDesc : (dataDesc places write).flags = (if write ≠ 0 then 0 else descWrite) ||| descNext := rfl

/-- The descriptors lead from the first over the second to the third. -/
lemma chain_virtioCmd : chainFrom (q.virtioCmd places write sector).desc 4 0 =
    some [headDesc places, dataDesc places write, statusDesc places] := by
  have h0 : (headDesc places).flags &&& descNext ≠ 0 := (by decide : descNext &&& descNext ≠ 0)
  have h1 : (dataDesc places write).flags &&& descNext ≠ 0 := by
    rw [flags_dataDesc]
    split
    · decide
    · decide
  have h2 : (statusDesc places).flags &&& descNext = 0 := (by decide : descWrite &&& descNext = 0)
  have e1 : (headDesc places).next = 1 := rfl
  have e2 : (dataDesc places write).next = 2 := rfl
  rw [chainFrom_next (d := headDesc places) (by decide) rfl h0, e1,
    chainFrom_next (d := dataDesc places write) (by decide) rfl h1, e2,
    chainFrom_last (d := statusDesc places) (by decide) rfl h2]
  rfl

/-- They are a command for a device that finds the variables. -/
lemma framed_of_type (hres : Resolves places resolve) (ht : q.virtRequest.type = if write ≠ 0 then blkOut else blkIn) :
    q.Framed resolve [headDesc places, dataDesc places write, statusDesc places] q.virtRequest := by
  refine .intro (if_pos (hres .request)) rfl (by decide : descNext &&& descWrite = 0) (hres .buffer) rfl ?_
    (hres .status) rfl (by decide : descWrite &&& descWrite ≠ 0)
  rw [flags_dataDesc, ht]
  split
  · decide
  · decide

/-- A device that executes a command has found the header of the driver. -/
lemma Virtq.Framed.header {l : List Desc} {req : BlkReq} {write : BitVec 32} (h : q.Framed resolve l req)
    (hl : l = [headDesc places, dataDesc places write, statusDesc places]) :
    resolve (places .request) = some .request ∧ req = q.virtRequest := by
  cases h with
  | intro hreq =>
    cases hl
    rw [Virtq.header] at hreq
    split at hreq
    · next hr =>
      cases hreq
      exact ⟨hr, rfl⟩
    · cases hreq

/-- The device that had come to the end of the ring finds the command. -/
lemma next_virtioCmd : (q.virtioCmd places write sector).next q.availIdx =
    some (some [headDesc places, dataDesc places write, statusDesc places]) := by
  have hne : ¬ (q.virtioCmd places write sector).availIdx = q.availIdx := by
    show ¬ q.availIdx + 1 = q.availIdx
    bv_omega
  have hring : (q.virtioCmd places write sector).availRing (ringSlot q.availIdx) = 0 := update_self ..
  rw [Virtq.next, if_neg hne, hring, chain_virtioCmd]

end

/-! ## One command at a time -/

section
variable {β : Type*} {s s' : Driver β} {r : Fin 32} {b : β} {c : RwCall β} {e : HdEvent β}

/-- What of the driver has to do with commands. -/
structure Control where
  doHd : Option Intr
  issued : Nat
  executed : Nat
  raised : Nat
  virtRequest : VirtioReq
  virtBuffer : Sector

def Driver.control {β : Type*} (s : Driver β) : Control :=
  ⟨s.doHd, s.issued, s.executed, s.raised, s.virtRequest, s.virtBuffer⟩

/-- A handler waits for exactly the commands that are under way, or whose interrupt is still to be handled. -/
def Control.Balanced (k : Control) : Prop := k.issued + k.raised = k.executed + if k.doHd = none then 0 else 1

/-- What the driver may do with commands: at most one is issued, and nothing is touched while one is under way. -/
structure Control.Acts (k k' : Control) : Prop where
  balanced : k'.Balanced
  executed : k'.executed = k.executed
  issued : k'.issued = k.issued ∧ k'.virtRequest = k.virtRequest ∨ k'.issued = k.issued + 1
  busy : k.executed < k.issued →
    k'.issued = k.issued ∧ k'.virtRequest = k.virtRequest ∧ k'.virtBuffer = k.virtBuffer

variable {k k' : Control}

/-- At most one command is under way. -/
lemma Control.Balanced.le (h : k.Balanced) : k.issued ≤ k.executed + 1 := by
  rw [Balanced] at h
  split at h
  · omega
  · omega

/-- Without a handler, or with an interrupt, no command is under way. -/
lemma Control.Balanced.idle (h : k.Balanced) (hi : k.doHd = none ∨ 0 < k.raised) : ¬ k.executed < k.issued := by
  rw [Balanced] at h
  split at h
  · omega
  · next hd =>
    have hr := hi.resolve_left hd
    omega

/-- Nothing done issues nothing. -/
lemma Control.Acts.refl (h : k.Balanced) : k.Acts k := ⟨h, rfl, .inl ⟨rfl, rfl⟩, fun _ => ⟨rfl, rfl, rfl⟩⟩

/-- A function that is started without a command under way. -/
lemma Control.Acts.of_idle (hi : ¬ k.executed < k.issued) (h : k'.Balanced) (he : k'.executed = k.executed)
    (hiss : k'.issued = k.issued ∧ k'.virtRequest = k.virtRequest ∨ k'.issued = k.issued + 1) : k.Acts k' :=
  ⟨h, he, hiss, fun hb => absurd hb hi⟩

/-- `hd_out` issues one command. -/
lemma hdOut_acts {drive sect head cyl cmd : BitVec 32} {intr : Intr}
    (e : s.hdOut drive sect head cyl cmd intr = .ret s') (h : k.Balanced) (hd : k.doHd = none)
    (hk : s.control = { k with virtBuffer := s.virtBuffer }) : k.Acts s'.control := by
  rw [Driver.hdOut] at e
  split at e
  · cases e
  · cases e
    have hiss : s.issued = k.issued := congrArg Control.issued hk
    have hex : s.executed = k.executed := congrArg Control.executed hk
    have hr : s.raised = k.raised := congrArg Control.raised hk
    refine .of_idle (h.idle (.inl hd)) ?_ hex (.inr (congrArg Nat.succ hiss))
    rw [Control.Balanced, if_pos hd] at h
    show s.issued + 1 + s.raised = s.executed + if some intr = none then 0 else 1
    rw [if_neg (Option.some_ne_none intr)]
    omega

/-- `do_request` issues a command if there is a request, and its handler waits from then on. -/
lemma doRequest_acts (e : s.doRequest = .ret s') (hk : s.control = k) (h : k.Balanced) (hd : k.doHd = none) :
    k.Acts s'.control := by
  subst hk
  have hd : s.doHd = none := hd
  rw [Driver.doRequest] at e
  split at e
  · cases e
    exact .refl h
  · split at e
    · cases e
      have hsame : ({ s with doHd := none } : Driver β) = s := by rw [← hd]
      rw [hsame]
      exact .refl h
    · dsimp only at e
      split at e
      · split at e
        · cases e
        · exact hdOut_acts e h hd rfl
      · split at e
        · exact hdOut_acts e h hd rfl
        · cases e

/-- Linking a request in issues none. -/
lemma control_link : (s.link r).control = s.control := by
  rw [Driver.link]
  split
  · rfl
  · split
    · rfl
    · rfl

/-- `add_request` issues at most one. -/
lemma addRequest_acts (e : s.addRequest r = .ret s') (hk : s.control = k) (h : k.Balanced) :
    k.Acts s'.control := by
  rw [Driver.addRequest] at e
  split at e
  · cases e
  · have hk₁ : (s.link r).control = k := control_link.trans hk
    dsimp only at e
    split at e
    · next hd =>
      have hd₁ : k.doHd = none := (congrArg Control.doHd hk₁).symm.trans hd
      exact doRequest_acts e hk₁ h hd₁
    · cases e
      rw [hk₁]
      exact .refl h

/-- The driver after a function. -/
lemma after_acts {x : Result (Driver β)} (h : s.control.Balanced)
    (hx : ∀ s', x = .ret s' → s.control.Acts s'.control) : s.control.Acts (s.after x).control := by
  cases x with
  | ret s' => exact hx s' rfl
  | panic msg => exact .refl h
  | fault => exact .refl h

/-- The driver after `rw_abs_hd`. -/
lemma rwAbsHdRepeat_acts (e : s.rwAbsHdRepeat c = .ret s') (hk : s.control = k) (h : k.Balanced) :
    k.Acts s'.control := by
  rw [Driver.rwAbsHdRepeat] at e
  split at e
  · cases e
    rw [← hk] at h ⊢
    exact .refl h
  · exact addRequest_acts e hk h

variable [DecidableEq β]

/-- The driver after the end of a request. -/
lemma finish_acts (e : s.finish r b = .ret s') (hk : s.control = k) (h : k.Balanced) (hd : k.doHd = none) :
    k.Acts s'.control := doRequest_acts e hk h hd

/-- `read_intr`. -/
lemma readIntr_acts (e : s.readIntr = .ret s') (hk : s.control = k) (h : k.Balanced) (hd : k.doHd = none) :
    k.Acts s'.control := by
  rw [Driver.readIntr] at e
  split at e
  · cases e
  · split at e
    · cases e
    · dsimp only at e
      split at e
      · cases e
        rw [← hk] at h ⊢
        exact .refl h
      · exact finish_acts e hk h hd

/-- The driver after `write_intr`. -/
lemma writeIntr_acts (e : s.writeIntr = .ret s') (hk : s.control = k) (h : k.Balanced) (hd : k.doHd = none) :
    k.Acts s'.control := by
  rw [Driver.writeIntr] at e
  split at e
  · cases e
  · split at e
    · cases e
    · dsimp only at e
      split at e
      · cases e
        rw [← hk] at h hd ⊢
        exact .of_idle (h.idle (.inl hd)) h rfl (.inl ⟨rfl, rfl⟩)
      · exact finish_acts e hk h hd

/-- With an interrupt, no command is under way. -/
lemma hdInterrupt_acts (e : { s with raised := s.raised - 1 }.hdInterrupt = .ret s') (h : s.control.Balanced)
    (hr : 0 < s.raised) : s.control.Acts s'.control := by
  rw [Driver.hdInterrupt] at e
  dsimp only at e
  cases hi : s.doHd with
  | none =>
    rw [hi] at e
    cases e
  | some intr =>
    let k : Control := { s.control with raised := s.raised - 1, doHd := none }
    have hk : k.Balanced := by
      have h : s.issued + s.raised = s.executed + if s.doHd = none then 0 else 1 := h
      rw [hi, if_neg (Option.some_ne_none intr)] at h
      show s.issued + (s.raised - 1) = s.executed + if (none : Option Intr) = none then 0 else 1
      rw [if_pos rfl]
      omega
    have hy : k.Acts s'.control := by
      rw [hi] at e
      cases intr with
      | readIntr => exact readIntr_acts e rfl hk rfl
      | writeIntr => exact writeIntr_acts e rfl hk rfl
    exact .of_idle (h.idle (.inr hr)) hy.balanced hy.executed hy.issued

/-- The steps of the driver. -/
lemma HdStep.acts (st : HdStep s e s') (he : e ≠ .exec) (h : s.control.Balanced) : s.control.Acts s'.control := by
  cases st with
  | call hh => exact after_acts h fun _ e => rwAbsHdRepeat_acts e rfl h
  | retry hh hw => exact after_acts h fun _ e => rwAbsHdRepeat_acts e rfl h
  | exec => exact absurd rfl he
  | interrupt hh hr => exact after_acts h fun _ e => hdInterrupt_acts e h hr

end

/-! ## The driver with the queue -/

section
variable {β : Type*}

/-- The device executes a command on one sector and raises an interrupt. -/
def Driver.execute (s : Driver β) (req : VirtioReq) : Driver β := { s with virtRequest := req }.deviceExec

/-- The driver, the queue, and how far the device has come in the ring. -/
structure Machine (β : Type*) where
  driver : Driver β
  queue : Virtq
  last : BitVec 16

/-- What the header says. -/
def BlkReq.command (req : BlkReq) : VirtioReq := ⟨req.type == blkOut, req.sector⟩

/-- The device finds the descriptors of the command that the header holds. -/
def Virtq.Offered (places : Places) (q : Virtq) (last : BitVec 16) : Prop :=
  ∃ write, q.next last = some (some [headDesc places, dataDesc places write, statusDesc places]) ∧
    q.virtRequest.type = if write ≠ 0 then blkOut else blkIn

/-- The queue holds the command that is under way, and no other. -/
structure Machine.Holds (places : Places) (m : Machine β) : Prop where
  balanced : m.driver.control.Balanced
  le : m.driver.executed ≤ m.driver.issued
  idx : m.queue.availIdx = m.last + BitVec.ofNat 16 (m.driver.issued - m.driver.executed)
  command : m.driver.executed < m.driver.issued → m.queue.Offered places m.last ∧
    m.queue.virtRequest.command = m.driver.virtRequest

variable {places : Places} {resolve : BitVec 64 → Option Var} {m m' : Machine β} {e : HdEvent β} {s' : Driver β}
  {tr : List (HdEvent β × Machine β)}

/-- The header holds the command. -/
lemma command_virtioCmd {q : Virtq} {write : BitVec 32} {sector : BitVec 64} :
    (q.virtioCmd places write sector).virtRequest.command = ⟨write != 0, sector⟩ := by
  show (⟨(if write ≠ 0 then blkOut else blkIn) == blkOut, sector⟩ : VirtioReq) = _
  by_cases hw : write = 0
  · rw [if_neg (not_not.2 hw), hw]
    rfl
  · rw [if_pos hw, bne_iff_ne.2 hw]
    rfl

/-- There is nothing in the ring exactly if all is executed. -/
lemma Machine.Holds.next_none (h : m.Holds places) :
    m.queue.next m.last = none ↔ m.driver.issued = m.driver.executed := by
  have hle := h.balanced.le
  have hle : m.driver.issued ≤ m.driver.executed + 1 := hle
  constructor
  · intro hn
    by_contra hne
    obtain ⟨⟨_, hl, -⟩, -⟩ := h.command (lt_of_le_of_ne h.le (Ne.symm hne))
    rw [hn] at hl
    cases hl
  · intro he
    rw [Virtq.next, if_pos]
    rw [h.idx, he, Nat.sub_self]
    exact BitVec.add_zero _

/-- A driver that does not issue a command. -/
lemma Machine.Holds.quiet (h : m.Holds places) (ha : m.driver.control.Acts s'.control)
    (hi : s'.issued = m.driver.issued) : Machine.Holds places { m with driver := s' } := by
  have hex : s'.executed = m.driver.executed := ha.executed
  have hreq : m.driver.executed < m.driver.issued → s'.virtRequest = m.driver.virtRequest := fun hb =>
    (ha.busy hb).2.1
  refine ⟨ha.balanced, ?_, ?_, ?_⟩
  · show s'.executed ≤ s'.issued
    rw [hex, hi]
    exact h.le
  · show m.queue.availIdx = m.last + BitVec.ofNat 16 (s'.issued - s'.executed)
    rw [hex, hi]
    exact h.idx
  · intro hb
    have hb : s'.executed < s'.issued := hb
    rw [hex, hi] at hb
    exact ⟨(h.command hb).1, (h.command hb).2.trans (hreq hb).symm⟩

/-- A driver that issues a command finds the device at the end of the ring. -/
lemma Machine.Holds.issue {write : BitVec 32} (h : m.Holds places) (ha : m.driver.control.Acts s'.control)
    (hi : s'.issued = m.driver.issued + 1) (hw : s'.virtRequest.out = (write != 0)) : Machine.Holds places
      { m with driver := s', queue := m.queue.virtioCmd places write s'.virtRequest.sector } := by
  have hex : s'.executed = m.driver.executed := ha.executed
  have hidle : m.driver.issued = m.driver.executed := by
    have hle : s'.issued ≤ s'.executed + 1 := ha.balanced.le
    have hle' := h.le
    omega
  have hend : m.queue.availIdx = m.last := by
    rw [h.idx, hidle, Nat.sub_self]
    exact BitVec.add_zero _
  refine ⟨ha.balanced, ?_, ?_, fun _ => ⟨⟨write, ?_, rfl⟩, ?_⟩⟩
  · show s'.executed ≤ s'.issued
    omega
  · show m.queue.availIdx + 1 = m.last + BitVec.ofNat 16 (s'.issued - s'.executed)
    have hone : s'.issued - s'.executed = 1 := by omega
    rw [hone, hend]
    rfl
  · show (m.queue.virtioCmd places write s'.virtRequest.sector).next m.last = _
    rw [← hend]
    exact next_virtioCmd
  · rw [command_virtioCmd, ← hw]

/-- The device finds the command that is under way. -/
lemma Machine.Holds.execute (h : m.Holds places) {l : List Desc} (hl : m.queue.next m.last = some (some l)) :
    m.driver.executed < m.driver.issued ∧
      m.driver.execute m.queue.virtRequest.command = m.driver.deviceExec ∧ Machine.Holds places
        ⟨m.driver.deviceExec, { m.queue with virtStatus := 0 }, m.last + 1⟩ := by
  have hlt : m.driver.executed < m.driver.issued := lt_of_le_of_ne h.le fun he => by
    rw [h.next_none.2 he.symm] at hl
    cases hl
  have hle : m.driver.issued ≤ m.driver.executed + 1 := h.balanced.le
  have hex : m.driver.deviceExec.executed = m.driver.executed + 1 := by
    rw [Driver.deviceExec]
    split
    · rfl
    · rfl
  have hiss : m.driver.deviceExec.issued = m.driver.issued := by
    rw [Driver.deviceExec]
    split
    · rfl
    · rfl
  have hr : m.driver.deviceExec.raised = m.driver.raised + 1 := by
    rw [Driver.deviceExec]
    split
    · rfl
    · rfl
  have hd : m.driver.deviceExec.doHd = m.driver.doHd := by
    rw [Driver.deviceExec]
    split
    · rfl
    · rfl
  refine ⟨hlt, ?_, ?_, ?_, ?_, fun hb => ?_⟩
  · rw [Driver.execute, (h.command hlt).2]
  · have hb : m.driver.issued + m.driver.raised = m.driver.executed + if m.driver.doHd = none then 0 else 1 :=
      h.balanced
    show m.driver.deviceExec.issued + m.driver.deviceExec.raised =
      m.driver.deviceExec.executed + if m.driver.deviceExec.doHd = none then 0 else 1
    rw [hiss, hr, hex, hd]
    omega
  · show m.driver.deviceExec.executed ≤ m.driver.deviceExec.issued
    omega
  · show m.queue.availIdx = m.last + 1 + BitVec.ofNat 16 (m.driver.deviceExec.issued - m.driver.deviceExec.executed)
    have hone : m.driver.issued - m.driver.executed = 1 := by omega
    have hzero : m.driver.deviceExec.issued - m.driver.deviceExec.executed = 0 := by omega
    rw [h.idx, hone, hzero]
    exact (BitVec.add_zero _).symm
  · have hb : m.driver.deviceExec.executed < m.driver.deviceExec.issued := hb
    omega

variable [DecidableEq β]

/-- The driver goes on, and calls `virtio_cmd` for the command that it issues; or the device takes the next
    descriptors, if they are a command, and executes what the header says that it finds. -/
inductive QueueStep (places : Places) (resolve : BitVec 64 → Option Var) :
    Machine β → HdEvent β → Machine β → Prop where
  | quiet {m : Machine β} {e : HdEvent β} {s' : Driver β} : e ≠ .exec → HdStep m.driver e s' →
    s'.issued = m.driver.issued → QueueStep places resolve m e { m with driver := s' }
  | command {m : Machine β} {e : HdEvent β} {s' : Driver β} (write : BitVec 32) : e ≠ .exec → HdStep m.driver e s' →
    s'.issued = m.driver.issued + 1 → s'.virtRequest.out = (write != 0) →
    QueueStep places resolve m e
      { m with driver := s', queue := m.queue.virtioCmd places write s'.virtRequest.sector }
  | exec {m : Machine β} {l : List Desc} {req : BlkReq} : m.driver.halted = false →
    m.queue.next m.last = some (some l) → m.queue.Framed resolve l req →
    QueueStep places resolve m .exec
      ⟨m.driver.execute req.command, { m.queue with virtStatus := 0 }, m.last + 1⟩

/-- The device has come to the end of the ring. -/
def queueSystem (places : Places) (resolve : BitVec 64 → Option Var) : System (Machine β) (HdEvent β) where
  init m := hdSystem.init m.driver ∧ m.queue.availIdx = m.last
  step := QueueStep places resolve

/-- The driver with the queue refines the driver that hands its commands over by itself. -/
lemma queue_refining :
    Refines (queueSystem places resolve) (hdSystem (β := β)) Machine.driver (Machine.Holds places) := by
  refine ⟨fun m h0 => ⟨h0.1, ?_⟩, fun m e m' h st => ?_⟩
  · obtain ⟨⟨-, -, hd, -, hi, hr, -, -⟩, hend⟩ := h0
    refine ⟨?_, hi.ge, ?_, fun hb => absurd hi hb.ne'⟩
    · show m.driver.issued + m.driver.raised = m.driver.executed + if m.driver.doHd = none then 0 else 1
      rw [hd, hi, hr, if_pos rfl]
    · rw [hend, hi, Nat.sub_self]
      exact (BitVec.add_zero _).symm
  · cases st with
    | quiet he st hi => exact ⟨st, h.quiet (st.acts he h.balanced) hi⟩
    | command _ he st hi hw => exact ⟨st, h.issue (st.acts he h.balanced) hi hw⟩
    | exec hh hl hf =>
      obtain ⟨hlt, hex, hholds⟩ := h.execute hl
      obtain ⟨⟨_, hl', -⟩, -⟩ := h.command hlt
      obtain rfl := (hf.header (Option.some.inj (Option.some.inj (hl.symm.trans hl')))).2
      rw [hex]
      exact ⟨.exec hh hlt, hholds⟩

/-- Each step of the driver alone is one of the driver with the queue, if the device finds the variables. -/
lemma Machine.Holds.complete (h : m.Holds places) (hres : Resolves places resolve) (st : HdStep m.driver e s') :
    ∃ m', QueueStep places resolve m e m' ∧ m'.driver = s' := by
  by_cases he : e = .exec
  · subst he
    cases st with
    | exec hh hlt =>
      obtain ⟨⟨_, hl, ht⟩, -⟩ := h.command hlt
      exact ⟨_, .exec hh hl (framed_of_type hres ht), (h.execute hl).2.1⟩
  · obtain ⟨hi, -⟩ | hi := (st.acts he h.balanced).issued
    · exact ⟨_, .quiet he st hi, rfl⟩
    · cases hout : s'.virtRequest.out with
      | true => exact ⟨_, .command 1 he st hi hout, rfl⟩
      | false => exact ⟨_, .command 0 he st hi hout, rfl⟩

/-- As long as a command is under way, the driver changes neither the queue nor the buffer. -/
def Untouching (m : Machine β) (e : HdEvent β) (m' : Machine β) : Prop :=
  e ≠ .exec → m.driver.executed < m.driver.issued →
    m'.queue = m.queue ∧ m'.driver.virtBuffer = m.driver.virtBuffer

/-- No step writes to what is under way. -/
lemma Machine.Holds.untouching (h : m.Holds places) (st : QueueStep places resolve m e m') : Untouching m e m' := by
  intro he hb
  cases st with
  | quiet _ st hi => exact ⟨rfl, ((st.acts he h.balanced).busy hb).2.2⟩
  | command _ _ st hi =>
    have hi' := ((st.acts he h.balanced).busy hb).1
    exact absurd (hi.symm.trans hi') (Nat.succ_ne_self _)
  | exec => exact absurd rfl he

/-- A device that does not find the header executes nothing. -/
def Blind (places : Places) (resolve : BitVec 64 → Option Var) (_ : Machine β) (e : HdEvent β) (_ : Machine β) : Prop :=
  resolve (places .request) ≠ some .request → e ≠ .exec

/-- Of no command but the last the device sees anything else. -/
lemma Machine.Holds.blind (h : m.Holds places) (st : QueueStep places resolve m e m') :
    Blind places resolve m e m' := by
  intro hres
  cases st with
  | quiet he _ _ => exact he
  | command _ he _ _ _ => exact he
  | exec hh hl hf =>
    obtain ⟨⟨_, hl', -⟩, -⟩ := h.command (h.execute hl).1
    exact absurd (hf.header (Option.some.inj (Option.some.inj (hl.symm.trans hl')))).1 hres

/-- What the device finds: nothing when no command is under way, and else the descriptors of that command. A device
    that finds the variables at the addresses in them can execute it. -/
structure Machine.Offers (places : Places) (resolve : BitVec 64 → Option Var) (m : Machine β) : Prop where
  single : m.driver.executed ≤ m.driver.issued ∧ m.driver.issued ≤ m.driver.executed + 1
  nothing : m.queue.next m.last = none ↔ m.driver.issued = m.driver.executed
  command : m.driver.executed < m.driver.issued → m.queue.Offered places m.last ∧
    m.queue.virtRequest.command = m.driver.virtRequest
  complete : Resolves places resolve →
    ∀ e s', HdStep m.driver e s' → ∃ m', QueueStep places resolve m e m' ∧ m'.driver = s'

/-- In every run of the driver with the queue, the device executes only commands that are issued, one after the other,
    as if the driver handed them over by itself: each of them if it finds the variables of the driver at the
    addresses in the descriptors, and none if it does not find the header. -/
theorem queue_refines (h0 : (queueSystem places resolve).init m) (ex : (queueSystem places resolve).Exec m tr) :
    hdSystem.Exec m.driver (image Machine.driver tr) ∧ Always (Machine.Offers places resolve) m tr ∧
      Along Untouching m tr ∧ Along (Blind places resolve) m tr := by
  have href : Refines (queueSystem places resolve) (hdSystem (β := β)) Machine.driver (Machine.Holds places) :=
    queue_refining
  have hi := (href.init m h0).2
  obtain ⟨ex', ha⟩ := href.exec hi ex
  have hstep : ∀ m e m', Machine.Holds places m → (queueSystem places resolve).step m e m' → True →
      Machine.Holds places m' ∧ Untouching m e m' ∧ Blind places resolve m e m' := fun m e m' h st _ =>
    ⟨(href.step m e m' h st).2, h.untouching st, h.blind st⟩
  have hall := (ex.along_of_inv (C := fun _ _ _ => True) hstep hi (.of_forall fun _ _ _ => trivial)).2
  refine ⟨ex', ha.mono fun m h => ?_, hall.mono fun _ _ _ h => h.1, hall.mono fun _ _ _ h => h.2⟩
  exact ⟨⟨h.le, h.balanced.le⟩, h.next_none, h.command, fun hres e s' st => h.complete hres st⟩

/-- Each run of the driver alone is one of the driver with the queue. -/
lemma queue_lift {ds : List (HdEvent β × Driver β)} (h : m.Holds places) (hres : Resolves places resolve)
    (ex : hdSystem.Exec m.driver ds) :
    ∃ tr, (queueSystem places resolve).Exec m tr ∧ image Machine.driver tr = ds := by
  induction ds generalizing m with
  | nil => exact ⟨[], .nil, rfl⟩
  | cons x ds ih =>
    cases ex with
    | cons st ex =>
      obtain ⟨m', st', rfl⟩ := h.complete hres st
      obtain ⟨tr, ex', rfl⟩ := ih (queue_refining.step m _ m' h st').2 ex
      exact ⟨_, .cons st' ex', rfl⟩

end

/-- The queue of a device that has come to the end of the indices. -/
def wrapQueue : Virtq where
  desc _ := ⟨0, 0, 0, 0⟩
  availIdx := 0xFFFF
  availRing _ := 0
  virtRequest := ⟨0, 0, 0⟩
  virtStatus := 0

/-- Addresses in the kernel. -/
def samplePlaces : Places
  | .request => 0xFFFFFFC000010000
  | .buffer => 0xFFFFFFC000011000
  | .status => 0xFFFFFFC000012000

/-- A device that resolves them as the kernel does. -/
def sampleResolve (addr : BitVec 64) : Option Var :=
  if addr = samplePlaces .request then some .request
  else if addr = samplePlaces .buffer then some .buffer
  else if addr = samplePlaces .status then some .status
  else none

/-- It finds the variables. -/
lemma sample_resolves : Resolves samplePlaces sampleResolve := by
  intro v
  cases v with
  | request => rfl
  | buffer => rfl
  | status => rfl

/-- A command is written to the disk as the index goes around. -/
theorem queue_refines_wrap : ∃ tr : List (HdEvent Unit × Machine Unit), image Machine.driver tr = sampleRun .write ∧
    hdSystem.Exec sampleDriver (image Machine.driver tr) ∧
    Always (Machine.Offers samplePlaces sampleResolve) ⟨sampleDriver, wrapQueue, 0xFFFF⟩ tr ∧
    Along Untouching ⟨sampleDriver, wrapQueue, 0xFFFF⟩ tr ∧
    Along (Blind samplePlaces sampleResolve) ⟨sampleDriver, wrapQueue, 0xFFFF⟩ tr := by
  have h0 : (queueSystem samplePlaces sampleResolve).init ⟨sampleDriver, wrapQueue, 0xFFFF⟩ :=
    ⟨sampleDriver_init, rfl⟩
  obtain ⟨tr, ex, hi⟩ := queue_lift (queue_refining.init _ h0).2 sample_resolves (sampleRun_exec .write)
  exact ⟨tr, hi, queue_refines h0 ex⟩

end OldLinux.Hd
