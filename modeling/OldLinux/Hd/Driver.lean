import OldLinux.Fs.Types
import Mathlib.Data.Fintype.Basic
import Mathlib.Data.List.FinRange

/-!
# The disk driver

Model of `rw_abs_hd`, `add_request`, `do_request`, `hd_out`, `read_intr`, `write_intr` and
`hd_interrupt` (`kernel/hd.c`) and of `virtio_cmd` (`kernel/virtio.c`). The request table is an array of
32 slots linked by `next`; `do_hd` is the handler to run at the next interrupt. `virtio_cmd` leaves the
command in `virt_request` and the data in `virt_buffer`, both of which the device reads when it executes
the command, and counts it in the available ring.

A `panic` is always the last thing a function does here, so the functions return a `Result`. Wait queues
are left out: whoever sleeps in `rw_abs_hd` for a free slot may look again at any time.
-/

namespace OldLinux.Hd
open Lib Fs Function

/-- The 512 bytes of a disk sector. -/
abbrev Sector := Fin 512 → BitVec 8

/-- Half `k` of a buffer's 1024 bytes. -/
def half (data : Bytes) (k : Nat) : Sector := fun i => data (512 * k + i)

/-- `memcpy(b_data + 512*k, virt_buffer, 512)`. -/
def putHalf (data : Bytes) (k : Nat) (s : Sector) : Bytes :=
  fun i => if h : 512 * k ≤ i ∧ i < 512 * k + 512 then s ⟨i - 512 * k, by omega⟩ else data i

/-- `READ` and `WRITE`. -/
inductive Rw where
  | read | write
  deriving DecidableEq

/-- `WIN_READ`. -/
def winRead : BitVec 32 := 0x20

/-- `WIN_WRITE`. -/
def winWrite : BitVec 32 := 0x30

/-- What `do_hd` points to. -/
inductive Intr where
  | readIntr | writeIntr
  deriving DecidableEq

/-- The fields of `struct buffer_head` the driver uses. -/
structure Buffer where
  bData : Bytes
  bUptodate : Bool
  bDirt : Bool
  bLock : Bool

/-- `struct hd_request`. A slot is free when `hd` is negative. -/
structure Request (β : Type*) where
  hd : BitVec 32
  nsector : BitVec 32
  sector : BitVec 32
  head : BitVec 32
  cyl : BitVec 32
  cmd : BitVec 32
  errors : Nat
  bh : Option β
  next : Option (Fin 32)

/-- `struct virtio_blk_req`: `VIRTIO_BLK_T_OUT` or `VIRTIO_BLK_T_IN`, and the sector. -/
structure VirtioReq where
  out : Bool
  sector : BitVec 64

/-- The arguments of a call of `rw_abs_hd`. -/
structure RwCall (β : Type*) where
  rw : Rw
  nr : BitVec 32
  sec : BitVec 32
  head : BitVec 32
  cyl : BitVec 32
  bh : β

/-- The driver and the disk: `heads` and `sectors` are the geometry in `disk_cfg`, `issued` counts the
    commands made available to the device, `executed` those it has executed, `raised` the interrupts
    it has raised that are not yet handled, and `waiting` are the calls asleep for a free slot. -/
structure Driver (β : Type*) where
  request : Fin 32 → Request β
  thisRequest : Option (Fin 32)
  doHd : Option Intr
  sorting : Bool
  buffers : β → Buffer
  heads : BitVec 8
  sectors : BitVec 8
  virtBuffer : Sector
  virtRequest : VirtioReq
  issued : Nat
  executed : Nat
  raised : Nat
  disk : BitVec 64 → Sector
  waiting : List (RwCall β)
  halted : Bool

/-- `IN_ORDER(s1,s2)`. -/
def inOrder {β : Type*} (s1 s2 : Request β) : Bool :=
  s1.hd.slt s2.hd || s1.hd == s2.hd &&
    (s1.cyl.slt s2.cyl || s1.cyl == s2.cyl &&
      (s1.head.slt s2.head || s1.head == s2.head &&
        s1.sector.slt s2.sector))

/-- The sector `hd_out` addresses, in 32-bit arithmetic. -/
def hdSector (heads sectors : BitVec 8) (sect head cyl : BitVec 32) : BitVec 64 :=
  (sectors.zeroExtend 32 * (cyl * heads.zeroExtend 32 + head) + sect - 1).zeroExtend 64

namespace Driver
variable {β : Type*}

/-- `virtio_cmd(write, sector)`. -/
def virtioCmd (s : Driver β) (write : BitVec 32) (sector : BitVec 64) : Driver β :=
  { s with virtRequest := ⟨write != 0, sector⟩, issued := s.issued + 1 }

/-- `hd_out(drive, nsect, sect, head, cyl, cmd, intr_addr)`; `nsect` is not used. -/
def hdOut (s : Driver β) (drive sect head cyl cmd : BitVec 32) (intr : Intr) : Result (Driver β) :=
  if drive > 1 ∨ head > 15 then .panic "Trying to write bad sector"
  else
    let s := { s with doHd := some intr }
    .ret (s.virtioCmd cmd (hdSector s.heads s.sectors sect head cyl))

variable [DecidableEq β]

/-- The data of the buffer a request points to. -/
def dataOf (s : Driver β) (r : Fin 32) : Option Bytes :=
  (s.request r).bh.map fun b => (s.buffers b).bData

/-- `do_request()`. -/
def doRequest (s : Driver β) : Result (Driver β) :=
  if s.sorting then .ret s
  else
    match s.thisRequest with
    | none => .ret { s with doHd := none }
    | some r =>
      let req := s.request r
      if req.cmd = winWrite then
        match s.dataOf r with
        | none => .fault
        | some data =>
          let s := { s with virtBuffer := half data (req.nsector &&& 1).toNat }
          s.hdOut req.hd req.sector req.head req.cyl req.cmd .writeIntr
      else if req.cmd = winRead then
        s.hdOut req.hd req.sector req.head req.cyl req.cmd .readIntr
      else .panic "unknown hd-command"

/-- The loop of `add_request` that looks for the place of `req` behind `tmp`. -/
def findPlace (s : Driver β) (req : Fin 32) : Nat → Fin 32 → Fin 32
  | 0, tmp => tmp
  | n + 1, tmp =>
    match (s.request tmp).next with
    | none => tmp
    | some u =>
      if (inOrder (s.request tmp) (s.request req) || !inOrder (s.request tmp) (s.request u)) &&
          inOrder (s.request req) (s.request u) then tmp
      else findPlace s req n u

/-- `req->next = u`. -/
def setNext (s : Driver β) (req : Fin 32) (u : Option (Fin 32)) : Driver β :=
  { s with request := update s.request req { s.request req with next := u } }

/-- The list surgery of `add_request`. -/
def link (s : Driver β) (req : Fin 32) : Driver β :=
  match s.thisRequest with
  | none => { s with thisRequest := some req }
  | some tmp =>
    match (s.request tmp).next with
    | none => s.setNext tmp (some req)
    | some u =>
      let place := s.findPlace req 32 u
      (s.setNext req (s.request place).next).setNext place (some req)

/-- `add_request(req)`. -/
def addRequest (s : Driver β) (req : Fin 32) : Result (Driver β) :=
  if (s.request req).nsector ≠ 2 then .panic "nsector!=2 not implemented"
  else
    let s := s.link req
    if s.doHd = none then s.doRequest else .ret s

/-- The first free slot. -/
def freeSlot (s : Driver β) : Option (Fin 32) :=
  (List.finRange 32).find? fun r => (s.request r).hd.slt 0

/-- `rw_abs_hd` from the label `repeat` to its next sleep. -/
def rwAbsHdRepeat (s : Driver β) (c : RwCall β) : Result (Driver β) :=
  match s.freeSlot with
  | none => .ret { s with waiting := s.waiting ++ [c] }
  | some req =>
    let entry : Request β :=
      { hd := c.nr, nsector := 2, sector := c.sec, head := c.head, cyl := c.cyl
        cmd := if c.rw = .read then winRead else winWrite
        errors := 0, bh := some c.bh, next := none }
    { s with request := update s.request req entry }.addRequest req

/-- `rw_abs_hd` from its start to its first sleep. -/
def rwAbsHd (s : Driver β) (c : RwCall β) : Result (Driver β) :=
  { s with buffers := update s.buffers c.bh { s.buffers c.bh with bLock := true } }.rwAbsHdRepeat c

/-- The end of `read_intr` and `write_intr`: mark the buffer, free the request, start the next one. -/
def finish (s : Driver β) (r : Fin 32) (b : β) : Result (Driver β) :=
  { s with
    buffers := update s.buffers b { s.buffers b with bUptodate := true, bDirt := false, bLock := false }
    request := update s.request r { s.request r with hd := -1 }
    thisRequest := (s.request r).next }.doRequest

/-- `read_intr()`. The statement `VIRT_ACK;` calls nothing. -/
def readIntr (s : Driver β) : Result (Driver β) :=
  match s.thisRequest with
  | none => .fault
  | some r =>
    match (s.request r).bh with
    | none => .fault
    | some b =>
      let nsector := (s.request r).nsector
      let data := putHalf (s.buffers b).bData (nsector &&& 1).toNat s.virtBuffer
      let s :=
        { s with
          buffers := update s.buffers b { s.buffers b with bData := data }
          request := update s.request r { s.request r with errors := 0, nsector := nsector - 1 } }
      if nsector - 1 ≠ 0 then .ret s else s.finish r b

/-- `write_intr()`. -/
def writeIntr (s : Driver β) : Result (Driver β) :=
  match s.thisRequest with
  | none => .fault
  | some r =>
    match (s.request r).bh with
    | none => .fault
    | some b =>
      let nsector := (s.request r).nsector
      let s := { s with request := update s.request r { s.request r with nsector := nsector - 1 } }
      if nsector - 1 ≠ 0 then .ret { s with virtBuffer := half (s.buffers b).bData 1 }
      else s.finish r b

/-- `hd_interrupt()`. -/
def hdInterrupt (s : Driver β) : Result (Driver β) :=
  let intr := s.doHd
  let s := { s with doHd := none }
  match intr with
  | some .readIntr => s.readIntr
  | some .writeIntr => s.writeIntr
  | none => .panic "Unexpected HD interrupt\n\r"

/-- The device executes the command in `virt_request` on one sector and raises an interrupt. -/
def deviceExec (s : Driver β) : Driver β :=
  let s := { s with executed := s.executed + 1, raised := s.raised + 1 }
  if s.virtRequest.out then { s with disk := update s.disk s.virtRequest.sector s.virtBuffer }
  else { s with virtBuffer := s.disk s.virtRequest.sector }

end Driver

end OldLinux.Hd
