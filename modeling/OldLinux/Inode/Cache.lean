import OldLinux.Bitmap.Alloc
import OldLinux.Fs.DiskFormat
import OldLinux.Lib.System
import OldLinux.Lib.Tally
import Mathlib.Data.List.FinRange

/-!
# The inode cache

Model of `fs/inode.c`: `wait_on_inode`, `lock_inode`, `unlock_inode`, `iput`, `get_empty_inode`,
`get_pipe_inode`, `iget`, `read_inode`, `write_inode` and one turn of `sync_inodes`, together with
`new_inode` and `free_inode` (`fs/bitmap.c`). Any number of processes call them; where a process is
between two points at which it can be switched away is its `Phase`. `advance` runs one process from
there to the next such point; besides the points where the code sleeps, it stops where a loop starts
again and between the functions, which only adds runs. A process that has to go on sleeping, and one
that panics, takes no step.

`held` counts the references that callers have been given and not put back yet. `raised` records, for
the last call of each process, by how much that process has changed each `i_count` since the call
began. No function reads the two. The inodes on the disk are records in blocks, as `bread` delivers them;
what `truncate` does outside the inode, and memory, are left out.
-/

namespace OldLinux.Inode
open Lib Fs Bitmap Function

/-- The functions that call `get_empty_inode`, with their arguments. `page` is what `get_free_page`
    returns to `get_pipe_inode`, `now` is `CURRENT_TIME`. -/
inductive Caller where
  | iget (dev nr : Nat)
  | newInode (dev now : Nat)
  | pipe (page : Option (BitVec 64))

/-- What a call returns. -/
inductive Reply where
  | iget (dev nr : Nat) (inode : Fin 32)
  | newInode (inode : Option (Fin 32))
  | pipe (inode : Option (Fin 32))
  | iput
  | sync

/-- What `read_inode` or `write_inode` is called for: by `iget`, and in the loops of
    `get_empty_inode`, `iput` and `sync_inodes`. An `iput` that `iget` or `new_inode` has called goes on
    to their reply. -/
inductive Job where
  | read (dev nr : Nat)
  | empty (c : Caller)
  | put (r : Reply)
  | sync

/-- Where a process is: at the head of the loop of `get_empty_inode`, in its `wait_on_inode`, after it
    has returned `empty`; in the `wait_on_inode` of `iget` for `inode`; in `iput` before its tests, back
    at `repeat` after a write, and in `truncate`; in `sync_inodes`; in `lock_inode`, `bread` and `brelse`
    of a transfer; and at the return of the call. -/
inductive Phase where
  | idle
  | getEmptyInode (c : Caller)
  | emptyWait (c : Caller) (inode : Fin 32)
  | gotEmpty (c : Caller) (empty : Fin 32)
  | igetWait (dev nr : Nat) (empty inode : Fin 32)
  | putWait (inode : Fin 32) (r : Reply)
  | putAgain (inode : Fin 32) (r : Reply)
  | truncate (inode : Fin 32) (r : Reply)
  | syncWait (inode : Fin 32)
  | lockInode (j : Job) (inode : Fin 32)
  | bread (j : Job) (inode : Fin 32) (dev block : Nat)
  | brelse (j : Job) (inode : Fin 32)
  | done (r : Reply)

/-- The inode table with its locks, the mounted device with the inodes on it, and the processes.
    `firstBlock` is `2 + s_imap_blocks + s_zmap_blocks`. -/
structure State (π : Type*) where
  inodeTable : Fin 32 → MInode
  iLock : Fin 32 → Bool
  lastAllocatedInode : Fin 32
  super : SuperBlock
  firstBlock : Nat
  inodeBlocks : (dev block entry : Nat) → DInode
  users : π → Phase
  held : Fin 32 → Nat
  raised : π → Fin 32 → Int

namespace State
variable {π : Type*}

/-- The inode in slot `i` becomes `x`. -/
def setInode (s : State π) (i : Fin 32) (x : MInode) : State π :=
  { s with inodeTable := update s.inodeTable i x }

/-- `i_lock` of slot `i`. -/
def setLock (s : State π) (i : Fin 32) (b : Bool) : State π := { s with iLock := update s.iLock i b }

/-- `memset(inode,0,sizeof(*inode))`; the lock is part of the inode. -/
def clear (s : State π) (i : Fin 32) : State π := (s.setInode i .zero).setLock i false

/-- `inode->i_count++`. -/
def incCount (s : State π) (i : Fin 32) : State π :=
  s.setInode i { s.inodeTable i with iCount := ((s.inodeTable i).iCount + 1) % 65536 }

/-- `inode->i_count--`, where it is not zero. -/
def decCount (s : State π) (i : Fin 32) : State π :=
  s.setInode i { s.inodeTable i with iCount := (s.inodeTable i).iCount - 1 }

section
variable (s : State π) (i : Fin 32) (x : MInode) (b : Bool)

/-- Setting an inode changes its slot. -/
@[simp] lemma setInode_inodeTable : (s.setInode i x).inodeTable = update s.inodeTable i x := rfl
/-- Setting an inode leaves the super block. -/
@[simp] lemma setInode_super : (s.setInode i x).super = s.super := rfl
/-- Setting an inode leaves the users. -/
@[simp] lemma setInode_users : (s.setInode i x).users = s.users := rfl
/-- Setting an inode leaves what they hold. -/
@[simp] lemma setInode_held : (s.setInode i x).held = s.held := rfl
/-- Setting an inode leaves what they have raised. -/
@[simp] lemma setInode_raised : (s.setInode i x).raised = s.raised := rfl
/-- Locking an inode leaves the inodes. -/
@[simp] lemma setLock_inodeTable : (s.setLock i b).inodeTable = s.inodeTable := rfl
/-- Locking an inode leaves the super block. -/
@[simp] lemma setLock_super : (s.setLock i b).super = s.super := rfl
/-- Locking an inode leaves the users. -/
@[simp] lemma setLock_users : (s.setLock i b).users = s.users := rfl
/-- Locking an inode leaves what they hold. -/
@[simp] lemma setLock_held : (s.setLock i b).held = s.held := rfl
/-- Locking an inode leaves what they have raised. -/
@[simp] lemma setLock_raised : (s.setLock i b).raised = s.raised := rfl

end

/-- `inode->i_dev == dev && inode->i_num == nr`. -/
def Carries (s : State π) (i : Fin 32) (dev nr : Nat) : Prop :=
  (s.inodeTable i).iDev = dev ∧ (s.inodeTable i).iNum = nr

instance (s : State π) (i : Fin 32) (dev nr : Nat) : Decidable (s.Carries i dev nr) :=
  inferInstanceAs (Decidable (_ ∧ _))

/-- The first free slot from `last_allocated_inode` on, going around. -/
def emptySlot (s : State π) : Option (Fin 32) :=
  ((List.finRange 32).map (s.lastAllocatedInode + ·)).find? fun i => (s.inodeTable i).iCount = 0

/-- The scan of `iget` from the start of the table. -/
def scan (s : State π) (dev nr : Nat) : Option (Fin 32) :=
  (List.finRange 32).find? fun i => s.Carries i dev nr

/-- `inode->i_num-1`, as the `unsigned long` it becomes beside `INODES_PER_BLOCK`. -/
def numFromZero (nr : Nat) : Nat := (nr + (2 ^ 64 - 1)) % 2 ^ 64

/-- The block of an inode, as an `int`. -/
def blockOf (s : State π) (nr : Nat) : Nat := (s.firstBlock + numFromZero nr / inodesPerBlock) % 2 ^ 32

/-- The place of an inode in its block. -/
def entryOf (nr : Nat) : Nat := numFromZero nr % inodesPerBlock

variable [DecidableEq π]

/-- Process `p` gets to `ph`. -/
def setUser (s : State π) (p : π) (ph : Phase) : State π := { s with users := update s.users p ph }

section
variable (s : State π) (p : π) (ph : Phase)

/-- A user that goes on leaves the inodes. -/
@[simp] lemma setUser_inodeTable : (s.setUser p ph).inodeTable = s.inodeTable := rfl
/-- A user that goes on leaves the super block. -/
@[simp] lemma setUser_super : (s.setUser p ph).super = s.super := rfl
/-- A user that goes on is in its new phase. -/
@[simp] lemma setUser_users : (s.setUser p ph).users = update s.users p ph := rfl
/-- A user that goes on leaves what is held. -/
@[simp] lemma setUser_held : (s.setUser p ph).held = s.held := rfl
/-- A user that goes on leaves what has been raised. -/
@[simp] lemma setUser_raised : (s.setUser p ph).raised = s.raised := rfl

end

/-- `get_empty_inode` from the head of its loop on. -/
def pickEmpty (s : State π) (p : π) (c : Caller) : Option (State π) :=
  match s.emptySlot with
  | none => none
  | some i => some ({ s with lastAllocatedInode := i }.setUser p (.emptyWait c i))

/-- `get_empty_inode` once `wait_on_inode` returns. -/
def takeEmpty (s : State π) (p : π) (c : Caller) (i : Fin 32) : State π :=
  if (s.inodeTable i).iDirt then s.setUser p (.lockInode (.empty c) i)
  else if (s.inodeTable i).iCount ≠ 0 then s.setUser p (.getEmptyInode c)
  else ((s.clear i).setInode i { MInode.zero with iCount := 1 }).setUser p (.gotEmpty c i)

/-- `iget` from `inode = inode_table` on. -/
def scanTable (s : State π) (p : π) (dev nr : Nat) (empty : Fin 32) : State π :=
  match s.scan dev nr with
  | some i => s.setUser p (.igetWait dev nr empty i)
  | none =>
    let x := { s.inodeTable empty with iDev := dev % 65536, iNum := nr % 65536 }
    (s.setInode empty x).setUser p (.lockInode (.read dev nr) empty)

/-- The end of `new_inode`. -/
def newInode (s : State π) (p : π) (dev now : Nat) (e : Fin 32) : Option (State π) :=
  match Bitmap.newInode s.super dev (some (s.inodeTable e)) now with
  | .ret (some x, sb) =>
    some ({ s.setInode e x with super := sb }.setUser p (.done (.newInode (some e))))
  | .ret (none, sb) => some ({ s with super := sb }.setUser p (.putWait e (.newInode none)))
  | _ => none

/-- The end of `get_pipe_inode`. -/
def pipeInode (s : State π) (p : π) (page : Option (BitVec 64)) (e : Fin 32) : State π :=
  match page with
  | none => (s.setInode e { s.inodeTable e with iCount := 0 }).setUser p (.done (.pipe none))
  | some a =>
    let x := { s.inodeTable e with iSize := a, iCount := 2, iPipe := true }
    (s.setInode e x).setUser p (.done (.pipe (some e)))

/-- `iput` from `repeat` on. -/
def putRepeat (s : State π) (p : π) (i : Fin 32) (r : Reply) : State π :=
  if (s.inodeTable i).iNlinks = 0 then s.setUser p (.truncate i r)
  else if (s.inodeTable i).iDirt then s.setUser p (.lockInode (.put r) i)
  else (s.decCount i).setUser p (.done r)

/-- `iput` once `wait_on_inode` returns. -/
def put (s : State π) (p : π) (i : Fin 32) (r : Reply) : Option (State π) :=
  let x := s.inodeTable i
  if x.iCount = 0 then none
  else if x.iPipe then
    if x.iCount - 1 ≠ 0 then some ((s.decCount i).setUser p (.done r))
    else
      let x := { x with iCount := 0, iDirt := false, iPipe := false }
      some ((s.setInode i x).setUser p (.done r))
  else if x.iDev = 0 ∨ x.iCount > 1 then some ((s.decCount i).setUser p (.done r))
  else some (s.putRepeat p i r)

/-- The end of `iput` when `truncate` returns. -/
def free (s : State π) (p : π) (i : Fin 32) (r : Reply) : Option (State π) :=
  match Bitmap.freeInode s.super (some (s.inodeTable i)) with
  | .ret (_, sb) => some ({ s.clear i with super := sb }.setUser p (.done r))
  | _ => none

/-- The assignment of `read_inode` or `write_inode`, with the block that `bread` has returned. -/
def transfer (s : State π) (j : Job) (i : Fin 32) (dev block : Nat) : State π :=
  let x := s.inodeTable i
  match j with
  | .read _ _ => s.setInode i { x with toDInode := s.inodeBlocks dev block (entryOf x.iNum) }
  | _ =>
    let s := s.setInode i { x with iDirt := false }
    { s with
      inodeBlocks :=
        update s.inodeBlocks dev (update (s.inodeBlocks dev) block
          (update (s.inodeBlocks dev block) (entryOf x.iNum) x.toDInode)) }

/-- Where `read_inode` and `write_inode` return to. -/
def afterJob : Job → Fin 32 → Phase
  | .read dev nr, i => .done (.iget dev nr i)
  | .empty c, i => .emptyWait c i
  | .put r, i => .putAgain i r
  | .sync, _ => .done .sync

/-- Process `p` runs from where it is. -/
def advance (s : State π) (p : π) : Option (State π) :=
  match s.users p with
  | .idle | .done _ => none
  | .getEmptyInode c => s.pickEmpty p c
  | .emptyWait c i => if s.iLock i then none else some (s.takeEmpty p c i)
  | .gotEmpty (.iget dev nr) e => some (s.scanTable p dev nr e)
  | .gotEmpty (.newInode dev now) e => s.newInode p dev now e
  | .gotEmpty (.pipe page) e => some (s.pipeInode p page e)
  | .igetWait dev nr e i =>
    if s.iLock i then none
    else if s.Carries i dev nr then some ((s.incCount i).setUser p (.putWait e (.iget dev nr i)))
    else some (s.setUser p (.gotEmpty (.iget dev nr) e))
  | .putWait i r => if s.iLock i then none else s.put p i r
  | .putAgain i r => if s.iLock i then none else some (s.putRepeat p i r)
  | .truncate i r => s.free p i r
  | .syncWait i =>
    if s.iLock i then none
    else if (s.inodeTable i).iDirt ∧ ¬ (s.inodeTable i).iPipe then some (s.setUser p (.lockInode .sync i))
    else some (s.setUser p (.done .sync))
  | .lockInode j i =>
    let x := s.inodeTable i
    if s.iLock i then none
    else some ((s.setLock i true).setUser p (.bread j i x.iDev (s.blockOf x.iNum)))
  | .bread j i dev block =>
    match getSuper s.super dev with
    | none => none
    | some _ => some ((s.transfer j i dev block).setUser p (.brelse j i))
  | .brelse j i => some ((s.setLock i false).setUser p (afterJob j i))

/-- Adds up what `p` has done to the counts since `s`. -/
def charge (s' s : State π) (p : π) : State π :=
  { s' with
    raised := update s'.raised p fun i =>
      s'.raised p i + ((s'.inodeTable i).iCount - (s.inodeTable i).iCount) }

/-- Process `p` calls a function. -/
def call (s : State π) (p : π) (ph : Phase) : Option (State π) :=
  match s.users p with
  | .idle => some { s.setUser p ph with raised := update s.raised p 0 }
  | _ => none

end State

/-- The references that a reply hands to the caller; a pipe is used by a reader and a writer. -/
def Reply.refs : Reply → Fin 32 → Nat
  | .iget _ _ i | .newInode (some i) => ref (some i)
  | .pipe (some i) => fun j => 2 * ref (some i) j
  | _ => fun _ => 0

/-- What can happen next. Whoever has been given a reference can count it twice, as `fork` does, and
change the other fields of the inode; `truncate` changes them while it sleeps. -/
inductive Event (π : Type*) where
  | iget (p : π) (dev nr : Nat)
  | newInode (p : π) (dev now : Nat)
  | getPipeInode (p : π) (page : Option (BitVec 64))
  | iput (p : π) (i : Fin 32)
  | syncInode (p : π) (i : Fin 32)
  | advance (p : π)
  | leave (p : π)
  | share (i : Fin 32)
  | modify (i : Fin 32) (d : DInode) (atime ctime : Nat)
  | truncating (p : π) (d : DInode) (ctime : Nat)

namespace State
variable {π : Type*} [DecidableEq π]

/-- The state after an event, if it can happen. -/
def step (s : State π) : Event π → Option (State π)
  | .iget p dev nr => if dev = 0 then none else s.call p (.getEmptyInode (.iget dev nr))
  | .newInode p dev now => s.call p (.getEmptyInode (.newInode dev now))
  | .getPipeInode p page => s.call p (.getEmptyInode (.pipe page))
  | .iput p i =>
    if s.held i = 0 then none
    else { s with held := update s.held i (s.held i - 1) }.call p (.putWait i .iput)
  | .syncInode p i => s.call p (.syncWait i)
  | .advance p => (s.advance p).map fun s' => s'.charge s p
  | .leave p =>
    match s.users p with
    | .done r => some { s.setUser p .idle with held := s.held + r.refs }
    | _ => none
  | .share i =>
    if s.held i = 0 then none
    else some { s.incCount i with held := update s.held i (s.held i + 1) }
  | .modify i d atime ctime =>
    if s.held i = 0 then none
    else
      some (s.setInode i { s.inodeTable i with
        toDInode := d, iAtime := atime, iCtime := ctime, iDirt := true })
  | .truncating p d ctime =>
    match s.users p with
    | .truncate i _ =>
      some (s.setInode i { s.inodeTable i with toDInode := d, iCtime := ctime, iDirt := true })
    | _ => none

/-- Nothing has been read in yet. The arrays `s_imap` have `I_MAP_SLOTS` entries. -/
structure Initial (s : State π) : Prop where
  table : ∀ i, s.inodeTable i = .zero
  maps : ∀ k ≥ 8, s.super.sImap k = none
  users : ∀ p, s.users p = .idle
  held : s.held = 0

/-- The inode cache with its users. -/
def inodeSystem : System (State π) (Event π) where
  init := Initial
  step s e s' := s.step e = some s'

end State

end OldLinux.Inode
