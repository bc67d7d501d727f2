import OldLinux.Hd.Driver
import OldLinux.Lib.System

/-!
# The buffer cache

Model of `fs/buffer.c`: `find_buffer`, `get_hash_table`, `getblk`, `sync_dev`, `brelse` and `bread`,
with `ll_rw_block` (`fs/block_dev.c`) and the parts of `rw_hd` and the interrupt handlers
(`kernel/hd.c`) that touch a buffer head. Every call of `bread` that has not been released yet is a
user; where it is between two points at which it can be switched away is its `Phase`. `advance` runs
one user from there to the next such point (in `getblk`'s search and in `sync_dev` also to the next
turn of the loop). A user that has to go on sleeping, and one that panics, takes no step.

The hash queues are lists, the free list is the ring of the two pointers of each head. The pointers
`b_next` and `b_prev` are not kept apart from the lists; the store of `insert_into_queues` through the null
`b_next` of a buffer that is alone in its queue is taken to have no effect. The driver moves the data of a request
at one point between the request and its completion.
-/

namespace OldLinux.Buffer
open Lib Function
open Hd (Rw)

/-- The arguments `dev` and `block` of `getblk` and `bread`. -/
structure Key where
  dev : BitVec 32
  block : BitVec 32
  deriving DecidableEq

/-- What a buffer is locked for; `moved` once the data are copied from or to the disk. -/
structure Command where
  rw : Rw
  moved : Bool
  deriving DecidableEq

/-- `struct buffer_head`, with the block `b_data` points to. -/
structure BufferHead (δ : Type*) where
  bData : δ
  bDev : BitVec 16
  bBlocknr : BitVec 16
  bUptodate : Bool
  bDirt : Bool
  bCount : BitVec 8
  bLock : Option Command

/-- `b_dev` and `b_blocknr` as they compare with `int`s. -/
def BufferHead.key {δ : Type*} (bh : BufferHead δ) : Key :=
  ⟨bh.bDev.zeroExtend 32, bh.bBlocknr.zeroExtend 32⟩

/-- `_hashfn(dev,block)`. -/
def hashfn (k : Key) : Fin 307 := ⟨(k.dev ^^^ k.block).toNat % 307, Nat.mod_lt _ (by decide)⟩

/-- `MAJOR(a)`. -/
def major (a : BitVec 32) : BitVec 32 := a >>> 8

/-- Where a call of `bread` is: not called (`idle`), at the label `repeat` of `getblk`, in the
    `wait_on_buffer` of `get_hash_table`, at `tmp` in the loop over the free list, asleep on
    `buffer_wait`, in `sync_dev` for the victim `tmp` (at the head of the loop, in `wait_on_buffer` for
    buffer `i`, in `ll_rw_block(WRITE)` for it), in `ll_rw_block(READ)`, and returned. -/
inductive Phase (n : Nat) where
  | idle
  | getblk (k : Key)
  | waitOnBuffer (k : Key) (bh : Fin n)
  | search (k : Key) (tmp : Fin n)
  | bufferWait (k : Key)
  | syncDev (k : Key) (tmp : Fin n) (dev : BitVec 32) (i : Nat)
  | syncWait (k : Key) (tmp : Fin n) (dev : BitVec 32) (i : Fin n)
  | syncWrite (k : Key) (tmp : Fin n) (dev : BitVec 32) (i : Fin n)
  | reading (k : Key) (bh : Fin n)
  | held (k : Key) (bh : Fin n)
  deriving DecidableEq

/-- The cache of `n` buffers, the disk and the users. `latest` is the history of the modifications. -/
structure State (n : Nat) (π δ : Type*) where
  bufs : Fin n → BufferHead δ
  hashTable : Fin 307 → List (Fin n)
  prevFree : Fin n → Fin n
  nextFree : Fin n → Fin n
  freeList : Fin n
  disk : Key → δ
  users : π → Phase n
  latest : Key → δ

namespace State
variable {n : Nat} {π δ : Type*}

/-- Buffer head `b` becomes `bh`. -/
def setBuf (s : State n π δ) (b : Fin n) (bh : BufferHead δ) : State n π δ :=
  { s with bufs := update s.bufs b bh }

section
variable (s : State n π δ) (b : Fin n) (bh : BufferHead δ)

/-- Setting a buffer head changes it. -/
@[simp] lemma setBuf_bufs : (s.setBuf b bh).bufs = update s.bufs b bh := rfl
/-- Setting a buffer head leaves the hash queues. -/
@[simp] lemma setBuf_hashTable : (s.setBuf b bh).hashTable = s.hashTable := rfl
/-- Setting a buffer head leaves the disk. -/
@[simp] lemma setBuf_disk : (s.setBuf b bh).disk = s.disk := rfl
/-- Setting a buffer head leaves the users. -/
@[simp] lemma setBuf_users : (s.setBuf b bh).users = s.users := rfl
/-- Setting a buffer head leaves what was written last. -/
@[simp] lemma setBuf_latest : (s.setBuf b bh).latest = s.latest := rfl

end

/-- `find_buffer(dev,block)`. -/
def findBuffer (s : State n π δ) (k : Key) : Option (Fin n) :=
  (s.hashTable (hashfn k)).find? fun tmp => (s.bufs tmp).key = k

/-- `remove_from_queues(bh)`. -/
def removeFromQueues (s : State n π δ) (bh : Fin n) : State n π δ :=
  let h := hashfn (s.bufs bh).key
  let next := update s.nextFree (s.prevFree bh) (s.nextFree bh)
  let prev := update s.prevFree (next bh) (s.prevFree bh)
  { s with
    hashTable := update s.hashTable h ((s.hashTable h).erase bh)
    nextFree := next
    prevFree := prev
    freeList := if s.freeList = bh then next bh else s.freeList }

/-- `insert_into_queues(bh)`. -/
def insertIntoQueues (s : State n π δ) (bh : Fin n) : State n π δ :=
  let h := hashfn (s.bufs bh).key
  let next := update s.nextFree bh s.freeList
  let prev := update s.prevFree bh (s.prevFree s.freeList)
  { s with
    nextFree := update next (prev s.freeList) bh
    prevFree := update prev s.freeList bh
    hashTable :=
      if (s.bufs bh).bDev = 0 then s.hashTable else update s.hashTable h (bh :: s.hashTable h) }

/-- Taking a buffer out of its queues leaves the heads. -/
@[simp] lemma removeFromQueues_bufs (s : State n π δ) (b : Fin n) :
    (s.removeFromQueues b).bufs = s.bufs := rfl
/-- Taking a buffer out of its queues leaves the users. -/
@[simp] lemma removeFromQueues_users (s : State n π δ) (b : Fin n) :
    (s.removeFromQueues b).users = s.users := rfl
/-- Putting it into its queues leaves the heads. -/
@[simp] lemma insertIntoQueues_bufs (s : State n π δ) (b : Fin n) :
    (s.insertIntoQueues b).bufs = s.bufs := rfl
/-- Putting it into its queues leaves the users. -/
@[simp] lemma insertIntoQueues_users (s : State n π δ) (b : Fin n) :
    (s.insertIntoQueues b).users = s.users := rfl

variable (inRange : Key → Bool)

/-- `ll_rw_block(rw, bh)` up to the point where it sleeps. It panics for a device other than the hard
    disk; `rw_hd` does nothing for a block outside the disk. -/
def llRwBlock (s : State n π δ) (rw : Rw) (bh : Fin n) : Option (State n π δ) :=
  let x := s.bufs bh
  if major x.key.dev ≠ 3 then none
  else if inRange x.key then some (s.setBuf bh { x with bLock := some ⟨rw, false⟩ })
  else some s

/-- `brelse(buf)`; a locked buffer is waited for, and freeing a free buffer panics. -/
def brelse (s : State n π δ) (buf : Fin n) : Option (State n π δ) :=
  let x := s.bufs buf
  if x.bLock.isSome ∨ x.bCount = 0 then none
  else some (s.setBuf buf { x with bCount := x.bCount - 1 })

variable [DecidableEq π]

/-- User `u` gets to `p`. -/
def setUser (s : State n π δ) (u : π) (p : Phase n) : State n π δ :=
  { s with users := update s.users u p }

/-- A user that goes on leaves the heads. -/
@[simp] lemma setUser_bufs (s : State n π δ) (u : π) (p : Phase n) : (s.setUser u p).bufs = s.bufs := rfl
/-- A user that goes on is in its new phase. -/
@[simp] lemma setUser_users (s : State n π δ) (u : π) (p : Phase n) :
    (s.setUser u p).users = update s.users u p := rfl

/-- The last phase counts. -/
lemma setUser_setUser (s : State n π δ) (u : π) (p q : Phase n) :
    (s.setUser u p).setUser u q = s.setUser u q := by
  rw [setUser, setUser_users, update_idem]
  rfl

/-- `ll_rw_block` does not look at the users. -/
lemma llRwBlock_setUser (s : State n π δ) (u : π) (p : Phase n) (rw : Rw) (b : Fin n) :
    (s.setUser u p).llRwBlock inRange rw b = (s.llRwBlock inRange rw b).map (·.setUser u p) := by
  simp only [llRwBlock, setUser_bufs, apply_ite (Option.map _), Option.map_none, Option.map_some]
  rfl

/-- `bread` once `getblk` has returned `bh`. -/
def breadTail (s : State n π δ) (u : π) (k : Key) (bh : Fin n) : Option (State n π δ) :=
  if (s.bufs bh).bUptodate then some (s.setUser u (.held k bh))
  else (s.llRwBlock inRange .read bh).map fun s => s.setUser u (.reading k bh)

/-- `getblk` from `tmp->b_dev=dev` on: `tmp` is off the queues and saved. -/
def install (s : State n π δ) (u : π) (k : Key) (tmp : Fin n) : Option (State n π δ) :=
  let x := { s.bufs tmp with
    bDev := k.dev.setWidth 16, bBlocknr := k.block.setWidth 16, bDirt := false, bUptodate := false }
  let s := s.setBuf tmp x
  match s.findBuffer k with
  | some _ =>
    -- somebody else has added this block while `sync_dev` slept
    let s := s.setBuf tmp { x with bDev := 0, bBlocknr := 0, bCount := 0 }
    some ((s.insertIntoQueues tmp).setUser u (.getblk k))
  | none => (s.insertIntoQueues tmp).breadTail inRange u k tmp

/-- Where `bread` and the end of `getblk` get to does not depend on where they are said to be. -/
lemma breadTail_setUser (s : State n π δ) (u : π) (p : Phase n) (k : Key) (b : Fin n) :
    (s.setUser u p).breadTail inRange u k b = s.breadTail inRange u k b := by
  simp only [breadTail, setUser_bufs, llRwBlock_setUser, Option.map_map, setUser_setUser, comp_def]

/-- What a user installs does not depend on its phase. -/
lemma install_setUser (s : State n π δ) (u : π) (p : Phase n) (k : Key) (b : Fin n) :
    (s.setUser u p).install inRange u k b = s.install inRange u k b := by
  have hfind : ∀ x, ((s.setUser u p).setBuf b x).findBuffer k = (s.setBuf b x).findBuffer k :=
    fun _ => rfl
  simp only [install, setUser_bufs, hfind]
  split
  · exact congrArg some (setUser_setUser (((s.setBuf b _).setBuf b _).insertIntoQueues b) ..)
  · exact breadTail_setUser inRange ((s.setBuf b _).insertIntoQueues b) ..

/-- `getblk` from `tmp->b_count++` on. -/
def take (s : State n π δ) (u : π) (k : Key) (tmp : Fin n) : Option (State n π δ) :=
  let x := s.bufs tmp
  let s := (s.setBuf tmp { x with bCount := x.bCount + 1 }).removeFromQueues tmp
  if x.bDirt then some (s.setUser u (.syncDev k tmp x.key.dev 0)) else s.install inRange u k tmp

/-- User `u` runs from where it is. -/
def advance (s : State n π δ) (u : π) : Option (State n π δ) :=
  match s.users u with
  | .idle => none
  | .getblk k =>
    match s.findBuffer k with
    | some bh =>
      let x := s.bufs bh
      some ((s.setBuf bh { x with bCount := x.bCount + 1 }).setUser u (.waitOnBuffer k bh))
    | none => some (s.setUser u (.search k s.freeList))
  | .waitOnBuffer k bh =>
    if (s.bufs bh).bLock.isSome then none
    else if (s.bufs bh).key ≠ k then (s.brelse bh).map fun s => s.setUser u (.getblk k)
    else s.breadTail inRange u k bh
  | .search k tmp =>
    if (s.bufs tmp).bCount = 0 then
      if (s.bufs tmp).bLock.isSome then none else s.take inRange u k tmp
    else if s.nextFree tmp = s.freeList then some (s.setUser u (.bufferWait k))
    else some (s.setUser u (.search k (s.nextFree tmp)))
  | .bufferWait k => some (s.setUser u (.getblk k))
  | .syncDev k tmp dev i =>
    if h : i < n then
      if (s.bufs ⟨i, h⟩).key.dev ≠ dev then some (s.setUser u (.syncDev k tmp dev (i + 1)))
      else some (s.setUser u (.syncWait k tmp dev ⟨i, h⟩))
    else s.install inRange u k tmp
  | .syncWait k tmp dev i =>
    if (s.bufs i).bLock.isSome then none
    else if (s.bufs i).bDirt then
      (s.llRwBlock inRange .write i).map fun s => s.setUser u (.syncWrite k tmp dev i)
    else some (s.setUser u (.syncDev k tmp dev (i + 1)))
  | .syncWrite k tmp dev i =>
    if (s.bufs i).bLock.isSome then none else some (s.setUser u (.syncDev k tmp dev (i + 1)))
  | .reading k bh =>
    if (s.bufs bh).bLock.isSome then none
    else if (s.bufs bh).bUptodate then some (s.setUser u (.held k bh))
    else (s.brelse bh).map fun s => s.setUser u .idle
  | .held _ _ => none

/-- The user modifies `b_data` and sets `b_dirt`. -/
def modify (s : State n π δ) (u : π) (v : δ) : Option (State n π δ) :=
  match s.users u with
  | .held k bh =>
    let s := s.setBuf bh { s.bufs bh with bData := v, bDirt := true }
    some { s with latest := update s.latest k v }
  | _ => none

/-- The user releases its buffer with `brelse`. -/
def release (s : State n π δ) (u : π) : Option (State n π δ) :=
  match s.users u with
  | .held _ bh => (s.brelse bh).map fun s => s.setUser u .idle
  | _ => none

/-- The data of the request for `bh` are copied. -/
def transfer (s : State n π δ) (bh : Fin n) : Option (State n π δ) :=
  let x := s.bufs bh
  match x.bLock with
  | some ⟨.read, false⟩ =>
    some (s.setBuf bh { x with bData := s.disk x.key, bLock := some ⟨.read, true⟩ })
  | some ⟨.write, false⟩ =>
    let s := s.setBuf bh { x with bLock := some ⟨.write, true⟩ }
    some { s with disk := update s.disk x.key x.bData }
  | _ => none

/-- The end of `read_intr` and `write_intr`. -/
def complete (s : State n π δ) (bh : Fin n) : Option (State n π δ) :=
  let x := s.bufs bh
  match x.bLock with
  | some ⟨_, true⟩ =>
    some (s.setBuf bh { x with bUptodate := true, bDirt := false, bLock := none })
  | _ => none

/-- One turn of the loop of `sys_sync` that writes `bh`. -/
def flush (s : State n π δ) (bh : Fin n) : Option (State n π δ) :=
  if (s.bufs bh).bLock.isSome ∨ (s.bufs bh).bDirt = false then none else s.llRwBlock inRange .write bh

end State

/-- What can happen next. -/
inductive Event (n : Nat) (π δ : Type*) where
  | bread (u : π) (k : Key)
  | advance (u : π)
  | modify (u : π) (v : δ)
  | release (u : π)
  | transfer (bh : Fin n)
  | complete (bh : Fin n)
  | flush (bh : Fin n)

section
variable {n : Nat} {π δ : Type*} [DecidableEq π] (inRange : Key → Bool)

/-- The state after an event, if it can happen. -/
def State.step (s : State n π δ) : Event n π δ → Option (State n π δ)
  | .bread u k => if s.users u = .idle then some (s.setUser u (.getblk k)) else none
  | .advance u => s.advance inRange u
  | .modify u v => s.modify u v
  | .release u => s.release u
  | .transfer bh => s.transfer bh
  | .complete bh => s.complete bh
  | .flush bh => s.flush inRange bh

/-- The state `buffer_init` leaves. `b_blocknr` and the data are what was in memory. -/
structure State.Initial (s : State n π δ) : Prop where
  dev : ∀ b, (s.bufs b).bDev = 0
  uptodate : ∀ b, (s.bufs b).bUptodate = false
  dirt : ∀ b, (s.bufs b).bDirt = false
  count : ∀ b, (s.bufs b).bCount = 0
  lock : ∀ b, (s.bufs b).bLock = none
  prev : ∀ b : Fin n, (s.prevFree b).val = (b.val + n - 1) % n
  next : ∀ b : Fin n, (s.nextFree b).val = (b.val + 1) % n
  freeList : s.freeList.val = 0
  hash : ∀ h, s.hashTable h = []
  users : ∀ u, s.users u = .idle
  latest : s.latest = s.disk

/-- The cache with its users and the disk. -/
def cacheSystem : System (State n π δ) (Event n π δ) where
  init := State.Initial
  step s e s' := s.step inRange e = some s'

end

end OldLinux.Buffer
