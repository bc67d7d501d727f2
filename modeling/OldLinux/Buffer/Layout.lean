import OldLinux.Buffer.Getblk
import OldLinux.Lib.Packing
import OldLinux.Lib.StructLayout
import OldLinux.Mm.Page

/-!
# The layout of the buffers

`buffer_init` (`fs/buffer.c`) fills the room between the end of the kernel and `BUFFER_END` with buffer
heads, upwards, and with their blocks, downwards, until these meet. Pointers are addresses, `NULL` is 0, and
the buffer heads are the records at their addresses; that they do not overlap is part of the result
(`Memory.bufferInit_lays_out`). `Memory.Made.represents` says that the other `bufferInit`, from which the
buffer cache starts in `Buffer/Getblk`, is this memory by buffer numbers.
-/

namespace OldLinux.Buffer
open Lib Function
open Mm (p2v lowMem vaKernel lowMemory_toNat)

/-- Members of `struct buffer_head`. -/
inductive HMember
  | bData | bDev | bBlocknr | bUptodate | bDirt | bCount | bLock | bWait | bPrev | bNext | bPrevFree
  | bNextFree
  deriving DecidableEq

/-- `struct buffer_head`, as it is laid out. -/
def bufferHead : Struct HMember where
  members := [.bData, .bDev, .bBlocknr, .bUptodate, .bDirt, .bCount, .bLock, .bWait, .bPrev, .bNext,
    .bPrevFree, .bNextFree]
  type
    | .bDev | .bBlocknr => .ushort
    | .bUptodate | .bDirt | .bCount | .bLock => .uchar
    | .bData | .bWait | .bPrev | .bNext | .bPrevFree | .bNextFree => .pointer

/-- A buffer head has 56 bytes. -/
lemma sizeof_bufferHead : bufferHead.sizeof = 56 := by decide

/-- `BLOCK_SIZE`. -/
def blockSize : Nat := 1024

/-- `struct buffer_head`. -/
structure Head where
  bData : BitVec 64
  bDev : BitVec 16
  bBlocknr : BitVec 16
  bUptodate : BitVec 8
  bDirt : BitVec 8
  bCount : BitVec 8
  bLock : BitVec 8
  bWait : BitVec 64
  bPrev : BitVec 64
  bNext : BitVec 64
  bPrevFree : BitVec 64
  bNextFree : BitVec 64

/-- What `buffer_init` works on: the buffer heads in memory and the variables. -/
structure Memory where
  head : BitVec 64 → Head
  startBuffer : BitVec 64
  hashTable : Fin 307 → BitVec 64
  freeList : BitVec 64
  nrBuffers : BitVec 32

/-- `h + 1`. -/
def after (h : BitVec 64) : BitVec 64 := h + .ofNat 64 bufferHead.sizeof

/-- `h - 1`. -/
def before (h : BitVec 64) : BitVec 64 := h - .ofNat 64 bufferHead.sizeof

/-- The members that a turn of `buffer_init` sets; `b` is the block. -/
def Head.init (hd : Head) (h b : BitVec 64) : Head :=
  { hd with
    bDev := 0
    bDirt := 0
    bCount := 0
    bLock := 0
    bUptodate := 0
    bWait := 0
    bNext := 0
    bPrev := 0
    bData := b
    bPrevFree := before h
    bNextFree := after h }

/-- The entries `l` of a table of pointers become `NULL`, one after the other. -/
def clear {ι : Type} [DecidableEq ι] (l : List ι) (t : ι → BitVec 64) : ι → BitVec 64 :=
  l.foldl (fun t i => update t i 0) t

/-- Clearing a table entry by entry. -/
lemma clear_apply {ι : Type} [DecidableEq ι] {i : ι} {l : List ι} {t : ι → BitVec 64}
    (h : i ∈ l ∨ t i = 0) : clear l t i = 0 := by
  induction l generalizing t with
  | nil => exact h.resolve_left nofun
  | cons j l ih =>
    refine ih ?_
    obtain rfl | hne := eq_or_ne i j
    · exact .inr (update_self ..)
    · refine h.imp (fun h => (List.mem_cons.1 h).resolve_left hne) fun h => ?_
      exact (update_of_ne hne _ _).trans h

namespace Memory

/-- The record at `h` is changed. -/
def setHead (m : Memory) (h : BitVec 64) (f : Head → Head) : Memory :=
  { m with head := update m.head h (f (m.head h)) }

/-- A turn of the loop of `buffer_init`, with the variables `h` and `b`. -/
def initTurn (v : BitVec 64 × BitVec 64) : Turns Memory (BitVec 64 ⊕ BitVec 64 × BitVec 64) :=
  let h := v.1
  let b := v.2 - .ofNat 64 blockSize
  if after h ≤ b then do
    Turns.modify fun m => { m.setHead h (·.init h b) with nrBuffers := m.nrBuffers + 1 }
    return .inr (after h, b)
  else return .inl h

/-- `buffer_init`, the three assignments after the loop. -/
def closeRing (m : Memory) (h : BitVec 64) : Memory :=
  let m := { m with freeList := m.startBuffer }
  let m := m.setHead m.freeList fun hd => { hd with bPrevFree := h }
  m.setHead h fun hd => { hd with bNextFree := m.freeList }

/-- `buffer_init`, the loop over `hash_table`. -/
def clearHash (m : Memory) : Memory := { m with hashTable := clear (List.finRange 307) m.hashTable }

/-- `buffer_init()`. -/
def bufferInit (turns : Nat) : Turns Memory Unit := do
  let m ← Turns.get
  let h ← Turns.loop initTurn turns (m.startBuffer, p2v lowMem)
  Turns.modify fun m => (m.closeRing (before h)).clearHash

/-- `&start_buffer[i]`. -/
def buffer (m : Memory) (i : Nat) : BitVec 64 := m.startBuffer + .ofNat 64 (bufferHead.sizeof * i)

/-- The buffer heads, `start_buffer[0]` to `start_buffer[n-1]`. -/
def buffers (m : Memory) (n : Nat) : List (BitVec 64) := (List.range n).map m.buffer

/-- The kernel has been loaded: the linker script has put it from `VIRTUAL_BASE` on, and there is room for
one buffer between its end and `BUFFER_END`. -/
structure Loaded (m : Memory) : Prop where
  kernel : vaKernel ≤ m.startBuffer
  room : m.startBuffer.toNat + (bufferHead.sizeof + blockSize) ≤ (p2v lowMem).toNat
  count : m.nrBuffers = 0

/-- Buffer heads and blocks between the end of the kernel and `BUFFER_END`. -/
abbrev Placement (m : Memory) (n : Nat) : Type :=
  Packing (Packing.sizes bufferHead.sizeof blockSize n) m.startBuffer.toNat (p2v lowMem).toNat

/-- The `n` buffers are laid out: heads and blocks do not overlap, no more of them would fit, and the free
list is a ring of the buffer heads in the order of their addresses. -/
structure Laid (m : Memory) (n : Nat) : Prop where
  count : m.nrBuffers.toInt = n
  pos : 1 ≤ n
  placed : ∃ p : Placement m n, ∀ i, p.start (.inl i) = (m.buffer i).toNat ∧
    p.start (.inr i) = (m.head (m.buffer i)).bData.toNat
  maximal : ∀ k, Nonempty (Placement m k) → k ≤ n
  ascending : (m.buffers n).Pairwise (· < ·)
  first : m.freeList = m.startBuffer
  ring : ∃ last, Doubly (fun a => some (m.head a).bNextFree) (fun a => some (m.head a).bPrevFree)
    last (some m.freeList) (m.buffers n) last (some m.freeList)
  hash : ∀ i, m.hashTable i = 0

variable {m m₀ : Memory} {i j k n : Nat} {h b : BitVec 64} {v : BitVec 64 × BitVec 64}

/-- The number of buffers for which there is room. -/
def fit (m : Memory) : Nat :=
  ((p2v lowMem).toNat - m.startBuffer.toNat) / (bufferHead.sizeof + blockSize)

/-- The block of `start_buffer[i]`. -/
def blockAt (i : Nat) : BitVec 64 := p2v lowMem - .ofNat 64 (blockSize * (i + 1))

/-- The heads follow one another. -/
lemma after_buffer : after (m.buffer i) = m.buffer (i + 1) := by
  rw [after, buffer, buffer, Nat.mul_succ, BitVec.ofNat_add, BitVec.add_assoc]

/-- The head in front of the end of a head is that head. -/
lemma before_buffer : before (m.buffer (i + 1)) = m.buffer i := by
  rw [← after_buffer, before, after, BitVec.add_sub_cancel]

/-- The first head is where the buffers start. -/
lemma buffer_zero : m.buffer 0 = m.startBuffer := BitVec.add_zero _

namespace Loaded

/-- What fits is what there is room for. -/
lemma room_iff (hm : Loaded m) : k ≤ m.fit ↔ m.startBuffer.toNat + k * 1080 ≤ (p2v lowMem).toNat := by
  have hroom := hm.room
  rw [sizeof_bufferHead, blockSize] at hroom
  rw [fit, sizeof_bufferHead, blockSize, Nat.le_div_iff_mul_le (by decide)]
  omega

/-- The pointers to the buffer heads do not wrap round. -/
lemma buffer_toNat (hm : Loaded m) (hi : i ≤ m.fit) : (m.buffer i).toNat = m.startBuffer.toNat + 56 * i := by
  have hroom := hm.room_iff.1 hi
  rw [lowMemory_toNat] at hroom
  rw [buffer, sizeof_bufferHead, BitVec.toNat_add, BitVec.toNat_ofNat]
  omega

/-- Neither do those to the blocks, up to the one for which there is no room. -/
lemma blockAt_toNat (hm : Loaded m) (hi : i ≤ m.fit) :
    (blockAt i).toNat = (p2v lowMem).toNat - 1024 * (i + 1) := by
  have hroom := hm.room_iff.1 hi
  have hkernel : 0xFFFFFFC000000000 ≤ m.startBuffer.toNat := hm.kernel
  rw [lowMemory_toNat] at hroom
  rw [blockAt, blockSize, BitVec.toNat_sub, BitVec.toNat_ofNat, lowMemory_toNat]
  omega

/-- The test of the loop. -/
lemma turn_iff (hm : Loaded m) (hk : k ≤ m.fit) : after (m.buffer k) ≤ blockAt k ↔ k + 1 ≤ m.fit := by
  have hroom := hm.room_iff.1 hk
  have hkernel : 0xFFFFFFC000000000 ≤ m.startBuffer.toNat := hm.kernel
  rw [lowMemory_toNat] at hroom
  rw [BitVec.le_def, after, BitVec.toNat_add, hm.buffer_toNat hk, hm.blockAt_toNat hk, hm.room_iff,
    sizeof_bufferHead, BitVec.toNat_ofNat, lowMemory_toNat]
  omega

/-- Two heads that fit are in different places. -/
lemma buffer_ne (hm : Loaded m) (hi : i ≤ m.fit) (hj : j ≤ m.fit) (h : i ≠ j) : m.buffer i ≠ m.buffer j := by
  intro e
  have he := congrArg BitVec.toNat e
  rw [hm.buffer_toNat hi, hm.buffer_toNat hj] at he
  omega

end Loaded

/-! ## The loop -/

/-- After `k` turns: the first `k` buffer heads are there, and the next ones are `v`. -/
structure Filled (m₀ : Memory) (k : Nat) (v : BitVec 64 × BitVec 64) (m : Memory) : Prop where
  start : m.startBuffer = m₀.startBuffer
  count : m.nrBuffers = .ofNat 32 k
  room : k ≤ m₀.fit
  head : v.1 = m₀.buffer k
  block : v.2 = p2v lowMem - .ofNat 64 (blockSize * k)
  heads : ∀ i < k, ∃ hd : Head, m.head (m₀.buffer i) = hd.init (m₀.buffer i) (blockAt i)

/-- The next block is right below the last one. -/
lemma Filled.nextBlock (h : Filled m₀ k v m) : v.2 - .ofNat 64 blockSize = blockAt k := by
  rw [h.block, blockAt, Nat.mul_succ, BitVec.ofNat_add, BitVec.sub_sub]

/-- A turn with room left. -/
lemma Filled.step (hm : Loaded m₀) (h : Filled m₀ k v m) (hk : k + 1 ≤ m₀.fit) :
    Filled m₀ (k + 1) (m₀.buffer (k + 1), blockAt k)
      { m.setHead (m₀.buffer k) (·.init (m₀.buffer k) (blockAt k)) with nrBuffers := m.nrBuffers + 1 } where
  start := h.start
  count := by
    show m.nrBuffers + 1 = _
    rw [h.count, BitVec.ofNat_add]
    rfl
  room := hk
  head := rfl
  block := rfl
  heads i hi := by
    obtain rfl | hne := eq_or_ne i k
    · exact ⟨_, update_self ..⟩
    · obtain ⟨hd, he⟩ := h.heads i (by omega)
      exact ⟨hd, (update_of_ne (hm.buffer_ne (by omega) h.room hne) _ _).trans he⟩

/-- A turn of the loop. -/
lemma initTurn_spec (hm : Loaded m₀) (h : Filled m₀ k v m) :
    (initTurn v).wp (fun r s' => Sum.elim (fun h' => h' = m₀.buffer k ∧ k = m₀.fit ∧ s' = m)
      (fun v' => k + 1 ≤ m₀.fit ∧ Filled m₀ (k + 1) v' s') r) m := by
  rw [initTurn, h.nextBlock, h.head]
  by_cases hk : k + 1 ≤ m₀.fit
  · rw [if_pos ((hm.turn_iff h.room).2 hk), after_buffer]
    exact Turns.wp_bind (Turns.wp_modify (Turns.wp_pure ⟨hk, h.step hm hk⟩))
  · rw [if_neg (hk ∘ (hm.turn_iff h.room).1)]
    exact Turns.wp_pure ⟨rfl, Nat.le_antisymm h.room (by omega), rfl⟩

/-- A turn of the loop ends. -/
lemma initTurn_ends : (initTurn v).ends m := by
  rw [initTurn]
  split
  · exact Turns.ends_modify Turns.ends_pure
  · exact Turns.ends_pure

/-- Before the first turn. -/
lemma Loaded.filled (hm : Loaded m) : Filled m 0 (m.startBuffer, p2v lowMem) m where
  start := rfl
  count := hm.count
  room := Nat.zero_le _
  head := buffer_zero.symm
  block := (BitVec.sub_zero _).symm
  heads := nofun

/-- The loop ends when there is no room for another buffer. -/
lemma initLoop_spec {turns : Nat} (hm : Loaded m) :
    (Turns.loop initTurn turns (m.startBuffer, p2v lowMem)).wp
      (fun h s => h = m.buffer m.fit ∧ ∃ v, Filled m m.fit v s) m := by
  refine Turns.wp_loop (I := fun v s => ∃ k, Filled m k v s) ?_ ⟨0, hm.filled⟩
  rintro v s ⟨k, h⟩
  refine (initTurn_spec hm h).mono fun r s' hr => ?_
  cases r with
  | inl h' =>
    obtain ⟨hb, hfit, rfl⟩ := hr
    exact ⟨hfit ▸ hb, v, hfit ▸ h⟩
  | inr v' => exact ⟨k + 1, hr.2⟩

/-- The loop ends. -/
lemma initLoop_ends {turns : Nat} (hm : Loaded m) (ht : m.fit < turns) :
    (Turns.loop initTurn turns (m.startBuffer, p2v lowMem)).ends m := by
  refine Turns.ends_loop (I := fun j v s => ∃ k, Filled m k v s ∧ j + k = m.fit)
    (fun _ _ _ _ => initTurn_ends) ?_ ⟨0, hm.filled, Nat.add_zero _⟩ ht
  rintro j v s ⟨k, h, hj⟩
  refine (initTurn_spec hm h).mono fun r s' hr => ?_
  cases r with
  | inl h' => trivial
  | inr v' =>
    obtain ⟨hk, h⟩ := hr
    exact ⟨m.fit - (k + 1), by omega, k + 1, h, by omega⟩

/-! ## The ring -/

variable {κ : Type}

/-- A pointer to buffer `i`, or `NULL`. -/
def pointer (m : Memory) : Option (Fin n) → BitVec 64
  | none => 0
  | some i => m.buffer i

/-- The buffer heads and the queues of `m` are those of `c`, by buffer numbers. -/
structure Represents (m : Memory) (c : Cache n κ) : Prop where
  dev : ∀ i : Fin n, (m.head (m.buffer i)).bDev = c.bDev i
  blocknr : ∀ i : Fin n, (m.head (m.buffer i)).bBlocknr = c.bBlocknr i
  count : ∀ i : Fin n, (m.head (m.buffer i)).bCount = c.bCount i
  uptodate : ∀ i : Fin n, (m.head (m.buffer i)).bUptodate ≠ 0 ↔ (c.drive.flags i).bUptodate
  dirt : ∀ i : Fin n, (m.head (m.buffer i)).bDirt ≠ 0 ↔ (c.drive.flags i).bDirt
  lock : ∀ i : Fin n, (m.head (m.buffer i)).bLock ≠ 0 ↔ (c.drive.flags i).bLock
  prev : ∀ i : Fin n, (m.head (m.buffer i)).bPrev = m.pointer (c.bPrev i)
  next : ∀ i : Fin n, (m.head (m.buffer i)).bNext = m.pointer (c.bNext i)
  prevFree : ∀ i : Fin n, (m.head (m.buffer i)).bPrevFree = m.pointer (c.bPrevFree i)
  nextFree : ∀ i : Fin n, (m.head (m.buffer i)).bNextFree = m.pointer (c.bNextFree i)
  hashTable : ∀ h, m.hashTable h = m.pointer (c.hashTable h)
  freeList : m.freeList = m.pointer c.freeList

/-- Changing a head changes no other one. -/
lemma setHead_head {f : Head → Head} (a : BitVec 64) :
    (m.setHead h f).head a = if a = h then f (m.head a) else m.head a := by
  obtain rfl | hne := eq_or_ne a h
  · rw [if_pos rfl]
    exact update_self ..
  · rw [if_neg hne]
    exact update_of_ne hne _ _

/-- Closing the ring changes the links of its ends. -/
lemma closeRing_head (a : BitVec 64) : (m.closeRing h).head a =
    { m.head a with
      bPrevFree := if a = m.startBuffer then h else (m.head a).bPrevFree
      bNextFree := if a = h then m.startBuffer else (m.head a).bNextFree } := by
  simp only [closeRing, setHead_head]
  split_ifs <;> rfl

/-- The hash queues are cleared. -/
lemma clearHash_hashTable (i : Fin 307) : m.clearHash.hashTable i = 0 := by
  have htable : m.clearHash.hashTable = clear (List.finRange 307) m.hashTable := by rw [clearHash]
  rw [htable, clear_apply (.inl (List.mem_finRange i))]

/-- Clearing the hash queues leaves the heads. -/
lemma clearHash_head : m.clearHash.head = m.head := by
  rw [clearHash]

/-- What `buffer_init` makes of a buffer head. -/
lemma closed_head (hm : Loaded m₀) (hf : Filled m₀ m₀.fit v m) (hn : m₀.fit = n + 1) (i : Fin (n + 1)) :
    ∃ hd : Head, ((m.closeRing (m₀.buffer n)).clearHash).head (m₀.buffer i) =
      { hd.init (m₀.buffer i) (blockAt i) with
        bPrevFree := m₀.buffer (i - 1 : Fin (n + 1))
        bNextFree := m₀.buffer (i + 1 : Fin (n + 1)) } := by
  have hi : i.val ≤ m₀.fit := by omega
  obtain ⟨hd, he⟩ := hf.heads i (by omega)
  have hfirst : m₀.buffer i = m.startBuffer ↔ i = 0 := by
    rw [hf.start, ← buffer_zero]
    refine ⟨fun e => Fin.ext ?_, fun e => by rw [e]; rfl⟩
    by_contra hne
    exact hm.buffer_ne hi (Nat.zero_le _) hne e
  have hlast : m₀.buffer i = m₀.buffer n ↔ i = Fin.last n := by
    refine ⟨fun e => Fin.ext ?_, fun e => by rw [e]; rfl⟩
    by_contra hne
    exact hm.buffer_ne hi (by omega) hne e
  have hprev : (if i = 0 then m₀.buffer n else before (m₀.buffer i)) = m₀.buffer (i - 1 : Fin (n + 1)) := by
    rw [Fin.coe_sub_one]
    split
    · rfl
    · obtain ⟨j, hj⟩ := Nat.exists_eq_succ_of_ne_zero fun e => ‹¬ i = 0› (Fin.ext e)
      rw [hj]
      exact before_buffer
  have hnext : (if i = Fin.last n then m₀.startBuffer else after (m₀.buffer i)) =
      m₀.buffer (i + 1 : Fin (n + 1)) := by
    rw [Fin.val_add_one]
    split
    · exact buffer_zero.symm
    · exact after_buffer
  refine ⟨hd, ?_⟩
  rw [clearHash_head, closeRing_head, he, if_congr hfirst rfl rfl, if_congr hlast rfl rfl, hf.start,
    ← hprev, ← hnext]
  rfl

/-- What `buffer_init` leaves when there is room for `n + 1` buffers. -/
structure Made (n : Nat) (m : Memory) : Prop where
  count : m.nrBuffers = .ofNat 32 (n + 1)
  freeList : m.freeList = m.startBuffer
  hash : ∀ i, m.hashTable i = 0
  heads : ∀ i : Fin (n + 1), ∃ hd : Head, m.head (m.buffer i) =
    { hd.init (m.buffer i) (blockAt i) with
      bPrevFree := m.buffer (i - 1 : Fin (n + 1))
      bNextFree := m.buffer (i + 1 : Fin (n + 1)) }

/-- The places depend on the start only. -/
lemma buffer_congr (h : m.startBuffer = m₀.startBuffer) : m.buffer = m₀.buffer := by
  funext i
  rw [buffer, buffer, h]

/-- One buffer fits at least. -/
lemma fit_pos (hm : Loaded m) : 1 ≤ m.fit := by
  have hroom := hm.room
  rw [sizeof_bufferHead, blockSize] at hroom
  rw [hm.room_iff]
  omega

/-- The count of the buffers fits into an `int`. -/
lemma fit_lt (hm : Loaded m) : m.fit < 4000 := by
  have hroom := hm.room_iff.1 (Nat.le_refl _)
  have hkernel : 0xFFFFFFC000000000 ≤ m.startBuffer.toNat := hm.kernel
  rw [lowMemory_toNat] at hroom
  omega

/-- `buffer_init` makes as many buffers as fit. -/
lemma bufferInit_spec {turns : Nat} (hm : Loaded m) (hn : m.fit = n + 1) :
    (bufferInit turns).wp (fun _ s => s.startBuffer = m.startBuffer ∧ Made n s) m := by
  refine Turns.wp_bind (Turns.wp_get (Turns.wp_bind ((initLoop_spec hm).mono fun h s hs => ?_)))
  obtain ⟨rfl, v, hf⟩ := hs
  rw [hn, before_buffer]
  refine Turns.wp_modify ⟨hf.start, ⟨?_, rfl, clearHash_hashTable, fun i => ?_⟩⟩
  · exact hn ▸ hf.count
  · obtain ⟨hd, he⟩ := closed_head hm hf hn i
    refine ⟨hd, ?_⟩
    rw [show ((s.closeRing (m.buffer n)).clearHash).buffer = m.buffer from buffer_congr hf.start]
    exact he

/-- `buffer_init` ends. -/
lemma bufferInit_ends {turns : Nat} (hm : Loaded m) (ht : m.fit < turns) : (bufferInit turns).ends m :=
  Turns.ends_get (Turns.ends_then (initLoop_ends hm ht) fun _ _ => ⟨(), _, rfl⟩)

namespace Made

/-- By buffer numbers, `buffer_init` leaves what `Buffer.bufferInit` says. -/
lemma represents (h : Made n m) : ∃ c : Cache (n + 1) Unit, m.Represents (Buffer.bufferInit c) := by
  let c : Cache (n + 1) Unit :=
    { bDev := fun _ => 0
      bBlocknr := fun i => (m.head (m.buffer i)).bBlocknr
      bCount := fun _ => 0
      bPrev := fun _ => none
      bNext := fun _ => none
      bPrevFree := fun _ => none
      bNextFree := fun _ => none
      hashTable := fun _ => none
      freeList := none
      drive := ⟨fun _ => ⟨false, false, false⟩, ()⟩ }
  refine ⟨c, ?_⟩
  constructor
  case blocknr => exact fun i => rfl
  case hashTable => exact h.hash
  case freeList => exact h.freeList.trans buffer_zero.symm
  all_goals
    intro i
    obtain ⟨hd, he⟩ := h.heads i
    rw [he]
  case uptodate | dirt | lock => exact ⟨fun h => absurd rfl h, nofun⟩
  all_goals rfl

/-- The free list is the ring of the buffers. -/
lemma ring (h : Made n m) :
    ∃ last, Doubly (fun a => some (m.head a).bNextFree) (fun a => some (m.head a).bPrevFree)
      last (some m.freeList) (m.buffers (n + 1)) last (some m.freeList) := by
  obtain ⟨c, hc⟩ := h.represents
  obtain ⟨last, hl⟩ := (ring_init c).linked
  have hbuffers : m.buffers (n + 1) = (List.finRange (n + 1)).map fun i : Fin (n + 1) => m.buffer i := by
    rw [buffers, ← List.map_coe_finRange_eq_range, List.map_map]
    rfl
  have hfree : some m.freeList = (Buffer.bufferInit c).freeList.map fun i : Fin (n + 1) => m.buffer i :=
    congrArg some hc.freeList
  rw [hbuffers, hfree]
  exact ⟨_, hl.map (fun i _ => congrArg some (hc.nextFree i)) fun i _ => congrArg some (hc.prevFree i)⟩

/-- Heads and blocks stand side by side, from both ends. -/
lemma laid (hm : Loaded m₀) (hn : m₀.fit = n + 1) (hs : m.startBuffer = m₀.startBuffer) (h : Made n m) :
    Laid m (n + 1) where
  count := by
    have hlt := fit_lt hm
    rw [h.count, BitVec.toInt_eq_toNat_of_lt (by rw [BitVec.toNat_ofNat]; omega), BitVec.toNat_ofNat]
    omega
  pos := Nat.succ_pos n
  placed := by
    have hroom := hm.room_iff.1 (Nat.le_of_eq hn.symm)
    rw [← hs] at hroom
    refine ⟨Packing.twoSided (by rw [sizeof_bufferHead, blockSize]; exact hroom), fun i => ⟨?_, ?_⟩⟩
    · rw [buffer_congr hs, hm.buffer_toNat (by omega), ← hs]
      rfl
    · obtain ⟨hd, he⟩ := h.heads i
      rw [he]
      exact (hm.blockAt_toNat (by omega)).symm
  maximal k := by
    rintro ⟨p⟩
    have hp := p.count_le
    have hroom := hm.room
    rw [hs, sizeof_bufferHead, blockSize] at hp
    rw [sizeof_bufferHead, blockSize] at hroom
    rw [← hn, hm.room_iff]
    omega
  ascending := by
    refine List.pairwise_map.2 (List.pairwise_lt_range.imp_of_mem fun {i j} hi hj hij => ?_)
    have hi := List.mem_range.1 hi
    have hj := List.mem_range.1 hj
    rw [buffer_congr hs, BitVec.lt_def, hm.buffer_toNat (by omega), hm.buffer_toNat (by omega)]
    omega
  first := h.freeList
  ring := h.ring
  hash := h.hash

end Made

/-- From a loaded kernel `buffer_init` returns, with all the buffers laid out for which there is room. -/
theorem bufferInit_lays_out (hm : Loaded m) : ∃ t, ∀ turns, t ≤ turns →
    ∃ m' n, (bufferInit turns).run m = .ret (some (), m') ∧ m'.startBuffer = m.startBuffer ∧ Laid m' n := by
  obtain ⟨n, hn⟩ := Nat.exists_eq_succ_of_ne_zero (Nat.pos_iff_ne_zero.1 (fit_pos hm))
  refine ⟨m.fit + 1, fun turns ht => ?_⟩
  obtain ⟨⟨⟩, m', e⟩ := bufferInit_ends hm ht
  obtain ⟨hs, hmade⟩ := bufferInit_spec hm hn _ _ e () rfl
  exact ⟨m', n + 1, e, hs, hmade.laid hm hn hs⟩

/-- A kernel of 128 KiB. -/
def smallKernel : Memory where
  head _ := ⟨0, 0, 0, 0, 0, 0, 0, 0, 0, 0, 0, 0⟩
  startBuffer := 0xFFFFFFC000020000
  hashTable _ := 0
  freeList := 0
  nrBuffers := 0

/-- A small kernel. -/
theorem bufferInit_lays_out_small : smallKernel.Loaded ∧ ∃ t, ∀ turns, t ≤ turns → ∃ m' n,
    (bufferInit turns).run smallKernel = .ret (some (), m') ∧
      m'.startBuffer = smallKernel.startBuffer ∧ Laid m' n := by
  have hm : smallKernel.Loaded := ⟨by decide, by decide, rfl⟩
  exact ⟨hm, bufferInit_lays_out hm⟩

end Memory

end OldLinux.Buffer
