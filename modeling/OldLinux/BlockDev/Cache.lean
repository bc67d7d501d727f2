import OldLinux.Fs.FileDev

/-!
# The buffer cache of one process

`getblk`, `bread` and `brelse` (`fs/buffer.c`) while no other process runs: a request to the disk is done
when `ll_rw_block` returns, and nothing changes while `sync_dev` waits. The data of the buffers lie one behind
the other in memory, as `buffer_init` puts them there, and memory goes on behind the last of them.

`none` is a call that does not return: it panics, or it sleeps on `buffer_wait` for ever. What the devices
contain, in the cache or on the disk, is `contents`; `bread_spec` says that `bread` leaves it as it is.

`insert_into_queues` also stores through the `b_next` of a buffer that is alone in its hash queue. That store, to
an address near 0, is taken to have no effect here; `Buffer/NullLinks` is about it. A block that is in the cache
is found without it.
-/

namespace OldLinux.BlockDev
open Lib Function
open Fs (copyBytes copyBytes_apply)

/-- `struct buffer_head`. -/
structure BufferHead where
  bDev : BitVec 16
  bBlocknr : BitVec 16
  bUptodate : Bool
  bDirt : Bool
  bCount : BitVec 8

/-- The device and the block in a head. -/
def BufferHead.key (bh : BufferHead) : Nat × Nat := (bh.bDev.toNat, bh.bBlocknr.toNat)

/-- The head without its count. -/
def BufferHead.uncounted (bh : BufferHead) : BufferHead := { bh with bCount := 0 }

/-- `n` buffers, the memory, and the disks. The hash queues are one list, with the buffer put in last at the
    front; the free list begins at `free_list`. -/
structure Cache (n : Nat) where
  bufs : Fin n → BufferHead
  hashTable : List (Fin n)
  freeList : List (Fin n)
  mem : Bytes
  bufferEnd : Nat
  disk : Nat × Nat → Bytes

/-- `MAJOR(a)`. -/
def major (a : BitVec 16) : BitVec 16 := a >>> 8

namespace Cache
variable {n : Nat}

/-- Buffer head `b` becomes `bh`. -/
def setBuf (c : Cache n) (b : Fin n) (bh : BufferHead) : Cache n := { c with bufs := update c.bufs b bh }

/-- `bh->b_data`. -/
def bData (c : Cache n) (b : Fin n) : Nat := c.bufferEnd - (b.val + 1) * 1024

/-- `find_buffer(dev,block)`. -/
def findBuffer (c : Cache n) (k : Nat × Nat) : Option (Fin n) :=
  c.hashTable.find? fun tmp => (c.bufs tmp).key = k

/-- `remove_from_queues(bh)`. -/
def removeFromQueues (c : Cache n) (bh : Fin n) : Cache n :=
  { c with hashTable := c.hashTable.erase bh, freeList := c.freeList.erase bh }

/-- `insert_into_queues(bh)`. -/
def insertIntoQueues (c : Cache n) (bh : Fin n) : Cache n :=
  { c with
    freeList := c.freeList ++ [bh]
    hashTable := if (c.bufs bh).bDev = 0 then c.hashTable else bh :: c.hashTable }

/-- `bh->b_count++`. -/
def hold (c : Cache n) (bh : Fin n) : Cache n :=
  c.setBuf bh { c.bufs bh with bCount := (c.bufs bh).bCount + 1 }

/-- `brelse(buf)`. -/
def brelse (c : Cache n) (buf : Fin n) : Option (Cache n) :=
  if (c.bufs buf).bCount = 0 then none
  else some (c.setBuf buf { c.bufs buf with bCount := (c.bufs buf).bCount - 1 })

/-- The block of buffer `bh` is on the disk what it is in the buffer. -/
def clean (c : Cache n) (bh : Fin n) : Cache n :=
  c.setBuf bh { c.bufs bh with bUptodate := true, bDirt := false }

/-- The transfer of `ll_rw_block(READ,bh)`. -/
def readBuf (c : Cache n) (bh : Fin n) : Cache n :=
  { c.clean bh with mem := copyBytes 1024 c.mem (c.bData bh) (c.disk (c.bufs bh).key) 0 }

/-- The transfer of `ll_rw_block(WRITE,bh)`. -/
def writeBuf (c : Cache n) (bh : Fin n) : Cache n :=
  { c.clean bh with
    disk := update c.disk (c.bufs bh).key
      (copyBytes 1024 (c.disk (c.bufs bh).key) 0 c.mem (c.bData bh)) }

variable (reads : Nat × Nat → Bool)

/-- `ll_rw_block(rw,bh)`, with its transfer. The driver does nothing for a block that is not on the disk. -/
def llRwBlock (c : Cache n) (transfer : Cache n → Fin n → Cache n) (bh : Fin n) : Option (Cache n) :=
  if major (c.bufs bh).bDev ≠ 3 then none
  else if reads (c.bufs bh).key then some (transfer c bh)
  else some c

/-- The loop of `sync_dev(dev)` over the buffers. -/
def syncDev (dev : BitVec 16) : List (Fin n) → Cache n → Option (Cache n)
  | [], c => some c
  | bh :: l, c =>
    if (c.bufs bh).bDev = dev ∧ (c.bufs bh).bDirt = true then
      match c.llRwBlock reads writeBuf bh with
      | some c => syncDev dev l c
      | none => none
    else syncDev dev l c

/-- The head of a buffer that `getblk` has taken for a block. -/
def taken (k : Nat × Nat) : BufferHead := ⟨.ofNat 16 k.1, .ofNat 16 k.2, false, false, 1⟩

/-- `getblk(dev,block)`. The block is looked for once more before the buffer is put into the queues; as
    nobody else runs, it is still not there. -/
def getblk (c : Cache n) (k : Nat × Nat) : Option (Fin n × Cache n) :=
  match c.findBuffer k with
  | some bh => some (bh, c.hold bh)
  | none =>
    match c.freeList.find? fun tmp => (c.bufs tmp).bCount = 0 with
    -- nobody wakes up `buffer_wait`
    | none => none
    | some tmp =>
      let c := (c.hold tmp).removeFromQueues tmp
      match if (c.bufs tmp).bDirt then c.syncDev reads (c.bufs tmp).bDev (List.finRange n) else some c with
      | none => none
      | some c => some (tmp, (c.setBuf tmp (taken k)).insertIntoQueues tmp)

/-- `bread(dev,block)`; a block that cannot be read has no buffer. -/
def bread (c : Cache n) (k : Nat × Nat) : Option (Option (Fin n) × Cache n) :=
  match c.getblk reads k with
  | none => none
  | some (bh, c) =>
    if (c.bufs bh).bUptodate then some (some bh, c)
    else
      match c.llRwBlock reads readBuf bh with
      | none => none
      | some c =>
        if (c.bufs bh).bUptodate then some (some bh, c)
        else (c.brelse bh).map fun c => (none, c)

/-! ## What the cache contains -/

/-- What is in block `k`, for all that read it through the cache. -/
def contents (c : Cache n) (k : Nat × Nat) (off : Nat) : BitVec 8 :=
  match c.findBuffer k with
  | some i => if (c.bufs i).bUptodate then c.mem (c.bData i + off) else c.disk k off
  | none => c.disk k off

/-- The cache is in order: there is one buffer at most for a block, what is not dirty is as on the disk, and
    what is dirty can be written. -/
structure WF (c : Cache n) : Prop where
  room : n * 1024 ≤ c.bufferEnd
  nodup : c.hashTable.Nodup
  keys : ∀ i ∈ c.hashTable, ∀ j ∈ c.hashTable, (c.bufs i).key = (c.bufs j).key → i = j
  clean : ∀ i ∈ c.hashTable, (c.bufs i).bUptodate = true → (c.bufs i).bDirt = false →
    ∀ off < 1024, c.mem (c.bData i + off) = c.disk (c.bufs i).key off
  dirty : ∀ i, (c.bufs i).bDirt = true → i ∈ c.hashTable ∧ (c.bufs i).bUptodate = true ∧
    major (c.bufs i).bDev = 3 ∧ reads (c.bufs i).key = true

/-- All blocks contain what they did. -/
def Same (c c' : Cache n) : Prop := ∀ k, ∀ off < 1024, c'.contents k off = c.contents k off

/-- All buffers are on the free list, and one of them is not in use. -/
structure Spare (c : Cache n) : Prop where
  free : ∀ i, i ∈ c.freeList
  unused : ∃ i, (c.bufs i).bCount = 0

variable {reads} {c c' : Cache n} {i j v : Fin n} {k : Nat × Nat} {off : Nat}

/-- Nothing done leaves the contents. -/
lemma Same.refl : Same c c := fun _ _ _ => rfl

/-- Two steps that leave the contents leave them together. -/
lemma Same.trans {c'' : Cache n} (h : Same c c') (h' : Same c' c'') : Same c c'' :=
  fun k off ho => (h' k off ho).trans (h k off ho)

/-- `find_buffer` finds a buffer of the table with the key. -/
lemma mem_of_find (h : c.findBuffer k = some i) : i ∈ c.hashTable ∧ (c.bufs i).key = k :=
  ⟨List.mem_of_find?_eq_some h, by simpa using List.find?_some h⟩

/-- It finds none if the table has none. -/
lemma find_none_iff : c.findBuffer k = none ↔ ∀ i ∈ c.hashTable, (c.bufs i).key ≠ k := by
  rw [findBuffer, List.find?_eq_none]
  simp only [decide_eq_true_eq]

/-- A buffer of the table is found under its key. -/
lemma WF.find (h : c.WF reads) (hi : i ∈ c.hashTable) : c.findBuffer (c.bufs i).key = some i := by
  cases e : c.findBuffer (c.bufs i).key with
  | none => exact absurd rfl (find_none_iff.1 e i hi)
  | some j =>
    obtain ⟨hj, hkey⟩ := mem_of_find e
    rw [h.keys j hj i hi hkey]

/-- The contents of a block with a buffer are in the buffer, once it is up to date. -/
lemma WF.contents_mem {o : Nat} (h : c.WF reads) (hi : i ∈ c.hashTable) : c.contents (c.bufs i).key o =
    if (c.bufs i).bUptodate then c.mem (c.bData i + o) else c.disk (c.bufs i).key o := by
  rw [contents, h.find hi]

/-- Those of any other block are on the disk. -/
lemma contents_of_not (h : ∀ i ∈ c.hashTable, (c.bufs i).key ≠ k) : c.contents k off = c.disk k off := by
  rw [contents, find_none_iff.2 h]

/-- Two caches have the same contents if they do for every block in the queues of either, and for the others
    on the disk. -/
lemma Same.of
    (hmem : ∀ i ∈ c.hashTable, ∀ off < 1024, c'.contents (c.bufs i).key off = c.contents (c.bufs i).key off)
    (hmem' : ∀ i ∈ c'.hashTable, ∀ off < 1024,
      c'.contents (c'.bufs i).key off = c.contents (c'.bufs i).key off)
    (hdisk : ∀ k, (∀ i ∈ c.hashTable, (c.bufs i).key ≠ k) → (∀ i ∈ c'.hashTable, (c'.bufs i).key ≠ k) →
      ∀ off < 1024, c'.disk k off = c.disk k off) : Same c c' := by
  intro k off ho
  by_cases hk : ∃ i ∈ c.hashTable, (c.bufs i).key = k
  · obtain ⟨i, hi, rfl⟩ := hk
    exact hmem i hi off ho
  by_cases hk' : ∃ i ∈ c'.hashTable, (c'.bufs i).key = k
  · obtain ⟨i, hi, rfl⟩ := hk'
    exact hmem' i hi off ho
  · have hn : ∀ i ∈ c.hashTable, (c.bufs i).key ≠ k := fun i hi e => hk ⟨i, hi, e⟩
    have hn' : ∀ i ∈ c'.hashTable, (c'.bufs i).key ≠ k := fun i hi e => hk' ⟨i, hi, e⟩
    rw [contents_of_not hn, contents_of_not hn']
    exact hdisk k hn hn' off ho

/-- The data of two buffers do not overlap. -/
lemma WF.apart (h : c.WF reads) (hij : j ≠ i) {o q : Nat} (ho : o < 1024) (hq : q < 1024) :
    c.bData j + o ≠ c.bData i + q := by
  have hroom := h.room
  have hi := i.isLt
  have hj := j.isLt
  have hne : j.val ≠ i.val := fun e => hij (Fin.ext e)
  have hi' : (i.val + 1) * 1024 ≤ c.bufferEnd := le_trans (Nat.mul_le_mul_right _ hi) hroom
  have hj' : (j.val + 1) * 1024 ≤ c.bufferEnd := le_trans (Nat.mul_le_mul_right _ hj) hroom
  rw [bData, bData]
  omega

/-! ## The steps of `bread` -/

/-- The buffer head that is set. -/
lemma setBuf_self {bh : BufferHead} : (c.setBuf i bh).bufs i = bh := update_self _ _ _

/-- Setting a buffer head leaves the others. -/
lemma setBuf_of_ne {bh : BufferHead} (h : j ≠ i) : (c.setBuf i bh).bufs j = c.bufs j := update_of_ne h _ _

/-- The key of a buffer whose head is changed, but not its block. -/
lemma setBuf_key {bh : BufferHead} (h : bh.key = (c.bufs i).key) : ((c.setBuf i bh).bufs j).key = (c.bufs j).key := by
  obtain rfl | hj := eq_or_ne j i
  · rw [setBuf_self, h]
  · rw [setBuf_of_ne hj]

/-- A buffer that was moved is up to date and clean. -/
lemma clean_self : (c.clean i).bufs i = { c.bufs i with bUptodate := true, bDirt := false } := setBuf_self

/-- The others are as they were. -/
lemma clean_of_ne (h : j ≠ i) : (c.clean i).bufs j = c.bufs j := setBuf_of_ne h

/-- All buffers keep their keys. -/
lemma clean_key : ((c.clean i).bufs j).key = (c.bufs j).key := setBuf_key rfl

/-- Neither the counts nor the free list make a difference. -/
lemma WF.congr (h : c.WF reads) {bufs : Fin n → BufferHead} {l : List (Fin n)}
    (hb : ∀ j, (bufs j).uncounted = (c.bufs j).uncounted) :
    WF reads { c with bufs := bufs, freeList := l } ∧ Same c { c with bufs := bufs, freeList := l } := by
  have hkey : ∀ j, (bufs j).key = (c.bufs j).key := fun j => by
    have e := congrArg BufferHead.key (hb j)
    exact e
  have hup : ∀ j, (bufs j).bUptodate = (c.bufs j).bUptodate := fun j => by
    have e := congrArg BufferHead.bUptodate (hb j)
    exact e
  have hdirt : ∀ j, (bufs j).bDirt = (c.bufs j).bDirt := fun j => by
    have e := congrArg BufferHead.bDirt (hb j)
    exact e
  have hdev : ∀ j, (bufs j).bDev = (c.bufs j).bDev := fun j => by
    have e := congrArg BufferHead.bDev (hb j)
    exact e
  refine ⟨⟨h.room, h.nodup, fun i hi j hj e => ?_, fun i hi hu hd off ho => ?_, fun i hd => ?_⟩, fun k off _ => ?_⟩
  · exact h.keys i hi j hj ((hkey i).symm.trans (e.trans (hkey j)))
  · show c.mem (c.bData i + off) = c.disk (bufs i).key off
    rw [hkey]
    exact h.clean i hi ((hup i).symm.trans hu) ((hdirt i).symm.trans hd) off ho
  · show i ∈ c.hashTable ∧ (bufs i).bUptodate = true ∧ major (bufs i).bDev = 3 ∧ reads (bufs i).key = true
    rw [hup, hdev, hkey]
    exact h.dirty i ((hdirt i).symm.trans hd)
  · have hfind : findBuffer { c with bufs := bufs, freeList := l } k = c.findBuffer k := by
      show c.hashTable.find? (fun tmp => (bufs tmp).key = k) = c.hashTable.find? fun tmp => (c.bufs tmp).key = k
      simp only [hkey]
    rw [contents, contents, hfind]
    cases c.findBuffer k with
    | none => rfl
    | some i =>
      show (if (bufs i).bUptodate then _ else _) = _
      rw [hup]
      rfl

/-- Another head in the same place. -/
lemma WF.recount (h : c.WF reads) (i : Fin n) (m : BitVec 8) :
    WF reads (c.setBuf i { c.bufs i with bCount := m }) ∧ Same c (c.setBuf i { c.bufs i with bCount := m }) := by
  refine h.congr (l := c.freeList) fun j => ?_
  obtain rfl | hj := eq_or_ne j i
  · rw [update_self]
    rfl
  · rw [update_of_ne hj]

/-- A read makes the buffer clean. -/
lemma readBuf_bufs : (c.readBuf i).bufs = (c.clean i).bufs := by rw [readBuf]

/-- A read copies the block from the disk. -/
lemma readBuf_mem : (c.readBuf i).mem = copyBytes 1024 c.mem (c.bData i) (c.disk (c.bufs i).key) 0 := by
  rw [readBuf]

/-- A write makes the buffer clean. -/
lemma writeBuf_bufs : (c.writeBuf i).bufs = (c.clean i).bufs := by rw [writeBuf]

/-- The data of a buffer in memory. -/
lemma copyIn_self (d : Bytes) {a m s : Nat} (src : Bytes) (ho : off < m) :
    copyBytes m d a src s (a + off) = src (s + off) := by
  rw [copyBytes_apply, if_pos (by omega), Nat.add_sub_cancel_left]

/-- Reading a block that is in the queues, but not up to date. -/
lemma readBuf_spec (h : c.WF reads) (hi : i ∈ c.hashTable) (hu : (c.bufs i).bUptodate = false) :
    (c.readBuf i).WF reads ∧ Same c (c.readBuf i) := by
  have hbi : (c.readBuf i).bufs i = { c.bufs i with bUptodate := true, bDirt := false } := by
    rw [readBuf_bufs, clean_self]
  have hbj : ∀ {j}, j ≠ i → (c.readBuf i).bufs j = c.bufs j := fun hj => by
    rw [readBuf_bufs, clean_of_ne hj]
  have hkey : ∀ j, ((c.readBuf i).bufs j).key = (c.bufs j).key := fun _ => by
    rw [readBuf_bufs, clean_key]
  have hself : ∀ off < 1024, (c.readBuf i).mem (c.bData i + off) = c.disk (c.bufs i).key off := by
    intro off ho
    rw [readBuf_mem, copyIn_self _ _ ho, Nat.zero_add]
  have hother : ∀ j, j ≠ i → ∀ off < 1024, (c.readBuf i).mem (c.bData j + off) = c.mem (c.bData j + off) := by
    intro j hj off ho
    rw [readBuf_mem, copyBytes_apply, if_neg]
    rintro ⟨hle, hlt⟩
    exact h.apart hj ho (q := c.bData j + off - c.bData i) (by omega) (by omega)
  have hwf : (c.readBuf i).WF reads := by
    refine ⟨h.room, h.nodup, fun i₁ h₁ i₂ h₂ e => ?_, fun j hj huj hdj off ho => ?_, fun j hdj => ?_⟩
    · rw [hkey, hkey] at e
      exact h.keys i₁ h₁ i₂ h₂ e
    · rw [hkey]
      obtain rfl | hne := eq_or_ne j i
      · exact hself off ho
      · rw [hbj hne] at huj hdj
        exact (hother j hne off ho).trans (h.clean j hj huj hdj off ho)
    · obtain rfl | hne := eq_or_ne j i
      · rw [hbi] at hdj
        cases hdj
      · rw [hbj hne] at hdj ⊢
        exact h.dirty j hdj
  have hmem : ∀ j ∈ c.hashTable, ∀ off < 1024,
      (c.readBuf i).contents (c.bufs j).key off = c.contents (c.bufs j).key off := by
    intro j hj off ho
    have e := hwf.contents_mem (i := j) (o := off) hj
    rw [hkey] at e
    rw [e, h.contents_mem hj]
    obtain rfl | hne := eq_or_ne j i
    · rw [hbi, hu, if_pos rfl, if_neg Bool.false_ne_true]
      exact hself off ho
    · rw [hbj hne]
      split
      · exact hother j hne off ho
      · rfl
  refine ⟨hwf, .of hmem (fun j hj off ho => ?_) fun _ _ _ _ _ => rfl⟩
  rw [hkey]
  exact hmem j hj off ho

/-- Writing out a dirty block. -/
lemma writeBuf_spec (h : c.WF reads) (hd : (c.bufs i).bDirt = true) :
    (c.writeBuf i).WF reads ∧ Same c (c.writeBuf i) := by
  obtain ⟨hi, hu, -, -⟩ := h.dirty i hd
  have hbi : (c.writeBuf i).bufs i = { c.bufs i with bUptodate := true, bDirt := false } := by
    rw [writeBuf_bufs, clean_self]
  have hbj : ∀ {j}, j ≠ i → (c.writeBuf i).bufs j = c.bufs j := fun hj => by
    rw [writeBuf_bufs, clean_of_ne hj]
  have hkey : ∀ j, ((c.writeBuf i).bufs j).key = (c.bufs j).key := fun _ => by
    rw [writeBuf_bufs, clean_key]
  have hself : ∀ off < 1024, (c.writeBuf i).disk (c.bufs i).key off = c.mem (c.bData i + off) := by
    intro off ho
    have hd : (c.writeBuf i).disk (c.bufs i).key =
      copyBytes 1024 (c.disk (c.bufs i).key) 0 c.mem (c.bData i) := update_self _ _ _
    rw [hd, copyBytes_apply, if_pos ⟨Nat.zero_le _, by omega⟩, Nat.sub_zero]
  have hother : ∀ k, k ≠ (c.bufs i).key → (c.writeBuf i).disk k = c.disk k := fun k hk => update_of_ne hk _ _
  have hne : ∀ {j}, j ∈ c.hashTable → j ≠ i → (c.bufs j).key ≠ (c.bufs i).key :=
    fun hj hji e => hji (h.keys _ hj i hi e)
  have hwf : (c.writeBuf i).WF reads := by
    refine ⟨h.room, h.nodup, fun i₁ h₁ i₂ h₂ e => ?_, fun j hj huj hdj off ho => ?_, fun j hdj => ?_⟩
    · rw [hkey, hkey] at e
      exact h.keys i₁ h₁ i₂ h₂ e
    · rw [hkey]
      obtain rfl | hji := eq_or_ne j i
      · exact (hself off ho).symm
      · rw [hbj hji] at huj hdj
        rw [hother _ (hne hj hji)]
        exact h.clean j hj huj hdj off ho
    · obtain rfl | hji := eq_or_ne j i
      · rw [hbi] at hdj
        cases hdj
      · rw [hbj hji] at hdj ⊢
        exact h.dirty j hdj
  have hmem : ∀ j ∈ c.hashTable, ∀ off < 1024,
      (c.writeBuf i).contents (c.bufs j).key off = c.contents (c.bufs j).key off := by
    intro j hj off ho
    have e := hwf.contents_mem (i := j) (o := off) hj
    rw [hkey] at e
    rw [e, h.contents_mem hj]
    obtain rfl | hji := eq_or_ne j i
    · rw [hbi, hu]
      rfl
    · rw [hbj hji, hother _ (hne hj hji)]
      rfl
  refine ⟨hwf, .of hmem (fun j hj off ho => ?_) fun k hk _ off _ => ?_⟩
  · rw [hkey]
    exact hmem j hj off ho
  · rw [hother k fun e => hk i hi e.symm]

/-- A buffer that is not dirty is taken off the queues. -/
lemma remove_spec (h : c.WF reads) (hd : (c.bufs v).bDirt = false) :
    (c.removeFromQueues v).WF reads ∧ Same c (c.removeFromQueues v) := by
  have hsub : ∀ {j}, j ∈ c.hashTable.erase v → j ∈ c.hashTable := fun hj => List.mem_of_mem_erase hj
  have hwf : (c.removeFromQueues v).WF reads := by
    refine ⟨h.room, h.nodup.erase v, fun i hi j hj e => h.keys i (hsub hi) j (hsub hj) e,
      fun j hj => h.clean j (hsub hj), fun j hdj => ?_⟩
    obtain ⟨hj, hrest⟩ := h.dirty j hdj
    refine ⟨(List.mem_erase_of_ne fun e => ?_).2 hj, hrest⟩
    subst e
    have hdj : (c.bufs j).bDirt = true := hdj
    rw [hd] at hdj
    cases hdj
  have hmem : ∀ j ∈ c.hashTable, ∀ off < 1024,
      (c.removeFromQueues v).contents (c.bufs j).key off = c.contents (c.bufs j).key off := by
    intro j hj off ho
    rw [h.contents_mem hj]
    obtain rfl | hne := eq_or_ne j v
    · have hn : ∀ i ∈ (c.removeFromQueues j).hashTable, ((c.removeFromQueues j).bufs i).key ≠ (c.bufs j).key := by
        intro i hi e
        rw [h.keys i (hsub hi) j hj e] at hi
        exact h.nodup.not_mem_erase hi
      rw [contents_of_not hn]
      split
      · rename_i hu
        exact (h.clean j hj hu hd off ho).symm
      · rfl
    · exact hwf.contents_mem ((List.mem_erase_of_ne hne).2 hj)
  exact ⟨hwf, .of hmem (fun j hj => hmem j (hsub hj)) fun _ _ _ _ _ => rfl⟩

/-- A buffer that was taken for a block has its key. -/
lemma taken_key (h₁ : k.1 < 65536) (h₂ : k.2 < 65536) : (taken k).key = k := by
  refine Prod.ext ?_ ?_
  · show (BitVec.ofNat 16 k.1).toNat = k.1
    rw [BitVec.toNat_ofNat]
    exact Nat.mod_eq_of_lt h₁
  · show (BitVec.ofNat 16 k.2).toNat = k.2
    rw [BitVec.toNat_ofNat]
    exact Nat.mod_eq_of_lt h₂

/-- A buffer off the queues is put in for a block that is in none. -/
lemma install_spec (h : c.WF reads) (hv : v ∉ c.hashTable) (hk : c.findBuffer k = none) (h₀ : k.1 ≠ 0)
    (h₁ : k.1 < 65536) (h₂ : k.2 < 65536) :
    WF reads ((c.setBuf v (taken k)).insertIntoQueues v) ∧
      Same c ((c.setBuf v (taken k)).insertIntoQueues v) ∧
      ((c.setBuf v (taken k)).insertIntoQueues v).hashTable = v :: c.hashTable := by
  have hq : ((c.setBuf v (taken k)).insertIntoQueues v).hashTable = v :: c.hashTable := by
    have hdev : (taken k).bDev ≠ 0 := by
      intro e
      have e : (BitVec.ofNat 16 k.1).toNat = 0 := congrArg BitVec.toNat e
      rw [BitVec.toNat_ofNat, Nat.mod_eq_of_lt h₁] at e
      exact h₀ e
    show (if ((c.setBuf v (taken k)).bufs v).bDev = 0 then _ else _) = _
    rw [setBuf_self, if_neg hdev]
    rfl
  generalize hc' : (c.setBuf v (taken k)).insertIntoQueues v = c' at hq ⊢
  have hbv : c'.bufs v = taken k := by
    rw [← hc']
    exact setBuf_self
  have hbj : ∀ {j}, j ≠ v → c'.bufs j = c.bufs j := by
    intro j hj
    rw [← hc']
    exact setBuf_of_ne hj
  have hmem : c'.mem = c.mem := by rw [← hc']; rfl
  have hdisk : c'.disk = c.disk := by rw [← hc']; rfl
  have hend : c'.bufferEnd = c.bufferEnd := by rw [← hc']; rfl
  have hdata : ∀ j, c'.bData j = c.bData j := fun j => by rw [bData, bData, hend]
  have hne : ∀ {j}, j ∈ c.hashTable → j ≠ v := fun hj e => hv (e ▸ hj)
  have hkn := find_none_iff.1 hk
  have hkey : (c'.bufs v).key = k := by rw [hbv, taken_key h₁ h₂]
  have hwf : c'.WF reads := by
    refine ⟨hend ▸ h.room, ?_, fun i hi j hj e => ?_, fun j hj hu hd off ho => ?_, fun j hd => ?_⟩
    · rw [hq]
      exact List.nodup_cons.2 ⟨hv, h.nodup⟩
    · rw [hq, List.mem_cons] at hi hj
      obtain rfl | hi := hi
      · obtain rfl | hj := hj
        · rfl
        · rw [hkey, hbj (hne hj)] at e
          exact absurd e.symm (hkn j hj)
      · obtain rfl | hj := hj
        · rw [hkey, hbj (hne hi)] at e
          exact absurd e (hkn i hi)
        · rw [hbj (hne hi), hbj (hne hj)] at e
          exact h.keys i hi j hj e
    · obtain rfl | hjv := eq_or_ne j v
      · rw [hbv] at hu
        cases hu
      · rw [hq, List.mem_cons] at hj
        rw [hbj hjv] at hu hd ⊢
        rw [hmem, hdata, hdisk]
        exact h.clean j (hj.resolve_left hjv) hu hd off ho
    · obtain rfl | hjv := eq_or_ne j v
      · rw [hbv] at hd
        cases hd
      · rw [hbj hjv] at hd ⊢
        obtain ⟨hj, hrest⟩ := h.dirty j hd
        rw [hq]
        exact ⟨List.mem_cons_of_mem _ hj, hrest⟩
  have hold : ∀ j ∈ c.hashTable, ∀ off < 1024, c'.contents (c.bufs j).key off = c.contents (c.bufs j).key off := by
    intro j hj off _
    have e := hwf.contents_mem (i := j) (o := off) (hq ▸ List.mem_cons_of_mem _ hj)
    rw [hbj (hne hj), hmem, hdata, hdisk] at e
    rw [e, h.contents_mem hj]
  refine ⟨hwf, .of hold (fun j hj off ho => ?_) fun k _ _ off _ => by rw [hdisk], hq⟩
  rw [hq, List.mem_cons] at hj
  obtain rfl | hj := hj
  · rw [hwf.contents_mem (hq ▸ List.mem_cons_self), hkey, contents_of_not hkn, hbv, hdisk]
    rfl
  · rw [hbj (hne hj)]
    exact hold j hj off ho

/-! ## Writing out a device -/

/-- What `sync_dev` leaves as it is. -/
structure Synced (c c' : Cache n) : Prop where
  bufs : ∀ i, (c'.bufs i).key = (c.bufs i).key ∧ (c'.bufs i).bDev = (c.bufs i).bDev ∧
    (c'.bufs i).bCount = (c.bufs i).bCount ∧ ((c.bufs i).bDirt = false → (c'.bufs i).bDirt = false)
  hashTable : c'.hashTable = c.hashTable
  freeList : c'.freeList = c.freeList
  bufferEnd : c'.bufferEnd = c.bufferEnd

/-- Nothing done synchronises nothing. -/
lemma Synced.refl : Synced c c := ⟨fun _ => ⟨rfl, rfl, rfl, id⟩, rfl, rfl, rfl⟩

/-- Two writings back are one. -/
lemma Synced.trans {c'' : Cache n} (h : Synced c c') (h' : Synced c' c'') : Synced c c'' where
  bufs i := by
    obtain ⟨h₁, h₂, h₃, h₄⟩ := h.bufs i
    obtain ⟨h₁', h₂', h₃', h₄'⟩ := h'.bufs i
    exact ⟨h₁'.trans h₁, h₂'.trans h₂, h₃'.trans h₃, h₄' ∘ h₄⟩
  hashTable := h'.hashTable.trans h.hashTable
  freeList := h'.freeList.trans h.freeList
  bufferEnd := h'.bufferEnd.trans h.bufferEnd

/-- Writing a buffer back is synchronising. -/
lemma writeBuf_synced : Synced c (c.writeBuf i) := by
  refine ⟨fun j => ?_, by rw [writeBuf]; rfl, by rw [writeBuf]; rfl, by rw [writeBuf]; rfl⟩
  rw [writeBuf_bufs]
  obtain rfl | hj := eq_or_ne j i
  · rw [clean_self]
    exact ⟨rfl, rfl, rfl, fun _ => rfl⟩
  · rw [clean_of_ne hj]
    exact ⟨rfl, rfl, rfl, id⟩

/-- `sync_dev` returns, and afterwards nothing of the device is dirty. -/
lemma syncDev_spec (dev : BitVec 16) : ∀ (l : List (Fin n)) {c : Cache n}, c.WF reads →
    ∃ c', c.syncDev reads dev l = some c' ∧ c'.WF reads ∧ Same c c' ∧ Synced c c' ∧
      ∀ i ∈ l, (c.bufs i).bDev = dev → (c'.bufs i).bDirt = false
  | [], c, h => ⟨c, rfl, h, .refl, .refl, nofun⟩
  | i :: l, c, h => by
    rw [syncDev]
    by_cases hi : (c.bufs i).bDev = dev ∧ (c.bufs i).bDirt = true
    · obtain ⟨-, -, hmaj, hr⟩ := h.dirty i hi.2
      have hrw : c.llRwBlock reads writeBuf i = some (c.writeBuf i) := by
        rw [llRwBlock, if_neg (not_not.2 hmaj), if_pos hr]
      obtain ⟨hwf, hsame⟩ := writeBuf_spec h hi.2
      obtain ⟨c', e, hwf', hsame', hsync, hclean⟩ := syncDev_spec dev l hwf
      rw [if_pos hi, hrw]
      refine ⟨c', e, hwf', hsame.trans hsame', writeBuf_synced.trans hsync, fun j hj hdev => ?_⟩
      have hdirt : ((c.writeBuf i).bufs i).bDirt = false := by rw [writeBuf_bufs, clean_self]
      obtain rfl | hj := List.mem_cons.1 hj
      · exact (hsync.bufs j).2.2.2 hdirt
      · exact hclean j hj ((writeBuf_synced.bufs j).2.1.trans hdev)
    · obtain ⟨c', e, hwf', hsame', hsync, hclean⟩ := syncDev_spec dev l h
      rw [if_neg hi]
      refine ⟨c', e, hwf', hsame', hsync, fun j hj hdev => ?_⟩
      obtain rfl | hj := List.mem_cons.1 hj
      · exact (hsync.bufs j).2.2.2 (Bool.eq_false_iff.2 fun hd => hi ⟨hdev, hd⟩)
      · exact hclean j hj hdev

/-- `sync_dev` does not look at the queues. -/
lemma syncDev_queues {dev : BitVec 16} {q f : List (Fin n)} : ∀ (l : List (Fin n)) {c : Cache n},
    syncDev reads dev l { c with hashTable := q, freeList := f } =
      (c.syncDev reads dev l).map fun c => { c with hashTable := q, freeList := f }
  | [], _ => rfl
  | i :: l, c => by
    rw [syncDev, syncDev, llRwBlock, llRwBlock]
    dsimp only
    by_cases hi : (c.bufs i).bDev = dev ∧ (c.bufs i).bDirt = true
    · rw [if_pos hi, if_pos hi]
      by_cases hmaj : major (c.bufs i).bDev ≠ 3
      · rw [if_pos hmaj, if_pos hmaj]
        rfl
      · rw [if_neg hmaj, if_neg hmaj]
        by_cases hr : reads (c.bufs i).key = true
        · rw [if_pos hr, if_pos hr]
          exact syncDev_queues l (c := c.writeBuf i)
        · rw [if_neg hr, if_neg hr]
          exact syncDev_queues l
    · rw [if_neg hi, if_neg hi]
      exact syncDev_queues l

/-! ## `getblk` and `bread` -/

/-- Buffer `i` has been got for block `k`. -/
structure Got (reads : Nat × Nat → Bool) (c c' : Cache n) (k : Nat × Nat) (i : Fin n) : Prop where
  wf : c'.WF reads
  same : Same c c'
  mem : i ∈ c'.hashTable
  key : (c'.bufs i).key = k
  old : ∀ j ∈ c'.hashTable, j ≠ i → j ∈ c.hashTable ∧ (c'.bufs j).key = (c.bufs j).key
  counts : ∀ j, (c'.bufs j).bCount = (c.bufs j).bCount + if j = i then 1 else 0
  found : (c.bufs i).bCount ≠ 0 → c.findBuffer k = some i
  free : ∀ j, j ∈ c'.freeList

/-- The victim is saved, if it has to be. -/
lemma saved_spec (h : c.WF reads) : ∃ c', c'.WF reads ∧ Same c c' ∧ Synced c c' ∧ (c'.bufs v).bDirt = false ∧
    (if ((c.removeFromQueues v).bufs v).bDirt then
      (c.removeFromQueues v).syncDev reads ((c.removeFromQueues v).bufs v).bDev (List.finRange n)
      else some (c.removeFromQueues v)) = some (c'.removeFromQueues v) := by
  have hb : (c.removeFromQueues v).bufs = c.bufs := rfl
  rw [hb]
  by_cases hd : (c.bufs v).bDirt = true
  · obtain ⟨c', e, hwf, hsame, hsync, hclean⟩ := syncDev_spec (c.bufs v).bDev (List.finRange n) h
    refine ⟨c', hwf, hsame, hsync, hclean v (List.mem_finRange v) rfl, ?_⟩
    rw [if_pos hd, removeFromQueues, syncDev_queues, e, removeFromQueues, hsync.hashTable, hsync.freeList]
    rfl
  · exact ⟨c, h, .refl, .refl, Bool.eq_false_iff.2 hd, if_neg hd⟩

/-- With a spare buffer `getblk` returns one for the block. -/
lemma getblk_spec (h : c.WF reads) (hs : c.Spare) (h₀ : k.1 ≠ 0) (h₁ : k.1 < 65536) (h₂ : k.2 < 65536) :
    ∃ i c', c.getblk reads k = some (i, c') ∧ Got reads c c' k i := by
  rw [getblk]
  cases hf : c.findBuffer k with
  | some i =>
    obtain ⟨hi, rfl⟩ := mem_of_find hf
    obtain ⟨hwf, hsame⟩ := h.recount i ((c.bufs i).bCount + 1)
    refine ⟨i, c.hold i, rfl, hwf, hsame, hi, setBuf_key rfl, fun j hj _ => ⟨hj, setBuf_key rfl⟩, fun j => ?_,
      fun _ => hf, hs.free⟩
    obtain rfl | hj := eq_or_ne j i
    · rw [if_pos rfl, hold, setBuf_self]
    · rw [if_neg hj, hold, setBuf_of_ne hj, add_zero]
  | none =>
    obtain ⟨u, hu⟩ := hs.unused
    cases hv : c.freeList.find? fun tmp => (c.bufs tmp).bCount = 0 with
    | none => exact absurd hu (by simpa using List.find?_eq_none.1 hv u (hs.free u))
    | some v =>
      have hv0 : (c.bufs v).bCount = 0 := by simpa using List.find?_some hv
      obtain ⟨hwf₀, hsame₀⟩ := h.recount v ((c.bufs v).bCount + 1)
      obtain ⟨c₂, hwf₂, hsame₂, hsync, hclean, e⟩ := saved_spec (v := v) (c := c.hold v) hwf₀
      obtain ⟨hwf₃, hsame₃⟩ := remove_spec hwf₂ hclean
      have hkey : ∀ j, (c₂.bufs j).key = (c.bufs j).key := fun j => (hsync.bufs j).1.trans (setBuf_key rfl)
      have hfind : (c₂.removeFromQueues v).findBuffer k = none := by
        refine find_none_iff.2 fun j hj e => find_none_iff.1 hf j ?_ ((hkey j).symm.trans e)
        have hj : j ∈ c₂.hashTable := List.mem_of_mem_erase hj
        rw [hsync.hashTable] at hj
        exact hj
      have hvq : v ∉ (c₂.removeFromQueues v).hashTable := hwf₂.nodup.not_mem_erase
      obtain ⟨hwf₄, hsame₄, hq⟩ := install_spec hwf₃ hvq hfind h₀ h₁ h₂
      refine ⟨v, _, by dsimp only; rw [e], hwf₄, ((hsame₀.trans hsame₂).trans hsame₃).trans hsame₄, ?_, ?_,
        fun j hj hne => ?_, fun j => ?_, fun hne => absurd hv0 hne, fun j => ?_⟩
      · rw [hq]
        exact List.mem_cons_self
      · have hb : (((c₂.removeFromQueues v).setBuf v (taken k)).insertIntoQueues v).bufs v = taken k := setBuf_self
        rw [hb, taken_key h₁ h₂]
      · rw [hq] at hj
        have hj₂ : j ∈ c₂.hashTable := List.mem_of_mem_erase ((List.mem_cons.1 hj).resolve_left hne)
        rw [hsync.hashTable] at hj₂
        have hb : (((c₂.removeFromQueues v).setBuf v (taken k)).insertIntoQueues v).bufs j = c₂.bufs j :=
          setBuf_of_ne hne
        exact ⟨hj₂, by rw [hb, hkey]⟩
      · obtain rfl | hj := eq_or_ne j v
        · have hb : (((c₂.removeFromQueues j).setBuf j (taken k)).insertIntoQueues j).bufs j = taken k := setBuf_self
          rw [hb, if_pos rfl, hv0]
          rfl
        · have hb : (((c₂.removeFromQueues v).setBuf v (taken k)).insertIntoQueues v).bufs j = c₂.bufs j :=
            setBuf_of_ne hj
          rw [hb, if_neg hj, (hsync.bufs j).2.2.1, hold, setBuf_of_ne hj, add_zero]
      · show j ∈ c₂.freeList.erase v ++ [v]
        obtain rfl | hj := eq_or_ne j v
        · exact List.mem_append_right _ List.mem_cons_self
        · refine List.mem_append_left _ ((List.mem_erase_of_ne hj).2 ?_)
          rw [hsync.freeList]
          exact hs.free j

/-- `bread` of a block that can be read returns its buffer, with its contents. -/
lemma bread_spec (h : c.WF reads) (hs : c.Spare) (hmaj : k.1 / 256 = 3) (h₂ : k.2 < 65536) (hr : reads k = true) :
    ∃ i c', c.bread reads k = some (some i, c') ∧ Got reads c c' k i ∧ (c'.bufs i).bUptodate = true := by
  obtain ⟨i, c₁, e, hg⟩ := getblk_spec (k := k) h hs (by omega) (by omega) h₂
  rw [bread, e]
  by_cases hu : (c₁.bufs i).bUptodate = true
  · exact ⟨i, c₁, if_pos hu, hg, hu⟩
  have hu' := Bool.eq_false_iff.2 hu
  have hm : major (c₁.bufs i).bDev = 3 := by
    have hdev : (c₁.bufs i).bDev.toNat = k.1 := congrArg Prod.fst hg.key
    apply BitVec.eq_of_toNat_eq
    rw [major, BitVec.toNat_ushiftRight, hdev, Nat.shiftRight_eq_div_pow]
    exact hmaj
  have hrw : c₁.llRwBlock reads readBuf i = some (c₁.readBuf i) := by
    rw [llRwBlock, if_neg (not_not.2 hm), hg.key, if_pos hr]
  obtain ⟨hwf, hsame⟩ := readBuf_spec hg.wf hg.mem hu'
  have hup : ((c₁.readBuf i).bufs i).bUptodate = true := by rw [readBuf_bufs, clean_self]
  refine ⟨i, c₁.readBuf i, ?_,
    ⟨hwf, hg.same.trans hsame, hg.mem, ?_, fun j hj hne => ?_, fun j => ?_, hg.found, hg.free⟩, hup⟩
  · dsimp only
    rw [if_neg hu, hrw]
    exact if_pos hup
  · rw [readBuf_bufs, clean_key, hg.key]
  · rw [readBuf_bufs, clean_key]
    exact hg.old j hj hne
  · rw [readBuf_bufs, ← hg.counts j]
    obtain rfl | hj := eq_or_ne j i
    · rw [clean_self]
    · rw [clean_of_ne hj]

/-! ## What `bread` does to any cache -/

variable {r : Option (Fin n)} {k' : Nat × Nat}

/-- No buffer has a block whose number needs more than 16 bits. -/
lemma contents_big (hk : 65536 ≤ k.2) : c.contents k off = c.disk k off := by
  refine contents_of_not fun i _ e => ?_
  have hlt : (c.bufs i).key.2 < 65536 := (c.bufs i).bBlocknr.isLt
  rw [e] at hlt
  omega

/-- A write goes to no block above 65535. -/
lemma writeBuf_disk (hk : 65536 ≤ k.2) : (c.writeBuf i).disk k = c.disk k := by
  refine update_of_ne (fun e => ?_) _ _
  have hlt : (c.bufs i).key.2 < 65536 := (c.bufs i).bBlocknr.isLt
  rw [← e] at hlt
  omega

/-- Nor is such a block written to. -/
lemma syncDev_disk {dev : BitVec 16} (hk : 65536 ≤ k.2) : ∀ {l : List (Fin n)} {c : Cache n},
    c.syncDev reads dev l = some c' → c'.disk k = c.disk k
  | [], c, e => by
    cases e
    rfl
  | i :: l, c, e => by
    rw [syncDev, llRwBlock] at e
    split at e
    · split at e
      · rename_i c₁ h₁
        split at h₁
        · cases h₁
        · split at h₁
          · cases h₁
            exact (syncDev_disk hk e).trans (writeBuf_disk hk)
          · cases h₁
            exact syncDev_disk hk e
      · cases e
    · exact syncDev_disk hk e

/-- Nor does `getblk`. -/
lemma getblk_disk (hk : 65536 ≤ k'.2) (e : c.getblk reads k = some (i, c')) : c'.disk k' = c.disk k' := by
  rw [getblk] at e
  split at e
  · cases e
    rfl
  · split at e
    · cases e
    · dsimp only at e
      split at e
      · cases e
      · rename_i c₁ h₁
        cases e
        split at h₁
        · exact (syncDev_disk hk h₁ :)
        · cases h₁
          rfl

/-- `brelse` leaves the disk. -/
lemma brelse_disk (e : c.brelse i = some c') : c'.disk = c.disk := by
  rw [brelse] at e
  split at e
  · cases e
  · cases e
    rfl

/-- `bread` writes to no block above 65535. -/
lemma bread_disk (hk : 65536 ≤ k'.2) (e : c.bread reads k = some (r, c')) : c'.disk k' = c.disk k' := by
  rw [bread] at e
  split at e
  · cases e
  · rename_i i c₁ h₁
    have hd := getblk_disk hk h₁
    split at e
    · cases e
      exact hd
    · rw [llRwBlock] at e
      split at e
      · cases e
      · rename_i c₂ h₂
        have hd₂ : c₂.disk k' = c₁.disk k' := by
          split at h₂
          · cases h₂
          · split at h₂
            · cases h₂
              rfl
            · cases h₂
              rfl
        split at e
        · cases e
          exact hd₂.trans hd
        · rw [Option.map_eq_some_iff] at e
          obtain ⟨c₃, h₃, e⟩ := e
          cases e
          rw [brelse_disk h₃]
          exact hd₂.trans hd

/-- A buffer that comes from `getblk` up to date was in the cache. -/
lemma getblk_uptodate (e : c.getblk reads k = some (i, c')) (hu : (c'.bufs i).bUptodate = true) :
    c.findBuffer k = some i ∧ c' = c.hold i := by
  rw [getblk] at e
  split at e
  · rename_i hf
    cases e
    exact ⟨hf, rfl⟩
  · split at e
    · cases e
    · dsimp only at e
      split at e
      · cases e
      · rename_i v _ c₁ _
        cases e
        have hb : ((c₁.setBuf i (taken k)).insertIntoQueues i).bufs i = taken k := setBuf_self
        rw [hb] at hu
        cases hu

/-- A buffer that comes from `bread` dirty was dirty in the cache. -/
lemma bread_dirt (e : c.bread reads k = some (some i, c')) (hd : (c'.bufs i).bDirt = true) :
    c.findBuffer k = some i ∧ c' = c.hold i ∧ (c.bufs i).bUptodate = true ∧ (c.bufs i).bDirt = true := by
  rw [bread] at e
  split at e
  · cases e
  · rename_i j c₁ h₁
    split at e
    · rename_i hu
      cases e
      obtain ⟨hf, rfl⟩ := getblk_uptodate h₁ hu
      rw [hold, setBuf_self] at hu hd
      exact ⟨hf, rfl, hu, hd⟩
    · rename_i hu
      rw [llRwBlock] at e
      split at e
      · cases e
      · rename_i c₂ h₂
        split at h₂
        · cases h₂
        · split at h₂
          · cases h₂
            split at e
            · cases e
              rw [readBuf_bufs, clean_self] at hd
              cases hd
            · rw [Option.map_eq_some_iff] at e
              obtain ⟨_, _, h₃⟩ := e
              cases h₃
          · cases h₂
            rw [if_neg hu, Option.map_eq_some_iff] at e
            obtain ⟨_, _, h₃⟩ := e
            cases h₃

/-- `bread` of a block in the cache. -/
lemma bread_hit (hf : c.findBuffer k = some i) (hu : (c.bufs i).bUptodate = true) :
    c.bread reads k = some (some i, c.hold i) := by
  have hb : ((c.hold i).bufs i).bUptodate = true := by
    rw [hold, setBuf_self]
    exact hu
  rw [bread, getblk, hf]
  exact if_pos hb

end Cache

end OldLinux.BlockDev
