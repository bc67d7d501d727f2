import OldLinux.BlockDev.Transfer
import OldLinux.Fs.DiskFormat

/-!
# Writing everything out

`sys_sync` (`fs/buffer.c`) with `sync_inodes` and `write_inode` (`fs/inode.c`), on the cache of one process.
The inodes in memory and the super blocks are the bytes of their structures, laid out as in `Fs/DiskFormat`;
the record of an inode on the disk is the beginning of the inode in memory.

`none` is a call that does not return. Nobody else runs, so that a wait for a locked inode has no end.
-/

namespace OldLinux.BlockDev
open Lib Function
open Lib.Bytes (load store load_store_self load_store_of_disjoint store_of_not_mem)
open Fs (mInode dInode MMember inodeBlock inodeRecord iNum copyBytes copyBytes_apply)

/-- A member of an inode. -/
def iGet (m : MMember) (inode : Bytes) : Nat :=
  (load (mInode.type m).size inode (mInode.offset m)).toNat

/-- A member of an inode is set. -/
def iPut (m : MMember) (v : Nat) (inode : Bytes) : Bytes :=
  store inode (mInode.offset m) (BitVec.ofNat (8 * (mInode.type m).size) v)

/-- The cache, with `inode_table` and `super_block`. -/
structure SyncState (n : Nat) where
  inodeTable : Fin 32 → Bytes
  superBlock : Fin 8 → Bytes
  cache : Cache n

namespace Cache
variable {n : Nat} (reads : Nat × Nat → Bool)

/-- The loop of `sys_sync` over the buffers. -/
def flush : List (Fin n) → Cache n → Option (Cache n)
  | [], c => some c
  | bh :: l, c =>
    if (c.bufs bh).bDirt = true then
      match c.llRwBlock reads writeBuf bh with
      | some c => flush l c
      | none => none
    else flush l c

end Cache

namespace SyncState
variable {n : Nat} (reads : Nat × Nat → Bool)

/-- Inode `i` of the table is changed. -/
def setInode (s : SyncState n) (i : Fin 32) (inode : Bytes) : SyncState n :=
  { s with inodeTable := update s.inodeTable i inode }

/-- `get_super(dev)`. -/
def getSuper (s : SyncState n) (dev : Nat) : Option (Fin 8) :=
  (List.finRange 8).find? fun p => (load 2 (s.superBlock p) (Fs.superBlock.offset .sDev)).toNat = dev

/-- `lock_inode(inode)`. -/
def lockInode (s : SyncState n) (i : Fin 32) : Option (SyncState n) :=
  if iGet .iLock (s.inodeTable i) ≠ 0 then none else some (s.setInode i (iPut .iLock 1 (s.inodeTable i)))

/-- `unlock_inode(inode)`. -/
def unlockInode (s : SyncState n) (i : Fin 32) : SyncState n := s.setInode i (iPut .iLock 0 (s.inodeTable i))

/-- `write_inode(inode)`. -/
def writeInode (s : SyncState n) (i : Fin 32) : Option (SyncState n) := do
  let s ← s.lockInode i
  let inode := s.inodeTable i
  let sb ← s.getSuper (iGet .iDev inode)
  let (bh, c) ← s.cache.bread reads (iGet .iDev inode, inodeBlock (s.superBlock sb) inode)
  -- without a buffer: "unable to read i-node block"
  let bh ← bh
  let mem := copyBytes dInode.sizeof c.mem (c.bData bh + inodeRecord inode) inode 0
  let c := Cache.setBuf { c with mem := mem } bh { c.bufs bh with bDirt := true }
  let s := s.setInode i (iPut .iDirt 0 inode)
  let c ← c.brelse bh
  return { s with cache := c }.unlockInode i

/-- The loop of `sync_inodes`. -/
def syncInodes : List (Fin 32) → SyncState n → Option (SyncState n)
  | [], s => some s
  | i :: l, s =>
    -- `wait_on_inode`
    if iGet .iLock (s.inodeTable i) ≠ 0 then none
    else if iGet .iDirt (s.inodeTable i) ≠ 0 ∧ iGet .iPipe (s.inodeTable i) = 0 then
      (s.writeInode reads i).bind (syncInodes l)
    else syncInodes l s

/-- `sys_sync()`. -/
def sysSync (s : SyncState n) : Option (SyncState n) := do
  let s ← s.syncInodes reads (List.finRange 32)
  let c ← s.cache.flush reads (List.finRange n)
  return { s with cache := c }

/-! ## What `sys_sync` is for -/

/-- The inode is dirty, and has a record on the disk. -/
def Unsaved (s : SyncState n) (i : Fin 32) : Prop :=
  iGet .iDirt (s.inodeTable i) ≠ 0 ∧ iGet .iPipe (s.inodeTable i) = 0

/-- The block with the record of inode `i`. -/
def home (s : SyncState n) (i : Fin 32) : Option (Nat × Nat) :=
  let inode := s.inodeTable i
  (s.getSuper (iGet .iDev inode)).map fun sb => (iGet .iDev inode, inodeBlock (s.superBlock sb) inode)

/-- The state is well formed: the devices of the unsaved inodes are mounted hard disks on which their blocks
are (a file system has fewer than 65536), every unsaved inode has a number of its own, the cache is in order,
and a buffer of it is not in use. -/
structure Ready (s : SyncState n) : Prop where
  cache : s.cache.WF reads
  spare : s.cache.Spare
  mounted : ∀ i, s.Unsaved i → ∃ sb, s.getSuper (iGet .iDev (s.inodeTable i)) = some sb
  disk : ∀ i k, s.Unsaved i → s.home i = some k → k.1 / 256 = 3 ∧ k.2 < 65536 ∧ reads k = true
  number : ∀ i, s.Unsaved i → 1 ≤ iNum (s.inodeTable i)
  unique : ∀ i j, s.Unsaved i → s.Unsaved j →
    iGet .iDev (s.inodeTable i) = iGet .iDev (s.inodeTable j) →
    iNum (s.inodeTable i) = iNum (s.inodeTable j) → i = j

/-- Byte `off` of block `k` belongs to the record of inode `i`. -/
def InRecord (s : SyncState n) (k : Nat × Nat) (off : Nat) (i : Fin 32) : Prop :=
  s.home i = some k ∧ inodeRecord (s.inodeTable i) ≤ off ∧
    off < inodeRecord (s.inodeTable i) + dInode.sizeof

/-- Byte `off` of block `k` belongs to the record of no unsaved inode. -/
def Outside (s : SyncState n) (k : Nat × Nat) (off : Nat) : Prop := ∀ i, s.Unsaved i → ¬ s.InRecord k off i

/-- Everything in memory has been written out, and nothing else. -/
structure Flushed (s s' : SyncState n) : Prop where
  inodes : ∀ i, ¬ s'.Unsaved i
  buffers : ∀ b, (s'.cache.bufs b).bDirt = false
  records : ∀ i, s.Unsaved i → ∃ k, s.home i = some k ∧ ∀ off < dInode.sizeof,
    s'.cache.disk k (inodeRecord (s.inodeTable i) + off) = s'.inodeTable i off
  kept : ∀ i, ∀ off < dInode.sizeof, s'.inodeTable i off = s.inodeTable i off
  cached : ∀ b ∈ s.cache.hashTable, (s.cache.bufs b).bUptodate = true → ∀ off < 1024,
    s.Outside (s.cache.bufs b).key off →
      s'.cache.disk (s.cache.bufs b).key off = s.cache.mem (s.cache.bData b + off)
  others : ∀ k, (∀ b ∈ s.cache.hashTable, (s.cache.bufs b).bUptodate = true → (s.cache.bufs b).key ≠ k) →
    ∀ off < 1024, s.Outside k off → s'.cache.disk k off = s.cache.disk k off

/-! ## Members of an inode -/

variable {reads} {s s' : SyncState n} {c c' : Cache n} {i j : Fin 32} {k : Nat × Nat} {off v : Nat}
  {m m' : MMember} {inode sb : Bytes} {l : List (Fin 32)}

/-- The members are all there are. -/
lemma mem_members (m : MMember) : m ∈ mInode.members := by cases m <;> decide

/-- A member that was stored is read back, cut to its size. -/
lemma iGet_iPut_self : iGet m (iPut m v inode) = v % 2 ^ (8 * (mInode.type m).size) := by
  rw [iGet, iPut, load_store_self, BitVec.toNat_ofNat]

/-- The other members keep their values. -/
lemma iGet_iPut_of_ne (h : m' ≠ m) : iGet m' (iPut m v inode) = iGet m' inode := by
  rw [iGet, iPut, load_store_of_disjoint, iGet]
  exact Struct.offset_disjoint (mem_members m') (mem_members m) h

/-- A member that is not on the disk. -/
lemma iPut_record (hm : dInode.sizeof ≤ mInode.offset m) (ho : off < dInode.sizeof) :
    iPut m v inode off = inode off :=
  store_of_not_mem (.inl (Nat.lt_of_lt_of_le ho hm))

/-- Storing another member leaves the number. -/
lemma iNum_iPut (h : MMember.iNum ≠ m) : iNum (iPut m v inode) = iNum inode := iGet_iPut_of_ne h

/-- Storing another member leaves the block of the inode. -/
lemma inodeBlock_iPut (h : MMember.iNum ≠ m) : inodeBlock sb (iPut m v inode) = inodeBlock sb inode := by
  rw [inodeBlock, inodeBlock, iNum_iPut h]

/-- Storing another member leaves the place of the inode in its block. -/
lemma inodeRecord_iPut (h : MMember.iNum ≠ m) : inodeRecord (iPut m v inode) = inodeRecord inode := by
  rw [inodeRecord, inodeRecord, iNum_iPut h]

/-- What `write_inode` makes of the inode in memory. -/
def saved (inode : Bytes) : Bytes := iPut .iLock 0 (iPut .iDirt 0 (iPut .iLock 1 inode))

/-- An inode that was saved is clean. -/
lemma saved_dirt : iGet .iDirt (saved inode) = 0 := by
  rw [saved, iGet_iPut_of_ne (by decide), iGet_iPut_self]
  rfl

/-- An inode that was saved has the same record. -/
lemma saved_record (ho : off < dInode.sizeof) : saved inode off = inode off := by
  rw [saved, iPut_record (by decide) ho, iPut_record (by decide) ho, iPut_record (by decide) ho]

/-! ## Places of records -/

/-- A record has 48 bytes. -/
lemma inodeSize : dInode.sizeof = 48 := by decide

/-- A block holds 21 records. -/
lemma inodesPerBlock_eq : Fs.inodesPerBlock = 21 := by decide

/-- A record lies within its block. -/
lemma record_lt (inode : Bytes) : inodeRecord inode + dInode.sizeof ≤ 1024 := by
  rw [inodeRecord, inodeSize, inodesPerBlock_eq]
  omega

/-- Inodes of one device with overlapping records have the same number. -/
lemma num_eq_of_overlap {x y : Bytes} (hx : 1 ≤ iNum x) (hy : 1 ≤ iNum y)
    (hb : inodeBlock sb x = inodeBlock sb y) (hxo : inodeRecord x ≤ off ∧ off < inodeRecord x + dInode.sizeof)
    (hyo : inodeRecord y ≤ off ∧ off < inodeRecord y + dInode.sizeof) : iNum x = iNum y := by
  rw [inodeBlock, inodeBlock, inodesPerBlock_eq] at hb
  rw [inodeRecord, inodesPerBlock_eq, inodeSize] at hxo hyo
  omega

/-! ## One inode -/

/-- The block of an unsaved inode. -/
lemma Ready.home_eq (h : s.Ready reads) (hi : s.Unsaved i) : ∃ sb,
    s.getSuper (iGet .iDev (s.inodeTable i)) = some sb ∧
      s.home i = some (iGet .iDev (s.inodeTable i), inodeBlock (s.superBlock sb) (s.inodeTable i)) := by
  obtain ⟨sb, hsb⟩ := h.mounted i hi
  refine ⟨sb, hsb, ?_⟩
  rw [home, hsb]
  rfl

/-- The memory with the record of an inode, taken at address `p` of the data of its block. -/
def recordAt (c : Cache n) (p : Nat) (inode : Bytes) : Bytes := copyBytes dInode.sizeof c.mem p inode 0

/-- Storing a member behind the record leaves the record. -/
lemma recordAt_iPut {p : Nat} (hm : dInode.sizeof ≤ mInode.offset m) :
    recordAt c p (iPut m v inode) = recordAt c p inode := by
  funext j
  rw [recordAt, recordAt, copyBytes_apply, copyBytes_apply]
  split
  · rw [iPut_record hm (by omega)]
  · rfl

/-- `write_inode`, step by step. -/
lemma writeInode_eq {p : Fin 8} {bh : Fin n} (hl : iGet .iLock (s.inodeTable i) = 0)
    (hp : s.getSuper (iGet .iDev (s.inodeTable i)) = some p)
    (hb : s.cache.bread reads (iGet .iDev (s.inodeTable i), inodeBlock (s.superBlock p) (s.inodeTable i)) =
      some (some bh, c)) :
    s.writeInode reads i =
      ((Cache.setBuf { c with
        mem := recordAt c (c.bData bh + inodeRecord (s.inodeTable i)) (s.inodeTable i) } bh
          { c.bufs bh with bDirt := true }).brelse bh).map fun c' =>
        { s with inodeTable := update s.inodeTable i (saved (s.inodeTable i)), cache := c' } := by
  have hlock : s.lockInode i = some (s.setInode i (iPut .iLock 1 (s.inodeTable i))) := by
    rw [lockInode, if_neg (not_not.2 hl)]
  have hself : (s.setInode i (iPut .iLock 1 (s.inodeTable i))).inodeTable i = iPut .iLock 1 (s.inodeTable i) :=
    update_self ..
  rw [writeInode, hlock]
  simp only [Option.bind_eq_bind, Option.bind_some, hself, iGet_iPut_of_ne (show MMember.iDev ≠ .iLock by decide),
    inodeBlock_iPut (show MMember.iNum ≠ .iLock by decide), inodeRecord_iPut (show MMember.iNum ≠ .iLock by decide)]
  rw [show (s.setInode i (iPut .iLock 1 (s.inodeTable i))).getSuper = s.getSuper from rfl, hp, Option.bind_some,
    show (s.setInode i (iPut .iLock 1 (s.inodeTable i))).superBlock = s.superBlock from rfl,
    show (s.setInode i (iPut .iLock 1 (s.inodeTable i))).cache = s.cache from rfl, hb, Option.bind_some,
    Option.bind_some]
  rw [← recordAt_iPut (m := .iLock) (v := 1) (by decide), recordAt]
  simp only [unlockInode, setInode, update_self, update_idem]
  cases (Cache.setBuf { c with
    mem := copyBytes dInode.sizeof c.mem (c.bData bh + inodeRecord (s.inodeTable i))
      (iPut .iLock 1 (s.inodeTable i)) 0 } bh { c.bufs bh with bDirt := true }).brelse bh with
  | none => rfl
  | some c' => rfl

/-- Inode `i` has been put into block `k` of the cache. -/
structure Put (s : SyncState n) (i : Fin 32) (k : Nat × Nat) (s' : SyncState n) : Prop where
  home : s.home i = some k
  inodeTable : s'.inodeTable = update s.inodeTable i (saved (s.inodeTable i))
  superBlock : s'.superBlock = s.superBlock
  inside : ∀ off, s.InRecord k off i → s'.cache.contents k off =
    s.inodeTable i (off - inodeRecord (s.inodeTable i))
  outside : ∀ k' off, off < 1024 → ¬ s.InRecord k' off i → s'.cache.contents k' off = s.cache.contents k' off

/-- `write_inode` of an unsaved inode that is not locked: its buffer has too many users, or it is put there. -/
lemma writeInode_spec (h : s.Ready reads) (hi : s.Unsaved i) (hl : iGet .iLock (s.inodeTable i) = 0) :
    (s.writeInode reads i = none ∧ ∃ b, (s.cache.bufs b).bCount = 255) ∨
    ∃ s' k, s.writeInode reads i = some s' ∧ s.Put i k s' ∧ s'.cache.WF reads ∧ s'.cache.Spare ∧
      ∀ b, (s'.cache.bufs b).bCount = (s.cache.bufs b).bCount := by
  obtain ⟨p, hp, hhome⟩ := h.home_eq hi
  generalize hk : (iGet .iDev (s.inodeTable i), inodeBlock (s.superBlock p) (s.inodeTable i)) = k at hhome
  obtain ⟨hmaj, hblock, hr⟩ := h.disk i _ hi hhome
  obtain ⟨bh, c, e, hg, hu⟩ := Cache.bread_spec h.cache h.spare hmaj hblock hr
  have hlen := record_lt (s.inodeTable i)
  generalize hm : recordAt c (c.bData bh + inodeRecord (s.inodeTable i)) (s.inodeTable i) = mem
  have hmem : ∀ j, j ≠ bh → ∀ off < 1024, mem (c.bData j + off) = c.mem (c.bData j + off) := by
    intro j hj off ho
    rw [← hm, recordAt, copyBytes_apply, if_neg]
    rintro ⟨hle, hlt⟩
    exact hg.wf.apart hj ho (q := c.bData j + off - c.bData bh) (by omega) (by omega)
  have heq := writeInode_eq hl hp (hk ▸ e)
  rw [hm] at heq
  by_cases h0 : (c.bufs bh).bCount = 0
  · have hfull : ∃ b, (s.cache.bufs b).bCount = 255 := by
      by_contra hnot
      exact (Cache.Countable.used (fun j _ h255 => hnot ⟨j, h255⟩) hg) h0
    refine .inl ⟨?_, hfull⟩
    rw [heq, Cache.brelse, Cache.setBuf_self]
    exact congrArg (Option.map _) (if_pos h0)
  obtain ⟨c', ec, hrel⟩ := Cache.release_spec h.cache h.spare hg hu hmaj hr mem hmem h0
  have hcon := hrel.contents
  refine .inr ⟨_, k, heq.trans (congrArg (Option.map _) ec),
    ⟨hhome, rfl, rfl, fun off hin => ?_, fun k' off ho hout => ?_⟩, hrel.wf, hrel.spare, hrel.counts⟩
  · obtain ⟨-, hlo, hhi⟩ := hin
    refine (hcon k off (by omega)).trans ?_
    rw [if_pos rfl, ← hm, recordAt, copyBytes_apply, if_pos (by omega), Nat.zero_add]
    congr 1
    omega
  · refine (hcon k' off ho).trans ?_
    split
    · next hkk =>
      subst hkk
      have hrec : ¬ (inodeRecord (s.inodeTable i) ≤ off ∧ off < inodeRecord (s.inodeTable i) + dInode.sizeof) :=
        fun hin => hout ⟨hhome, hin⟩
      have hdata := hg.wf.contents_mem (i := bh) (o := off) hg.mem
      rw [if_pos hu, hg.key, hg.same _ off ho] at hdata
      rw [← hm, recordAt, copyBytes_apply, if_neg (by omega), ← hdata]
    · rfl

namespace Put
variable {s₁ : SyncState n}

/-- Saving an inode leaves the others. -/
lemma table_of_ne (h : s.Put i k s₁) (hj : j ≠ i) : s₁.inodeTable j = s.inodeTable j := by
  rw [h.inodeTable, update_of_ne hj]

/-- The inode is saved then. -/
lemma not_unsaved (h : s.Put i k s₁) : ¬ s₁.Unsaved i := by
  rintro ⟨hd, -⟩
  rw [h.inodeTable, update_self] at hd
  exact hd saved_dirt

/-- What is left to do. -/
lemma unsaved_iff (h : s.Put i k s₁) : s₁.Unsaved j ↔ j ≠ i ∧ s.Unsaved j := by
  obtain rfl | hj := eq_or_ne j i
  · exact ⟨fun hu => absurd hu h.not_unsaved, fun hu => absurd rfl hu.1⟩
  · rw [Unsaved, h.table_of_ne hj]
    exact ⟨fun hu => ⟨hj, hu⟩, fun hu => hu.2⟩

/-- The super block stays. -/
lemma getSuper_eq (h : s.Put i k s₁) : s₁.getSuper = s.getSuper := by
  funext dev
  rw [getSuper, getSuper, h.superBlock]

/-- The other inodes belong where they did. -/
lemma home_of_ne (h : s.Put i k s₁) (hj : j ≠ i) : s₁.home j = s.home j := by
  rw [SyncState.home, SyncState.home, h.table_of_ne hj, h.getSuper_eq, h.superBlock]

/-- The bytes of the records of the other inodes belong where they did. -/
lemma inRecord_iff {k' : Nat × Nat} (h : s.Put i k s₁) (hj : j ≠ i) :
    s₁.InRecord k' off j ↔ s.InRecord k' off j := by
  rw [InRecord, InRecord, h.home_of_ne hj, h.table_of_ne hj]

/-- The state is ready for the next inode. -/
lemma ready (h : s.Put i k s₁) (hs : s.Ready reads) (hwf : s₁.cache.WF reads) (hsp : s₁.cache.Spare) :
    s₁.Ready reads where
  cache := hwf
  spare := hsp
  mounted j hu := by
    obtain ⟨hj, hu⟩ := h.unsaved_iff.1 hu
    rw [h.table_of_ne hj, h.getSuper_eq]
    exact hs.mounted j hu
  disk j k' hu hk := by
    obtain ⟨hj, hu⟩ := h.unsaved_iff.1 hu
    rw [h.home_of_ne hj] at hk
    exact hs.disk j k' hu hk
  number j hu := by
    obtain ⟨hj, hu⟩ := h.unsaved_iff.1 hu
    rw [h.table_of_ne hj]
    exact hs.number j hu
  unique j₁ j₂ hu₁ hu₂ hd hn := by
    obtain ⟨hj₁, hu₁⟩ := h.unsaved_iff.1 hu₁
    obtain ⟨hj₂, hu₂⟩ := h.unsaved_iff.1 hu₂
    rw [h.table_of_ne hj₁, h.table_of_ne hj₂] at hd hn
    exact hs.unique j₁ j₂ hu₁ hu₂ hd hn

end Put

/-! ## All inodes -/

/-- The records of two unsaved inodes do not overlap. -/
lemma Ready.disjoint (h : s.Ready reads) (hi : s.Unsaved i) (hj : s.Unsaved j) (hri : s.InRecord k off i)
    (hrj : s.InRecord k off j) : i = j := by
  obtain ⟨p, hp, hhome⟩ := h.home_eq hi
  obtain ⟨q, hq, hhome'⟩ := h.home_eq hj
  have hk := Option.some.inj ((hhome.symm.trans hri.1).trans (hrj.1.symm.trans hhome'))
  have hdev := congrArg Prod.fst hk
  have hblock := congrArg Prod.snd hk
  dsimp only at hdev hblock
  rw [hdev, hq] at hp
  cases hp
  exact h.unique i j hi hj hdev (num_eq_of_overlap (h.number i hi) (h.number j hj) hblock hri.2 hrj.2)

variable (reads) in
/-- The unsaved inodes of `l` are in the cache. -/
structure Stored (s : SyncState n) (l : List (Fin 32)) (s' : SyncState n) : Prop where
  wf : s'.cache.WF reads
  done : ∀ i ∈ l, s.Unsaved i → s'.inodeTable i = saved (s.inodeTable i)
  rest : ∀ i, i ∉ l ∨ ¬ s.Unsaved i → s'.inodeTable i = s.inodeTable i
  inside : ∀ i ∈ l, s.Unsaved i → ∀ k off, s.InRecord k off i → s'.cache.contents k off =
    s.inodeTable i (off - inodeRecord (s.inodeTable i))
  outside : ∀ k off, off < 1024 → (∀ i ∈ l, s.Unsaved i → ¬ s.InRecord k off i) →
    s'.cache.contents k off = s.cache.contents k off

/-- One more inode. -/
lemma Stored.cons {s₁ : SyncState n} (hs : s.Ready reads) (hi : s.Unsaved i) (hp : s.Put i k s₁) (hl : i ∉ l)
    (h : s₁.Stored reads l s') : s.Stored reads (i :: l) s' := by
  have hne : ∀ j ∈ l, j ≠ i := fun j hj e => hl (e ▸ hj)
  refine ⟨h.wf, fun j hj hu => ?_, fun j hj => ?_, fun j hj hu k' off hr => ?_, fun k' off ho hout => ?_⟩
  · obtain rfl | hj := List.mem_cons.1 hj
    · rw [h.rest j (.inl hl), hp.inodeTable, update_self]
    · rw [h.done j hj (hp.unsaved_iff.2 ⟨hne j hj, hu⟩), hp.table_of_ne (hne j hj)]
  · have hji : j ≠ i := by
      rintro rfl
      obtain hj | hj := hj
      · exact hj List.mem_cons_self
      · exact hj hi
    rw [← hp.table_of_ne hji]
    exact h.rest j (hj.imp (fun hj hjl => hj (List.mem_cons_of_mem _ hjl)) fun hu hu' =>
      hu (hp.unsaved_iff.1 hu').2)
  · obtain rfl | hj := List.mem_cons.1 hj
    · -- no later inode has its record here
      have hk := Option.some.inj (hp.home.symm.trans hr.1)
      have hlen := record_lt (s.inodeTable j)
      have hlt : off < 1024 := by
        have hhi := hr.2.2
        omega
      rw [h.outside k' off hlt fun j' hj' hu' hr' => ?_]
      · exact hk ▸ hp.inside off (hk ▸ hr)
      · obtain ⟨hne', hu'⟩ := hp.unsaved_iff.1 hu'
        exact hne' (hs.disjoint hu' hu ((hp.inRecord_iff hne').1 hr') hr)
    · rw [← hp.table_of_ne (hne j hj)]
      exact h.inside j hj (hp.unsaved_iff.2 ⟨hne j hj, hu⟩) k' off ((hp.inRecord_iff (hne j hj)).2 hr)
  · rw [h.outside k' off ho fun j hj hu hr => ?_]
    · exact hp.outside k' off ho (hout i List.mem_cons_self hi)
    · obtain ⟨hji, hu⟩ := hp.unsaved_iff.1 hu
      exact hout j (List.mem_cons_of_mem _ hj) hu ((hp.inRecord_iff hji).1 hr)

/-- An inode that is not to be written. -/
lemma Stored.skip (hi : ¬ s.Unsaved i) (h : s.Stored reads l s') : s.Stored reads (i :: l) s' := by
  have hmem : ∀ j ∈ i :: l, s.Unsaved j → j ∈ l := fun j hj hu =>
    (List.mem_cons.1 hj).resolve_left fun e => hi (e ▸ hu)
  refine ⟨h.wf, fun j hj hu => h.done j (hmem j hj hu) hu, fun j hj => h.rest j ?_,
    fun j hj hu => h.inside j (hmem j hj hu) hu, fun k off ho hout => h.outside k off ho fun j hj =>
      hout j (List.mem_cons_of_mem _ hj)⟩
  exact hj.imp_left fun hj hjl => hj (List.mem_cons_of_mem _ hjl)

/-- `sync_inodes` waits for ever if an inode is locked, the kernel stops if a buffer that it uses has too many users,
and otherwise all unsaved inodes are put into the cache. -/
lemma syncInodes_spec (h : s.Ready reads) (hn : l.Nodup) :
    s.syncInodes reads l = none ∧
        ((∃ j ∈ l, iGet .iLock (s.inodeTable j) ≠ 0) ∨ ∃ b, (s.cache.bufs b).bCount = 255) ∨
      ∃ s', s.syncInodes reads l = some s' ∧ s.Stored reads l s' := by
  induction l generalizing s with
  | nil => exact .inr ⟨s, rfl, h.cache, nofun, fun _ _ => rfl, nofun, fun _ _ _ _ => rfl⟩
  | cons i l ih =>
    obtain ⟨hil, hn⟩ := List.nodup_cons.1 hn
    rw [syncInodes]
    by_cases hl : iGet .iLock (s.inodeTable i) ≠ 0
    · exact .inl ⟨if_pos hl, .inl ⟨i, List.mem_cons_self, hl⟩⟩
    rw [if_neg hl]
    have hl := not_not.1 hl
    by_cases hu : s.Unsaved i
    · rw [if_pos (show iGet .iDirt _ ≠ 0 ∧ iGet .iPipe _ = 0 from hu)]
      obtain ⟨e, hfull⟩ | ⟨s₁, k, e, hp, hwf, hsp, hcounts⟩ := writeInode_spec h hu hl
      · rw [e]
        exact .inl ⟨rfl, .inr hfull⟩
      rw [e, Option.bind_some]
      obtain ⟨e', ⟨j, hj, hjl⟩ | ⟨b, hb⟩⟩ | ⟨s', e', hst⟩ := ih (hp.ready h hwf hsp) hn
      · rw [hp.table_of_ne fun e => hil (e ▸ hj)] at hjl
        exact .inl ⟨e', .inl ⟨j, List.mem_cons_of_mem _ hj, hjl⟩⟩
      · exact .inl ⟨e', .inr ⟨b, (hcounts b).symm.trans hb⟩⟩
      · exact .inr ⟨s', e', hst.cons h hu hp hil⟩
    · rw [if_neg (show ¬ (iGet .iDirt _ ≠ 0 ∧ iGet .iPipe _ = 0) from hu)]
      obtain ⟨e', hwait⟩ | ⟨s', e', hst⟩ := ih h hn
      · exact .inl ⟨e', hwait.imp_left fun ⟨j, hj, hjl⟩ => ⟨j, List.mem_cons_of_mem _ hj, hjl⟩⟩
      · exact .inr ⟨s', e', hst.skip hu⟩

end SyncState

/-! ## All buffers -/

namespace Cache
variable {n : Nat} {reads : Nat × Nat → Bool} {c : Cache n}

/-- The loop of `sys_sync` over buffers returns, and afterwards they are not dirty. -/
lemma flush_spec : ∀ (l : List (Fin n)) {c : Cache n}, c.WF reads →
    ∃ c', c.flush reads l = some c' ∧ c'.WF reads ∧ Same c c' ∧ Synced c c' ∧
      ∀ i ∈ l, (c'.bufs i).bDirt = false
  | [], c, h => ⟨c, rfl, h, .refl, .refl, nofun⟩
  | i :: l, c, h => by
    rw [flush]
    by_cases hi : (c.bufs i).bDirt = true
    · obtain ⟨-, -, hmaj, hr⟩ := h.dirty i hi
      have hrw : c.llRwBlock reads writeBuf i = some (c.writeBuf i) := by
        rw [llRwBlock, if_neg (not_not.2 hmaj), if_pos hr]
      obtain ⟨hwf, hsame⟩ := writeBuf_spec h hi
      obtain ⟨c', e, hwf', hsame', hsync, hclean⟩ := flush_spec l hwf
      have hdirt : ((c.writeBuf i).bufs i).bDirt = false := by rw [writeBuf_bufs, clean_self]
      rw [if_pos hi, hrw]
      exact ⟨c', e, hwf', hsame.trans hsame', writeBuf_synced.trans hsync,
        List.forall_mem_cons.2 ⟨(hsync.bufs i).2.2.2 hdirt, hclean⟩⟩
    · obtain ⟨c', e, hwf', hsame', hsync, hclean⟩ := flush_spec l h
      rw [if_neg hi]
      exact ⟨c', e, hwf', hsame', hsync,
        List.forall_mem_cons.2 ⟨(hsync.bufs i).2.2.2 (Bool.eq_false_iff.2 hi), hclean⟩⟩

/-- Where nothing is dirty, the disks have what the cache contains. -/
lemma disk_of_clean (h : c.WF reads) (hall : ∀ i, (c.bufs i).bDirt = false) {k : Nat × Nat} {off : Nat}
    (ho : off < 1024) : c.disk k off = c.contents k off := by
  by_cases hk : ∃ i ∈ c.hashTable, (c.bufs i).key = k
  · obtain ⟨i, hi, rfl⟩ := hk
    rw [h.contents_mem hi]
    split
    · next hu => exact (h.clean i hi hu (hall i) off ho).symm
    · rfl
  · exact (contents_of_not fun i hi e => hk ⟨i, hi, e⟩).symm

end Cache

namespace SyncState
variable {n : Nat} {reads : Nat × Nat → Bool} {s s' : SyncState n}

/-- A block without data in the cache. -/
lemma contents_of_stale {c : Cache n} {k : Nat × Nat} {off : Nat}
    (h : ∀ b ∈ c.hashTable, (c.bufs b).bUptodate = true → (c.bufs b).key ≠ k) :
    c.contents k off = c.disk k off := by
  rw [Cache.contents]
  cases hf : c.findBuffer k with
  | none => rfl
  | some b =>
    obtain ⟨hb, hkey⟩ := Cache.mem_of_find hf
    exact if_neg fun hu => h b hb hu hkey

/-- With the inodes in the cache and the cache on the disks, everything is. -/
lemma Stored.flushed {s₁ : SyncState n} {c : Cache n} (h : s.Ready reads)
    (hst : s.Stored reads (List.finRange 32) s₁) (hdirt : ∀ b, (c.bufs b).bDirt = false)
    (hdisk : ∀ k, ∀ off < 1024, c.disk k off = s₁.cache.contents k off) :
    s.Flushed { s₁ with cache := c } := by
  have hkept : ∀ i, ∀ off < dInode.sizeof, s₁.inodeTable i off = s.inodeTable i off := by
    intro i off ho
    by_cases hu : s.Unsaved i
    · rw [hst.done i (List.mem_finRange i) hu, saved_record ho]
    · rw [hst.rest i (.inr hu)]
  have hout : ∀ k, ∀ off < 1024, s.Outside k off → c.disk k off = s.cache.contents k off :=
    fun k off ho hno => (hdisk k off ho).trans (hst.outside k off ho fun i _ => hno i)
  refine ⟨fun i => ?_, hdirt, fun i hu => ?_, hkept, fun b hb hup off ho hno => ?_, fun k hk off ho hno => ?_⟩
  · rintro ⟨hd, hp⟩
    by_cases hu : s.Unsaved i
    · rw [hst.done i (List.mem_finRange i) hu] at hd
      exact hd saved_dirt
    · rw [hst.rest i (.inr hu)] at hd hp
      exact hu ⟨hd, hp⟩
  · obtain ⟨p, -, hhome⟩ := h.home_eq hu
    refine ⟨_, hhome, fun off ho => ?_⟩
    have hlen := record_lt (s.inodeTable i)
    rw [hdisk _ _ (by omega), hst.inside i (List.mem_finRange i) hu _ _ ⟨hhome, by omega, by omega⟩,
      Nat.add_sub_cancel_left]
    exact (hkept i off ho).symm
  · rw [hout _ off ho hno, h.cache.contents_mem hb, if_pos hup]
  · rw [hout k off ho hno, contents_of_stale hk]

/-- **What `sys_sync` does**: when it returns everything has been written out, and it returns unless an inode
is locked or a buffer has 255 users. -/
theorem sys_sync_flushes (h : s.Ready reads) :
    (∀ s', s.sysSync reads = some s' → s.Flushed s') ∧
      ((∀ i, iGet .iLock (s.inodeTable i) = 0) → (∀ b, (s.cache.bufs b).bCount ≠ 255) →
        ∃ s', s.sysSync reads = some s') := by
  rw [sysSync]
  obtain ⟨e, hwait⟩ | ⟨s₁, e, hst⟩ := syncInodes_spec h (List.nodup_finRange 32)
  · rw [e]
    refine ⟨nofun, fun hu hb => ?_⟩
    rcases hwait with ⟨j, -, hj⟩ | ⟨b, h255⟩
    · exact absurd (hu j) hj
    · exact absurd h255 (hb b)
  · obtain ⟨c, e', hwf, hsame, -, hclean⟩ := Cache.flush_spec (List.finRange n) hst.wf
    have hdirt : ∀ b, (c.bufs b).bDirt = false := fun b => hclean b (List.mem_finRange b)
    have hflushed := hst.flushed h hdirt fun k off ho =>
      (Cache.disk_of_clean hwf hdirt ho).trans (hsame k off ho)
    rw [e, Option.bind_eq_bind, Option.bind_some, e']
    refine ⟨fun s' es => ?_, fun _ _ => ⟨_, rfl⟩⟩
    cases es
    exact hflushed

/-- Inode 1 of device 0x301 is dirty, and so is the only buffer, which has another block. -/
def oneDirty : SyncState 1 where
  inodeTable i :=
    if i = 0 then iPut .iDev 0x301 (iPut .iNum 1 (iPut .iDirt 1 fun _ => 0)) else fun _ => 0
  superBlock p := if p = 0 then store (n := 2) (fun _ => 0) (Fs.superBlock.offset .sDev) 0x301#16 else fun _ => 0
  cache := oneBuffer ⟨0x301, 5, true, true, 0⟩ [0]

/-- The sample has one inode to save. -/
lemma oneDirty_unsaved {i : Fin 32} (h : oneDirty.Unsaved i) : i = 0 := by
  by_contra hi
  have hzero : oneDirty.inodeTable i = fun _ => 0 := if_neg hi
  exact h.1 (by rw [hzero]; decide)

/-- The sample is ready. -/
lemma oneDirty_ready : oneDirty.Ready fun _ => true where
  cache := ⟨by decide, by decide, fun i _ j _ _ => Subsingleton.elim i j, fun _ _ _ => nofun,
    fun i _ => ⟨Subsingleton.elim i 0 ▸ List.mem_cons_self, rfl, (by decide : major 0x301 = 3), rfl⟩⟩
  spare := oneBuffer_spare rfl
  mounted i hi := by
    rw [oneDirty_unsaved hi]
    exact ⟨0, by decide⟩
  disk i k hi hk := by
    rw [oneDirty_unsaved hi, show oneDirty.home 0 = some (0x301, 2) by decide] at hk
    cases hk
    exact ⟨rfl, by decide, rfl⟩
  number i hi := by
    rw [oneDirty_unsaved hi]
    decide
  unique i j hi hj _ _ := (oneDirty_unsaved hi).trans (oneDirty_unsaved hj).symm

/-- The inode's block takes the place of the other one, which is written out before. -/
theorem sys_sync_flushes_one : oneDirty.Ready (fun _ => true) ∧
    (∀ s', oneDirty.sysSync (fun _ => true) = some s' → oneDirty.Flushed s') ∧
      ((∀ i, iGet .iLock (oneDirty.inodeTable i) = 0) → (∀ b, (oneDirty.cache.bufs b).bCount ≠ 255) →
        ∃ s', oneDirty.sysSync (fun _ => true) = some s') :=
  ⟨oneDirty_ready, sys_sync_flushes oneDirty_ready⟩

end SyncState

end OldLinux.BlockDev
