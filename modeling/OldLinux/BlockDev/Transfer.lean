import OldLinux.BlockDev.Cache

/-!
# Reading and writing block devices

Model of `block_write` and `block_read` (`fs/block_dev.c`), on the cache of one process. Both have one loop, but
for the direction in which it copies. What the loop does to the data of the buffers besides is recorded as
its `Access`es.

A turn copies `BLOCK_SIZE` bytes whatever the offset in the block, so that it goes on behind the buffer if it
does not begin at its start, and `block_read` marks what it has read as dirty; also block numbers have 16 bits
in a buffer head, and the count of its users has 8, so that `bread` after 255 others ends in the panic of
`brelse`. `transfers_exactly_iff` says when this makes no difference.
-/

namespace OldLinux.BlockDev
open Lib Function
open Fs (copyBytes copyBytes_apply)

/-- `EIO`. -/
def eio : Int := 5

/-- An access to the data of a buffer: `chars` bytes from `offset` on, and `b_dirt` before it is set. -/
structure Access (n : Nat) where
  bh : Fin n
  offset : Nat
  chars : Nat
  dirt : Bool

/-- The value returned, `*pos`, the buffer of the caller, the cache, and what was accessed. -/
structure Outcome (n : Nat) where
  ret : Int
  pos : Nat
  buf : Bytes
  cache : Cache n
  accesses : List (Access n)

/-- The copying of `chars` bytes: `p` is an address in memory, and `b` a place in the buffer of the caller. -/
abbrev Copy := (chars p b : Nat) → (buf mem : Bytes) → Bytes × Bytes

/-- `*(p++) = *(buf++)`. -/
def writeCopy : Copy := fun chars p b buf mem => (buf, copyBytes chars mem p buf b)

/-- `*(buf++) = *(p++)`. -/
def readCopy : Copy := fun chars p b buf mem => (copyBytes chars buf b mem p, mem)

section
variable {n : Nat} (reads : Nat × Nat → Bool)

/-- The loop of `block_write` and of `block_read`, with `block`, `offset`, `*pos`, `written` or `read`, and
    `count`; the first number bounds its number of turns. -/
def transferLoop (copy : Copy) (dev : Nat) :
    Nat → Nat → Nat → Nat → Nat → Nat → Bytes → Cache n → Option (Outcome n)
  | 0, _, _, pos, done, _, buf, c => some ⟨done, pos, buf, c, []⟩
  | m + 1, block, offset, pos, done, count, buf, c =>
    if count = 0 then some ⟨done, pos, buf, c, []⟩
    else
      match c.bread reads (dev, block % 2 ^ 32) with
      | none => none
      | some (none, c) => some ⟨if done ≠ 0 then done else -eio, pos, buf, c, []⟩
      | some (some bh, c) =>
        let chars := if count < 1024 then count else 1024
        let r := copy chars (offset + c.bData bh) done buf c.mem
        let a : Access n := ⟨bh, offset, chars, (c.bufs bh).bDirt⟩
        match (Cache.setBuf { c with mem := r.2 } bh { c.bufs bh with bDirt := true }).brelse bh with
        | none => none
        | some c =>
          (transferLoop copy dev m (block + 1) 0 (pos + chars) (done + chars) (count - chars) r.1 c).map
            fun o => { o with accesses := a :: o.accesses }

/-- `block_write(dev, pos, buf, count)`. -/
def blockWrite (c : Cache n) (dev pos : Nat) (buf : Bytes) (count : Nat) : Option (Outcome n) :=
  transferLoop reads writeCopy dev count (pos / 1024) (pos % 1024) pos 0 count buf c

/-- `block_read(dev, pos, buf, count)`. -/
def blockRead (c : Cache n) (dev pos : Nat) (buf : Bytes) (count : Nat) : Option (Outcome n) :=
  transferLoop reads readCopy dev count (pos / 1024) (pos % 1024) pos 0 count buf c

/-! ## What the functions are for -/

/-- The accesses are to the 1024 bytes of each buffer. -/
def Outcome.Inside (o : Outcome n) : Prop := ∀ a ∈ o.accesses, a.offset + a.chars ≤ 1024

/-- Block `k` is in a buffer, and dirty. -/
def Cache.Dirty (c : Cache n) (k : Nat × Nat) : Prop :=
  ∃ i, c.findBuffer k = some i ∧ (c.bufs i).bUptodate = true ∧ (c.bufs i).bDirt = true

/-- `block_write` puts the bytes of the buffer into their places on the device, and changes nothing else. -/
structure Writes (c : Cache n) (dev pos : Nat) (buf : Bytes) (count : Nat) (o : Outcome n) : Prop where
  ret : o.ret = count
  advanced : o.pos = pos + count
  contents : ∀ k, ∀ off < 1024, o.cache.contents k off =
    if k.1 = dev ∧ pos ≤ k.2 * 1024 + off ∧ k.2 * 1024 + off < pos + count
    then buf (k.2 * 1024 + off - pos) else c.contents k off
  inside : o.Inside

/-- `block_read` fetches the bytes of the device from their places, and changes neither the contents of a device
    nor whether a block is dirty. -/
structure Reads (c : Cache n) (dev pos : Nat) (buf : Bytes) (count : Nat) (o : Outcome n) : Prop where
  ret : o.ret = count
  advanced : o.pos = pos + count
  delivered : ∀ j, o.buf j =
    if j < count then c.contents (dev, (pos + j) / 1024) ((pos + j) % 1024) else buf j
  same : Cache.Same c o.cache
  dirty : ∀ k, o.cache.Dirty k ↔ c.Dirty k
  dirt : ∀ a ∈ o.accesses, a.dirt = true
  inside : o.Inside

/-- Both functions do what they are for, and what has been written is read back. -/
structure TransfersExactly (c : Cache n) (dev pos count : Nat) : Prop where
  write : ∀ buf, ∃ o, blockWrite reads c dev pos buf count = some o ∧ Writes c dev pos buf count o
  read : ∀ buf, ∃ o, blockRead reads c dev pos buf count = some o ∧ Reads c dev pos buf count o
  back : ∀ buf o buf', blockWrite reads c dev pos buf count = some o →
    ∃ o', blockRead reads o.cache dev pos buf' count = some o' ∧ ∀ j < count, o'.buf j = buf j

/-- If block `k` is in a buffer, this has fewer than 255 users. -/
def Cache.Countable (c : Cache n) (k : Nat × Nat) : Prop := ∀ i, c.findBuffer k = some i → (c.bufs i).bCount ≠ 255

/-- Nothing is transferred, or: the transfer begins at the start of a block or does not go beyond the block it
    begins in, it gets to no block whose number needs more than 16 bits, and all its blocks are in the cache and
    dirty, with fewer than 255 users. -/
def Fits (c : Cache n) (dev pos count : Nat) : Prop :=
  count = 0 ∨ (pos % 1024 = 0 ∨ pos % 1024 + count ≤ 1024) ∧ pos + count ≤ 65536 * 1024 ∧
    ∀ b, pos / 1024 ≤ b → b * 1024 < pos + count → c.Dirty (dev, b) ∧ c.Countable (dev, b)

/-- The blocks of a transfer can be read: they are on a hard disk. -/
structure Readable (dev pos count : Nat) : Prop where
  major : dev / 256 = 3
  reads : ∀ b, pos / 1024 ≤ b → b * 1024 < pos + count → reads (dev, b) = true

end

variable {n : Nat} {reads : Nat × Nat → Bool} {c c' : Cache n} {i : Fin n} {k : Nat × Nat}
  {dev pos count m block offset done : Nat} {buf : Bytes} {o : Outcome n} {copy : Copy}

namespace Cache

/-! ## One turn -/

/-- A buffer gets other data, and is dirty. -/
lemma dirty_spec (h : c.WF reads) (hi : i ∈ c.hashTable) (hu : (c.bufs i).bUptodate = true)
    (hm : major (c.bufs i).bDev = 3) (hr : reads (c.bufs i).key = true) {mem : Bytes}
    (hmem : ∀ j, j ≠ i → ∀ off < 1024, mem (c.bData j + off) = c.mem (c.bData j + off)) :
    WF reads (setBuf { c with mem := mem } i { c.bufs i with bDirt := true }) ∧ ∀ k, ∀ off < 1024,
      (setBuf { c with mem := mem } i { c.bufs i with bDirt := true }).contents k off =
        if k = (c.bufs i).key then mem (c.bData i + off) else c.contents k off := by
  generalize hc' : setBuf { c with mem := mem } i { c.bufs i with bDirt := true } = c'
  have hbi : c'.bufs i = { c.bufs i with bDirt := true } := by
    rw [← hc', setBuf_self]
  have hbj : ∀ {j}, j ≠ i → c'.bufs j = c.bufs j := fun hj => by
    rw [← hc', setBuf_of_ne hj]
  have hkey : ∀ j, (c'.bufs j).key = (c.bufs j).key := by
    intro j
    obtain rfl | hj := eq_or_ne j i
    · rw [hbi]
      rfl
    · rw [hbj hj]
  have hq : c'.hashTable = c.hashTable := by rw [← hc']; rfl
  have hdata : ∀ j, c'.bData j = c.bData j := fun j => by rw [← hc']; rfl
  have hmem' : c'.mem = mem := by rw [← hc']; rfl
  have hdisk : c'.disk = c.disk := by rw [← hc']; rfl
  have hwf : c'.WF reads := by
    refine ⟨?_, hq ▸ h.nodup, fun i₁ h₁ i₂ h₂ e => ?_, fun j hj huj hdj off ho => ?_, fun j hd => ?_⟩
    · rw [← hc']
      exact h.room
    · rw [hkey, hkey] at e
      exact h.keys i₁ (hq ▸ h₁) i₂ (hq ▸ h₂) e
    · obtain rfl | hne := eq_or_ne j i
      · rw [hbi] at hdj
        cases hdj
      · rw [hbj hne] at huj hdj ⊢
        rw [hmem', hdata, hdisk, hmem j hne off ho]
        exact h.clean j (hq ▸ hj) huj hdj off ho
    · obtain rfl | hne := eq_or_ne j i
      · rw [hbi, hq]
        exact ⟨hi, hu, hm, hr⟩
      · rw [hbj hne] at hd ⊢
        rw [hq]
        exact h.dirty j hd
  have hmemj : ∀ j ∈ c.hashTable, ∀ off < 1024, c'.contents (c.bufs j).key off =
      if (c.bufs j).key = (c.bufs i).key then mem (c.bData i + off) else c.contents (c.bufs j).key off := by
    intro j hj off ho
    have e := hwf.contents_mem (i := j) (o := off) (hq ▸ hj)
    rw [hkey, hmem', hdata, hdisk] at e
    rw [e]
    obtain rfl | hne := eq_or_ne j i
    · rw [hbi, if_pos rfl]
      exact if_pos hu
    · rw [if_neg fun e => hne (h.keys j hj i hi e), hbj hne, h.contents_mem hj, hmem j hne off ho]
  refine ⟨hwf, fun k off ho => ?_⟩
  by_cases hk : ∃ j ∈ c.hashTable, (c.bufs j).key = k
  · obtain ⟨j, hj, rfl⟩ := hk
    exact hmemj j hj off ho
  · have hn : ∀ j ∈ c.hashTable, (c.bufs j).key ≠ k := fun j hj e => hk ⟨j, hj, e⟩
    have hn' : ∀ j ∈ c'.hashTable, (c'.bufs j).key ≠ k := fun j hj => hkey j ▸ hn j (hq ▸ hj)
    rw [contents_of_not hn', contents_of_not hn, hdisk, if_neg fun e => hn i hi e.symm]

/-- A buffer with fewer than 255 users has one after `bread`. -/
lemma Countable.used (h : c.Countable k) (hg : Got reads c c' k i) : (c'.bufs i).bCount ≠ 0 := by
  intro h0
  have hinc : ∀ x : BitVec 8, x + 1 = 0 → x = 255 ∧ x ≠ 0 := by
    intro x hx
    bv_omega
  have hcount := hg.counts i
  rw [if_pos rfl, h0] at hcount
  obtain ⟨h255, hne⟩ := hinc _ hcount.symm
  exact h i (hg.found hne) h255

/-- The end of a turn with a buffer that `bread` has returned: it is dirty, and released. -/
structure Released (reads : Nat × Nat → Bool) (c c' : Cache n) (k : Nat × Nat) (data : Bytes) : Prop where
  wf : c'.WF reads
  spare : c'.Spare
  counts : ∀ j, (c'.bufs j).bCount = (c.bufs j).bCount
  countable : ∀ k', c.Countable k → c.Countable k' → c'.Countable k'
  contents : ∀ k', ∀ off < 1024, c'.contents k' off = if k' = k then data off else c.contents k' off

/-- The buffer is released if it has a user. -/
lemma release_spec (h : c.WF reads) (hs : c.Spare) (hg : Got reads c c' k i) (hu : (c'.bufs i).bUptodate = true)
    (hm : k.1 / 256 = 3) (hr : reads k = true) (mem : Bytes)
    (hmem : ∀ j, j ≠ i → ∀ off < 1024, mem (c'.bData j + off) = c'.mem (c'.bData j + off))
    (hne : (c'.bufs i).bCount ≠ 0) :
    ∃ c'', (setBuf { c' with mem := mem } i { c'.bufs i with bDirt := true }).brelse i = some c'' ∧
      Released reads c c'' k fun off => mem (c'.bData i + off) := by
  have hmaj : major (c'.bufs i).bDev = 3 := by
    have hdev : (c'.bufs i).bDev.toNat = k.1 := congrArg Prod.fst hg.key
    apply BitVec.eq_of_toNat_eq
    rw [major, BitVec.toNat_ushiftRight, hdev, Nat.shiftRight_eq_div_pow]
    exact hm
  obtain ⟨hwf, hcon⟩ := dirty_spec hg.wf hg.mem hu hmaj (hg.key ▸ hr) hmem
  have hcounts : ∀ j, ((setBuf { c' with mem := mem } i { c'.bufs i with bDirt := true }).bufs j).bCount =
      (c'.bufs j).bCount := by
    intro j
    obtain rfl | hj := eq_or_ne j i
    · rw [setBuf_self]
    · rw [setBuf_of_ne hj]
  have hkeys : ∀ j, ((setBuf { c' with mem := mem } i { c'.bufs i with bDirt := true }).bufs j).key =
      (c'.bufs j).key := fun j => setBuf_key (c := { c' with mem := mem }) rfl
  have hq : (setBuf { c' with mem := mem } i { c'.bufs i with bDirt := true }).hashTable = c'.hashTable := rfl
  have hfree : ∀ j, j ∈ (setBuf { c' with mem := mem } i { c'.bufs i with bDirt := true }).freeList := hg.free
  generalize setBuf { c' with mem := mem } i { c'.bufs i with bDirt := true } = c₁
    at hwf hcon hcounts hkeys hq hfree ⊢
  obtain ⟨hwf', hsame⟩ := hwf.recount i ((c₁.bufs i).bCount - 1)
  have hrest : ∀ j, ((c₁.setBuf i { c₁.bufs i with bCount := (c₁.bufs i).bCount - 1 }).bufs j).bCount =
      (c.bufs j).bCount := by
    intro j
    obtain rfl | hj := eq_or_ne j i
    · rw [setBuf_self, hcounts, hg.counts, if_pos rfl]
      exact add_sub_cancel_right ..
    · rw [setBuf_of_ne hj, hcounts, hg.counts, if_neg hj, add_zero]
  refine ⟨_, if_neg (hcounts i ▸ hne), hwf', ⟨hfree, ?_⟩, hrest, fun k' hk hk' j hf => ?_, fun k' off ho => ?_⟩
  · obtain ⟨u, hu0⟩ := hs.unused
    exact ⟨u, (hrest u).trans hu0⟩
  · rw [hrest]
    by_cases hji : j = i
    · -- the buffer of the block itself, which has got back its count
      subst hji
      intro h255
      exact hk j (hg.found (by rw [h255]; decide)) h255
    · obtain ⟨hj, hkey⟩ := mem_of_find hf
      obtain ⟨hold, hkold⟩ := hg.old j (hq ▸ hj) hji
      have hkey₁ : ((c₁.setBuf i { c₁.bufs i with bCount := (c₁.bufs i).bCount - 1 }).bufs j).key =
          (c₁.bufs j).key := setBuf_key rfl
      have hkey' : (c.bufs j).key = k' := hkold.symm.trans ((hkeys j).symm.trans (hkey₁.symm.trans hkey))
      exact hk' j (hkey' ▸ h.find hold)
  · rw [hsame k' off ho, hcon k' off ho, hg.key, hg.same k' off ho]

/-- `bread` of a block whose number has 16 bits. -/
lemma turn_spec (h : c.WF reads) (hs : c.Spare) (hm : dev / 256 = 3) (hb : block < 65536)
    (hr : reads (dev, block) = true) : ∃ i c', c.bread reads (dev, block % 2 ^ 32) = some (some i, c') ∧
      Got reads c c' (dev, block) i ∧ (c'.bufs i).bUptodate = true ∧
      ∀ off < 1024, c'.mem (c'.bData i + off) = c.contents (dev, block) off := by
  have hmod : block % 2 ^ 32 = block := Nat.mod_eq_of_lt (by omega)
  obtain ⟨i, c', e, hg, hu⟩ := bread_spec (k := (dev, block)) h hs hm hb hr
  refine ⟨i, c', by rw [hmod, e], hg, hu, fun off ho => ?_⟩
  have hcon := hg.wf.contents_mem (i := i) (o := off) hg.mem
  rw [if_pos hu, hg.key, hg.same _ off ho] at hcon
  exact hcon.symm

end Cache

/-! ## The loops -/

/-- The rest of a transfer that is within the 16 bits and the blocks of which can be read. -/
structure Ahead (reads : Nat × Nat → Bool) (dev block offset pos count : Nat) : Prop where
  start : count ≠ 0 → pos = block * 1024 + offset ∧ offset + min count 1024 ≤ 1024
  small : pos + count ≤ 65536 * 1024
  major : dev / 256 = 3
  reads : ∀ b, pos / 1024 ≤ b → b * 1024 < pos + count → reads (dev, b) = true

/-- What is ahead after a turn. -/
lemma Ahead.next (h : Ahead reads dev block offset pos count) (h0 : count ≠ 0) :
    Ahead reads dev (block + 1) 0 (pos + min count 1024) (count - min count 1024) := by
  obtain ⟨hpos, hoff⟩ := h.start h0
  refine ⟨fun h1 => by omega, ?_, h.major, fun b hb hlt => h.reads b ?_ (by omega)⟩
  · have := h.small
    omega
  · exact le_trans (Nat.div_le_div_right (Nat.le_add_right _ _)) hb

/-- The blocks that the rest of a transfer gets to have fewer than 255 users each. -/
def Cache.CountableFrom (c : Cache n) (dev pos count : Nat) : Prop :=
  ∀ b, pos / 1024 ≤ b → b * 1024 < pos + count → c.Countable (dev, b)

/-- This is so after a turn. -/
lemma Cache.CountableFrom.next {chars : Nat} (h : c.CountableFrom dev pos count) (hchars : chars ≤ count)
    (hc : ∀ k, c.Countable k → c'.Countable k) : c'.CountableFrom dev (pos + chars) (count - chars) :=
  fun b hb hlt => hc _ (h b (le_trans (Nat.div_le_div_right (Nat.le_add_right _ _)) hb) (by omega))

/-- The next block is such a block. -/
lemma Ahead.countable (h : Ahead reads dev block offset pos count) (h0 : count ≠ 0)
    (hc : c.CountableFrom dev pos count) : c.Countable (dev, block) := by
  obtain ⟨hpos, hoff⟩ := h.start h0
  exact hc block (by omega) (by omega)

/-- The next block. -/
lemma Ahead.block_lt (h : Ahead reads dev block offset pos count) (h0 : count ≠ 0) :
    block < 65536 ∧ reads (dev, block) = true := by
  obtain ⟨hpos, hoff⟩ := h.start h0
  have hsmall := h.small
  exact ⟨by omega, h.reads block (by omega) (by omega)⟩

/-- The count of a turn. -/
lemma chars_eq (count : Nat) : (if count < 1024 then count else 1024) = min count 1024 := by
  split <;> omega

/-- With nothing left the loop ends. -/
lemma transferLoop_done :
    transferLoop reads copy dev m block offset pos done 0 buf c = some ⟨done, pos, buf, c, []⟩ := by
  cases m <;> rfl

/-- A turn of the loop. -/
lemma transferLoop_turn (h0 : count ≠ 0) : transferLoop reads copy dev (m + 1) block offset pos done count buf c =
    match c.bread reads (dev, block % 2 ^ 32) with
    | none => none
    | some (none, c) => some ⟨if done ≠ 0 then done else -eio, pos, buf, c, []⟩
    | some (some bh, c) =>
      let r := copy (min count 1024) (offset + c.bData bh) done buf c.mem
      match (Cache.setBuf { c with mem := r.2 } bh { c.bufs bh with bDirt := true }).brelse bh with
      | none => none
      | some c' =>
        (transferLoop reads copy dev m (block + 1) 0 (pos + min count 1024) (done + min count 1024)
          (count - min count 1024) r.1 c').map
            fun o => { o with accesses := ⟨bh, offset, min count 1024, (c.bufs bh).bDirt⟩ :: o.accesses } := by
  rw [← chars_eq]
  exact if_neg h0

/-- A turn of `block_write` copies its bytes into the buffer of the next block. -/
lemma writeTurn_spec (h : c.WF reads) (hs : c.Spare) (ha : Ahead reads dev block offset pos count)
    (hu255 : c.CountableFrom dev pos count) (h0 : count ≠ 0) (buf : Bytes) (done : Nat) :
    ∃ i c₁ c₂, c.bread reads (dev, block % 2 ^ 32) = some (some i, c₁) ∧
      (Cache.setBuf { c₁ with mem := copyBytes (min count 1024) c₁.mem (offset + c₁.bData i) buf done } i
        { c₁.bufs i with bDirt := true }).brelse i = some c₂ ∧ c₂.WF reads ∧ c₂.Spare ∧
      (∀ k, c.Countable k → c₂.Countable k) ∧ ∀ k, ∀ off < 1024, c₂.contents k off =
        if k.1 = dev ∧ pos ≤ k.2 * 1024 + off ∧ k.2 * 1024 + off < pos + min count 1024
        then buf (done + (k.2 * 1024 + off - pos)) else c.contents k off := by
  obtain ⟨hpos, hoff⟩ := ha.start h0
  obtain ⟨hb, hr⟩ := ha.block_lt h0
  obtain ⟨i, c₁, e, hg, hu, hold⟩ := Cache.turn_spec h hs ha.major hb hr
  generalize min count 1024 = chars at hoff ⊢
  have hcopy : ∀ x, copyBytes chars c₁.mem (offset + c₁.bData i) buf done x =
      if offset + c₁.bData i ≤ x ∧ x < offset + c₁.bData i + chars
      then buf (done + (x - (offset + c₁.bData i))) else c₁.mem x := copyBytes_apply _ _ _ _ _
  have hmem : ∀ j, j ≠ i → ∀ off < 1024,
      copyBytes chars c₁.mem (offset + c₁.bData i) buf done (c₁.bData j + off) = c₁.mem (c₁.bData j + off) := by
    intro j hj off ho
    rw [hcopy, if_neg]
    rintro ⟨h₁, h₂⟩
    exact hg.wf.apart hj ho (q := c₁.bData j + off - c₁.bData i) (by omega) (by omega)
  have hfree := ha.countable h0 hu255
  obtain ⟨c₂, e₂, h₂⟩ := Cache.release_spec h hs hg hu ha.major hr _ hmem (hfree.used hg)
  refine ⟨i, c₁, c₂, e, e₂, h₂.wf, h₂.spare, fun k => h₂.countable k hfree, fun k off ho => ?_⟩
  rw [h₂.contents k off ho]
  by_cases hk : k = (dev, block)
  · subst hk
    rw [if_pos rfl, hcopy, hold off ho]
    dsimp only
    by_cases hin : offset ≤ off ∧ off < offset + chars
    · have hx : done + (c₁.bData i + off - (offset + c₁.bData i)) = done + (block * 1024 + off - pos) := by omega
      rw [if_pos (by omega), if_pos ⟨rfl, by omega⟩, hx]
    · rw [if_neg (by omega), if_neg (by omega)]
  · rw [if_neg hk, if_neg]
    rintro ⟨hd, h₁, h₂⟩
    have hblock : k.2 = block := by omega
    exact hk (Prod.ext hd hblock)

/-- A turn of `block_read` fetches its bytes from the buffer of the next block. -/
lemma readTurn_spec (h : c.WF reads) (hs : c.Spare) (ha : Ahead reads dev block offset pos count)
    (hu255 : c.CountableFrom dev pos count) (h0 : count ≠ 0) (buf : Bytes) (done : Nat) :
    ∃ i c₁ c₂, c.bread reads (dev, block % 2 ^ 32) = some (some i, c₁) ∧
      (Cache.setBuf { c₁ with mem := c₁.mem } i { c₁.bufs i with bDirt := true }).brelse i = some c₂ ∧
      c₂.WF reads ∧ c₂.Spare ∧ (∀ k, c.Countable k → c₂.Countable k) ∧ Cache.Same c c₂ ∧
      ∀ j, copyBytes (min count 1024) buf done c₁.mem (offset + c₁.bData i) j =
        if done ≤ j ∧ j < done + min count 1024
        then c.contents (dev, (pos + (j - done)) / 1024) ((pos + (j - done)) % 1024) else buf j := by
  obtain ⟨hpos, hoff⟩ := ha.start h0
  obtain ⟨hb, hr⟩ := ha.block_lt h0
  obtain ⟨i, c₁, e, hg, hu, hold⟩ := Cache.turn_spec h hs ha.major hb hr
  generalize min count 1024 = chars at hoff ⊢
  have hfree := ha.countable h0 hu255
  obtain ⟨c₂, e₂, h₂⟩ := Cache.release_spec h hs hg hu ha.major hr c₁.mem (fun _ _ _ _ => rfl) (hfree.used hg)
  refine ⟨i, c₁, c₂, e, e₂, h₂.wf, h₂.spare, fun k => h₂.countable k hfree, fun k off ho => ?_, fun j => ?_⟩
  · rw [h₂.contents k off ho]
    split
    · rename_i hk
      rw [hk, hold off ho]
    · rfl
  · rw [copyBytes_apply]
    by_cases hnow : done ≤ j ∧ j < done + chars
    · have hdiv : (pos + (j - done)) / 1024 = block := by omega
      have hmod : (pos + (j - done)) % 1024 = offset + (j - done) := by omega
      have hx : offset + c₁.bData i + (j - done) = c₁.bData i + (offset + (j - done)) := by omega
      rw [if_pos hnow, if_pos hnow, hdiv, hmod, hx, hold _ (by omega)]
    · rw [if_neg hnow, if_neg hnow]

/-- What the first turn writes and what the others do. -/
lemma written_split {chars x : Nat} (hchars : chars ≤ count) {p : Prop} [Decidable p] (buf : Bytes) (v : BitVec 8) :
    (if p ∧ pos + chars ≤ x ∧ x < pos + chars + (count - chars) then buf (done + chars + (x - (pos + chars)))
      else if p ∧ pos ≤ x ∧ x < pos + chars then buf (done + (x - pos)) else v) =
      if p ∧ pos ≤ x ∧ x < pos + count then buf (done + (x - pos)) else v := by
  by_cases hp : p
  swap
  · rw [if_neg fun h => hp h.1, if_neg fun h => hp h.1, if_neg fun h => hp h.1]
  by_cases hlate : pos + chars ≤ x ∧ x < pos + count
  · have hx : done + chars + (x - (pos + chars)) = done + (x - pos) := by omega
    rw [if_pos ⟨hp, by omega⟩, if_pos ⟨hp, by omega⟩, hx]
  rw [if_neg fun h => hlate (by omega)]
  by_cases hnow : pos ≤ x ∧ x < pos + chars
  · rw [if_pos ⟨hp, hnow⟩, if_pos ⟨hp, by omega⟩]
  · rw [if_neg fun h => hnow h.2, if_neg fun h => hnow (by omega)]

/-- The loop of `block_write` writes all that is ahead of it and leaves the other contents. -/
lemma writeLoop_spec (dev : Nat) (buf : Bytes) : ∀ (m block offset pos done count : Nat) {c : Cache n},
    c.WF reads → c.Spare → Ahead reads dev block offset pos count → c.CountableFrom dev pos count → count ≤ m →
    ∃ o, transferLoop reads writeCopy dev m block offset pos done count buf c = some o ∧
      o.ret = done + count ∧ o.pos = pos + count ∧ o.cache.WF reads ∧ o.cache.Spare ∧ o.Inside ∧
      (∀ k, c.Countable k → o.cache.Countable k) ∧ ∀ k, ∀ off < 1024, o.cache.contents k off =
        if k.1 = dev ∧ pos ≤ k.2 * 1024 + off ∧ k.2 * 1024 + off < pos + count
        then buf (done + (k.2 * 1024 + off - pos)) else c.contents k off
  | 0, block, offset, pos, done, count, c, h, hs, _, _, hm => by
    obtain rfl := Nat.le_zero.1 hm
    exact ⟨_, rfl, rfl, rfl, h, hs, nofun, fun _ => id, fun k off _ => (if_neg fun hc => by omega).symm⟩
  | m + 1, block, offset, pos, done, count, c, h, hs, ha, hu255, hm => by
    by_cases h0 : count = 0
    · subst h0
      exact ⟨_, transferLoop_done, rfl, rfl, h, hs, nofun, fun _ => id,
        fun k off _ => (if_neg fun hc => by omega).symm⟩
    rw [transferLoop_turn h0]
    have hoff := (ha.start h0).2
    have hnext := ha.next h0
    have hchars : min count 1024 ≤ count := min_le_left _ _
    obtain ⟨i, c₁, c₂, e, e₂, hwf, hsp, hkeep, hcon₂⟩ := writeTurn_spec h hs ha hu255 h0 buf done
    have hleft : count - min count 1024 ≤ m := by omega
    generalize min count 1024 = chars at *
    rw [e]
    obtain ⟨o, e₃, hret, hp, h₃, hs₃, hin, hkeep', hcon⟩ := writeLoop_spec dev buf m (block + 1) 0 (pos + chars)
      (done + chars) (count - chars) hwf hsp hnext (hu255.next hchars hkeep) hleft
    dsimp only [writeCopy]
    rw [e₂]
    dsimp only
    rw [e₃]
    refine ⟨_, rfl, ?_, ?_, h₃, hs₃, ?_, fun k hk => hkeep' k (hkeep k hk), fun k off ho => ?_⟩
    · rw [hret]
      push_cast
      omega
    · rw [hp]
      omega
    · intro a ha'
      obtain rfl | ha' := List.mem_cons.1 ha'
      · exact hoff
      · exact hin a ha'
    · rw [hcon k off ho, hcon₂ k off ho]
      exact written_split hchars buf _

/-- The loop of `block_read` reads all that is ahead of it and leaves the contents. -/
lemma readLoop_spec (dev : Nat) : ∀ (m block offset pos done count : Nat) (buf : Bytes) {c : Cache n},
    c.WF reads → c.Spare → Ahead reads dev block offset pos count → c.CountableFrom dev pos count → count ≤ m →
    ∃ o, transferLoop reads readCopy dev m block offset pos done count buf c = some o ∧
      o.ret = done + count ∧ o.pos = pos + count ∧ Cache.Same c o.cache ∧ o.Inside ∧
      ∀ j, o.buf j = if done ≤ j ∧ j < done + count
        then c.contents (dev, (pos + (j - done)) / 1024) ((pos + (j - done)) % 1024) else buf j
  | 0, block, offset, pos, done, count, buf, c, h, hs, _, _, hm => by
    obtain rfl := Nat.le_zero.1 hm
    exact ⟨_, rfl, rfl, rfl, .refl, nofun, fun j => (if_neg fun hc => by omega).symm⟩
  | m + 1, block, offset, pos, done, count, buf, c, h, hs, ha, hu255, hm => by
    by_cases h0 : count = 0
    · subst h0
      exact ⟨_, transferLoop_done, rfl, rfl, .refl, nofun, fun j => (if_neg fun hc => by omega).symm⟩
    rw [transferLoop_turn h0]
    have hoff := (ha.start h0).2
    have hnext := ha.next h0
    have hchars : min count 1024 ≤ count := min_le_left _ _
    obtain ⟨i, c₁, c₂, e, e₂, hwf, hsp, hkeep, hsame, hnow⟩ := readTurn_spec h hs ha hu255 h0 buf done
    have hleft : count - min count 1024 ≤ m := by omega
    generalize min count 1024 = chars at *
    rw [e]
    obtain ⟨o, e₃, hret, hp, hsame₃, hin, hbuf⟩ :=
      readLoop_spec dev m (block + 1) 0 (pos + chars) (done + chars) (count - chars)
        (copyBytes chars buf done c₁.mem (offset + c₁.bData i)) hwf hsp hnext (hu255.next hchars hkeep) hleft
    dsimp only [readCopy]
    rw [e₂]
    dsimp only
    rw [e₃]
    refine ⟨_, rfl, ?_, ?_, hsame.trans hsame₃, ?_, fun j => ?_⟩
    · rw [hret]
      push_cast
      omega
    · rw [hp]
      omega
    · intro a ha'
      obtain rfl | ha' := List.mem_cons.1 ha'
      · exact hoff
      · exact hin a ha'
    · rw [hbuf j, hnow j]
      by_cases hlate : done + chars ≤ j ∧ j < done + chars + (count - chars)
      · have hx : pos + chars + (j - (done + chars)) = pos + (j - done) := by omega
        rw [if_pos hlate, if_pos (by omega), hx]
        exact hsame _ _ (Nat.mod_lt _ (by decide))
      rw [if_neg hlate]
      by_cases hearly : done ≤ j ∧ j < done + chars
      · rw [if_pos hearly, if_pos (by omega)]
      · rw [if_neg hearly, if_neg (by omega)]

/-! ## What a transfer needs -/

/-- A transfer that gets to its end begins with an access at `offset`. -/
lemma first_access (e : transferLoop reads copy dev (m + 1) block offset pos done count buf c = some o)
    (h0 : count ≠ 0) (hret : o.ret = done + count) :
    ∃ a ∈ o.accesses, a.offset = offset ∧ a.chars = min count 1024 := by
  rw [transferLoop_turn h0] at e
  split at e
  · cases e
  · cases e
    have hret : (if done ≠ 0 then (done : Int) else -eio) = done + count := hret
    have he : -eio = -5 := rfl
    split at hret <;> omega
  · dsimp only at e
    split at e
    · cases e
    · rw [Option.map_eq_some_iff] at e
      obtain ⟨o', -, rfl⟩ := e
      exact ⟨_, List.mem_cons_self, rfl, rfl⟩

/-- A block whose number needs more than 16 bits stays as it is. -/
lemma transferLoop_disk (hk : 65536 ≤ k.2) : ∀ {m block offset pos done count : Nat} {buf : Bytes} {c : Cache n}
    {o : Outcome n}, transferLoop reads copy dev m block offset pos done count buf c = some o →
    o.cache.disk k = c.disk k
  | 0, _, _, _, _, _, _, _, _, e => by
    cases e
    rfl
  | m + 1, block, offset, pos, done, count, buf, c, o, e => by
    by_cases h0 : count = 0
    · subst h0
      cases transferLoop_done.symm.trans e
      rfl
    · rw [transferLoop_turn h0] at e
      split at e
      · cases e
      · rename_i h₁
        cases e
        exact Cache.bread_disk hk h₁
      · rename_i i c₁ h₁
        dsimp only at e
        split at e
        · cases e
        · rename_i c₂ h₂
          rw [Option.map_eq_some_iff] at e
          obtain ⟨o', e', rfl⟩ := e
          have hd₂ : c₂.disk k = c₁.disk k := congrFun (Cache.brelse_disk h₂) k
          exact ((transferLoop_disk hk e' :).trans hd₂).trans (Cache.bread_disk hk h₁)

namespace Cache

/-- The end of a turn that reads a dirty block in the cache: `brelse` panics. -/
lemma hit_turn_full (h255 : (c.bufs i).bCount = 255) :
    (setBuf { c.hold i with mem := c.mem } i { (c.hold i).bufs i with bDirt := true }).brelse i = none := by
  have hself : (c.hold i).bufs i = { c.bufs i with bCount := (c.bufs i).bCount + 1 } := setBuf_self
  have hwrap : (255 : BitVec 8) + 1 = 0 := rfl
  rw [hself, brelse, setBuf_self, h255]
  exact if_pos hwrap

/-- The end of a turn that reads a dirty block in the cache with fewer than 255 users changes nothing. -/
lemma hit_turn (hd : (c.bufs i).bDirt = true) (hne : (c.bufs i).bCount ≠ 255) :
    (setBuf { c.hold i with mem := c.mem } i { (c.hold i).bufs i with bDirt := true }).brelse i = some c := by
  have hself : (c.hold i).bufs i = { c.bufs i with bCount := (c.bufs i).bCount + 1 } := setBuf_self
  have hinc : ∀ x : BitVec 8, x ≠ 255 → x + 1 ≠ 0 := by
    intro x hx
    bv_omega
  have hback : (c.bufs i).bCount + 1 - 1 = (c.bufs i).bCount := add_sub_cancel_right ..
  rw [hself, brelse, setBuf_self, if_neg (hinc _ hne)]
  dsimp only
  rw [hback]
  refine congrArg some ?_
  have hb : update (update (update c.bufs i { c.bufs i with bCount := (c.bufs i).bCount + 1 }) i
      { c.bufs i with bDirt := true, bCount := (c.bufs i).bCount + 1 }) i
      { c.bufs i with bDirt := true, bCount := (c.bufs i).bCount } = c.bufs := by
    rw [update_idem, update_idem, ← hd]
    exact update_eq_self _ _
  exact congrArg (fun bufs => { c with bufs := bufs }) hb

end Cache

/-- If the loop of `block_read` gets to its end, and `b_dirt` is set whenever it sets it, all its blocks were in the
    cache and dirty, with fewer than 255 users. -/
lemma dirty_of_read (ha : Ahead reads dev block offset pos count) (hm : count ≤ m)
    (e : transferLoop reads readCopy dev m block offset pos done count buf c = some o)
    (hret : o.ret = done + count) (hd : ∀ a ∈ o.accesses, a.dirt = true) (h0 : count ≠ 0) {b : Nat}
    (hb : block ≤ b) (hlt : b * 1024 < pos + count) : c.Dirty (dev, b) ∧ c.Countable (dev, b) := by
  induction m generalizing block offset pos done count buf o with
  | zero => exact absurd (Nat.le_zero.1 hm) h0
  | succ m ih =>
    obtain ⟨hpos, hoff⟩ := ha.start h0
    obtain ⟨hblock, -⟩ := ha.block_lt h0
    have hmod : block % 2 ^ 32 = block := Nat.mod_eq_of_lt (by omega)
    have hnext := ha.next h0
    rw [transferLoop_turn h0, hmod] at e
    split at e
    · cases e
    · cases e
      have hret : (if done ≠ 0 then (done : Int) else -eio) = done + count := hret
      have he : -eio = -5 := rfl
      split at hret <;> omega
    · rename_i i c₁ h₁
      dsimp only [readCopy] at e
      split at e
      · cases e
      · rename_i c₂ h₂
        rw [Option.map_eq_some_iff] at e
        obtain ⟨o', e', rfl⟩ := e
        obtain ⟨hf, rfl, hu, hdi⟩ := Cache.bread_dirt h₁ (hd _ List.mem_cons_self)
        have hcount : (c.bufs i).bCount ≠ 255 := fun h255 => by cases (Cache.hit_turn_full h255).symm.trans h₂
        -- this block was dirty, so that the turn has changed nothing
        obtain rfl : c = c₂ := Option.some.inj ((Cache.hit_turn hdi hcount).symm.trans h₂)
        obtain rfl | hne := eq_or_ne b block
        · refine ⟨⟨i, hf, hu, hdi⟩, fun j hj => ?_⟩
          obtain rfl : i = j := Option.some.inj (hf.symm.trans hj)
          exact hcount
        · refine ih hnext (by omega) e' ?_ (fun a ha' => hd a (List.mem_cons_of_mem _ ha')) (by omega)
            (by omega) (by omega)
          have hret : o'.ret = done + count := hret
          rw [hret]
          push_cast
          omega

/-- If all its blocks are in the cache and dirty, `block_read` changes nothing. -/
lemma readLoop_hits (dev : Nat) : ∀ (m block offset pos done count : Nat) (buf : Bytes),
    Ahead reads dev block offset pos count →
    (count ≠ 0 → ∀ b, block ≤ b → b * 1024 < pos + count → c.Dirty (dev, b) ∧ c.Countable (dev, b)) →
    ∃ o, transferLoop reads readCopy dev m block offset pos done count buf c = some o ∧ o.cache = c ∧
      ∀ a ∈ o.accesses, a.dirt = true
  | 0, _, _, _, _, _, _, _, _ => ⟨_, rfl, rfl, nofun⟩
  | m + 1, block, offset, pos, done, count, buf, ha, hd => by
    by_cases h0 : count = 0
    · subst h0
      exact ⟨_, transferLoop_done, rfl, nofun⟩
    obtain ⟨hpos, hoff⟩ := ha.start h0
    obtain ⟨hblock, -⟩ := ha.block_lt h0
    have hmod : block % 2 ^ 32 = block := Nat.mod_eq_of_lt (by omega)
    obtain ⟨⟨i, hf, hu, hdi⟩, hcount⟩ := hd h0 block le_rfl (by omega)
    have hturn : (Cache.setBuf { c.hold i with mem := (c.hold i).mem } i
        { (c.hold i).bufs i with bDirt := true }).brelse i = some c := Cache.hit_turn hdi (hcount i hf)
    rw [transferLoop_turn h0, hmod, Cache.bread_hit hf hu]
    dsimp only [readCopy]
    rw [hturn]
    obtain ⟨o, e, hc, hd'⟩ := readLoop_hits dev m (block + 1) 0 (pos + min count 1024) (done + min count 1024)
      (count - min count 1024)
      (copyBytes (min count 1024) buf done (c.hold i).mem (offset + (c.hold i).bData i)) (ha.next h0)
      fun h1 b hb hlt => hd h0 b (by omega) (by omega)
    dsimp only
    rw [e]
    refine ⟨_, rfl, hc, fun a ha' => ?_⟩
    obtain rfl | ha' := List.mem_cons.1 ha'
    · show ((c.hold i).bufs i).bDirt = true
      rw [Cache.hold, Cache.setBuf_self]
      exact hdi
    · exact hd' a ha'

/-! ## When the functions do what they are for -/

/-- What is ahead of the first turn. -/
lemma ahead_of (hr : Readable reads dev pos count) (hstart : pos % 1024 = 0 ∨ pos % 1024 + count ≤ 1024)
    (hsmall : pos + count ≤ 65536 * 1024) : Ahead reads dev (pos / 1024) (pos % 1024) pos count :=
  ⟨fun _ => ⟨(Nat.div_add_mod' pos 1024).symm, by omega⟩, hsmall, hr.major, hr.reads⟩

/-- Nothing is transferred exactly. -/
lemma transfersExactly_zero : TransfersExactly reads c dev pos 0 where
  write buf := ⟨_, rfl, rfl, rfl, fun _ _ _ => (if_neg fun h => by omega).symm, nofun⟩
  read buf := ⟨_, rfl, rfl, rfl, fun _ => rfl, .refl, fun _ => Iff.rfl, nofun, nofun⟩
  back buf o buf' _ := ⟨_, rfl, fun j hj => absurd hj (Nat.not_lt_zero j)⟩

/-- With readable and countable blocks ahead the transfer is exact. -/
lemma transfersExactly_of (h : c.WF reads) (hs : c.Spare)
    (ha : Ahead reads dev (pos / 1024) (pos % 1024) pos count)
    (hd : ∀ b, pos / 1024 ≤ b → b * 1024 < pos + count → c.Dirty (dev, b) ∧ c.Countable (dev, b)) :
    TransfersExactly reads c dev pos count where
  write buf := by
    have hcount : c.CountableFrom dev pos count := fun b hb hlt => (hd b hb hlt).2
    obtain ⟨o, e, hret, hp, -, -, hin, -, hcon⟩ :=
      writeLoop_spec dev buf count (pos / 1024) (pos % 1024) pos 0 count h hs ha hcount le_rfl
    refine ⟨o, e, by simpa using hret, hp, fun k off ho => ?_, hin⟩
    rw [hcon k off ho, Nat.zero_add]
  read buf := by
    have hcount : c.CountableFrom dev pos count := fun b hb hlt => (hd b hb hlt).2
    obtain ⟨o, e, hret, hp, hsame, hin, hbuf⟩ :=
      readLoop_spec dev count (pos / 1024) (pos % 1024) pos 0 count buf h hs ha hcount le_rfl
    obtain ⟨o', e', hc, hdirt⟩ :=
      readLoop_hits dev count (pos / 1024) (pos % 1024) pos 0 count buf ha fun _ => hd
    obtain rfl : o = o' := Option.some.inj (e.symm.trans e')
    refine ⟨o, e, by simpa using hret, hp, fun j => ?_, hsame, fun k => by rw [hc], hdirt, hin⟩
    rw [hbuf j]
    simp
  back buf o buf' e := by
    have hcount : c.CountableFrom dev pos count := fun b hb hlt => (hd b hb hlt).2
    obtain ⟨o₁, e₁, -, -, h₁, hs₁, -, hkeep, hcon⟩ :=
      writeLoop_spec dev buf count (pos / 1024) (pos % 1024) pos 0 count h hs ha hcount le_rfl
    obtain rfl : o = o₁ := Option.some.inj (e.symm.trans e₁)
    obtain ⟨o', e', -, -, -, -, hbuf⟩ :=
      readLoop_spec dev count (pos / 1024) (pos % 1024) pos 0 count buf' h₁ hs₁ ha
        (fun b hb hlt => hkeep _ (hcount b hb hlt)) le_rfl
    refine ⟨o', e', fun j hj => ?_⟩
    have hx : (pos + j) / 1024 * 1024 + (pos + j) % 1024 - pos = j := by omega
    rw [hbuf j, if_pos (by omega), Nat.sub_zero, hcon _ _ (Nat.mod_lt _ (by decide)), if_pos ⟨rfl, by omega⟩,
      hx, Nat.zero_add]

/-- What is written to a block whose number needs more than 16 bits does not get there. -/
lemma small_of_writes (h0 : count ≠ 0)
    (hw : ∀ buf, ∃ o, blockWrite reads c dev pos buf count = some o ∧ Writes c dev pos buf count o) :
    pos + count ≤ 65536 * 1024 := by
  by_contra hbig
  generalize hx : pos + count - 1 = x
  have hb : 65536 ≤ x / 1024 := by omega
  obtain ⟨o, e, hwo⟩ := hw fun _ => c.contents (dev, x / 1024) (x % 1024) + 1
  have hcon := hwo.contents (dev, x / 1024) (x % 1024) (Nat.mod_lt _ (by decide))
  rw [if_pos ⟨rfl, by omega⟩, Cache.contents_big hb, transferLoop_disk hb e, Cache.contents_big hb] at hcon
  have hne : ∀ v : BitVec 8, v ≠ v + 1 := by
    intro v
    bv_omega
  exact hne _ hcon

/-- `block_write` and `block_read` do what they are for if and only if the transfer fits. -/
theorem transfers_exactly_iff (h : c.WF reads) (hs : c.Spare) (hr : Readable reads dev pos count) :
    TransfersExactly reads c dev pos count ↔ Fits c dev pos count := by
  constructor
  · intro ht
    by_cases h0 : count = 0
    · exact .inl h0
    obtain ⟨m, rfl⟩ : ∃ m, count = m + 1 := ⟨count - 1, by omega⟩
    have hsmall := small_of_writes h0 ht.write
    have hstart : pos % 1024 = 0 ∨ pos % 1024 + (m + 1) ≤ 1024 := by
      obtain ⟨o, e, hw⟩ := ht.write fun _ => 0
      obtain ⟨a, ha, hoff, hchars⟩ := first_access e h0 (by simpa using hw.ret)
      have hin := hw.inside a ha
      omega
    refine .inr ⟨hstart, hsmall, fun b hb hlt => ?_⟩
    obtain ⟨o, e, hread⟩ := ht.read fun _ => 0
    exact dirty_of_read (ahead_of hr hstart hsmall) le_rfl e (by simpa using hread.ret) hread.dirt h0 hb hlt
  · rintro (rfl | ⟨hstart, hsmall, hd⟩)
    · exact transfersExactly_zero
    · exact transfersExactly_of h hs (ahead_of hr hstart hsmall) hd

/-- A cache of one buffer. -/
def oneBuffer (bh : BufferHead) (hashTable : List (Fin 1)) : Cache 1 where
  bufs _ := bh
  hashTable := hashTable
  freeList := [0]
  mem _ := 0
  bufferEnd := 4096
  disk _ _ := 0

/-- An unused buffer is spare. -/
lemma oneBuffer_spare {bh : BufferHead} {l : List (Fin 1)} (h : bh.bCount = 0) : (oneBuffer bh l).Spare :=
  ⟨fun i => Subsingleton.elim i 0 ▸ List.mem_cons_self, 0, h⟩

/-- Where all blocks can be read, any number of bytes can. -/
lemma readable_all (count : Nat) : Readable (fun _ => true) 0x301 pos count := ⟨rfl, fun _ _ _ => rfl⟩

/-- Ten bytes at offset 100 of a block that is in the cache and dirty. -/
theorem transfers_exactly_ten : TransfersExactly (fun _ => true)
    (oneBuffer ⟨0x301, 0, true, true, 0⟩ [0]) 0x301 100 10 := by
  have hwf : (oneBuffer ⟨0x301, 0, true, true, 0⟩ [0]).WF fun _ => true :=
    ⟨by decide, by decide, fun i _ j _ _ => Subsingleton.elim i j, fun _ _ _ => nofun,
      fun i _ => ⟨Subsingleton.elim i 0 ▸ List.mem_cons_self, rfl, (by decide : major 0x301 = 3), rfl⟩⟩
  refine (transfers_exactly_iff hwf (oneBuffer_spare rfl) (readable_all 10)).2
    (.inr ⟨.inr (by decide), by decide, fun b _ hlt => ?_⟩)
  obtain rfl : b = 0 := by omega
  exact ⟨⟨0, rfl, rfl, rfl⟩, fun _ _ => (by decide : (0 : BitVec 8) ≠ 255)⟩

/-- With block 0 in the cache and clean, 100 bytes at offset 1000 go on behind the buffer, and reading one byte marks
    the block as dirty. -/
theorem transfer_overruns : (oneBuffer ⟨0x301, 0, true, false, 0⟩ [0]).WF (fun _ => true) ∧
    (oneBuffer ⟨0x301, 0, true, false, 0⟩ [0]).Spare ∧ Readable (fun _ => true) 0x301 1000 100 ∧
    ¬ TransfersExactly (fun _ => true) (oneBuffer ⟨0x301, 0, true, false, 0⟩ [0]) 0x301 1000 100 ∧
    (blockWrite (fun _ => true) (oneBuffer ⟨0x301, 0, true, false, 0⟩ [0]) 0x301 1000 (fun _ => 0x41) 100).map
      Outcome.accesses = some [⟨0, 1000, 100, false⟩] ∧
    ∃ o, blockRead (fun _ => true) (oneBuffer ⟨0x301, 0, true, false, 0⟩ [0]) 0x301 0 (fun _ => 0) 1 = some o ∧
      (o.cache.bufs 0).bDirt = true := by
  have hrun : (blockWrite (fun _ => true) (oneBuffer ⟨0x301, 0, true, false, 0⟩ [0]) 0x301 1000 (fun _ => 0x41) 100).map
      Outcome.accesses = some [⟨0, 1000, 100, false⟩] := rfl
  have hwf : (oneBuffer ⟨0x301, 0, true, false, 0⟩ [0]).WF fun _ => true :=
    ⟨by decide, by decide, fun i _ j _ _ => Subsingleton.elim i j, fun _ _ _ _ _ _ => rfl, fun _ => nofun⟩
  refine ⟨hwf, oneBuffer_spare rfl, readable_all 100, fun ht => ?_, hrun, _, rfl, rfl⟩
  obtain ⟨o, e, hw⟩ := ht.write fun _ => 0x41
  rw [e] at hrun
  have hin := hw.inside ⟨0, 1000, 100, false⟩ (by rw [Option.some.inj hrun]; exact List.mem_cons_self)
  exact absurd hin (by decide)

end OldLinux.BlockDev
