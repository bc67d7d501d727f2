import OldLinux.Fs.Types

/-!
# The block map of a file

Model of `_bmap`, `bmap` and `create_block` (`fs/inode.c`) on the blocks of all devices, addressed by
device and zone number, with their current contents (what `bread` gives). `new_block` is a parameter.
The functions come twice: on disks whose blocks can all be read, and with the blocks that can be read
as a parameter (`bmapOrCreateReads`); the first are a case of the second.

A place that holds a zone number is a `Slot`: one of the nine `i_zone` of an inode, or an entry of the
block another slot names. `_bmap` walks down a slot and fills in what is missing on the way. In a
well-formed file system (`FileSys.WF`) no zone is named by two slots, so filling a slot with a new zone
changes no other slot and no file's contents; `Fill.keeps` states this for one slot and
`createBlock_walked` for the whole walk.
-/

namespace OldLinux.Fs
open Lib Function

/-- The blocks of all devices and which zones are marked used. -/
structure Disk where
  blocks : Nat × Nat → Bytes
  used : Nat × Nat → Bool

/-- The disks and the files. -/
structure FileSys (ι : Type*) where
  disk : Disk
  inode : ι → MInode

/-- `((unsigned short *) b_data)[e]`. -/
def entry (data : Bytes) (e : Nat) : BitVec 16 := data.load 2 (2 * e)

/-- `((unsigned short *) b_data)[e] = z`. -/
def setEntry (data : Bytes) (e : Nat) (z : BitVec 16) : Bytes := data.store (n := 2) (2 * e) z

/-- The number of blocks a file can have. -/
def maxBlocks : Nat := 7 + 512 + 512 * 512

namespace FileSys

section
variable {ι : Type*} [DecidableEq ι] (newBlock : Disk → Nat → Nat × Disk) (now : Nat)

/-- `if (create && !inode->i_zone[i]) if (inode->i_zone[i]=new_block(inode->i_dev)) ..`. -/
def ensureZone (fs : FileSys ι) (k : ι) (i : Nat) (create : Bool) : FileSys ι :=
  let inode := fs.inode k
  if create ∧ inode.iZone i = 0 then
    let (z, disk) := newBlock fs.disk inode.iDev
    let inode := { inode with iZone := update inode.iZone i (.ofNat 16 z) }
    let inode := if z ≠ 0 then { inode with iCtime := now, iDirt := true } else inode
    ⟨disk, update fs.inode k inode⟩
  else fs

/-- The use of entry `e` of the index block in zone `z`: its value, after
    `if (create && !i) if (i=new_block(inode->i_dev)) ..`. -/
def ensureEntry (fs : FileSys ι) (k : ι) (z e : Nat) (create : Bool) : Nat × FileSys ι :=
  let dev := (fs.inode k).iDev
  let i := (entry (fs.disk.blocks (dev, z)) e).toNat
  if create ∧ i = 0 then
    let (i, disk) := newBlock fs.disk dev
    if i ≠ 0 then
      let data := setEntry (disk.blocks (dev, z)) e (.ofNat 16 i)
      (i, { fs with disk := { disk with blocks := update disk.blocks (dev, z) data } })
    else (i, { fs with disk := disk })
  else (i, fs)

/-- `_bmap(inode, block, create)`. -/
def bmapOrCreate (fs : FileSys ι) (k : ι) (block : Nat) (create : Bool) :
    Result (Nat × FileSys ι) :=
  if block ≥ maxBlocks then .panic "_bmap: block>big"
  else if block < 7 then
    let fs := fs.ensureZone newBlock now k block create
    .ret (((fs.inode k).iZone block).toNat, fs)
  else if block - 7 < 512 then
    let fs := fs.ensureZone newBlock now k 7 create
    let z := ((fs.inode k).iZone 7).toNat
    if z = 0 then .ret (0, fs) else .ret (fs.ensureEntry newBlock k z (block - 7) create)
  else
    let block := block - 7 - 512
    let fs := fs.ensureZone newBlock now k 8 create
    let z := ((fs.inode k).iZone 8).toNat
    if z = 0 then .ret (0, fs)
    else
      let (i, fs) := fs.ensureEntry newBlock k z (block >>> 9) create
      if i = 0 then .ret (0, fs) else .ret (fs.ensureEntry newBlock k i (block &&& 511) create)

/-- `bmap(inode, block)`. -/
def bmap (fs : FileSys ι) (k : ι) (block : Nat) : Result (Nat × FileSys ι) :=
  fs.bmapOrCreate newBlock now k block false

/-- `create_block(inode, block)`. -/
def createBlock (fs : FileSys ι) (k : ι) (block : Nat) : Result (Nat × FileSys ι) :=
  fs.bmapOrCreate newBlock now k block true

variable (reads : Nat × Nat → Bool)

/-- `bread` of the index block in zone `z` and the use of its entry `e`; 0 if it cannot be read. -/
def readEntry (fs : FileSys ι) (k : ι) (z e : Nat) (create : Bool) : Nat × FileSys ι :=
  if reads ((fs.inode k).iDev, z) then fs.ensureEntry newBlock k z e create else (0, fs)

/-- `_bmap(inode, block, create)` on a disk with blocks that cannot be read. -/
def bmapOrCreateReads (fs : FileSys ι) (k : ι) (block : Nat) (create : Bool) :
    Result (Nat × FileSys ι) :=
  if block ≥ maxBlocks then .panic "_bmap: block>big"
  else if block < 7 then
    let fs := fs.ensureZone newBlock now k block create
    .ret (((fs.inode k).iZone block).toNat, fs)
  else if block - 7 < 512 then
    let fs := fs.ensureZone newBlock now k 7 create
    let z := ((fs.inode k).iZone 7).toNat
    if z = 0 then .ret (0, fs) else .ret (fs.readEntry newBlock reads k z (block - 7) create)
  else
    let block := block - 7 - 512
    let fs := fs.ensureZone newBlock now k 8 create
    let z := ((fs.inode k).iZone 8).toNat
    if z = 0 then .ret (0, fs)
    else
      let (i, fs) := fs.readEntry newBlock reads k z (block >>> 9) create
      if i = 0 then .ret (0, fs)
      else .ret (fs.readEntry newBlock reads k i (block &&& 511) create)

/-- `bmap(inode, block)` on such a disk. -/
def bmapReads (fs : FileSys ι) (k : ι) (block : Nat) : Result (Nat × FileSys ι) :=
  fs.bmapOrCreateReads newBlock now reads k block false

/-- `create_block(inode, block)` on such a disk. -/
def createBlockReads (fs : FileSys ι) (k : ι) (block : Nat) : Result (Nat × FileSys ι) :=
  fs.bmapOrCreateReads newBlock now reads k block true

/-- Where all blocks can be read. -/
lemma bmapOrCreateReads_true (fs : FileSys ι) (k : ι) (block : Nat) (create : Bool) :
    fs.bmapOrCreateReads newBlock now (fun _ => true) k block create =
      fs.bmapOrCreate newBlock now k block create := rfl

end

end FileSys

/-! ## Slots -/

/-- A place that holds a zone number: an `i_zone`, or an entry of the block that a slot names. -/
inductive Slot where
  | top (i : Nat)
  | sub (p : Slot) (e : Nat)
  deriving DecidableEq

/-- The slots whose zones are index blocks. -/
def Slot.Index : Slot → Prop
  | top i => i = 7 ∨ i = 8
  | sub (top i) e => i = 8 ∧ e < 512
  | sub (sub _ _) _ => False

/-- The slots of a file. -/
def Slot.Valid : Slot → Prop
  | top i => i < 9
  | sub p e => p.Index ∧ e < 512

/-- The slot of a file block. -/
def slotOf (block : Nat) : Slot :=
  if block < 7 then .top block
  else if block < 519 then .sub (.top 7) (block - 7)
  else .sub (.sub (.top 8) ((block - 519) / 512)) ((block - 519) % 512)

/-- An index block is in a valid place. -/
lemma Slot.Index.valid {s : Slot} (h : s.Index) : s.Valid := by
  match s with
  | .top i => rcases h with rfl | rfl <;> exact Nat.lt_of_sub_eq_succ rfl
  | .sub (.top i) e => exact ⟨.inr h.1, h.2⟩

/-- Every block up to the limit has a valid place. -/
lemma slotOf_valid {block : Nat} (h : block < maxBlocks) : (slotOf block).Valid := by
  have hmax : maxBlocks = 7 + 512 + 512 * 512 := rfl
  rw [slotOf]
  split
  · show block < 9
    omega
  · split
    · exact ⟨.inl rfl, by omega⟩
    · exact ⟨⟨rfl, by omega⟩, Nat.mod_lt _ (by omega)⟩

/-- A data block is not an index block. -/
lemma slotOf_not_index (block : Nat) : ¬ (slotOf block).Index := by
  rw [slotOf]
  split
  · show ¬ (block = 7 ∨ block = 8)
    omega
  · split
    · show ¬ (7 = 8 ∧ _)
      omega
    · exact id

/-- The file block of a data slot. -/
def Slot.block : Slot → Nat
  | top i => i
  | sub (top _) e => e + 7
  | sub (sub _ e) e' => 519 + 512 * e + e'

/-- The block of the place of a block. -/
lemma block_slotOf (block : Nat) : (slotOf block).block = block := by
  rw [slotOf]
  split
  · rfl
  · split
    · show block - 7 + 7 = block
      omega
    · show 519 + 512 * ((block - 519) / 512) + (block - 519) % 512 = block
      omega

/-- Different blocks have different places. -/
lemma slotOf_injective {b b' : Nat} (h : slotOf b = slotOf b') : b = b' := by
  rw [← block_slotOf b, h, block_slotOf]

/-! ## Entries -/

/-- An entry that is stored is read back. -/
lemma entry_setEntry_self (data : Bytes) (e : Nat) (z : BitVec 16) : entry (setEntry data e z) e = z :=
  Bytes.load_store_self

/-- Storing an entry leaves the others. -/
lemma entry_setEntry_of_ne (data : Bytes) {e e' : Nat} (h : e' ≠ e) (z : BitVec 16) :
    entry (setEntry data e z) e' = entry data e' :=
  Bytes.load_store_of_disjoint (by omega)

/-- A new index block has no entries. -/
lemma entry_zero (e : Nat) : entry (fun _ => 0) e = 0 := by
  apply BitVec.eq_of_getLsbD_eq
  intro k hk
  have h := Bytes.getLsbD_load (n := 2) (m := fun _ => 0) (a := 2 * e) (k := k)
  rw [entry, h]
  simp [Bytes.bit]

/-! ## Well-formed file systems -/

namespace FileSys
variable {ι : Type*} {fs fs' : FileSys ι} {k k' : ι} {s s' : Slot}

/-- The device of a file. -/
def dev (fs : FileSys ι) (k : ι) : Nat := (fs.inode k).iDev

/-- The zone number in a slot, 0 if there is none. -/
def zone (fs : FileSys ι) (k : ι) : Slot → Nat
  | .top i => ((fs.inode k).iZone i).toNat
  | .sub p e =>
    if zone fs k p = 0 then 0
    else (entry (fs.disk.blocks (fs.dev k, zone fs k p)) e).toNat

/-- The address of the zone in a slot. -/
def addr (fs : FileSys ι) (k : ι) (s : Slot) : Nat × Nat := (fs.dev k, fs.zone k s)

/-- The blocks that are read on the way to a slot can be read. -/
def ReadsTo (fs : FileSys ι) (reads : Nat × Nat → Bool) (k : ι) : Slot → Prop
  | .top _ => True
  | .sub p _ => ReadsTo fs reads k p ∧ (fs.zone k p ≠ 0 → reads (fs.addr k p) = true)

/-- The zones of all files are marked used, and no zone is named by two slots. -/
structure WF (fs : FileSys ι) : Prop where
  used : ∀ {k s}, s.Valid → fs.zone k s ≠ 0 → fs.disk.used (fs.addr k s) = true
  inj : ∀ {k s k' s'}, s.Valid → s'.Valid → fs.zone k s ≠ 0 → fs.addr k s = fs.addr k' s' →
    k = k' ∧ s = s'

/-- The contents of a file by byte offset, 0 where there is no zone. -/
def contents (fs : FileSys ι) (k : ι) (off : Nat) : BitVec 8 :=
  if off / 1024 < maxBlocks ∧ fs.zone k (slotOf (off / 1024)) ≠ 0 then
    fs.disk.blocks (fs.addr k (slotOf (off / 1024))) (off % 1024)
  else 0

/-- There is nothing below a zone that is not there. -/
lemma zone_sub_of_zero {p : Slot} {e : Nat} (h : fs.zone k p = 0) : fs.zone k (.sub p e) = 0 := by
  rw [zone, if_pos h]

/-- Below an index block there are its entries. -/
lemma zone_sub_of_ne {p : Slot} {e : Nat} (h : fs.zone k p ≠ 0) :
    fs.zone k (.sub p e) = (entry (fs.disk.blocks (fs.addr k p)) e).toNat := by
  rw [zone, if_neg h]
  rfl

/-- The zone of a slot is not a new one. -/
lemma WF.addr_ne (h : fs.WF) {z} (hfresh : fs.disk.used (fs.dev k, z) = false) (hs : s'.Valid)
    (hz : fs.zone k' s' ≠ 0) : fs.addr k' s' ≠ (fs.dev k, z) := by
  intro e
  have hu := h.used hs hz
  rw [e, hfresh] at hu
  cases hu

/-- A new zone put into an `i_zone`. -/
structure FillsTop (fs fs' : FileSys ι) (k : ι) (i z : Nat) : Prop where
  self : ((fs'.inode k).iZone i).toNat = z
  zones : ∀ k' j, ¬ (k' = k ∧ j = i) → (fs'.inode k').iZone j = (fs.inode k').iZone j
  blocks : ∀ a, a ≠ (fs.dev k, z) → fs'.disk.blocks a = fs.disk.blocks a

/-- A new zone put into entry `e` of the block that slot `p` names. -/
structure FillsEntry (fs fs' : FileSys ι) (k : ι) (p : Slot) (e z : Nat) : Prop where
  zones : ∀ k' j, (fs'.inode k').iZone j = (fs.inode k').iZone j
  parent : fs.zone k p ≠ 0
  entry : fs'.disk.blocks (fs.addr k p) = setEntry (fs.disk.blocks (fs.addr k p)) e (.ofNat 16 z)
  blocks : ∀ a, a ≠ (fs.dev k, z) → a ≠ fs.addr k p → fs'.disk.blocks a = fs.disk.blocks a

/-- A new zone has been put into the empty slot `s`. -/
structure Fill (fs fs' : FileSys ι) (k : ι) (s : Slot) (z : Nat) : Prop where
  ne : z ≠ 0
  lt : z < 65536
  valid : s.Valid
  dev : ∀ k', fs'.dev k' = fs.dev k'
  fresh : fs.disk.used (fs.dev k, z) = false
  used : ∀ a, fs.disk.used a = true ∨ a = (fs.dev k, z) → fs'.disk.used a = true
  empty : fs'.disk.blocks (fs.dev k, z) = fun _ => 0
  before : fs.zone k s = 0
  fills : (∃ i, s = .top i ∧ FillsTop fs fs' k i z) ∨
    ∃ p e, s = .sub p e ∧ p.Index ∧ FillsEntry fs fs' k p e z
  size : (fs'.inode k).iSize = (fs.inode k).iSize
  others : ∀ k', k' ≠ k → fs'.inode k' = fs.inode k'

/-- The zones after a new zone has been put into slot `s`: by induction on the slot, since the zone
    of an entry depends on the zone of its block. -/
lemma Fill.zones [DecidableEq ι] {z : Nat} (hf : Fill fs fs' k s z) (h : fs.WF) (hs' : s'.Valid) :
    fs'.zone k' s' = if k' = k ∧ s' = s then z else fs.zone k' s' := by
  have hz := hf.ne
  have hdev := hf.dev
  have h0 := hf.before
  induction s' with
  | top j =>
    obtain ⟨i, rfl, hg⟩ | ⟨p, e, rfl, _, hg⟩ := hf.fills
    · by_cases hji : k' = k ∧ j = i
      · obtain ⟨rfl, rfl⟩ := hji
        rw [if_pos ⟨rfl, rfl⟩]
        exact hg.self
      · have hne : ¬ (k' = k ∧ Slot.top j = Slot.top i) := by
          rintro ⟨hk, hj⟩
          cases hj
          exact hji ⟨hk, rfl⟩
        rw [if_neg hne, zone, hg.zones k' j hji, zone]
    · rw [if_neg (fun hj => by cases hj.2), zone, hg.zones k' j, zone]
  | sub p' e' ih =>
    have ih := ih hs'.1.valid
    by_cases hself : k' = k ∧ p' = s
    · -- an entry of the new block itself
      obtain ⟨rfl, rfl⟩ := hself
      rw [if_pos ⟨rfl, rfl⟩] at ih
      have hne : ¬ (k' = k' ∧ Slot.sub p' e' = p') := by
        rintro ⟨_, hp⟩
        have hsize := congrArg sizeOf hp
        simp only [Slot.sub.sizeOf_spec] at hsize
        omega
      rw [if_neg hne, zone_sub_of_zero h0, zone_sub_of_ne (ih ▸ hz), addr, ih, hdev, hf.empty, entry_zero]
      rfl
    · rw [if_neg hself] at ih
      by_cases hy : fs.zone k' p' = 0
      · rw [zone_sub_of_zero (ih.trans hy), zone_sub_of_zero hy]
        split
        · obtain ⟨rfl, hsub⟩ := ‹_›
          obtain ⟨i, rfl, _⟩ | ⟨p, e, rfl, _, hg⟩ := hf.fills
          · cases hsub
          · cases hsub
            exact (hg.parent hy).elim
        · rfl
      · -- an index block that was there before
        have ha : fs'.addr k' p' = fs.addr k' p' := by rw [addr, ih, hdev, addr]
        have hold : fs.addr k' p' ≠ (fs.dev k, z) := h.addr_ne hf.fresh hs'.1.valid hy
        rw [zone_sub_of_ne (ih ▸ hy), ha]
        have hlt := hf.lt
        obtain ⟨i, rfl, hg⟩ | ⟨p, e, rfl, hp, hg⟩ := hf.fills
        · rw [if_neg (fun hj => by cases hj.2), hg.blocks _ hold, zone_sub_of_ne hy]
        · -- the only entry that has changed is the one that was filled
          by_cases hsame : fs.addr k' p' = fs.addr k p
          · obtain ⟨rfl, rfl⟩ := h.inj hs'.1.valid hp.valid hy hsame
            rw [hg.entry]
            by_cases he : e' = e
            · subst he
              rw [if_pos ⟨rfl, rfl⟩, entry_setEntry_self, BitVec.toNat_ofNat]
              exact Nat.mod_eq_of_lt hlt
            · have hne : ¬ (k' = k' ∧ Slot.sub p' e' = Slot.sub p' e) := by
                rintro ⟨_, hj⟩
                cases hj
                exact he rfl
              rw [if_neg hne, entry_setEntry_of_ne _ he, zone_sub_of_ne hy]
          · have hne : ¬ (k' = k ∧ Slot.sub p' e' = Slot.sub p e) := by
              rintro ⟨rfl, hj⟩
              cases hj
              exact hsame rfl
            rw [if_neg hne, hg.blocks _ hold hsame, zone_sub_of_ne hy]

/-- The data of the files after a new zone has been put into a slot. -/
lemma Fill.data {z : Nat} (hf : Fill fs fs' k s z) (h : fs.WF) (hs' : s'.Valid) (hdata : ¬ s'.Index)
    (hz : fs.zone k' s' ≠ 0) :
    fs'.disk.blocks (fs.addr k' s') = fs.disk.blocks (fs.addr k' s') := by
  have hold := h.addr_ne hf.fresh hs' hz
  obtain ⟨i, rfl, hg⟩ | ⟨p, e, rfl, hp, hg⟩ := hf.fills
  · exact hg.blocks _ hold
  · refine hg.blocks _ hold fun hsame => ?_
    obtain ⟨_, rfl⟩ := h.inj hs' hp.valid hz hsame
    exact hdata hp

/-- What the operations of the block map keep: the file system stays well formed, and every file keeps
    its contents, its device and its size; the other inodes do not change at all. -/
structure Keeps (fs fs' : FileSys ι) (k : ι) : Prop where
  wf : fs'.WF
  contents : ∀ k' off, fs'.contents k' off = fs.contents k' off
  dev : ∀ k', fs'.dev k' = fs.dev k'
  size : (fs'.inode k).iSize = (fs.inode k).iSize
  others : ∀ k', k' ≠ k → fs'.inode k' = fs.inode k'

/-- Nothing done keeps everything. -/
lemma Keeps.refl (h : fs.WF) : Keeps fs fs k :=
  ⟨h, fun _ _ => rfl, fun _ => rfl, rfl, fun _ _ => rfl⟩

/-- Two steps that keep the other blocks keep them together. -/
lemma Keeps.trans {fs'' : FileSys ι} (h : Keeps fs fs' k) (h' : Keeps fs' fs'' k) :
    Keeps fs fs'' k where
  wf := h'.wf
  contents k' off := (h'.contents k' off).trans (h.contents k' off)
  dev k' := (h'.dev k').trans (h.dev k')
  size := h'.size.trans h.size
  others k' hk := (h'.others k' hk).trans (h.others k' hk)

/-- Putting a new zone into an empty slot keeps everything. -/
lemma Fill.keeps [DecidableEq ι] {z : Nat} (hf : Fill fs fs' k s z) (h : fs.WF) :
    Keeps fs fs' k ∧ fs'.zone k s = z := by
  have hz := hf.ne
  have hdev := hf.dev
  have hzone : ∀ {k' s'}, s'.Valid →
      fs'.zone k' s' = if k' = k ∧ s' = s then z else fs.zone k' s' := fun hs' => hf.zones h hs'
  have hself : fs'.zone k s = z := by rw [hzone hf.valid, if_pos ⟨rfl, rfl⟩]
  have haddr : ∀ {k' s'}, s'.Valid →
      fs'.addr k' s' = if k' = k ∧ s' = s then (fs.dev k, z) else fs.addr k' s' := by
    intro k' s' hs'
    rw [addr, hzone hs', hdev]
    split
    · obtain ⟨rfl, _⟩ := ‹_›
      rfl
    · rfl
  refine ⟨⟨⟨?_, ?_⟩, ?_, hdev, hf.size, hf.others⟩, hself⟩
  · intro k' s' hs' hz'
    rw [haddr hs']
    rw [hzone hs'] at hz'
    split at hz' <;> rename_i hc
    · rw [if_pos hc]
      exact hf.used _ (.inr rfl)
    · rw [if_neg hc]
      exact hf.used _ (.inl (h.used hs' hz'))
  · intro k₁ s₁ k₂ s₂ hs₁ hs₂ hz₁ ha
    rw [haddr hs₁, haddr hs₂] at ha
    rw [hzone hs₁] at hz₁
    by_cases h₁ : k₁ = k ∧ s₁ = s
    · by_cases h₂ : k₂ = k ∧ s₂ = s
      · exact ⟨h₁.1.trans h₂.1.symm, h₁.2.trans h₂.2.symm⟩
      · rw [if_pos h₁, if_neg h₂] at ha
        have hz₂ : fs.zone k₂ s₂ ≠ 0 := by
          intro e
          have hsnd := congrArg Prod.snd ha
          exact hz (hsnd.trans e)
        exact (h.addr_ne hf.fresh hs₂ hz₂ ha.symm).elim
    · rw [if_neg h₁] at ha hz₁
      by_cases h₂ : k₂ = k ∧ s₂ = s
      · rw [if_pos h₂] at ha
        exact (h.addr_ne hf.fresh hs₁ hz₁ ha).elim
      · rw [if_neg h₂] at ha
        exact h.inj hs₁ hs₂ hz₁ ha
  · intro k' off
    rw [FileSys.contents, FileSys.contents]
    by_cases hb : off / 1024 < maxBlocks
    swap
    · simp only [hb, false_and, if_false]
    have hv := slotOf_valid hb
    rw [hzone hv, haddr hv]
    by_cases hc : k' = k ∧ slotOf (off / 1024) = s
    · -- a hole before, a block of zeros now
      obtain ⟨rfl, rfl⟩ := hc
      simp [hb, hz, hf.before, hf.empty]
    · simp only [if_neg hc]
      by_cases hz' : fs.zone k' (slotOf (off / 1024)) = 0
      · simp [hz']
      · rw [hf.data h hv (slotOf_not_index _) hz']

/-- The zones depend on the `i_zone` of the inodes and on the index blocks only. -/
lemma zone_congr (hz : ∀ k i, (fs'.inode k).iZone i = (fs.inode k).iZone i)
    (hd : ∀ k, fs'.dev k = fs.dev k)
    (hb : ∀ {k s}, s.Index → fs.zone k s ≠ 0 →
      fs'.disk.blocks (fs.addr k s) = fs.disk.blocks (fs.addr k s)) (hs : s.Valid) :
    fs'.zone k s = fs.zone k s := by
  induction s with
  | top i => rw [zone, zone, hz]
  | sub p e ih =>
    have ih := ih hs.1.valid
    by_cases h0 : fs.zone k p = 0
    · rw [zone_sub_of_zero (ih.trans h0), zone_sub_of_zero h0]
    · rw [zone_sub_of_ne (ih ▸ h0), zone_sub_of_ne h0, addr, ih, hd]
      exact congrArg (fun b => (entry b e).toNat) (hb hs.1 h0)

/-- The invariant depends on the zones, the devices and what is in use. -/
lemma WF.congr (h : fs.WF) (hzone : ∀ {k s}, s.Valid → fs'.zone k s = fs.zone k s)
    (hd : ∀ k, fs'.dev k = fs.dev k) (hu : ∀ a, fs.disk.used a = true → fs'.disk.used a = true) :
    fs'.WF := by
  have haddr : ∀ {k s}, s.Valid → fs'.addr k s = fs.addr k s := by
    intro k s hs
    rw [addr, hzone hs, hd, addr]
  refine ⟨fun hs hz => ?_, fun hs hs' hz ha => ?_⟩
  · rw [haddr hs]
    exact hu _ (h.used hs (hzone hs ▸ hz))
  · rw [haddr hs, haddr hs'] at ha
    exact h.inj hs hs' (hzone hs ▸ hz) ha

/-- Marking more zones used keeps everything. -/
lemma keeps_of_used (h : fs.WF) {disk : Disk} (hb : disk.blocks = fs.disk.blocks)
    (hu : ∀ a, fs.disk.used a = true → disk.used a = true) :
    Keeps fs { fs with disk := disk } k ∧
      ∀ {k' s'}, s'.Valid → FileSys.zone { fs with disk := disk } k' s' = fs.zone k' s' := by
  have hzone : ∀ {k' s'}, s'.Valid → FileSys.zone { fs with disk := disk } k' s' = fs.zone k' s' :=
    fun hs' => zone_congr (fun _ _ => rfl) (fun _ => rfl) (fun _ _ => congrFun hb _) hs'
  refine ⟨⟨h.congr hzone (fun _ => rfl) hu, fun k' off => ?_, fun _ => rfl, rfl, fun _ _ => rfl⟩, hzone⟩
  rw [FileSys.contents, FileSys.contents]
  by_cases hlt : off / 1024 < maxBlocks
  · rw [addr, hzone (slotOf_valid hlt), hb]
    rfl
  · simp only [hlt, false_and, if_false]

/-! ## The walk -/

/-- What is asked of `new_block`: it returns 0 and leaves the blocks alone, or it returns an unused
    zone, which it marks used and clears. -/
structure Allocates (newBlock : Disk → Nat → Nat × Disk) : Prop where
  lt : ∀ d dev, (newBlock d dev).1 < 65536
  failed : ∀ d dev, (newBlock d dev).1 = 0 →
    (newBlock d dev).2.blocks = d.blocks ∧
      ∀ a, d.used a = true → (newBlock d dev).2.used a = true
  fresh : ∀ d dev, (newBlock d dev).1 ≠ 0 →
    d.used (dev, (newBlock d dev).1) = false ∧
      (∀ a, d.used a = true ∨ a = (dev, (newBlock d dev).1) → (newBlock d dev).2.used a = true) ∧
      (newBlock d dev).2.blocks = update d.blocks (dev, (newBlock d dev).1) fun _ => 0

/-- What filling in a slot comes to: there is a zone already, or `new_block` finds none or one. -/
inductive Ensured (fs fs' : FileSys ι) (k : ι) (s : Slot) : Prop where
  | already : fs' = fs → fs.zone k s ≠ 0 → Ensured fs fs' k s
  | failed {disk : Disk} : fs' = { fs with disk := disk } → disk.blocks = fs.disk.blocks →
    (∀ a, fs.disk.used a = true → disk.used a = true) → fs.zone k s = 0 → Ensured fs fs' k s
  | filled {z : Nat} : Fill fs fs' k s z → Ensured fs fs' k s

section
variable [DecidableEq ι] {newBlock : Disk → Nat → Nat × Disk} {now : Nat} {reads : Nat × Nat → Bool}

/-- Allocating a zone keeps all others. -/
lemma Ensured.keeps (h : fs.WF) (he : Ensured fs fs' k s) : Keeps fs fs' k := by
  cases he with
  | already e _ =>
    rw [e]
    exact .refl h
  | failed e hb hu _ =>
    rw [e]
    exact (keeps_of_used h hb hu).1
  | filled hf => exact (hf.keeps h).1

/-- No other slot changes. -/
lemma Ensured.zone_of_ne (h : fs.WF) (he : Ensured fs fs' k s) (hs' : s'.Valid)
    (hne : ¬ (k' = k ∧ s' = s)) : fs'.zone k' s' = fs.zone k' s' := by
  cases he with
  | already e _ => rw [e]
  | failed e hb hu _ =>
    rw [e]
    exact (keeps_of_used (k := k) h hb hu).2 hs'
  | filled hf =>
    rw [hf.zones h hs', if_neg hne]

/-- No zone that is there changes. -/
lemma Ensured.zone_of_ne_zero (h : fs.WF) (he : Ensured fs fs' k s) (hs' : s'.Valid)
    (hz : fs.zone k' s' ≠ 0) : fs'.zone k' s' = fs.zone k' s' := by
  by_cases hself : k' = k ∧ s' = s
  · obtain ⟨rfl, rfl⟩ := hself
    cases he with
    | already e _ => rw [e]
    | failed _ _ _ h0 => exact absurd h0 hz
    | filled hf => exact absurd hf.before hz
  · exact he.zone_of_ne h hs' hself

/-- Nothing is filled in: `create` is not set, or there is a zone. -/
lemma ensureZone_keep {i : Nat} {create : Bool} (h : create = true → fs.zone k (.top i) ≠ 0) :
    fs.ensureZone newBlock now k i create = fs := by
  rw [ensureZone, if_neg]
  intro hc
  have h0 : fs.zone k (.top i) = 0 := by
    rw [zone, hc.2]
    rfl
  exact h hc.1 h0

omit [DecidableEq ι] in
/-- An entry that is there is kept. -/
lemma ensureEntry_keep {p : Slot} {e : Nat} {create : Bool} (hp : fs.zone k p ≠ 0)
    (h : create = true → fs.zone k (.sub p e) ≠ 0) :
    fs.ensureEntry newBlock k (fs.zone k p) e create = (fs.zone k (.sub p e), fs) := by
  rw [zone_sub_of_ne hp] at h ⊢
  rw [ensureEntry, if_neg fun hc => h hc.1 hc.2]
  rfl

/-- `new_block` fails. -/
lemma ensureZone_of_failed {i : Nat} (h : fs.zone k (.top i) = 0)
    (hf : (newBlock fs.disk (fs.dev k)).1 = 0) :
    fs.ensureZone newBlock now k i true = { fs with disk := (newBlock fs.disk (fs.dev k)).2 } := by
  have h0 : (fs.inode k).iZone i = 0 := BitVec.eq_of_toNat_eq h
  have hf' : (newBlock fs.disk (fs.inode k).iDev).1 = 0 := hf
  have hz : update (fs.inode k).iZone i (.ofNat 16 0) = (fs.inode k).iZone :=
    update_eq_self_iff.2 h0.symm
  have e : update fs.inode k { fs.inode k with iZone := update (fs.inode k).iZone i (.ofNat 16 0) } =
      fs.inode := by
    rw [hz]
    exact update_eq_self _ _
  rw [ensureZone, if_pos ⟨rfl, h0⟩]
  simp only [hf', ne_eq, not_true, if_false, e]
  rfl

omit [DecidableEq ι] in
/-- Without a free zone the entry stays 0. -/
lemma ensureEntry_of_failed {p : Slot} {e : Nat} (hp : fs.zone k p ≠ 0)
    (h : fs.zone k (.sub p e) = 0) (hf : (newBlock fs.disk (fs.dev k)).1 = 0) :
    fs.ensureEntry newBlock k (fs.zone k p) e true =
      (0, { fs with disk := (newBlock fs.disk (fs.dev k)).2 }) := by
  have hf' : (newBlock fs.disk (fs.inode k).iDev).1 = 0 := hf
  rw [zone_sub_of_ne hp] at h
  rw [ensureEntry, if_pos ⟨rfl, h⟩]
  simp only [hf', ne_eq, not_true, if_false]
  rfl

/-- A zone of the inode is there, or none is free. -/
lemma ensureZone_ensured (ha : Allocates newBlock) {i : Nat} (hi : i < 9) :
    Ensured fs (fs.ensureZone newBlock now k i true) k (.top i) := by
  by_cases h0 : fs.zone k (.top i) = 0
  swap
  · exact .already (ensureZone_keep fun _ => h0) h0
  by_cases hz : (newBlock fs.disk (fs.dev k)).1 = 0
  · obtain ⟨hb, hu⟩ := ha.failed _ _ hz
    exact .failed (ensureZone_of_failed h0 hz) hb hu h0
  -- a new zone in the inode
  obtain ⟨hfresh, hused, hblocks⟩ := ha.fresh _ _ hz
  have hc : true = true ∧ (fs.inode k).iZone i = 0 := ⟨rfl, BitVec.eq_of_toNat_eq h0⟩
  have hz' : ¬ (newBlock fs.disk (fs.inode k).iDev).1 = 0 := hz
  rw [ensureZone, if_pos hc]
  simp only [ne_eq, hz', not_false_eq_true, if_true]
  refine .filled ⟨hz, ha.lt _ _, hi, ?_, hfresh, hused, ?_, h0, .inl ⟨i, rfl, ?_, ?_, ?_⟩, ?_, ?_⟩
  · intro k'
    by_cases e : k' = k
    · subst e; simp [dev]
    · simp [dev, e]
  · show (newBlock fs.disk (fs.inode k).iDev).2.blocks (fs.dev k, _) = _
    rw [← dev, hblocks]
    exact update_self _ _ _
  · have hlt := ha.lt fs.disk (fs.inode k).iDev
    simp only [update_self, BitVec.toNat_ofNat]
    exact Nat.mod_eq_of_lt hlt
  · intro k' j hne
    by_cases e : k' = k
    · subst e
      have hj : j ≠ i := fun hj => hne ⟨rfl, hj⟩
      simp [hj]
    · simp [e]
  · intro a ha'
    show (newBlock fs.disk (fs.inode k).iDev).2.blocks a = _
    rw [← dev, hblocks]
    exact update_of_ne ha' _ _
  · simp
  · intro k' hk'
    simp [hk']

/-- An entry of an index block is there, or no zone is free. -/
lemma ensureEntry_ensured (ha : Allocates newBlock) (h : fs.WF) {p : Slot} {e z : Nat} (hp : p.Index)
    (he : e < 512) (hpz : fs.zone k p = z) (hz0 : z ≠ 0) :
    let o := fs.ensureEntry newBlock k z e true
    Ensured fs o.2 k (.sub p e) ∧ o.2.zone k (.sub p e) = o.1 := by
  subst hpz
  have hs : (Slot.sub p e).Valid := ⟨hp, he⟩
  by_cases h0 : fs.zone k (.sub p e) = 0
  swap
  · rw [ensureEntry_keep hz0 fun _ => h0]
    exact ⟨.already rfl h0, rfl⟩
  by_cases hz : (newBlock fs.disk (fs.dev k)).1 = 0
  · obtain ⟨hb, hu⟩ := ha.failed _ _ hz
    obtain ⟨_, hzone⟩ := keeps_of_used (k := k) h hb hu
    rw [ensureEntry_of_failed hz0 h0 hz]
    exact ⟨.failed rfl hb hu h0, (hzone hs).trans h0⟩
  -- a new zone in the index block
  obtain ⟨hfresh, hused, hblocks⟩ := ha.fresh _ _ hz
  have hold : fs.addr k p ≠ (fs.dev k, (newBlock fs.disk (fs.dev k)).1) := h.addr_ne hfresh hp.valid hz0
  have hc : true = true ∧
      (entry (fs.disk.blocks ((fs.inode k).iDev, fs.zone k p)) e).toNat = 0 :=
    ⟨rfl, (zone_sub_of_ne hz0).symm.trans h0⟩
  have hz' : ¬ (newBlock fs.disk (fs.inode k).iDev).1 = 0 := hz
  rw [ensureEntry, if_pos hc]
  simp only [ne_eq, hz', not_false_eq_true, if_true]
  have hf : Fill fs { fs with disk := { (newBlock fs.disk (fs.dev k)).2 with
      blocks := update (newBlock fs.disk (fs.dev k)).2.blocks (fs.addr k p)
        (setEntry ((newBlock fs.disk (fs.dev k)).2.blocks (fs.addr k p)) e
          (.ofNat 16 (newBlock fs.disk (fs.dev k)).1)) } } k (.sub p e)
      (newBlock fs.disk (fs.dev k)).1 := by
    refine ⟨hz, ha.lt _ _, hs, fun _ => rfl, hfresh, hused, ?_, h0,
      .inr ⟨p, e, rfl, hp, fun _ _ => rfl, hz0, ?_, ?_⟩, rfl, fun _ _ => rfl⟩
    · show update _ _ _ (fs.dev k, _) = _
      rw [update_of_ne hold.symm, hblocks]
      exact update_self _ _ _
    · simp only [update_self, hblocks, update_of_ne hold]
    · intro a ha₁ ha₂
      simp only [update_of_ne ha₂, hblocks]
      exact update_of_ne ha₁ _ _
  exact ⟨.filled hf, (hf.keeps h).2⟩

/-- The walk of `_bmap`, by the number of index blocks on it. -/
lemma bmapOrCreateReads_direct {block : Nat} (h7 : block < 7) (create : Bool) :
    fs.bmapOrCreateReads newBlock now reads k block create =
      let fs := fs.ensureZone newBlock now k block create
      .ret (fs.zone k (.top block), fs) := by
  have hb : ¬ block ≥ maxBlocks := by
    show ¬ block ≥ 7 + 512 + 512 * 512
    omega
  rw [bmapOrCreateReads, if_neg hb, if_pos h7]
  rfl

/-- `_bmap` through the index block. -/
lemma bmapOrCreateReads_ind {block : Nat} (h7 : ¬ block < 7) (h519 : block < 519) (create : Bool) :
    fs.bmapOrCreateReads newBlock now reads k block create =
      let fs := fs.ensureZone newBlock now k 7 create
      let z := fs.zone k (.top 7)
      if z = 0 then .ret (0, fs) else .ret (fs.readEntry newBlock reads k z (block - 7) create) := by
  have hb : ¬ block ≥ maxBlocks := by
    show ¬ block ≥ 7 + 512 + 512 * 512
    omega
  rw [bmapOrCreateReads, if_neg hb, if_neg h7, if_pos (by omega)]
  rfl

/-- `_bmap` through the block of index blocks. -/
lemma bmapOrCreateReads_dind {block : Nat} (h519 : ¬ block < 519) (hb : block < maxBlocks)
    (create : Bool) :
    fs.bmapOrCreateReads newBlock now reads k block create =
      let fs := fs.ensureZone newBlock now k 8 create
      let z := fs.zone k (.top 8)
      if z = 0 then .ret (0, fs)
      else
        let o := fs.readEntry newBlock reads k z ((block - 519) / 512) create
        if o.1 = 0 then .ret (0, o.2)
        else .ret (o.2.readEntry newBlock reads k o.1 ((block - 519) % 512) create) := by
  have e : block - 7 - 512 = block - 519 := by omega
  have e9 : (block - 519) >>> 9 = (block - 519) / 512 := Nat.shiftRight_eq_div_pow _ 9
  have e511 : (block - 519) &&& 511 = (block - 519) % 512 := Nat.and_two_pow_sub_one_eq_mod _ 9
  rw [bmapOrCreateReads, if_neg (Nat.not_le.2 hb), if_neg (by omega), if_neg (by omega)]
  simp only [e, e9, e511]
  rfl

/-- `_bmap` for one of the first seven blocks. -/
lemma bmapOrCreate_direct {block : Nat} (h7 : block < 7) (create : Bool) :
    fs.bmapOrCreate newBlock now k block create =
      let fs := fs.ensureZone newBlock now k block create
      .ret (fs.zone k (.top block), fs) := by
  rw [← bmapOrCreateReads_true, bmapOrCreateReads_direct h7]

/-- `_bmap` through the index block, where all blocks can be read. -/
lemma bmapOrCreate_ind {block : Nat} (h7 : ¬ block < 7) (h519 : block < 519) (create : Bool) :
    fs.bmapOrCreate newBlock now k block create =
      let fs := fs.ensureZone newBlock now k 7 create
      let z := fs.zone k (.top 7)
      if z = 0 then .ret (0, fs) else .ret (fs.ensureEntry newBlock k z (block - 7) create) := by
  rw [← bmapOrCreateReads_true, bmapOrCreateReads_ind h7 h519]
  rfl

/-- `_bmap` through the block of index blocks, where all blocks can be read. -/
lemma bmapOrCreate_dind {block : Nat} (h519 : ¬ block < 519) (hb : block < maxBlocks) (create : Bool) :
    fs.bmapOrCreate newBlock now k block create =
      let fs := fs.ensureZone newBlock now k 8 create
      let z := fs.zone k (.top 8)
      if z = 0 then .ret (0, fs)
      else
        let o := fs.ensureEntry newBlock k z ((block - 519) / 512) create
        if o.1 = 0 then .ret (0, o.2)
        else .ret (o.2.ensureEntry newBlock k o.1 ((block - 519) % 512) create) := by
  rw [← bmapOrCreateReads_true, bmapOrCreateReads_dind h519 hb]
  rfl

/-- What `create_block` on the way to slot `s` keeps: everything that `Keeps` says, the data slots other
    than `s`, and all zones that are there. -/
structure Walked (fs fs' : FileSys ι) (k : ι) (s : Slot) : Prop where
  keeps : Keeps fs fs' k
  zones : ∀ k' s', s'.Valid → ¬ s'.Index → ¬ (k' = k ∧ s' = s) → fs'.zone k' s' = fs.zone k' s'
  grows : ∀ k' s', s'.Valid → fs.zone k' s' ≠ 0 → fs'.zone k' s' = fs.zone k' s'

omit [DecidableEq ι] in
/-- Two parts of a walk are one. -/
lemma Walked.trans {fs'' : FileSys ι} (h : Walked fs fs' k s) (h' : Walked fs' fs'' k s) :
    Walked fs fs'' k s where
  keeps := h.keeps.trans h'.keeps
  zones k' s' hs' hi hne := (h'.zones k' s' hs' hi hne).trans (h.zones k' s' hs' hi hne)
  grows k' s' hs' hz := by
    have hz' := h.grows k' s' hs' hz
    exact (h'.grows k' s' hs' (hz' ▸ hz)).trans hz'

/-- Filling in an index slot, or `s` itself. -/
lemma Ensured.walked (h : fs.WF) {t : Slot} (he : Ensured fs fs' k t) (ht : t.Index ∨ t = s) :
    Walked fs fs' k s := by
  refine ⟨he.keeps h, fun k' s' hs' hi hne => ?_, fun _ _ hs' hz => he.zone_of_ne_zero h hs' hz⟩
  refine he.zone_of_ne h hs' fun hself => ?_
  rcases ht with ht | rfl
  · exact hi (hself.2 ▸ ht)
  · exact hne hself

omit [DecidableEq ι] in
/-- The blocks on the way to a zone that has not gone. -/
lemma ReadsTo.of_grows (hg : ∀ s', s'.Valid → fs.zone k s' ≠ 0 → fs'.zone k s' = fs.zone k s')
    (hd : fs'.dev k = fs.dev k) (hs : s.Valid) (hz : fs.zone k s ≠ 0) (h : fs.ReadsTo reads k s) :
    fs'.ReadsTo reads k s := by
  induction s with
  | top i => trivial
  | sub p e ih =>
    have hp : fs.zone k p ≠ 0 := fun h0 => hz (zone_sub_of_zero h0)
    refine ⟨ih hs.1.valid hp h.1, fun _ => ?_⟩
    have ha : fs'.addr k p = fs.addr k p := by rw [addr, hd, hg p hs.1.valid hp, addr]
    rw [ha]
    exact h.2 hp

/-- What the use of an entry on the way comes to: the index block cannot be read, or the entry is filled
    in. -/
lemma readEntry_walked (ha : Allocates newBlock) (h : fs.WF) {p : Slot} {e z : Nat} (hp : p.Index)
    (he : e < 512) (hpz : fs.zone k p = z) (hz0 : z ≠ 0) (ht : (Slot.sub p e).Index ∨ Slot.sub p e = s)
    (hr : fs.ReadsTo reads k p) :
    let o := fs.readEntry newBlock reads k z e true
    Walked fs o.2 k s ∧ (reads (fs.addr k p) = false ∧ o.1 = 0 ∨
      o.2.zone k (.sub p e) = o.1 ∧ o.2.ReadsTo reads k (.sub p e)) := by
  have haddr : fs.addr k p = ((fs.inode k).iDev, z) := by rw [addr, hpz]; rfl
  rw [readEntry, ← haddr]
  by_cases hread : reads (fs.addr k p) = true
  · rw [if_pos hread]
    obtain ⟨hens, hzone⟩ := ensureEntry_ensured ha h hp he hpz hz0
    have hw := hens.walked h ht
    have hne : fs.zone k p ≠ 0 := hpz ▸ hz0
    have hg := hw.grows k p hp.valid hne
    have ha' : (fs.ensureEntry newBlock k z e true).2.addr k p = fs.addr k p := by
      rw [addr, hw.keeps.dev, hg, addr]
    have hpath := hr.of_grows (hw.grows k) (hw.keeps.dev k) hp.valid hne
    exact ⟨hw, .inr ⟨hzone, hpath, fun _ => ha' ▸ hread⟩⟩
  · rw [if_neg hread]
    exact ⟨⟨.refl h, fun _ _ _ _ _ => rfl, fun _ _ _ _ => rfl⟩, .inl ⟨Bool.eq_false_iff.2 hread, rfl⟩⟩

/-- `create_block` returns the zone of the block in the file system it leaves, 0 if it could not be
    allocated or a block on the way cannot be read. -/
lemma createBlockReads_walked (ha : Allocates newBlock) (h : fs.WF) {block : Nat}
    (hb : block < maxBlocks) :
    ∃ z fs', fs.createBlockReads newBlock now reads k block = .ret (z, fs') ∧
      Walked fs fs' k (slotOf block) ∧
      (z = 0 ∧ (∃ a, reads a = false) ∨
        fs'.zone k (slotOf block) = z ∧ fs'.ReadsTo reads k (slotOf block)) := by
  have hmax : maxBlocks = 7 + 512 + 512 * 512 := rfl
  rw [createBlockReads, slotOf]
  by_cases h7 : block < 7
  · rw [if_pos h7, bmapOrCreateReads_direct h7]
    exact ⟨_, _, rfl, (ensureZone_ensured ha (by omega)).walked h (.inr rfl), .inr ⟨rfl, trivial⟩⟩
  rw [if_neg h7]
  by_cases h519 : block < 519
  · rw [if_pos h519, bmapOrCreateReads_ind h7 h519]
    have hw : Walked fs (fs.ensureZone newBlock now k 7 true) k (.sub (.top 7) (block - 7)) :=
      (ensureZone_ensured ha (by omega)).walked h (.inl (.inl rfl))
    generalize fs.ensureZone newBlock now k 7 true = fs₁ at hw
    by_cases hz : fs₁.zone k (.top 7) = 0
    · exact ⟨0, fs₁, if_pos hz, hw, .inr ⟨zone_sub_of_zero hz, trivial, fun h0 => absurd hz h0⟩⟩
    · obtain ⟨hw', hres⟩ := readEntry_walked ha hw.keeps.wf (p := .top 7) (e := block - 7) (k := k)
        (.inl rfl) (by omega) rfl hz (.inr rfl) (trivial : fs₁.ReadsTo reads k (.top 7))
      exact ⟨_, _, if_neg hz, hw.trans hw', hres.imp (fun hf => ⟨hf.2, _, hf.1⟩) id⟩
  · rw [if_neg h519, bmapOrCreateReads_dind h519 hb]
    have hw : Walked fs (fs.ensureZone newBlock now k 8 true) k
        (.sub (.sub (.top 8) ((block - 519) / 512)) ((block - 519) % 512)) :=
      (ensureZone_ensured ha (by omega)).walked h (.inl (.inr rfl))
    generalize fs.ensureZone newBlock now k 8 true = fs₁ at hw
    by_cases hz : fs₁.zone k (.top 8) = 0
    · have hi : fs₁.zone k (.sub (.top 8) ((block - 519) / 512)) = 0 := zone_sub_of_zero hz
      exact ⟨0, fs₁, if_pos hz, hw, .inr ⟨zone_sub_of_zero hi, ⟨trivial, fun h0 => absurd hz h0⟩,
        fun h0 => absurd hi h0⟩⟩
    · have hidx : (Slot.sub (.top 8) ((block - 519) / 512)).Index := ⟨rfl, by omega⟩
      obtain ⟨hw', hres⟩ := readEntry_walked ha hw.keeps.wf (p := .top 8)
        (e := (block - 519) / 512) (k := k) (.inr rfl) (by omega) rfl hz (.inl hidx)
        (trivial : fs₁.ReadsTo reads k (.top 8))
      simp only [if_neg hz]
      generalize fs₁.readEntry newBlock reads k _ _ true = o at hw' hres
      have hw₂ := hw.trans hw'
      by_cases hi : o.1 = 0
      · refine ⟨0, o.2, if_pos hi, hw₂, hres.imp (fun hf => ⟨rfl, _, hf.1⟩) fun hr => ?_⟩
        have h0 := hr.1.trans hi
        exact ⟨zone_sub_of_zero h0, hr.2, fun hne => absurd h0 hne⟩
      · obtain ⟨hzone, hreads⟩ := hres.resolve_left fun hf => hi hf.2
        obtain ⟨hw₃, hres₃⟩ := readEntry_walked ha hw₂.keeps.wf (e := (block - 519) % 512) hidx
          (Nat.mod_lt _ (by omega)) hzone hi (.inr rfl) hreads
        exact ⟨_, _, if_neg hi, hw₂.trans hw₃, hres₃.imp (fun hf => ⟨hf.2, _, hf.1⟩) id⟩

/-- `create_block` returns the zone of the block in the file system it leaves, 0 if it could not be
    allocated. -/
lemma createBlock_walked (ha : Allocates newBlock) (h : fs.WF) {block : Nat} (hb : block < maxBlocks) :
    ∃ z fs', fs.createBlock newBlock now k block = .ret (z, fs') ∧ Walked fs fs' k (slotOf block) ∧
      fs'.zone k (slotOf block) = z := by
  obtain ⟨z, fs', e, hw, hres⟩ :
      ∃ z fs', fs.createBlockReads newBlock now (fun _ => true) k block = .ret (z, fs') ∧
        Walked fs fs' k (slotOf block) ∧ (z = 0 ∧ (∃ a : Nat × Nat, true = false) ∨ _) :=
    createBlockReads_walked ha h hb
  exact ⟨z, fs', e, hw, (hres.resolve_left fun hf => by cases hf.2 with | intro _ hc => cases hc).1⟩

/-- The same with what it keeps for the files. -/
lemma createBlock_spec (ha : Allocates newBlock) (h : fs.WF) {block : Nat} (hb : block < maxBlocks) :
    ∃ z fs', fs.createBlock newBlock now k block = .ret (z, fs') ∧ Keeps fs fs' k ∧
      fs'.zone k (slotOf block) = z := by
  obtain ⟨z, fs', e, hw, hz⟩ := createBlock_walked ha h hb
  exact ⟨z, fs', e, hw.keeps, hz⟩

/-! ## A walk over zones that are there -/

omit [DecidableEq ι] in
/-- An entry that can be read and is there is kept. -/
lemma readEntry_keep {p : Slot} {e : Nat} {create : Bool} (hp : fs.zone k p ≠ 0)
    (h : create = true → fs.zone k (.sub p e) ≠ 0) (hr : reads (fs.addr k p) = true) :
    fs.readEntry newBlock reads k (fs.zone k p) e create = (fs.zone k (.sub p e), fs) := by
  have hr' : reads ((fs.inode k).iDev, fs.zone k p) = true := hr
  rw [readEntry, if_pos hr', ensureEntry_keep hp h]

omit [DecidableEq ι] in
/-- Without the index block there is no entry. -/
lemma readEntry_of_unread {p : Slot} {e : Nat} {create : Bool} (hr : ¬ reads (fs.addr k p) = true) :
    fs.readEntry newBlock reads k (fs.zone k p) e create = (0, fs) :=
  if_neg hr

/-- Where nothing is filled in, the walk reads off the zone of the block, or it stops at a block that
    cannot be read. -/
lemma bmapOrCreateReads_keep {block : Nat} {create : Bool} (hb : block < maxBlocks)
    (h : create = true → fs.zone k (slotOf block) ≠ 0) :
    ∃ z, fs.bmapOrCreateReads newBlock now reads k block create = .ret (z, fs) ∧
      (z = 0 ∧ ¬ fs.ReadsTo reads k (slotOf block) ∨
        z = fs.zone k (slotOf block) ∧ fs.ReadsTo reads k (slotOf block)) := by
  rw [slotOf] at h ⊢
  by_cases h7 : block < 7
  · rw [if_pos h7] at h ⊢
    rw [bmapOrCreateReads_direct h7, ensureZone_keep h]
    exact ⟨_, rfl, .inr ⟨rfl, trivial⟩⟩
  rw [if_neg h7] at h ⊢
  by_cases h519 : block < 519
  · rw [if_pos h519] at h ⊢
    rw [bmapOrCreateReads_ind h7 h519, ensureZone_keep fun hc h0 => h hc (zone_sub_of_zero h0)]
    by_cases hz : fs.zone k (.top 7) = 0
    · exact ⟨0, if_pos hz, .inr ⟨(zone_sub_of_zero hz).symm, trivial, fun h0 => absurd hz h0⟩⟩
    by_cases hr : reads (fs.addr k (.top 7)) = true
    · refine ⟨_, (if_neg hz).trans ?_, .inr ⟨rfl, trivial, fun _ => hr⟩⟩
      rw [readEntry_keep hz h hr]
    · refine ⟨0, (if_neg hz).trans ?_, .inl ⟨rfl, fun hc => hr (hc.2 hz)⟩⟩
      rw [readEntry_of_unread hr]
  · rw [if_neg h519] at h ⊢
    have hi : create = true → fs.zone k (.sub (.top 8) ((block - 519) / 512)) ≠ 0 :=
      fun hc h0 => h hc (zone_sub_of_zero h0)
    rw [bmapOrCreateReads_dind h519 hb, ensureZone_keep fun hc h0 => hi hc (zone_sub_of_zero h0)]
    by_cases hz : fs.zone k (.top 8) = 0
    · have h0 : fs.zone k (.sub (.top 8) ((block - 519) / 512)) = 0 := zone_sub_of_zero hz
      exact ⟨0, if_pos hz, .inr ⟨(zone_sub_of_zero h0).symm, ⟨trivial, fun hne => absurd hz hne⟩,
        fun hne => absurd h0 hne⟩⟩
    by_cases hr : reads (fs.addr k (.top 8)) = true
    swap
    · refine ⟨0, (if_neg hz).trans ?_, .inl ⟨rfl, fun hc => hr (hc.1.2 hz)⟩⟩
      rw [readEntry_of_unread hr]
      exact if_pos rfl
    simp only [if_neg hz, readEntry_keep hz hi hr]
    by_cases hi0 : fs.zone k (.sub (.top 8) ((block - 519) / 512)) = 0
    · exact ⟨0, if_pos hi0, .inr ⟨(zone_sub_of_zero hi0).symm, ⟨trivial, fun _ => hr⟩,
        fun hne => absurd hi0 hne⟩⟩
    by_cases hr' : reads (fs.addr k (.sub (.top 8) ((block - 519) / 512))) = true
    · refine ⟨_, (if_neg hi0).trans ?_, .inr ⟨rfl, ⟨trivial, fun _ => hr⟩, fun _ => hr'⟩⟩
      rw [readEntry_keep hi0 h hr']
    · refine ⟨0, (if_neg hi0).trans ?_, .inl ⟨rfl, fun hc => hr' (hc.2 hi0)⟩⟩
      rw [readEntry_of_unread hr']

omit [DecidableEq ι] in
/-- Where all blocks can be read, every place can be. -/
lemma readsTo_true : fs.ReadsTo (fun _ => true) k s := by
  induction s with
  | top i => trivial
  | sub p e ih => exact ⟨ih, fun _ => rfl⟩

/-- The same on a disk whose blocks can all be read. -/
lemma bmapOrCreate_keep {block : Nat} {create : Bool} (hb : block < maxBlocks)
    (h : create = true → fs.zone k (slotOf block) ≠ 0) :
    fs.bmapOrCreate newBlock now k block create = .ret (fs.zone k (slotOf block), fs) := by
  obtain ⟨z, e, hz⟩ : ∃ z, fs.bmapOrCreateReads newBlock now (fun _ => true) k block create =
      .ret (z, fs) ∧ (z = 0 ∧ ¬ fs.ReadsTo (fun _ => true) k (slotOf block) ∨
        z = fs.zone k (slotOf block) ∧ _) := bmapOrCreateReads_keep hb h
  rw [bmapOrCreateReads_true] at e
  rw [e, (hz.resolve_left fun hf => hf.2 readsTo_true).1]

/-- `bmap` reads off the zone of the block. -/
lemma bmap_eq {block : Nat} (hb : block < maxBlocks) :
    fs.bmap newBlock now k block = .ret (fs.zone k (slotOf block), fs) :=
  bmapOrCreate_keep hb nofun

/-- A block that has a zone is found, and `new_block` is not called. -/
lemma createBlock_of_ne {block : Nat} (hb : block < maxBlocks) (h : fs.zone k (slotOf block) ≠ 0) :
    fs.createBlock newBlock now k block = .ret (fs.zone k (slotOf block), fs) :=
  bmapOrCreate_keep hb fun _ => h

end

end FileSys

end OldLinux.Fs
