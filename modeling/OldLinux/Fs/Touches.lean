import OldLinux.Fs.FileDev
import OldLinux.Files.Inode

/-!
# Changing one file

In the inodes of devices `i_zone` holds a device number. `files` is the file system without these, so
that the well-formedness of the block map can be asked of it; on regular files and directories the
functions of the block map come to the same there.

`Touches` is what everything that writes to a file does to the others: nothing.
-/

namespace OldLinux.Fs
open Lib Function
open Files (isReg isDir)

namespace MInode

/-- An inode whose `i_zone` are zones. -/
def isFile (m : MInode) : Bool := isReg m.iMode || isDir m.iMode

/-- The inode without what are no zones. -/
def masked (m : MInode) : MInode := if m.isFile then m else { m with iZone := fun _ => 0 }

/-- The fields that opening, reading and writing leave alone. -/
def head (m : MInode) : MInode :=
  { m with
    iZone := fun _ => 0, iSize := 0, iMtime := 0, iAtime := 0, iCtime := 0, iCount := 0, iDirt := false }

variable {m m' : MInode}

/-- The head of an inode has its mode. -/
lemma head_iMode (h : m'.head = m.head) : m'.iMode = m.iMode := by
  have e : m'.head.iMode = m.head.iMode := by rw [h]
  exact e

/-- The head of an inode has its device. -/
lemma head_iDev (h : m'.head = m.head) : m'.iDev = m.iDev := by
  have e : m'.head.iDev = m.head.iDev := by rw [h]
  exact e

/-- The head of an inode has its number. -/
lemma head_iNum (h : m'.head = m.head) : m'.iNum = m.iNum := by
  have e : m'.head.iNum = m.head.iNum := by rw [h]
  exact e

/-- The head of an inode has its links. -/
lemma head_iNlinks (h : m'.head = m.head) : m'.iNlinks = m.iNlinks := by
  have e : m'.head.iNlinks = m.head.iNlinks := by rw [h]
  exact e

/-- A file is looked at as it is. -/
lemma masked_of_isFile (h : m.isFile = true) : m.masked = m := if_pos h

/-- Masking leaves the device. -/
lemma masked_iDev : m.masked.iDev = m.iDev := by
  rw [masked]
  split <;> rfl

/-- Masking takes the zones away. -/
lemma masked_iZone (h : m.isFile = false) : m.masked.iZone = fun _ => 0 := by
  rw [masked, h]
  rfl

/-- Masking an inode without zones leaves it. -/
lemma masked_of_zero (h : m.iZone = fun _ => 0) : m.masked.iZone = fun _ => 0 := by
  cases hf : m.isFile with
  | true => rw [masked_of_isFile hf, h]
  | false => exact masked_iZone hf

/-- Whether it is a file is in its head. -/
lemma head_isFile (h : m'.head = m.head) : m'.isFile = m.isFile := by
  rw [isFile, isFile, head_iMode h]

end MInode

namespace FileSys
variable {ι : Type*} {fs fs' fs'' : FileSys ι} {k k' : ι} {s : Slot}

/-- The file system with the zones of regular files and directories only. -/
def files (fs : FileSys ι) : FileSys ι where
  disk := fs.disk
  inode k := (fs.inode k).masked

/-- The inode of a file. -/
lemma files_inode (h : (fs.inode k).isFile = true) : fs.files.inode k = fs.inode k :=
  MInode.masked_of_isFile h

/-- The files have the devices of the inodes. -/
lemma files_dev : fs.files.dev k = fs.dev k := MInode.masked_iDev

/-- The files have the zones of the inodes. -/
lemma files_zone (h : (fs.inode k).isFile = true) : fs.files.zone k s = fs.zone k s := by
  induction s with
  | top i => rw [zone, zone, files_inode h]
  | sub p e ih => rw [zone, zone, ih, files_dev]; rfl

/-- The files have the places of the zones. -/
lemma files_addr (h : (fs.inode k).isFile = true) : fs.files.addr k s = fs.addr k s := by
  rw [addr, addr, files_zone h, files_dev]

/-- The files have their contents. -/
lemma files_contents (h : (fs.inode k).isFile = true) : fs.files.contents k = fs.contents k := by
  funext off
  rw [contents, contents, files_zone h, files_addr h]
  rfl

/-- Only the inode `k` has changed, and not its head. -/
structure Only (fs fs' : FileSys ι) (k : ι) : Prop where
  others : ∀ k', k' ≠ k → fs'.inode k' = fs.inode k'
  head : (fs'.inode k).head = (fs.inode k).head

/-- Nothing done changes no inode. -/
lemma Only.refl : Only fs fs k := ⟨fun _ _ => rfl, rfl⟩

/-- Two changes of an inode are one. -/
lemma Only.trans (h : Only fs fs' k) (h' : Only fs' fs'' k) : Only fs fs'' k where
  others k' hk := (h'.others k' hk).trans (h.others k' hk)
  head := h'.head.trans h.head

/-- All heads stay. -/
lemma Only.all_head (h : Only fs fs' k) (k' : ι) : (fs'.inode k').head = (fs.inode k').head := by
  obtain rfl | hk := eq_or_ne k' k
  · exact h.head
  · rw [h.others k' hk]

/-- Files stay files. -/
lemma Only.isFile (h : Only fs fs' k) (k' : ι) : (fs'.inode k').isFile = (fs.inode k').isFile :=
  MInode.head_isFile (h.all_head k')

variable {newBlock : Disk → Nat → Nat × Disk} {now : Nat}

/-- An entry of an index block is in no inode. -/
lemma ensureEntry_inode {z e : Nat} {create : Bool} :
    (fs.ensureEntry newBlock k z e create).2.inode = fs.inode := by
  simp only [ensureEntry]
  split_ifs <;> rfl

/-- It changes no other inode. -/
lemma ensureEntry_only (fs : FileSys ι) (k : ι) (z e : Nat) (create : Bool) :
    Only fs (fs.ensureEntry newBlock k z e create).2 k :=
  ⟨fun k' _ => congrFun ensureEntry_inode k', congrArg MInode.head (congrFun ensureEntry_inode k)⟩

/-- An entry of an index block needs the files only. -/
lemma ensureEntry_files (h : (fs.inode k).isFile = true) {z e : Nat} {create : Bool} :
    fs.files.ensureEntry newBlock k z e create =
      ((fs.ensureEntry newBlock k z e create).1, (fs.ensureEntry newBlock k z e create).2.files) := by
  have hd : fs.files.disk = fs.disk := rfl
  simp only [ensureEntry, files_inode h, hd]
  split_ifs <;> rfl

variable {reads : Nat × Nat → Bool}

/-- So does reading it change none. -/
lemma readEntry_only (fs : FileSys ι) (k : ι) (z e : Nat) (create : Bool) :
    Only fs (fs.readEntry newBlock reads k z e create).2 k := by
  rw [readEntry]
  split
  · exact ensureEntry_only fs k z e create
  · exact .refl

/-- Reading an entry of an index block needs the files only. -/
lemma readEntry_files (h : (fs.inode k).isFile = true) {z e : Nat} {create : Bool} :
    fs.files.readEntry newBlock reads k z e create =
      ((fs.readEntry newBlock reads k z e create).1, (fs.readEntry newBlock reads k z e create).2.files) := by
  rw [readEntry, readEntry, files_inode h]
  split
  · exact ensureEntry_files h
  · rfl

/-! ## What writing to a file does to the others -/

/-- The zones are in order, and the other files have the contents they had. -/
structure Touches (fs fs' : FileSys ι) (k : ι) : Prop where
  wf : fs'.files.WF
  contents : ∀ k', k' ≠ k → fs'.files.contents k' = fs.files.contents k'

/-- Two steps that touch a file are one. -/
lemma Touches.trans (h : Touches fs fs' k) (h' : Touches fs' fs'' k) : Touches fs fs'' k where
  wf := h'.wf
  contents k' hk := (h'.contents k' hk).trans (h.contents k' hk)

/-- The zones are in order, and all files have the contents they had. -/
structure Same (fs fs' : FileSys ι) : Prop where
  wf : fs'.files.WF
  contents : ∀ k', fs'.files.contents k' = fs.files.contents k'

/-- What leaves all contents touches none. -/
lemma Same.touches (h : Same fs fs') : Touches fs fs' k := ⟨h.wf, fun k' _ => h.contents k'⟩

/-- Two steps that leave the contents leave them together. -/
lemma Same.trans (h : Same fs fs') (h' : Same fs' fs'') : Same fs fs'' where
  wf := h'.wf
  contents k' := (h'.contents k').trans (h.contents k')

/-- The zones after new data for a block of a file. -/
lemma putBlock_zone (h : fs.files.WF) (hf : (fs.inode k).isFile = true) {block : Nat}
    (hb : block < maxBlocks) (data : Bytes) (hs : s.Valid) :
    (fs.putBlock (fs.addr k (slotOf block)) data).zone k s = fs.zone k s := by
  have e : (fs.files.putBlock (fs.addr k (slotOf block)) data).zone k s = fs.files.zone k s := by
    rw [← files_addr hf]
    exact zone_putBlock h hb hs
  rw [← files_zone hf, ← e]
  have hf' : ((fs.putBlock (fs.addr k (slotOf block)) data).inode k).isFile = true := hf
  exact (files_zone hf').symm

/-! ## Giving up the zones of a file -/

/-- The blocks of a disk are those of `fs`, but for the zones in the slots `T` of the file `k`. -/
def Off (fs : FileSys ι) (k : ι) (T : Slot → Prop) (disk : Disk) : Prop :=
  ∀ a, (∀ s, T s → s.Valid → fs.files.zone k s ≠ 0 → a ≠ fs.files.addr k s) →
    disk.blocks a = fs.disk.blocks a ∧ disk.used a = fs.disk.used a

variable {T T' : Slot → Prop} {disk disk' : Disk} {m : MInode}

/-- The disk as it is. -/
lemma Off.refl : Off fs k T fs.disk := fun _ _ => ⟨rfl, rfl⟩

/-- A weaker condition on the zones. -/
lemma Off.mono (h : Off fs k T disk) (hT : ∀ s, T s → T' s) : Off fs k T' disk :=
  fun a ha => h a fun s hs => ha s (hT s hs)

/-- One more zone is given up. -/
lemma Off.free (h : Off fs k T disk) (hs : s.Valid) (hz : fs.files.zone k s ≠ 0)
    (hd : ∀ a, a ≠ fs.files.addr k s → disk'.blocks a = disk.blocks a ∧ disk'.used a = disk.used a) :
    Off fs k (fun s' => T s' ∨ s' = s) disk' := by
  intro a ha
  obtain ⟨hb, hu⟩ := h a fun s' hs' => ha s' (.inl hs')
  obtain ⟨hb', hu'⟩ := hd a (ha s (.inr rfl) hs hz)
  exact ⟨hb'.trans hb, hu'.trans hu⟩

/-- The block in a slot that is not given up. -/
lemma Off.keeps (h : Off fs k T disk) (hwf : fs.files.WF) (hs : s.Valid) (hT : ¬ (k' = k ∧ T s))
    (hz : fs.files.zone k' s ≠ 0) :
    disk.blocks (fs.files.addr k' s) = fs.disk.blocks (fs.files.addr k' s) ∧
      disk.used (fs.files.addr k' s) = fs.disk.used (fs.files.addr k' s) := by
  refine h _ fun s' hs' hv _ e => hT ?_
  obtain ⟨rfl, rfl⟩ := hwf.inj hs hv hz e
  exact ⟨rfl, hs'⟩

/-! ## The functions of the block map -/

section
variable [DecidableEq ι]

/-- The files after an inode has been changed. -/
lemma files_update_masked {m : MInode} {disk : Disk} :
    files ⟨disk, update fs.inode k m⟩ = ⟨disk, update fs.files.inode k m.masked⟩ := by
  refine congrArg (FileSys.mk disk) (funext fun k' => ?_)
  show (update fs.inode k m k').masked = update fs.files.inode k m.masked k'
  obtain rfl | hk := eq_or_ne k' k
  · rw [update_self, update_self]
  · rw [update_of_ne hk, update_of_ne hk]
    rfl

/-- The files after a file has been changed. -/
lemma files_update {m : MInode} (h : m.isFile = true) {disk : Disk} :
    files ⟨disk, update fs.inode k m⟩ = ⟨disk, update fs.files.inode k m⟩ := by
  rw [files_update_masked, MInode.masked_of_isFile h]

/-- A change that leaves the head is of this inode only. -/
lemma only_update {m : MInode} (h : m.head = (fs.inode k).head) {disk : Disk} :
    Only fs ⟨disk, update fs.inode k m⟩ k where
  others k' hk := update_of_ne hk _ _
  head := by
    show (update fs.inode k m k).head = _
    rw [update_self, h]

/-- Allocating a zone changes no other inode. -/
lemma ensureZone_only {i : Nat} {create : Bool} : Only fs (fs.ensureZone newBlock now k i create) k := by
  rw [ensureZone]
  split
  · apply only_update
    split <;> rfl
  · exact .refl

/-- Allocating a zone needs the files only. -/
lemma ensureZone_files (h : (fs.inode k).isFile = true) {i : Nat} {create : Bool} :
    fs.files.ensureZone newBlock now k i create = (fs.ensureZone newBlock now k i create).files := by
  rw [ensureZone, ensureZone, files_inode h]
  split
  · dsimp only
    rw [files_update]
    · rfl
    · split <;> exact h
  · rfl

/-- `_bmap` changes only the inode it is called for, and comes to the same on `files`. -/
lemma bmapOrCreateReads_files (h : (fs.inode k).isFile = true) {block z : Nat} {create : Bool}
    (e : fs.bmapOrCreateReads newBlock now reads k block create = .ret (z, fs')) :
    fs.files.bmapOrCreateReads newBlock now reads k block create = .ret (z, fs'.files) ∧ Only fs fs' k := by
  have hzone : ∀ i, ((fs.ensureZone newBlock now k i create).inode k).isFile = true := fun i =>
    (ensureZone_only.isFile k).trans h
  rw [bmapOrCreateReads] at e ⊢
  split at e
  · cases e
  rename_i hb
  rw [if_neg hb]
  split at e
  · -- a direct zone
    rename_i h7
    cases e
    rw [if_pos h7, ensureZone_files h]
    refine ⟨?_, ensureZone_only⟩
    dsimp only
    rw [files_inode (hzone block)]
  rename_i h7
  rw [if_neg h7]
  split at e
  · -- through the index block
    rename_i h512
    rw [if_pos h512, ensureZone_files h]
    have hz := hzone 7
    have ho : Only fs (fs.ensureZone newBlock now k 7 create) k := ensureZone_only
    generalize fs.ensureZone newBlock now k 7 create = fs₁ at e hz ho
    dsimp only at e ⊢
    rw [files_inode hz]
    split at e
    · rename_i h0
      cases e
      exact ⟨if_pos h0, ho⟩
    · rename_i h0
      rw [if_neg h0, readEntry_files hz]
      have he : Only fs₁ (fs₁.readEntry newBlock reads k ((fs₁.inode k).iZone 7).toNat (block - 7) create).2 k :=
        readEntry_only _ _ _ _ _
      generalize fs₁.readEntry newBlock reads k _ _ create = o at e he
      cases e
      exact ⟨rfl, ho.trans he⟩
  · -- through two index blocks
    rename_i h512
    rw [if_neg h512, ensureZone_files h]
    have hz := hzone 8
    have ho : Only fs (fs.ensureZone newBlock now k 8 create) k := ensureZone_only
    generalize fs.ensureZone newBlock now k 8 create = fs₁ at e hz ho
    dsimp only at e ⊢
    rw [files_inode hz]
    split at e
    · rename_i h0
      cases e
      exact ⟨if_pos h0, ho⟩
    · rename_i h0
      rw [if_neg h0, readEntry_files hz]
      have he : Only fs₁ (fs₁.readEntry newBlock reads k ((fs₁.inode k).iZone 8).toNat
          ((block - 7 - 512) >>> 9) create).2 k := readEntry_only _ _ _ _ _
      generalize fs₁.readEntry newBlock reads k _ _ create = o at e he
      dsimp only at e ⊢
      split at e
      · rename_i hi
        cases e
        exact ⟨if_pos hi, ho.trans he⟩
      · rename_i hi
        have ho' : (o.2.inode k).isFile = true := (he.isFile k).trans hz
        rw [if_neg hi, readEntry_files ho']
        have he' : Only o.2 (o.2.readEntry newBlock reads k o.1 ((block - 7 - 512) &&& 511) create).2 k :=
          readEntry_only _ _ _ _ _
        generalize o.2.readEntry newBlock reads k _ _ create = o' at e he'
        cases e
        exact ⟨rfl, (ho.trans he).trans he'⟩

/-! ## Writing to a file -/

/-- `create_block` leaves all contents as they are, whatever can be read. -/
lemma createBlockReads_same (ha : Allocates newBlock) (h : fs.files.WF) (hf : (fs.inode k).isFile = true)
    {block z : Nat} (e : fs.createBlockReads newBlock now reads k block = .ret (z, fs')) :
    Same fs fs' ∧ Only fs fs' k ∧ (fs'.inode k).iSize = (fs.inode k).iSize ∧ block < maxBlocks ∧
      (z = 0 ∧ (∃ a, reads a = false) ∨ fs'.zone k (slotOf block) = z) := by
  obtain ⟨e', ho⟩ := bmapOrCreateReads_files hf e
  have hf' : (fs'.inode k).isFile = true := (ho.isFile k).trans hf
  obtain hb | hb := Nat.lt_or_ge block maxBlocks
  · obtain ⟨z', fs₁, e₁, hw, hz⟩ : ∃ z' fs₁, fs.files.createBlockReads newBlock now reads k block = .ret (z', fs₁) ∧
        _ ∧ _ := createBlockReads_walked ha h hb
    rw [createBlockReads, e'] at e₁
    cases e₁
    refine ⟨⟨hw.keeps.wf, fun k' => funext (hw.keeps.contents k')⟩, ho, ?_, hb, hz.imp id fun hz => ?_⟩
    · rw [← files_inode hf, ← files_inode hf', hw.keeps.size]
    · rw [← files_zone hf', hz.1]
  · rw [createBlockReads, bmapOrCreateReads, if_pos hb] at e
    cases e

/-- The same when all blocks can be read. -/
lemma createBlock_same (ha : Allocates newBlock) (h : fs.files.WF) (hf : (fs.inode k).isFile = true)
    {block z : Nat} (e : fs.createBlock newBlock now k block = .ret (z, fs')) :
    Same fs fs' ∧ Only fs fs' k ∧ (fs'.inode k).iSize = (fs.inode k).iSize ∧ block < maxBlocks ∧
      fs'.zone k (slotOf block) = z := by
  have e' : fs.createBlockReads newBlock now (fun _ => true) k block = .ret (z, fs') := e
  obtain ⟨hs, ho, hsize, hb, hz⟩ := createBlockReads_same ha h hf e'
  exact ⟨hs, ho, hsize, hb, hz.resolve_left fun ⟨_, _, hno⟩ => Bool.noConfusion hno⟩

/-- Setting fields that are neither the zones nor the device. -/
lemma update_same {m : MInode} (h : fs.files.WF) (hf : m.isFile = (fs.inode k).isFile)
    (hd : m.iDev = (fs.inode k).iDev) (hz : m.iZone = (fs.inode k).iZone) :
    Same fs { fs with inode := update fs.inode k m } := by
  have hmask : m.masked.iZone = (fs.files.inode k).iZone := by
    show m.masked.iZone = (fs.inode k).masked.iZone
    cases hk : (fs.inode k).isFile with
    | true => rw [MInode.masked_of_isFile hk, MInode.masked_of_isFile (hf.trans hk), hz]
    | false => rw [MInode.masked_iZone hk, MInode.masked_iZone (hf.trans hk)]
  have hdev : m.masked.iDev = (fs.files.inode k).iDev :=
    MInode.masked_iDev.trans (hd.trans MInode.masked_iDev.symm)
  obtain ⟨hwf, hc, -⟩ := setInode_spec h hmask hdev
  have e : files { fs with inode := update fs.inode k m } =
      { fs.files with inode := update fs.files.inode k m.masked } := files_update_masked
  exact ⟨e ▸ hwf, fun k' => e ▸ funext (hc k')⟩

/-- The zones after setting other fields of an inode. -/
lemma zone_update {m : MInode} (hz : m.iZone = (fs.inode k).iZone) (hd : m.iDev = (fs.inode k).iDev)
    (hs : s.Valid) : FileSys.zone { fs with inode := update fs.inode k m } k' s = fs.zone k' s := by
  refine zone_congr (fun k' i => ?_) (fun k' => ?_) (fun _ _ => rfl) hs
  · obtain rfl | hk := eq_or_ne k' k
    · simp [hz]
    · simp [hk]
  · obtain rfl | hk := eq_or_ne k' k
    · simp [dev, hd]
    · simp [dev, hk]

/-- The new size is of this inode only. -/
lemma growTo_only {pos : Nat} : Only fs (fs.growTo k pos) k := by
  rw [growTo]
  split
  · exact only_update (by rfl)
  · exact .refl

/-- The new size changes no contents. -/
lemma growTo_same (h : fs.files.WF) (k : ι) (pos : Nat) :
    Same fs (fs.growTo k pos) ∧ Only fs (fs.growTo k pos) k ∧
      ∀ {s : Slot}, s.Valid → (fs.growTo k pos).zone k s = fs.zone k s := by
  rw [growTo]
  split
  · exact ⟨update_same h rfl rfl rfl, only_update (by rfl), zone_update rfl rfl⟩
  · exact ⟨⟨h, fun _ => rfl⟩, .refl, fun _ => rfl⟩

/-- New data for a block of a file. -/
lemma putBlock_touches (h : fs.files.WF) (hf : (fs.inode k).isFile = true) {block : Nat}
    (hb : block < maxBlocks) (hz : fs.zone k (slotOf block) ≠ 0) (data : Bytes) :
    Touches fs (fs.putBlock (fs.addr k (slotOf block)) data) k ∧
      ∀ off, (fs.putBlock (fs.addr k (slotOf block)) data).files.contents k off =
        if off / 1024 = block then data (off % 1024) else fs.files.contents k off := by
  rw [← files_zone hf] at hz
  obtain ⟨hwf, hc⟩ := putBlock_spec h hb hz data
  rw [files_addr hf] at hwf hc
  refine ⟨⟨hwf, fun k' hk => funext fun off => ?_⟩, fun off => ?_⟩
  · exact (hc k' off).trans (if_neg fun h => hk h.1)
  · refine (hc k off).trans ?_
    simp

/-- An inode whose zones have been given up is one without zones. -/
lemma Off.touches (h : Off fs k (fun _ => True) disk) (hwf : fs.files.WF)
    (hm : ∀ i < 9, m.masked.iZone i = 0) (e : fs' = ⟨disk, update fs.inode k m⟩) :
    Touches fs fs' k ∧ ∀ off, fs'.files.contents k off = 0 := by
  have hfiles : fs'.files = ⟨disk, update fs.files.inode k m.masked⟩ := e ▸ files_update_masked
  have hdisk : fs'.files.disk = disk := by rw [hfiles]
  have hk' : fs'.files.inode k = m.masked := by
    rw [hfiles]
    exact update_self _ _ _
  have hothers : ∀ {k'}, k' ≠ k → fs'.files.inode k' = fs.files.inode k' := by
    intro k' hk
    rw [hfiles]
    exact update_of_ne hk _ _
  have hdev : ∀ {k'}, k' ≠ k → fs'.files.dev k' = fs.files.dev k' := by
    intro k' hk
    rw [dev, hothers hk, dev]
  have hself : ∀ {s : Slot}, s.Valid → fs'.files.zone k s = 0 := by
    intro s hs
    induction s with
    | top i => rw [zone, hk', hm i hs]; rfl
    | sub p e ih => exact zone_sub_of_zero (ih hs.1.valid)
  have hzone : ∀ {k'} {s : Slot}, k' ≠ k → s.Valid → fs'.files.zone k' s = fs.files.zone k' s := by
    intro k' s hk hs
    induction s with
    | top i => rw [zone, hothers hk, zone]
    | sub p e ih =>
      have ih := ih hs.1.valid
      obtain h0 | h0 := eq_or_ne (fs.files.zone k' p) 0
      · rw [zone_sub_of_zero (ih.trans h0), zone_sub_of_zero h0]
      · have hblock := (h.keeps hwf hs.1.valid (fun hc => hk hc.1) h0).1
        rw [zone_sub_of_ne (ih ▸ h0), zone_sub_of_ne h0, addr, ih, hdev hk, ← addr, hdisk, hblock]
        rfl
  have haddr : ∀ {k'} {s : Slot}, k' ≠ k → s.Valid → fs'.files.addr k' s = fs.files.addr k' s := by
    intro k' s hk hs
    rw [addr, hzone hk hs, hdev hk, addr]
  -- a slot with a zone belongs to another file
  have hne : ∀ {k'} {s : Slot}, s.Valid → fs'.files.zone k' s ≠ 0 → k' ≠ k ∧ fs.files.zone k' s ≠ 0 := by
    intro k' s hs hz
    obtain rfl | hk := eq_or_ne k' k
    · exact absurd (hself hs) hz
    · exact ⟨hk, hzone hk hs ▸ hz⟩
  refine ⟨⟨⟨fun {k' s} hs hz => ?_, fun {k₁ s₁ k₂ s₂} hs₁ hs₂ hz₁ ha => ?_⟩, fun k' hk => ?_⟩, fun off => ?_⟩
  · obtain ⟨hk, hz⟩ := hne hs hz
    rw [haddr hk hs, hdisk]
    exact (h.keeps hwf hs (fun hc => hk hc.1) hz).2.trans (hwf.used hs hz)
  · have hz₂ : fs'.files.zone k₂ s₂ ≠ 0 := by
      have e : fs'.files.zone k₁ s₁ = fs'.files.zone k₂ s₂ := congrArg Prod.snd ha
      rwa [← e]
    obtain ⟨hk₁, hz₁⟩ := hne hs₁ hz₁
    obtain ⟨hk₂, hz₂⟩ := hne hs₂ hz₂
    rw [haddr hk₁ hs₁, haddr hk₂ hs₂] at ha
    exact hwf.inj hs₁ hs₂ hz₁ ha
  · funext off
    rw [contents, contents]
    obtain hb | hb := Nat.lt_or_ge (off / 1024) maxBlocks
    swap
    · rw [if_neg (fun hc => absurd hc.1 (Nat.not_lt.2 hb)), if_neg (fun hc => absurd hc.1 (Nat.not_lt.2 hb))]
    have hv := slotOf_valid hb
    rw [hzone hk hv, haddr hk hv]
    obtain h0 | h0 := eq_or_ne (fs.files.zone k' (slotOf (off / 1024))) 0
    · rw [if_neg (fun hc => hc.2 h0), if_neg (fun hc => hc.2 h0)]
    · rw [if_pos ⟨hb, h0⟩, if_pos ⟨hb, h0⟩, hdisk]
      exact congrFun (h.keeps hwf hv (fun hc => hk hc.1) h0).1 _
  · rw [contents]
    apply if_neg
    rintro ⟨hb, hz⟩
    exact hz (hself (slotOf_valid hb))

end

end FileSys

end OldLinux.Fs
