import OldLinux.Access.Guard

/-!
# Directories under the invariant

`find_entry` gives the number of an entry, and changes nothing. `add_entry` makes no entry: it may extend the
directory by an entry that is not in use, and leaves the number of every entry as it was, so that the only
new entry is the one into which its caller puts the number of an inode.
-/

namespace OldLinux.Access
open Lib Fs Function
open Files (isReg isDir)
open FileSys (Same Touches Only)

variable {ρ : Type} {sv : Services ρ} {x dir : Ino} {c : Bytes} {n : BitVec 64} {s s' : State ρ}
variable {fs fs' : FileSys Ino} {i j block : Nat}

/-! ## The entries of a directory -/

/-- The inode number in entry `i` of a directory. -/
def num (fs : FileSys Ino) (dir : Ino) (i : Nat) : BitVec 16 := (dirEntry (fs.files.contents dir) i).inode

/-- The zone of the block that entry `i` is in. -/
structure At (fs : FileSys Ino) (dir : Ino) (i block : Nat) : Prop where
  lt : i / dirEntriesPerBlock < maxBlocks
  zone : fs.zone dir (slotOf (i / dirEntriesPerBlock)) = block

/-- The next entry of the same block is in that block. -/
lemma At.next (h : At fs dir i block) (hi : (i + 1) % dirEntriesPerBlock ≠ 0) : At fs dir (i + 1) block := by
  have e : (i + 1) / dirEntriesPerBlock = i / dirEntriesPerBlock := by
    simp only [dirEntriesPerBlock] at hi ⊢
    omega
  exact ⟨e ▸ h.lt, e ▸ h.zone⟩

/-- The first bytes of an entry of a block, and where they are in the directory. -/
lemma entry_offset (h : j < dirEntrySize) : (dirEntrySize * i + j) / 1024 = i / dirEntriesPerBlock ∧
    (dirEntrySize * i + j) % 1024 = dirEntrySize * (i % dirEntriesPerBlock) + j := by
  simp only [dirEntrySize, dirEntriesPerBlock] at h ⊢
  omega

/-- The number of an entry, in its block. -/
lemma num_eq (hf : (fs.inode dir).isFile = true) (h : At fs dir i block) (h0 : block ≠ 0) :
    num fs dir i = (dirEntry (fs.disk.blocks (fs.dev dir, block)) (i % dirEntriesPerBlock)).inode := by
  have hz : fs.zone dir (slotOf (i / dirEntriesPerBlock)) ≠ 0 := h.zone ▸ h0
  refine Bytes.load_congr fun j hj => ?_
  obtain ⟨hd, hm⟩ := entry_offset (i := i) (j := j) (Nat.lt_trans hj (by decide))
  rw [FileSys.files_contents hf, FileSys.contents, hd, hm, if_pos ⟨h.lt, hz⟩, FileSys.addr, h.zone]

/-- Storing `de->inode` sets the number of that entry and of no other. -/
lemma inode_setDirInode {data : Bytes} {e e' : Nat} {nr : BitVec 16} :
    (dirEntry (setDirInode data e nr) e').inode = if e' = e then nr else (dirEntry data e').inode := by
  split
  · rename_i h
    subst h
    exact Bytes.load_store_self
  · apply Bytes.load_store_of_disjoint
    simp only [dirEntrySize]
    omega

/-- Storing a name leaves the numbers. -/
lemma inode_setDirName {data : Bytes} {e e' : Nat} {name : List (BitVec 8)} :
    (dirEntry (setDirName data e name) e').inode = (dirEntry data e').inode := by
  refine Bytes.load_congr fun j hj => ?_
  rw [setDirName, if_neg]
  simp only [dirEntrySize, nameLen]
  omega

/-- New data for the block of an entry. -/
lemma num_putBlock (h : fs.files.WF) (hf : (fs.inode dir).isFile = true) (hi : At fs dir i block)
    (h0 : block ≠ 0) (data : Bytes) :
    Touches fs (fs.putBlock (fs.dev dir, block) data) dir ∧
      ∀ j, num (fs.putBlock (fs.dev dir, block) data) dir j =
        if j / dirEntriesPerBlock = i / dirEntriesPerBlock then
          (dirEntry data (j % dirEntriesPerBlock)).inode else num fs dir j := by
  have ha : fs.addr dir (slotOf (i / dirEntriesPerBlock)) = (fs.dev dir, block) := by
    rw [FileSys.addr, hi.zone]
  obtain ⟨ht, hc⟩ := FileSys.putBlock_touches h hf hi.lt (hi.zone ▸ h0) data
  rw [ha] at ht hc
  refine ⟨ht, fun j => ?_⟩
  split
  · rename_i hj
    refine Bytes.load_congr fun b hb => ?_
    obtain ⟨hd, hm⟩ := entry_offset (i := j) (j := b) (Nat.lt_trans hb (by decide))
    rw [hc, hd, if_pos hj, hm]
  · rename_i hj
    refine Bytes.load_congr fun b hb => ?_
    obtain ⟨hd, -⟩ := entry_offset (i := j) (j := b) (Nat.lt_trans hb (by decide))
    rw [hc, hd, if_neg hj]

/-- The number of one entry is set. -/
lemma num_setDirInode (h : fs.files.WF) (hf : (fs.inode dir).isFile = true) (hi : At fs dir i block)
    (h0 : block ≠ 0) (nr : BitVec 16) :
    let data := setDirInode (fs.disk.blocks (fs.dev dir, block)) (i % dirEntriesPerBlock) nr
    Touches fs (fs.putBlock (fs.dev dir, block) data) dir ∧
      ∀ j, num (fs.putBlock (fs.dev dir, block) data) dir j = if j = i then nr else num fs dir j := by
  intro data
  obtain ⟨ht, hn⟩ := num_putBlock h hf hi h0 data
  refine ⟨ht, fun j => ?_⟩
  rw [hn, inode_setDirInode]
  obtain rfl | hji := eq_or_ne j i
  · rw [if_pos rfl, if_pos rfl, if_pos rfl]
  · rw [if_neg hji]
    split
    · rename_i hj
      have hm : j % dirEntriesPerBlock ≠ i % dirEntriesPerBlock := by
        simp only [dirEntriesPerBlock] at hj ⊢
        omega
      have hj' : At fs dir j block := ⟨hj ▸ hi.lt, hj ▸ hi.zone⟩
      rw [if_neg hm, num_eq hf hj' h0]
    · rfl

/-- The name of one entry is set. -/
lemma num_setDirName (h : fs.files.WF) (hf : (fs.inode dir).isFile = true) (hi : At fs dir i block)
    (h0 : block ≠ 0) (name : List (BitVec 8)) :
    let data := setDirName (fs.disk.blocks (fs.dev dir, block)) (i % dirEntriesPerBlock) name
    Touches fs (fs.putBlock (fs.dev dir, block) data) dir ∧
      ∀ j, num (fs.putBlock (fs.dev dir, block) data) dir j = num fs dir j := by
  intro data
  obtain ⟨ht, hn⟩ := num_putBlock h hf hi h0 data
  refine ⟨ht, fun j => ?_⟩
  rw [hn, inode_setDirName]
  split
  · rename_i hj
    have hj' : At fs dir j block := ⟨hj ▸ hi.lt, hj ▸ hi.zone⟩
    rw [num_eq hf hj' h0]
  · rfl

/-! ## `find_entry` -/

/-- A function of the file system leaves the other tables. -/
lemma wp_onFs {α : Type} {f : FileSys Ino → Result (α × FileSys Ino)} {Q : α → State ρ → Prop} :
    Prog.wp (onFs f) Q s ↔ ∀ a fs', f s.fs = .ret (a, fs') → Q a { s with fs := fs' } := Prog.wp_zoom

/-- `bread` gives what the device holds. -/
@[simp] lemma wp_bread {dev : Nat} {Q : Bytes → State ρ → Prop} :
    Prog.wp (bread dev block) Q s ↔ Q (s.fs.disk.blocks (dev, block)) s := by
  simp [bread]

/-- A directory entry behind the last of a block is not looked at before its block is found. -/
def AtBlock (fs : FileSys Ino) (dir : Ino) (i block : Nat) : Prop :=
  i % dirEntriesPerBlock ≠ 0 ∨ i = 0 → At fs dir i block

/-- After an entry of a block comes its next entry, or the end of the block. -/
lemma At.atBlock (h : At fs dir i block) : AtBlock fs dir (i + 1) block := by
  intro hi
  exact h.next (hi.resolve_right (Nat.succ_ne_zero i))

/-- The search starts in the first zone of the directory. -/
lemma atBlock_zero : AtBlock fs dir 0 ((fs.inode dir).iZone 0).toNat := by
  intro _
  exact ⟨by decide, rfl⟩

/-- The block that `find_entry` goes on in is the one of the entry. -/
lemma findBlock_spec (h : AtBlock s.fs dir i block) :
    Prog.wp (findBlock sv dir i block) (fun b s' => s' = s ∧ At s.fs dir i b) s := by
  rw [findBlock]
  split
  · rw [bmap, Prog.wp_bind, wp_currentTime, wp_onFs]
    intro z fs' e
    obtain hb | hb := Nat.lt_or_ge (i / dirEntriesPerBlock) maxBlocks
    · rw [FileSys.bmap_eq hb] at e
      cases e
      exact ⟨rfl, hb, rfl⟩
    · rw [FileSys.bmap, FileSys.bmapOrCreate, if_pos hb] at e
      cases e
  · rename_i hi
    rw [Prog.wp_pure]
    refine ⟨rfl, h ?_⟩
    obtain h0 | h0 := eq_or_ne i 0
    · exact .inr h0
    · exact .inl fun hm => hi ⟨hm, h0⟩

/-- `match` finds used entries only. -/
lemma inode_ne_of_matchEntry {len : Nat} {name : List (BitVec 8)} {de : DirEntry}
    (h : matchEntry len name de = true) : de.inode ≠ 0 := by
  intro h0
  rw [matchEntry, if_pos (.inl h0)] at h
  cases h

/-- The loop of `find_entry` changes nothing and finds an entry of the directory. -/
lemma findLoop_spec {name : List (BitVec 8)} {turns : Nat} (hf : (s.fs.inode dir).isFile = true)
    (h : AtBlock s.fs dir i block) :
    Prog.wp (findLoop sv dir name ((s.fs.inode dir).iSize.toNat / dirEntrySize) turns i block)
      (fun r s' => s' = s ∧ ∀ nr, r = some nr → ∃ w, w ≠ 0 ∧ w.toNat = nr ∧ Entry s.fs dir w) s := by
  induction turns generalizing i block with
  | zero =>
    rw [findLoop, Prog.wp_pure]
    exact ⟨rfl, nofun⟩
  | succ turns ih =>
    rw [findLoop, Prog.wp_bind, wp_inodeAt]
    split
    swap
    · rw [Prog.wp_pure]
      exact ⟨rfl, nofun⟩
    rename_i hi
    rw [Prog.wp_bind]
    refine (findBlock_spec h).mono ?_
    rintro b s₁ ⟨rfl, hb⟩
    split
    · split
      · exact Prog.wp_fault
      · rw [Prog.wp_pure]
        exact ⟨rfl, nofun⟩
    rename_i h0
    rw [Prog.wp_bind, wp_bread]
    show Prog.wp (if _ then _ else _) _ s₁
    split
    · rename_i hm
      rw [Prog.wp_pure]
      refine ⟨rfl, fun nr e => ⟨_, inode_ne_of_matchEntry hm, Option.some.inj e, i, ?_, ?_⟩⟩
      · exact (Nat.le_div_iff_mul_le (by decide)).1 hi
      · exact num_eq hf hb h0
    · exact ih hb.atBlock

/-- `find_entry` changes nothing and finds an entry of the directory. -/
lemma findEntry_spec {name : List Char} (hd : isDir (s.fs.inode dir).iMode = true) :
    Prog.wp (findEntry sv dir name)
      (fun r s' => s' = s ∧ ∀ nr, r = some nr → ∃ w, w ≠ 0 ∧ w.toNat = nr ∧ Entry s.fs dir w) s := by
  rw [findEntry, Prog.wp_bind, wp_inodeAt]
  show Prog.wp (if _ then _ else _) _ s
  split
  · rw [Prog.wp_pure]
    exact ⟨rfl, nofun⟩
  split
  · rw [Prog.wp_pure]
    exact ⟨rfl, nofun⟩
  · exact findLoop_spec (isFile_of_isDir hd) atBlock_zero

/-- What `find_entry` finds is an inode with a link. -/
lemma findEntry_live {name : List Char} (h : Guards x c n s) (hd : isDir (s.fs.inode dir).iMode = true) :
    Prog.wp (findEntry sv dir name)
      (fun r s' => s' = s ∧ ∀ nr, r = some nr → Live s ((s.fs.inode dir).iDev, nr)) s := by
  refine (findEntry_spec hd).mono ?_
  rintro r s' ⟨rfl, hr⟩
  refine ⟨rfl, fun nr e => ?_⟩
  obtain ⟨w, h0, rfl, he⟩ := hr nr e
  exact h.names dir hd w h0 he

/-! ## `add_entry` -/

/-- The number of bytes of a directory. -/
def dirSize (fs : FileSys Ino) (dir : Ino) : Nat := (fs.inode dir).iSize.toNat

/-- A step that leaves the contents changes nothing but the directory. -/
lemma Changes.of_same (hs : Same s.fs s'.fs) (ho : Only s.fs s'.fs dir)
    (hsize : (s'.fs.inode dir).iSize = (s.fs.inode dir).iSize) (hmap : s'.inodeMap = s.inodeMap)
    (htask : s'.task = s.task) : Changes s s' dir :=
  ⟨hs.touches, ho, hmap, htask, fun _ =>
    ⟨fun ha => by rwa [hsize], fun _ _ he => he.congr (hs.contents dir) hsize⟩⟩

/-- The directory stays one. -/
lemma Changes.isDir (h : Changes s s' dir) (hd : isDir (s.fs.inode dir).iMode = true) :
    Files.isDir (s'.fs.inode dir).iMode = true := by
  rwa [MInode.head_iMode h.only.head]

/-- The block that `add_entry` goes on in is the one of the entry, which `create_block` may have made. -/
lemma addBlock_spec (hs : Sound sv) (hwf : s.fs.files.WF) (hd : isDir (s.fs.inode dir).iMode = true)
    (h : AtBlock s.fs dir i block) :
    Prog.wp (addBlock sv dir i block) (fun b s' => Changes s s' dir ∧
      dirSize s'.fs dir = dirSize s.fs dir ∧ At s'.fs dir i b) s := by
  rw [addBlock]
  split
  · rw [createBlock, Prog.wp_bind, wp_currentTime, wp_onFs]
    intro z fs' e
    obtain ⟨hsame, ho, hsize, hb, hz⟩ :=
      FileSys.createBlock_same hs.newBlock hwf (isFile_of_isDir hd) e
    exact ⟨.of_same hsame ho hsize rfl rfl, congrArg BitVec.toNat hsize, hb, hz⟩
  · rename_i hi
    rw [Prog.wp_pure]
    refine ⟨.refl hwf, rfl, h ?_⟩
    obtain h0 | h0 := eq_or_ne i 0
    · exact .inr h0
    · exact .inl fun hm => hi ⟨hm, h0⟩

/-- A store to a block of a file leaves the blocks of the directory. -/
lemma At.putBlock {data : Bytes} (h : At fs dir i block) (hwf : fs.files.WF)
    (hf : (fs.inode dir).isFile = true) : At (fs.putBlock (fs.dev dir, block) data) dir i block := by
  have ha : fs.addr dir (slotOf (i / dirEntriesPerBlock)) = (fs.dev dir, block) := by
    rw [FileSys.addr, h.zone]
  refine ⟨h.lt, ?_⟩
  rw [← ha, FileSys.putBlock_zone hwf hf h.lt data (slotOf_valid h.lt), h.zone]

/-- The blocks depend on the zones and the device of the inode only. -/
lemma At.update {m : MInode} (h : At s.fs dir i block) (hz : m.iZone = (s.fs.inode dir).iZone)
    (hd : m.iDev = (s.fs.inode dir).iDev) : At (s.withInode dir m).fs dir i block :=
  ⟨h.lt, (FileSys.zone_update hz hd (slotOf_valid h.lt)).trans h.zone⟩

/-- A store to a buffer is in the block. -/
@[simp] lemma wp_bwrite {dev : Nat} {data : Bytes} {Q : Unit → State ρ → Prop} :
    Prog.wp (bwrite dev block data) Q s ↔ Q () { s with fs := s.fs.putBlock (dev, block) data } :=
  Prog.wp_modify

/-- The entries of a directory in which other fields than the zones have been set. -/
lemma num_update {m : MInode} (hwf : fs.files.WF) (hm : m.head = (fs.inode dir).head)
    (hz : m.iZone = (fs.inode dir).iZone) :
    Same fs { fs with inode := Function.update fs.inode dir m } ∧
      ∀ j, num { fs with inode := Function.update fs.inode dir m } dir j = num fs dir j := by
  have hs : Same fs { fs with inode := Function.update fs.inode dir m } :=
    FileSys.update_same hwf (MInode.head_isFile hm) (MInode.head_iDev hm) hz
  refine ⟨hs, fun j => ?_⟩
  rw [num, hs.contents dir, num]

/-- A number that is before the end of a directory is that of an entry. -/
lemma succ_le_of_lt {m : Nat} (ha : dirEntrySize ∣ m) (h : i * dirEntrySize < m) :
    (i + 1) * dirEntrySize ≤ m := by
  obtain ⟨q, rfl⟩ := ha
  simp only [dirEntrySize] at h ⊢
  omega

/-- The state after the data of the block of an entry has been written. -/
structure Written (s s' : State ρ) (dir : Ino) (i block : Nat) : Prop where
  touches : Touches s.fs s'.fs dir
  inode : s'.fs.inode = s.fs.inode
  map : s'.inodeMap = s.inodeMap
  task : s'.task = s.task
  at_ : At s'.fs dir i block

/-- A store to the block of an entry changes no other inode. -/
lemma Written.only (h : Written s s' dir i block) : Only s.fs s'.fs dir :=
  ⟨fun k _ => congrFun h.inode k, congrArg MInode.head (congrFun h.inode dir)⟩

/-- Storing `de->inode` changes the number of the entry. -/
lemma bwriteInode_spec (hwf : s.fs.files.WF) (hf : (s.fs.inode dir).isFile = true)
    (hi : At s.fs dir i block) (h0 : block ≠ 0) (nr : BitVec 16) :
    Prog.wp (bwrite (s.fs.inode dir).iDev block
        (setDirInode (s.fs.disk.blocks ((s.fs.inode dir).iDev, block)) (i % dirEntriesPerBlock) nr))
      (fun _ s' => Written s s' dir i block ∧
        ∀ j, num s'.fs dir j = if j = i then nr else num s.fs dir j) s := by
  obtain ⟨ht, hn⟩ := num_setDirInode hwf hf hi h0 nr
  rw [wp_bwrite]
  exact ⟨⟨ht, rfl, rfl, rfl, hi.putBlock hwf hf⟩, hn⟩

/-- Storing the name changes no number. -/
lemma bwriteName_spec (hwf : s.fs.files.WF) (hf : (s.fs.inode dir).isFile = true)
    (hi : At s.fs dir i block) (h0 : block ≠ 0) (name : List (BitVec 8)) :
    Prog.wp (bwrite (s.fs.inode dir).iDev block
        (setDirName (s.fs.disk.blocks ((s.fs.inode dir).iDev, block)) (i % dirEntriesPerBlock) name))
      (fun _ s' => Written s s' dir i block ∧ ∀ j, num s'.fs dir j = num s.fs dir j) s := by
  obtain ⟨ht, hn⟩ := num_setDirName hwf hf hi h0 name
  rw [wp_bwrite]
  exact ⟨⟨ht, rfl, rfl, rfl, hi.putBlock hwf hf⟩, hn⟩

/-- The directory is long enough for the entry `i` now; its entries behind the old end are not in use. -/
lemma extendDir_spec (hwf : s.fs.files.WF) (hd : isDir (s.fs.inode dir).iMode = true)
    (hi : At s.fs dir i block) (h0 : block ≠ 0) (ha : dirEntrySize ∣ dirSize s.fs dir)
    (hle : i * dirEntrySize ≤ dirSize s.fs dir) :
    Prog.wp (extendDir dir i block (i % dirEntriesPerBlock)) (fun _ s' => Changes s s' dir ∧
      At s'.fs dir i block ∧ (i + 1) * dirEntrySize ≤ dirSize s'.fs dir) s := by
  rw [extendDir, Prog.wp_bind, wp_inodeAt]
  split
  swap
  · rename_i hlt
    rw [Prog.wp_pure]
    exact ⟨.refl hwf, hi, succ_le_of_lt ha (Nat.not_le.1 hlt)⟩
  rw [Prog.wp_bind, wp_bread, Prog.wp_bind]
  refine (bwriteInode_spec hwf (isFile_of_isDir hd) hi h0 0).mono ?_
  rintro _ s₁ ⟨h₁, hn⟩
  rw [Prog.wp_bind, wp_currentTime, wp_setInode]
  -- the size does not overflow
  have hlt : (i + 1) * dirEntrySize < 2 ^ 64 := by
    have hmax : maxBlocks = 7 + 512 + 512 * 512 := rfl
    have hb := hi.lt
    simp only [dirEntriesPerBlock, dirEntrySize, hmax] at hb ⊢
    omega
  have hsize : (BitVec.ofNat 64 ((i + 1) * dirEntrySize)).toNat = (i + 1) * dirEntrySize := by
    rw [BitVec.toNat_ofNat, Nat.mod_eq_of_lt hlt]
  generalize hm : ({ s₁.fs.inode dir with
    iSize := .ofNat 64 ((i + 1) * dirEntrySize), iDirt := true, iCtime := s₁.now } : MInode) = m
  have hhead : m.head = (s₁.fs.inode dir).head := by rw [← hm]; rfl
  have hzone : m.iZone = (s₁.fs.inode dir).iZone := by rw [← hm]
  have hms : m.iSize.toNat = (i + 1) * dirEntrySize := by rw [← hm]; exact hsize
  obtain ⟨hs, hn'⟩ := num_update h₁.touches.wf hhead hzone
  have hs : Same s₁.fs (s₁.withInode dir m).fs := hs
  have hds : dirSize (s₁.withInode dir m).fs dir = (i + 1) * dirEntrySize := by
    rw [dirSize, withInode_self, hms]
  refine ⟨⟨h₁.touches.trans hs.touches, h₁.only.trans (withInode_only hhead), h₁.map, h₁.task,
    fun _ => ⟨fun _ => ?_, ?_⟩⟩, h₁.at_.update hzone (MInode.head_iDev hhead), hds.ge⟩
  · show dirEntrySize ∣ dirSize (s₁.withInode dir m).fs dir
    rw [hds]
    exact Nat.dvd_mul_left _ _
  · rintro nr hnr ⟨j, hj, hjn⟩
    have hj : (j + 1) * dirEntrySize ≤ dirSize (s₁.withInode dir m).fs dir := hj
    have hjn : num (s₁.withInode dir m).fs dir j = nr := hjn
    rw [show num (s₁.withInode dir m).fs dir j = _ from hn' j, hn] at hjn
    split at hjn
    · exact absurd hjn.symm hnr
    · rename_i hne
      have hji : j < i := by
        have := Nat.le_of_mul_le_mul_right (hds ▸ hj) (by decide)
        omega
      exact ⟨j, (Nat.mul_le_mul_right _ hji).trans hle, hjn⟩

/-- What `add_entry` gives back: where the entry is. -/
def Place (fs : FileSys Ino) (dir : Ino) : Option (Nat × Nat) → Prop
  | none => True
  | some (block, e) => ∃ i, At fs dir i block ∧ block ≠ 0 ∧ e = i % dirEntriesPerBlock ∧
      (i + 1) * dirEntrySize ≤ dirSize fs dir

/-- The loop of `add_entry` finds a free entry and changes nothing but the directory. -/
lemma addLoop_spec (hs : Sound sv) {name : List (BitVec 8)} {turns : Nat} (hwf : s.fs.files.WF)
    (hd : isDir (s.fs.inode dir).iMode = true) (h : AtBlock s.fs dir i block)
    (ha : dirEntrySize ∣ dirSize s.fs dir) (hle : i * dirEntrySize ≤ dirSize s.fs dir) :
    Prog.wp (addLoop sv dir name turns i block)
      (fun r s' => Changes s s' dir ∧ Place s'.fs dir r) s := by
  induction turns generalizing s i block with
  | zero =>
    rw [addLoop, Prog.wp_pure]
    exact ⟨.refl hwf, trivial⟩
  | succ turns ih =>
    rw [addLoop, Prog.wp_bind]
    refine (addBlock_spec hs hwf hd h).mono ?_
    rintro b s₁ ⟨h₁, hsize, hb⟩
    split
    · rw [Prog.wp_pure]
      exact ⟨h₁, trivial⟩
    rename_i h0
    show Prog.wp (_ >>= _) _ s₁
    rw [Prog.wp_bind]
    refine (extendDir_spec h₁.touches.wf (h₁.isDir hd) hb h0 (hsize ▸ ha) (hsize ▸ hle)).mono ?_
    rintro _ s₂ ⟨h₂, hb₂, hle₂⟩
    have h₁₂ := h₁.trans h₂
    have hd₂ := h₁₂.isDir hd
    rw [Prog.wp_bind, wp_inodeAt, Prog.wp_bind, wp_bread]
    split
    · -- the entry is not in use, and only its name is written
      rw [Prog.wp_bind, wp_currentTime, Prog.wp_bind, wp_setInode, Prog.wp_bind]
      generalize hm : ({ s₂.fs.inode dir with iMtime := s₂.now } : MInode) = m
      have hhead : m.head = (s₂.fs.inode dir).head := by rw [← hm]; rfl
      have hzone : m.iZone = (s₂.fs.inode dir).iZone := by rw [← hm]
      have hms : m.iSize = (s₂.fs.inode dir).iSize := by rw [← hm]
      obtain ⟨hsame, -⟩ := num_update h₂.touches.wf hhead hzone
      have h₃ : Changes s₂ (s₂.withInode dir m) dir :=
        .of_same hsame (withInode_only hhead) (by rw [withInode_self, hms]) rfl rfl
      have hb₃ : At (s₂.withInode dir m).fs dir i b := hb₂.update hzone (MInode.head_iDev hhead)
      have hle₃ : (i + 1) * dirEntrySize ≤ dirSize (s₂.withInode dir m).fs dir := by
        rw [dirSize, withInode_self, hms]
        exact hle₂
      have hdev : (s₂.fs.inode dir).iDev = ((s₂.withInode dir m).fs.inode dir).iDev := by
        rw [withInode_self, MInode.head_iDev hhead]
      have hdisk : s₂.fs.disk = (s₂.withInode dir m).fs.disk := rfl
      rw [hdev, hdisk]
      generalize s₂.withInode dir m = s₃ at h₃ hb₃ hle₃ ⊢
      have hf₃ := isFile_of_isDir (h₃.isDir hd₂)
      refine (bwriteName_spec h₃.touches.wf hf₃ hb₃ h0 name).mono ?_
      rintro _ s₄ ⟨h₄, hn⟩
      rw [Prog.wp_pure]
      refine ⟨(h₁₂.trans h₃).trans ⟨h₄.touches, h₄.only, h₄.map, h₄.task, fun _ => ⟨fun ha => ?_, ?_⟩⟩,
        i, h₄.at_, h0, rfl, ?_⟩
      · rwa [h₄.inode]
      · rintro nr - ⟨j, hj, hjn⟩
        exact ⟨j, h₄.inode ▸ hj, (hn j).symm.trans hjn⟩
      · rwa [dirSize, h₄.inode]
    · -- the entry is in use: the next one
      refine (ih h₂.touches.wf hd₂ hb₂.atBlock ((h₁₂.dir hd).1 ha) hle₂).mono ?_
      rintro r s₃ ⟨h₃, hr⟩
      exact ⟨h₁₂.trans h₃, hr⟩

/-- `add_entry` finds a free entry and changes nothing but the directory. -/
lemma addEntry_spec (hs : Sound sv) {name : List Char} (h : Consistent s)
    (hd : isDir (s.fs.inode dir).iMode = true) :
    Prog.wp (addEntry sv dir name) (fun r s' => Changes s s' dir ∧ Place s'.fs dir r) s := by
  rw [addEntry, Prog.wp_bind, wp_inodeAt]
  split
  · rw [Prog.wp_pure]
    exact ⟨.refl h.wf, trivial⟩
  split
  · rw [Prog.wp_pure]
    exact ⟨.refl h.wf, trivial⟩
  · refine addLoop_spec hs h.wf hd atBlock_zero (h.aligned dir hd) ?_
    rw [Nat.zero_mul]
    exact Nat.zero_le _

/-- `de->inode = nr` for the number of an inode with a link. -/
lemma bwriteInode_guards {e nr : Nat} (h : Guards x c n s) (hd : isDir (s.fs.inode dir).iMode = true)
    (hp : Place s.fs dir (some (block, e))) (hnr : nr < 65536) (hl : Live s ((s.fs.inode dir).iDev, nr)) :
    Prog.wp (bwrite (s.fs.inode dir).iDev block
        (setDirInode (s.fs.disk.blocks ((s.fs.inode dir).iDev, block)) e (.ofNat 16 nr)))
      (fun _ s' => Guards x c n s' ∧ s'.fs.inode = s.fs.inode) s := by
  obtain ⟨i, hi, h0, rfl, hle⟩ := hp
  refine (bwriteInode_spec h.wf (isFile_of_isDir hd) hi h0 _).mono ?_
  rintro _ s₁ ⟨h₁, hn⟩
  have hx : x ≠ dir := (h.ne hd).symm
  refine ⟨h.of_only h₁.touches.wf h₁.only h₁.map h₁.task (fun d hd' => ⟨fun ha => ?_, fun nr' h0 he => ?_⟩)
    (h₁.touches.contents x hx) (by rw [h₁.inode]) (by rw [h₁.inode]; exact h.count), h₁.inode⟩
  · rwa [h₁.inode]
  · obtain rfl | hne := eq_or_ne d dir
    · obtain ⟨j, hj, hjn⟩ := he
      have hjn : num s₁.fs d j = nr' := hjn
      rw [hn] at hjn
      split at hjn
      · right
        rw [← hjn, BitVec.toNat_ofNat, Nat.mod_eq_of_lt hnr]
        exact hl
      · exact .inl ⟨j, h₁.inode ▸ hj, hjn⟩
    · exact .inl (he.congr (h₁.touches.contents d hne) (by rw [h₁.inode]))

end OldLinux.Access
