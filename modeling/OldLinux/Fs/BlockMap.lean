import OldLinux.Fs.Bmap
import OldLinux.Fs.FileDev

/-!
# The law of the block map

`create_block` and `bmap` (`fs/inode.c`) on one inode of any file system. What is asked is only that the
zones of this inode are pairwise distinct and that `new_block` hands out none of them, so the inode is
looked at by itself (`FileSys.only`); other inodes may share its zones. `block_map_law` says that
`create_block` sets the map at one block, or nowhere if it fails.
-/

namespace OldLinux.Fs.FileSys
open Lib Function

variable {ι : Type*} [DecidableEq ι] {newBlock : Disk → Nat → Nat × Disk} {now : Nat}
  {fs fs' : FileSys ι} {k : ι} {block : Nat}

/-- The disk with the inode `k` alone. -/
def only (fs : FileSys ι) (k : ι) : FileSys Unit := ⟨fs.disk, fun _ => fs.inode k⟩

/-- What `create_block(inode, block)`, which has returned `z`, leaves: zones that are pairwise distinct,
    and a map that has changed at the block alone, if at all. Called again it returns the same, whatever
    `new_block` would do, or where there has been no zone and there still is none. -/
structure BlockMapLaw (newBlock : Disk → Nat → Nat × Disk) (now : Nat) (fs : FileSys ι) (k : ι)
    (block z : Nat) (fs' : FileSys ι) : Prop where
  distinct : (fs'.only k).WF
  mapped : z ≠ 0 → fs'.bmap newBlock now k block = .ret (z, fs')
  others : ∀ b < maxBlocks, b ≠ block ∨ z = 0 → ∃ y,
    fs.bmap newBlock now k b = .ret (y, fs) ∧ fs'.bmap newBlock now k b = .ret (y, fs')
  again : z ≠ 0 → ∀ newBlock' now', fs'.createBlock newBlock' now' k block = .ret (z, fs')
  failing : z = 0 → (newBlock fs'.disk (fs'.dev k)).1 = 0 → ∃ disk, disk.blocks = fs'.disk.blocks ∧
    fs'.createBlock newBlock now k block = .ret (0, { fs' with disk := disk })

/-- A result of an operation, with the inode `k` alone. -/
def onlyResult (k : ι) : Result (Nat × FileSys ι) → Result (Nat × FileSys Unit)
  | .ret (z, fs) => .ret (z, fs.only k)
  | .panic msg => .panic msg
  | .fault => .fault

/-! ## A walk where `new_block` fails -/

/-- Where a zone is missing, a `new_block` that fails is called once. -/
lemma createBlock_of_failed (hb : block < maxBlocks) (h : fs.zone k (slotOf block) = 0)
    (hf : (newBlock fs.disk (fs.dev k)).1 = 0) : fs.createBlock newBlock now k block =
      .ret (0, { fs with disk := (newBlock fs.disk (fs.dev k)).2 }) := by
  -- the `i_zone` are those of `fs`
  have htop : ∀ disk i, FileSys.zone { fs with disk := disk } k (.top i) = fs.zone k (.top i) :=
    fun _ _ => rfl
  rw [createBlock]
  rw [slotOf] at h
  by_cases h7 : block < 7
  · rw [if_pos h7] at h
    rw [bmapOrCreate_direct h7, ensureZone_of_failed h hf]
    simp only [htop, h]
  rw [if_neg h7] at h
  by_cases h519 : block < 519
  · rw [if_pos h519] at h
    rw [bmapOrCreate_ind h7 h519]
    by_cases hz : fs.zone k (.top 7) = 0
    · rw [ensureZone_of_failed hz hf]
      simp only [htop, hz, if_true]
    · rw [ensureZone_keep fun _ => hz]
      simp only [if_neg hz, ensureEntry_of_failed hz h hf]
  · rw [if_neg h519] at h
    rw [bmapOrCreate_dind h519 hb]
    by_cases hz : fs.zone k (.top 8) = 0
    · rw [ensureZone_of_failed hz hf]
      simp only [htop, hz, if_true]
    rw [ensureZone_keep fun _ => hz]
    by_cases hi : fs.zone k (.sub (.top 8) ((block - 519) / 512)) = 0
    · simp only [if_neg hz, ensureEntry_of_failed hz hi hf, if_true]
    · simp only [if_neg hz, ensureEntry_keep hz fun _ => hi, if_neg hi, ensureEntry_of_failed hi h hf]

/-! ## One inode by itself -/

omit [DecidableEq ι] in
/-- The zones of one inode. -/
@[simp] lemma only_zone (s : Slot) : (fs.only k).zone () s = fs.zone k s := by
  induction s with
  | top i => rfl
  | sub p e ih =>
    rw [zone, zone, ih]
    rfl

/-- Allocating a zone needs this inode only. -/
lemma only_ensureZone {i : Nat} {create : Bool} : (fs.ensureZone newBlock now k i create).only k =
    (fs.only k).ensureZone newBlock now () i create := by
  rw [ensureZone, ensureZone]
  show FileSys.only (if create = true ∧ (fs.inode k).iZone i = 0 then _ else _) k =
    if create = true ∧ (fs.inode k).iZone i = 0 then _ else _
  split
  · simp only [only, update_self]
    congr
  · rfl

omit [DecidableEq ι] in
/-- An entry of an index block needs this inode only. -/
lemma only_ensureEntry {z e : Nat} {create : Bool} :
    (fs.only k).ensureEntry newBlock () z e create =
      ((fs.ensureEntry newBlock k z e create).1, (fs.ensureEntry newBlock k z e create).2.only k) := by
  rw [ensureEntry, ensureEntry]
  show (if create = true ∧ (entry (fs.disk.blocks ((fs.inode k).iDev, z)) e).toNat = 0 then _ else _) = _
  split
  · by_cases hz : (newBlock fs.disk (fs.inode k).iDev).1 = 0
    · simp only [only, hz, ne_eq, not_true, if_false]
    · simp only [only, hz, ne_eq, not_false_eq_true, if_true]
  · rfl

/-- `create_block` looks at no other inode. -/
lemma only_createBlock (hb : block < maxBlocks) : (fs.only k).createBlock newBlock now () block =
    onlyResult k (fs.createBlock newBlock now k block) := by
  rw [createBlock, createBlock]
  by_cases h7 : block < 7
  · rw [bmapOrCreate_direct h7, bmapOrCreate_direct h7]
    simp only [← only_ensureZone, only_zone]
    rfl
  by_cases h519 : block < 519
  · rw [bmapOrCreate_ind h7 h519, bmapOrCreate_ind h7 h519]
    simp only [← only_ensureZone, only_zone, only_ensureEntry]
    split
    · rfl
    · rfl
  · rw [bmapOrCreate_dind h519 hb, bmapOrCreate_dind h519 hb]
    simp only [← only_ensureZone, only_zone, only_ensureEntry]
    split
    · rfl
    · split
      · rfl
      · rfl

/-- What `create_block` does to an inode whose zones are pairwise distinct, whatever the others. -/
lemma createBlock_only (ha : Allocates newBlock) (h : (fs.only k).WF) (hb : block < maxBlocks) :
    ∃ z fs', fs.createBlock newBlock now k block = .ret (z, fs') ∧
      Walked (fs.only k) (fs'.only k) () (slotOf block) ∧ fs'.zone k (slotOf block) = z := by
  obtain ⟨z, g, e, hw, hz⟩ : ∃ z g, (fs.only k).createBlock newBlock now () block = .ret (z, g) ∧
      Walked (fs.only k) g () (slotOf block) ∧ g.zone () (slotOf block) = z := createBlock_walked ha h hb
  rw [only_createBlock hb] at e
  cases hr : fs.createBlock newBlock now k block with
  | panic msg =>
    rw [hr] at e
    cases e
  | fault =>
    rw [hr] at e
    cases e
  | ret r =>
    rw [hr] at e
    obtain ⟨rfl, rfl⟩ := Prod.mk.inj (Result.ret.inj e)
    exact ⟨r.1, r.2, rfl, hw, (only_zone _).symm.trans hz⟩

/-- The block map law: for every inode whose zones are pairwise distinct, and every block of a file,
    `create_block` sets the map at the block or changes it nowhere. -/
theorem block_map_law (ha : Allocates newBlock) (h : (fs.only k).WF) (hb : block < maxBlocks) :
    ∃ z fs', fs.createBlock newBlock now k block = .ret (z, fs') ∧
      BlockMapLaw newBlock now fs k block z fs' := by
  obtain ⟨z, fs', e, hw, hz⟩ := createBlock_only ha h hb
  refine ⟨z, fs', e, hw.keeps.wf, ?_, ?_, ?_, ?_⟩
  · intro _
    rw [bmap_eq hb, hz]
  · intro b hlt hne
    refine ⟨_, bmap_eq hlt, ?_⟩
    have hbefore : (fs.only k).zone () (slotOf b) = fs.zone k (slotOf b) := only_zone _
    have hafter : (fs'.only k).zone () (slotOf b) = fs'.zone k (slotOf b) := only_zone _
    rw [bmap_eq hlt, ← hbefore, ← hafter]
    by_cases hself : b = block
    · -- the block itself, which has no zone before and none after
      have hz0 := hne.resolve_left (not_not_intro hself)
      have h0 : (fs'.only k).zone () (slotOf b) = 0 := by
        rw [only_zone, hself, hz, hz0]
      by_cases hold : (fs.only k).zone () (slotOf b) = 0
      · rw [h0, hold]
      · rw [hw.grows () _ (slotOf_valid hlt) hold]
    · rw [hw.zones () _ (slotOf_valid hlt) (slotOf_not_index b) fun hs => hself (slotOf_injective hs.2)]
  · intro hz0 newBlock' now'
    have hne : fs'.zone k (slotOf block) ≠ 0 := hz ▸ hz0
    rw [createBlock_of_ne hb hne, hz]
  · intro hz0 hf
    exact ⟨_, (ha.failed _ _ hf).1, createBlock_of_failed hb (hz.trans hz0) hf⟩

/-- The first doubly indirect block of an empty file, which takes three zones. -/
theorem block_map_law_519 : ∃ fs', emptyFiles.createBlock firstFit 0 0 519 = .ret (7, fs') ∧
    BlockMapLaw firstFit 0 emptyFiles 0 519 7 fs' := by
  have hwf : (emptyFiles.only 0).WF := by
    have hz : ∀ k s, (emptyFiles.only 0).zone k s = 0 := by
      intro k s
      induction s with
      | top => rfl
      | sub p e ih => exact zone_sub_of_zero ih
    exact ⟨fun _ h => (h (hz _ _)).elim, fun _ _ h => (h (hz _ _)).elim⟩
  obtain ⟨z, fs', e, hlaw⟩ : ∃ z fs', emptyFiles.createBlock firstFit 0 0 519 = .ret (z, fs') ∧
      BlockMapLaw firstFit 0 emptyFiles 0 519 z fs' := block_map_law allocates_firstFit hwf (by decide)
  have hrun : (emptyFiles.createBlock firstFit 0 0 519).toOption.map Prod.fst = some 7 := by rfl
  rw [e] at hrun
  obtain rfl : z = 7 := Option.some.inj hrun
  exact ⟨fs', e, hlaw⟩

end OldLinux.Fs.FileSys
