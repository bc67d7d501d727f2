import OldLinux.Bitmap.Exact
import OldLinux.Files.Resolve

/-!
# Room in a directory

When `add_entry` on the mounted disk finds a place. It goes through the entries up to `i_size`, for which the
blocks are there, and behind them it needs what is left of the last block, or another block from `create_block`
(`addEntry_iff`). It sets bits of the zone bitmap, but clears none (`addEntry_keeps`).
-/

namespace OldLinux.Files
open Lib Fs Function

variable {μ : Type} {k k' : RootDisk μ} {reads : Nat × Nat → Bool} {dir : MInode} {b e i j n z dev nr : Nat}
  {de : EntryPtr} {name : Name}

namespace RootDisk

/-! ## Blocks that are there -/

/-- A zone that is there is kept. -/
lemma ensureZone_keep (hz : dir.iZone i ≠ 0) : ensureZone dir i k = .ret (dir, k) := by
  rw [ensureZone, if_neg hz]
  rfl

/-- An entry of an index block that is there is kept. -/
lemma readEntry_keep (hr : reads (dev, z) = true) (he : (entry (k.blocks (dev, z)) e).toNat ≠ 0) :
    readEntry reads dev z e k = .ret ((entry (k.blocks (dev, z)) e).toNat, k) := by
  rw [readEntry, Prog.bind_of_ret (m := Prog.get) (a := k) (t := k) rfl, if_pos hr]
  show (if _ = 0 then _ else _ : Prog (RootDisk μ) Nat) k = _
  rw [if_neg he]
  rfl

/-- The first zones are in the inode. -/
lemma zone_top (h : (k.fileSys dir).zone () (.top i) ≠ 0) : dir.iZone i ≠ 0 :=
  fun e => h (congrArg BitVec.toNat e)

/-- The entry of an index block that is there. -/
lemma readEntry_slot {p : Slot} (hne : (k.fileSys dir).zone () (.sub p e) ≠ 0)
    (hr : (k.fileSys dir).zone () p ≠ 0 → reads ((k.fileSys dir).addr () p) = true) :
    readEntry reads dir.iDev ((k.fileSys dir).zone () p) e k = .ret ((k.fileSys dir).zone () (.sub p e), k) := by
  have hp : (k.fileSys dir).zone () p ≠ 0 := fun h0 => hne (FileSys.zone_sub_of_zero h0)
  have he : (k.fileSys dir).zone () (.sub p e) =
      (entry (k.blocks (dir.iDev, (k.fileSys dir).zone () p)) e).toNat := by
    rw [FileSys.zone, if_neg hp]
    rfl
  rw [he] at hne ⊢
  exact readEntry_keep (hr hp) hne

/-- `create_block` of a block that is there. -/
lemma createBlock_keep (h : (k.fileSys dir).HasBlock reads () b) :
    createBlock reads dir b k = .ret (((k.fileSys dir).zone () (slotOf b), dir), k) := by
  obtain ⟨hlt, hne, hpath, -⟩ := h
  rw [createBlock, if_neg (Nat.not_le.2 hlt)]
  rw [slotOf] at hne hpath ⊢
  by_cases h7 : b < 7
  · rw [if_pos h7] at hne
    simp only [if_pos h7]
    exact Prog.bind_of_ret (ensureZone_keep (zone_top hne))
  simp only [if_neg h7] at hne hpath ⊢
  by_cases h519 : b < 519
  · simp only [if_pos h519] at hne hpath ⊢
    have htop := zone_top fun h0 => hne (FileSys.zone_sub_of_zero h0)
    rw [if_pos (by omega), Prog.bind_of_ret (ensureZone_keep htop), if_neg htop]
    exact Prog.bind_of_ret (readEntry_slot hne hpath.2)
  · simp only [if_neg h519] at hne hpath ⊢
    have hne' := fun h0 => hne (FileSys.zone_sub_of_zero h0)
    have htop := zone_top fun h0 => hne' (FileSys.zone_sub_of_zero h0)
    have hdiv : (b - 7 - 512) >>> 9 = (b - 519) / 512 := by
      rw [Nat.shiftRight_eq_div_pow]
      omega
    have hmod : (b - 7 - 512) &&& 511 = (b - 519) % 512 := by
      rw [show 511 = 2 ^ 9 - 1 from rfl, Nat.and_two_pow_sub_one_eq_mod]
      omega
    rw [if_neg (by omega), Prog.bind_of_ret (ensureZone_keep htop), if_neg htop, hdiv, hmod]
    refine (Prog.bind_of_ret (readEntry_slot hne' hpath.1.2)).trans ?_
    rw [if_neg hne']
    exact Prog.bind_of_ret (readEntry_slot hne hpath.2)

/-- What can be read is delivered. -/
lemma delivers_of_reads {a : Nat × Nat} (h : reads a = true) : k.delivers reads a = true := by
  rw [delivers, h, Bool.true_or]

/-- Then so is every block on the way to a slot. -/
lemma readsTo_delivers {fs : FileSys Unit} : ∀ {p : Slot}, fs.ReadsTo reads () p →
    fs.ReadsTo (k.delivers reads) () p
  | .top _, _ => trivial
  | .sub _ _, h => ⟨readsTo_delivers h.1, fun hz => delivers_of_reads (h.2 hz)⟩

/-- A block that is there is delivered. -/
lemma hasBlock_delivers {fs : FileSys Unit} (h : fs.HasBlock reads () b) : fs.HasBlock (k.delivers reads) () b :=
  ⟨h.lt, h.ne, readsTo_delivers h.path, delivers_of_reads h.read⟩

/-! ## Blocks that another block does not touch -/

variable {a : Nat × Nat} {p : Slot}

/-- The blocks differ in one that the file does not use. -/
structure Apart (k k' : RootDisk μ) (dir : MInode) (a : Nat × Nat) : Prop where
  blocks : ∀ b, b ≠ a → k'.blocks b = k.blocks b
  free : ∀ p : Slot, p.Valid → (k.fileSys dir).zone () p ≠ 0 → (k.fileSys dir).addr () p ≠ a

/-- A store apart from the index blocks leaves the zones. -/
lemma Apart.zone (h : Apart k k' dir a) : ∀ p : Slot, p.Valid →
    (k'.fileSys dir).zone () p = (k.fileSys dir).zone () p
  | .top _, _ => rfl
  | .sub p e, hv => by
    have hp := h.zone p hv.1.valid
    rw [FileSys.zone, FileSys.zone, hp]
    split
    · rfl
    · next h0 => exact congrArg (fun data => (entry data e).toNat) (h.blocks _ (h.free p hv.1.valid h0))

/-- A store apart from the index blocks leaves the places of the index entries. -/
lemma Apart.addr (h : Apart k k' dir a) (hv : p.Valid) : (k'.fileSys dir).addr () p = (k.fileSys dir).addr () p :=
  Prod.ext rfl (h.zone p hv)

/-- A store apart from the index blocks leaves what can be read of the slots. -/
lemma Apart.readsTo (h : Apart k k' dir a) : ∀ p : Slot, p.Valid → (k.fileSys dir).ReadsTo reads () p →
    (k'.fileSys dir).ReadsTo reads () p
  | .top _, _, _ => trivial
  | .sub p e, hv, hr => by
    refine ⟨h.readsTo p hv.1.valid hr.1, ?_⟩
    rw [h.zone p hv.1.valid, h.addr hv.1.valid]
    exact hr.2

/-- The blocks of the file are there still. -/
lemma Apart.hasBlocks (h : Apart k k' dir a) (hb : (k.fileSys dir).HasBlocks reads ()) :
    (k'.fileSys dir).HasBlocks reads () := fun b hlt => by
  obtain ⟨hmax, hne, hpath, hread⟩ := hb b hlt
  have hv := slotOf_valid hmax
  refine ⟨hmax, ?_, h.readsTo _ hv hpath, ?_⟩
  · rw [h.zone _ hv]
    exact hne
  · rw [h.addr hv]
    exact hread

/-! ## Entry by entry -/

/-- The first entry that is not below `i_size`. -/
def endEntry (dir : MInode) : Nat := (dir.iSize.toNat + 15) / dirEntrySize

/-- An entry is in use below the size. -/
lemma lt_endEntry : i < endEntry dir ↔ i * dirEntrySize < dir.iSize.toNat := by
  show i < (dir.iSize.toNat + 15) / 16 ↔ i * 16 < dir.iSize.toNat
  omega

/-- `create_block` gives the directory block `b`, and it can be had. -/
def MoreBlocks (reads : Nat × Nat → Bool) (k : RootDisk μ) (dir : MInode) (b : Nat) : Prop :=
  Prog.returns (createBlock (k.delivers reads) dir b)
    (fun r _ => r.1 ≠ 0 ∧ k.delivers reads (r.2.iDev, r.1) = true) k

/-- An entry below `i_size` is free; or what is left of the last block is room for one; or there is another
    block. -/
def NextEntry (reads : Nat × Nat → Bool) (k : RootDisk μ) (dir : MInode) : Prop :=
  (∃ i < endEntry dir, (((k.fileSys dir).dir ()).slot i).inode = 0) ∨ endEntry dir = 0 ∨
    endEntry dir % dirEntriesPerBlock ≠ 0 ∨ MoreBlocks reads k dir (endEntry dir / dirEntriesPerBlock)

/-- The first block of the directory can be read, and there is an entry for another name. -/
structure HasRoom (reads : Nat × Nat → Bool) (k : RootDisk μ) (dir : MInode) : Prop where
  zone : dir.iZone 0 ≠ 0
  first : reads (dir.iDev, (dir.iZone 0).toNat) = true
  next : NextEntry reads k dir

/-- `add_entry` takes what is behind `i_size`, and what is free. -/
lemma useEntry_used {fs : FileSys Unit} {now : Nat} : (fs.useEntry now () name de i).1 = true ↔
    endEntry (fs.inode ()) ≤ i ∨ (fs.deref de).inode = 0 := by
  have hle : endEntry (fs.inode ()) ≤ i ↔ i * dirEntrySize ≥ (fs.inode ()).iSize.toNat := by
    rw [← Nat.not_lt, lt_endEntry, Nat.not_lt]
  rw [FileSys.useEntry, hle]
  by_cases hi : i * dirEntrySize ≥ (fs.inode ()).iSize.toNat
  · have h0 : ((fs.growDir now () de i).deref de).inode = 0 := by
      have hblock : (fs.growDir now () de i).disk.blocks de.block =
          (fs.disk.blocks de.block).store (n := 2) (dirEntrySize * de.index) (0 : BitVec 16) := update_self ..
      rw [FileSys.deref, hblock, dirEntryAt_store]
    rw [if_pos hi, if_pos h0]
    exact ⟨fun _ => .inl hi, fun _ => rfl⟩
  · rw [if_neg hi]
    by_cases h0 : (fs.deref de).inode = 0
    · rw [if_pos h0]
      exact ⟨fun _ => .inr h0, fun _ => rfl⟩
    · rw [if_neg h0]
      exact ⟨fun hf => absurd hf Bool.false_ne_true, fun h => absurd h (not_or.2 ⟨hi, h0⟩)⟩

/-- The block of the next entry is there. -/
lemma fetchOrCreate_at (h : (k.fileSys dir).At reads () de i)
    (hb : (k.fileSys dir).HasBlock reads () (i / dirEntriesPerBlock)) :
    fetchOrCreate reads dir (some de) i k = .ret ((.entry ((k.fileSys dir).place () i), dir), k) := by
  cases h with
  | inl h =>
    rw [h.1, fetchOrCreate, if_pos FileSys.index_place_lt]
    rfl
  | inr h =>
    have hlt : ¬ de.index < dirEntriesPerBlock := by
      rw [h.1]
      exact lt_irrefl _
    have hread : k.delivers reads (dir.iDev, (k.fileSys dir).zone () (slotOf (i / dirEntriesPerBlock))) = true :=
      delivers_of_reads hb.read
    rw [fetchOrCreate, if_neg hlt, Prog.bind_of_ret (m := Prog.get) (a := k) (t := k) rfl]
    refine (Prog.bind_of_ret (createBlock_keep (hasBlock_delivers hb))).trans ?_
    dsimp only
    rw [if_neg hb.ne, if_pos hread, FileSys.place_of_mod h.2]
    rfl

/-- An entry that is not free is passed over. -/
lemma addFrom_live (h : (k.fileSys dir).At reads () de i)
    (hb : (k.fileSys dir).HasBlock reads () (i / dirEntriesPerBlock)) (hi : i < endEntry dir)
    (hl : (((k.fileSys dir).dir ()).slot i).inode ≠ 0) : addFrom reads name (n + 1) (some de) i dir k =
      addFrom reads name n (some ((k.fileSys dir).place () i).next) (i + 1) dir k := by
  have huse : useEntry dir name ((k.fileSys dir).place () i) i k = .ret ((false, dir), k) := by
    have he : (k.fileSys dir).useEntry k.currentTime () name ((k.fileSys dir).place () i) i =
        (false, k.fileSys dir) := FileSys.useEntry_of_live hb (lt_endEntry.1 hi) hl
    rw [useEntry, Prog.bind_of_ret (m := Prog.get) (a := k) (t := k) rfl, he]
    rfl
  rw [addFrom, Prog.bind_of_ret (fetchOrCreate_at h hb)]
  show (useEntry dir name ((k.fileSys dir).place () i) i >>= _) k = _
  rw [Prog.bind_of_ret huse]
  rfl

/-- Using an entry does to the disk what it does to the file. -/
lemma useEntry_run : useEntry dir name de i k =
    .ret ((((k.fileSys dir).useEntry k.currentTime () name de i).1,
      ((k.fileSys dir).useEntry k.currentTime () name de i).2.inode ()),
      { k with blocks := ((k.fileSys dir).useEntry k.currentTime () name de i).2.disk.blocks }) := rfl

/-- An entry that is free, or behind `i_size`, is used. -/
lemma addFrom_used {de' : EntryPtr} {dir' : MInode}
    (hf : fetchOrCreate reads dir (some de) i k = .ret ((.entry de', dir'), k'))
    (hu : endEntry dir' ≤ i ∨ ((k'.fileSys dir').deref de').inode = 0) :
    Prog.returns (addFrom reads name (n + 1) (some de) i dir) (fun r _ => r.1.isSome = true) k := by
  have hused : ((k'.fileSys dir').useEntry k'.currentTime () name de' i).1 = true := useEntry_used.2 hu
  rw [addFrom, Prog.returns, Prog.bind_of_ret hf]
  show Prog.returns (useEntry dir' name de' i >>= _) _ k'
  rw [Prog.returns, Prog.bind_of_ret useEntry_run]
  dsimp only
  rw [if_pos hused]
  exact ⟨_, _, rfl, rfl⟩

/-- Allocating a zone leaves the size. -/
lemma ensureZone_size : Prog.wp (ensureZone dir i) (fun dir' _ => dir'.iSize = dir.iSize) k := by
  rw [ensureZone]
  split
  · rw [Prog.wp_bind]
    intro z k₁ _
    rw [Prog.wp_bind, Prog.wp_get]
    show Prog.wp (if _ then _ else _) _ k₁
    split
    · rw [Prog.wp_pure]
    · rw [Prog.wp_pure]
  · rw [Prog.wp_pure]

/-- `create_block` does not set `i_size`. -/
lemma createBlock_size : Prog.wp (createBlock reads dir b) (fun r _ => r.2.iSize = dir.iSize) k := by
  rw [createBlock]
  split
  · exact Prog.wp_panic
  split
  · rw [Prog.wp_bind]
    refine ensureZone_size.mono ?_
    intro dir₁ k₁ h₁
    rw [Prog.wp_pure]
    exact h₁
  split
  · rw [Prog.wp_bind]
    refine ensureZone_size.mono ?_
    intro dir₁ k₁ h₁
    split
    · rw [Prog.wp_pure]
      exact h₁
    · rw [Prog.wp_bind]
      intro z k₂ _
      rw [Prog.wp_pure]
      exact h₁
  · rw [Prog.wp_bind]
    refine ensureZone_size.mono ?_
    intro dir₁ k₁ h₁
    split
    · rw [Prog.wp_pure]
      exact h₁
    · rw [Prog.wp_bind]
      intro z k₂ _
      split
      · rw [Prog.wp_pure]
        exact h₁
      · rw [Prog.wp_bind]
        intro z' k₃ _
        rw [Prog.wp_pure]
        exact h₁

/-- Without a buffer the loop does not come far. -/
lemma addFrom_none : addFrom reads name n none i dir k = .fault := by
  cases n with
  | zero => rfl
  | succ n => rfl

/-- Behind the last entry, with the buffer used up. -/
lemma addFrom_next (hx : de.index = dirEntriesPerBlock) (hi : endEntry dir ≤ i) :
    Prog.returns (addFrom reads name (n + 1) (some de) i dir) (fun r _ => r.1.isSome = true) k ↔
      MoreBlocks reads k dir (i / dirEntriesPerBlock) := by
  have hlt : ¬ de.index < dirEntriesPerBlock := by
    rw [hx]
    exact lt_irrefl _
  constructor
  · rintro ⟨r, k₂, hrun, hr⟩
    rw [addFrom] at hrun
    obtain ⟨⟨f, dir₁⟩, k₁, hf, hrun⟩ := Prog.bind_ret_iff.1 hrun
    rw [fetchOrCreate, if_neg hlt, Prog.bind_of_ret (m := Prog.get) (a := k) (t := k) rfl] at hf
    obtain ⟨⟨z, dir'⟩, k', hc, hf⟩ := Prog.bind_ret_iff.1 hf
    refine ⟨(z, dir'), k', hc, ?_⟩
    dsimp only at hf
    by_cases hz : z = 0
    · rw [if_pos hz] at hf
      cases hf
      cases hrun
      cases hr
    by_cases hread : k.delivers reads (dir'.iDev, z) = true
    · exact ⟨hz, hread⟩
    · rw [if_neg hz, if_neg hread] at hf
      cases hf
      have hnone : addFrom reads name n none (i + dirEntriesPerBlock) dir₁ k₁ = .ret (r, k₂) := hrun
      rw [addFrom_none] at hnone
      cases hnone
  · rintro ⟨⟨z, dir'⟩, k', hc, hz, hread⟩
    have hsize : dir'.iSize = dir.iSize := createBlock_size _ _ hc
    have hf : fetchOrCreate reads dir (some de) i k =
        .ret ((.entry ⟨(dir'.iDev, z), 0⟩, dir'), k') := by
      rw [fetchOrCreate, if_neg hlt, Prog.bind_of_ret (m := Prog.get) (a := k) (t := k) rfl]
      refine (Prog.bind_of_ret hc).trans ?_
      dsimp only at hz hread ⊢
      rw [if_neg hz, if_pos hread]
      rfl
    refine addFrom_used hf (.inl ?_)
    rw [endEntry, hsize]
    exact hi

/-- The loop of `add_entry`, from an entry on before which none is free. -/
lemma addFrom_iff (hbs : (k.fileSys dir).HasBlocks reads ()) (h : (k.fileSys dir).At reads () de i)
    (hi : i ≤ endEntry dir) (h0 : i = 0 → (k.fileSys dir).HasBlock reads () 0)
    (hl : ∀ j < i, (((k.fileSys dir).dir ()).slot j).inode ≠ 0) (hn : endEntry dir - i < n) :
    Prog.returns (addFrom reads name n (some de) i dir) (fun r _ => r.1.isSome = true) k ↔
      NextEntry reads k dir := by
  induction n generalizing de i with
  | zero => exact absurd hn (Nat.not_lt_zero _)
  | succ n ih =>
    by_cases hend : i = endEntry dir
    · have hno : ¬ ∃ j < endEntry dir, (((k.fileSys dir).dir ()).slot j).inode = 0 := by
        rintro ⟨j, hj, hz⟩
        exact hl j (hend ▸ hj) hz
      rw [NextEntry, or_iff_right hno, ← hend]
      cases h with
      | inl hin =>
        -- the last block has room
        refine iff_of_true (addFrom_used (fetchOrCreate_at (.inl hin) hin.2) (.inl hend.ge)) ?_
        refine .inr (.inr ?_)
        exact ⟨_, k, createBlock_keep (hasBlock_delivers hin.2), hin.2.ne, delivers_of_reads hin.2.read⟩
      | inr hout =>
        rw [addFrom_next hout.1 hend.ge]
        constructor
        · exact fun hm => .inr (.inr hm)
        · rintro (hz | hz | hm)
          · have hb := h0 hz
            rw [hz]
            exact ⟨_, k, createBlock_keep (hasBlock_delivers hb), hb.ne, delivers_of_reads hb.read⟩
          · exact absurd hout.2 hz
          · exact hm
    have hlt : i < endEntry dir := lt_of_le_of_ne hi hend
    have hb := hbs.entry (lt_endEntry.1 hlt)
    by_cases hz : (((k.fileSys dir).dir ()).slot i).inode = 0
    · refine iff_of_true (addFrom_used (fetchOrCreate_at h hb) (.inr ?_)) (.inl ⟨i, hlt, hz⟩)
      rw [FileSys.deref_place hb.lt hb.ne]
      exact hz
    · rw [Prog.returns, addFrom_live h hb hlt hz]
      refine ih (FileSys.at_next hb) hlt (fun h0 => absurd h0 (Nat.succ_ne_zero i)) (fun j hj => ?_) (by omega)
      cases Nat.lt_succ_iff_lt_or_eq.1 hj with
      | inl hj => exact hl j hj
      | inr e => exact e ▸ hz

/-- The inode of a directory as `add_entry` has it. -/
def dirInode (dev : Nat) (upd : DirUpdate) : MInode :=
  { MInode.zero with toDInode := upd.inode, iDev := dev, iCtime := upd.ctime, iDirt := upd.dirt }

/-- `add_entry` finds a place exactly when the directory has room. -/
lemma addEntry_iff {upd : DirUpdate} {chars : List Char} (hn : nameOf chars = some name)
    (hbs : (k.fileSys (dirInode dev upd)).HasBlocks reads ()) :
    Prog.returns (addEntry reads dev upd chars nr) (fun r _ => r.1 = true) k ↔
      HasRoom reads k (dirInode dev upd) := by
  by_cases hz : (dirInode dev upd).iZone 0 = 0 ∨ ¬ reads (dev, ((dirInode dev upd).iZone 0).toNat) = true
  · refine iff_of_false ?_ fun h => hz.elim h.zone fun hr => hr h.first
    have hrun : addEntry reads dev upd chars nr k = .ret ((false, upd), k) := by
      simp only [addEntry, hn]
      exact congrFun (if_pos hz) k
    rintro ⟨r, k', e, hr⟩
    rw [hrun] at e
    cases e
    cases hr
  obtain ⟨hz0, hr⟩ := not_or.1 hz
  have hr := not_not.1 hr
  have hb : (k.fileSys (dirInode dev upd)).HasBlock reads () 0 :=
    ⟨by decide, fun h0 => hz0 (BitVec.eq_of_toNat_eq h0), trivial, hr⟩
  have hend : endEntry (dirInode dev upd) - 0 < (dirInode dev upd).iSize.toNat / dirEntrySize + 2 := by
    show ((dirInode dev upd).iSize.toNat + 15) / 16 - 0 < (dirInode dev upd).iSize.toNat / 16 + 2
    omega
  have hloop := @addFrom_iff _ k reads (dirInode dev upd) 0 _ _ name hbs (.inl ⟨rfl, hb⟩) (Nat.zero_le _)
    (fun _ => hb) (fun j hj => absurd hj (Nat.not_lt_zero j)) hend
  -- behind the loop the inode number is entered, if there is an entry
  obtain ⟨f, hrun, hnone, hsome⟩ : ∃ f, addEntry reads dev upd chars nr k = (addFrom reads name
      ((dirInode dev upd).iSize.toNat / dirEntrySize + 2) (some ((k.fileSys (dirInode dev upd)).place () 0)) 0
      (dirInode dev upd) >>= f) k ∧
      (∀ dir' k₁, ∃ upd', f (none, dir') k₁ = .ret ((false, upd'), k₁)) ∧
      ∀ de dir' k₁, ∃ upd' k₂, f (some de, dir') k₁ = .ret ((true, upd'), k₂) := by
    refine ⟨?enter, ?run, ?none, ?some⟩
    case run =>
      simp only [addEntry, hn]
      exact congrFun (if_neg hz) k
    case none => exact fun _ _ => ⟨_, rfl⟩
    case some => exact fun _ _ _ => ⟨_, _, rfl⟩
  rw [Prog.returns, hrun]
  constructor
  · rintro ⟨r, k', e, hret⟩
    obtain ⟨⟨de, dir'⟩, k₁, hadd, e⟩ := Prog.bind_ret_iff.1 e
    cases de with
    | none =>
      obtain ⟨upd', e'⟩ := hnone dir' k₁
      rw [e'] at e
      cases e
      cases hret
    | some de => exact ⟨hz0, hr, hloop.1 ⟨_, _, hadd, rfl⟩⟩
  · rintro ⟨-, -, hnext⟩
    obtain ⟨⟨de, dir'⟩, k₁, hadd, hde⟩ := hloop.2 hnext
    obtain ⟨de, rfl⟩ := Option.isSome_iff_exists.1 hde
    obtain ⟨upd', k₂, e⟩ := hsome de dir' k₁
    rw [Prog.bind_of_ret hadd]
    exact ⟨_, _, e, rfl⟩

/-! ## What `create_block` looks at -/

/-- Disks that differ neither in the zone bitmap nor in the blocks. -/
structure Like (k k' : RootDisk μ) : Prop where
  super : k'.super = { k.super with sImap := k'.super.sImap }
  blocks : k'.blocks = k.blocks

/-- Inodes with the same zones. -/
structure LikeInode (dir dir' : MInode) : Prop where
  zone : dir'.iZone = dir.iZone
  dev : dir'.iDev = dir.iDev

variable {dir' : MInode}

/-- `new_block` does not look at the inode bitmap. -/
lemma newBlock_sImap (sb : SuperBlock) (imap : Nat → Option MapBuffer) (dev : Int) (g : Int → Option Nat) :
    Bitmap.newBlock { sb with sImap := imap } dev g =
      (Bitmap.newBlock sb dev g).map fun r => (r.1, { r.2 with sImap := imap }) := by
  by_cases hd : (sb.sDev.toNat : Int) = dev
  swap
  · simp only [Bitmap.newBlock, Bitmap.getSuper, if_neg hd]
    rfl
  simp only [Bitmap.newBlock, Bitmap.getSuper, if_pos hd]
  cases Bitmap.searchMaps sb.sZmap 0 8 with
  | none => rfl
  | some found =>
    dsimp only
    split
    · rfl
    split
    · rfl
    split
    · rfl
    split
    · rfl
    · rfl

/-- The allocation does not depend on the contents. -/
lemma newBlock_like (h : Like k k') : Prog.sim Eq Like (newBlock dev) (newBlock dev) k k' := by
  intro z k₁ e
  rw [newBlock] at e
  split at e
  · next z' sb hrun =>
    have hrun' := newBlock_sImap k.super k'.super.sImap dev fun _ => some 1
    rw [← h.super, hrun] at hrun'
    dsimp only at e
    rw [Prog.returns, newBlock, hrun']
    by_cases hz : z' = 0
    · rw [if_pos hz] at e
      cases e
      exact ⟨_, _, if_pos hz, rfl, rfl, h.blocks⟩
    · rw [if_neg hz] at e
      cases e
      exact ⟨_, _, if_neg hz, rfl, rfl, congrArg (fun b => update b (dev, z.toNat) fun _ => 0) h.blocks⟩
  · cases e
  · cases e

/-- Allocating a zone does not depend on the contents. -/
lemma ensureZone_like (h : Like k k') (hd : LikeInode dir dir') :
    Prog.sim LikeInode Like (ensureZone dir i) (ensureZone dir' i) k k' := by
  rw [ensureZone, ensureZone, hd.zone, hd.dev]
  split
  · refine Prog.sim_bind (newBlock_like h) ?_
    rintro z - k₁ k₁' rfl h₁
    refine Prog.sim_get ?_
    dsimp only
    split
    · exact Prog.sim_pure ⟨rfl, rfl⟩ h₁
    · exact Prog.sim_pure ⟨rfl, rfl⟩ h₁
  · exact Prog.sim_pure hd h

/-- Reading an entry of an index block does not depend on the contents. -/
lemma readEntry_like (h : Like k k') :
    Prog.sim Eq Like (readEntry reads dev z e) (readEntry reads dev z e) k k' := by
  rw [readEntry]
  refine Prog.sim_get ?_
  rw [h.blocks]
  split
  · dsimp only
    split
    · refine Prog.sim_bind (newBlock_like h) ?_
      rintro i - k₁ k₁' rfl h₁
      split
      · refine Prog.sim_bind (Prog.sim_modify (T := fun _ _ => True) trivial ⟨h₁.super, ?_⟩) ?_
        · exact congrArg (fun b => update b (dev, z) (setEntry (b (dev, z)) e (.ofInt 16 i))) h₁.blocks
        · rintro - - k₂ k₂' - h₂
          exact Prog.sim_pure rfl h₂
      · exact Prog.sim_pure rfl h₁
    · exact Prog.sim_pure rfl h
  · exact Prog.sim_pure rfl h

/-- `create_block` looks at the zones of the inode, the blocks and the zone bitmap. -/
lemma createBlock_like (h : Like k k') (hd : LikeInode dir dir') :
    Prog.sim (fun r r' => r'.1 = r.1 ∧ LikeInode r.2 r'.2) Like (createBlock reads dir b)
      (createBlock reads dir' b)
      k k' := by
  rw [createBlock, createBlock]
  split
  · exact Prog.wp_panic
  split
  · refine Prog.sim_bind (ensureZone_like h hd) ?_
    rintro d₁ d₁' k₁ k₁' hd₁ h₁
    exact Prog.sim_pure ⟨by rw [hd₁.zone], hd₁⟩ h₁
  split
  · refine Prog.sim_bind (ensureZone_like h hd) ?_
    rintro d₁ d₁' k₁ k₁' hd₁ h₁
    rw [hd₁.zone, hd₁.dev]
    split
    · exact Prog.sim_pure ⟨rfl, hd₁⟩ h₁
    · refine Prog.sim_bind (readEntry_like h₁) ?_
      rintro z - k₂ k₂' rfl h₂
      exact Prog.sim_pure ⟨rfl, hd₁⟩ h₂
  · refine Prog.sim_bind (ensureZone_like h hd) ?_
    rintro d₁ d₁' k₁ k₁' hd₁ h₁
    rw [hd₁.zone, hd₁.dev]
    split
    · exact Prog.sim_pure ⟨rfl, hd₁⟩ h₁
    · refine Prog.sim_bind (readEntry_like h₁) ?_
      rintro z - k₂ k₂' rfl h₂
      split
      · exact Prog.sim_pure ⟨rfl, hd₁⟩ h₂
      · refine Prog.sim_bind (readEntry_like h₂) ?_
        rintro z' - k₃ k₃' rfl h₃
        exact Prog.sim_pure ⟨rfl, hd₁⟩ h₃

/-- The same blocks are delivered. -/
lemma Like.delivers (h : Like k k') : k'.delivers reads = k.delivers reads := by
  have hz : k'.super.sZmap = k.super.sZmap := by rw [h.super]
  have hf : k'.super.sFirstdatazone = k.super.sFirstdatazone := by rw [h.super]
  funext a
  rw [RootDisk.delivers, RootDisk.delivers, marked, marked, hz, hf]

/-- Room is room on a disk that is alike. -/
lemma HasRoom.like (hr : HasRoom reads k dir) (h : Like k k') (hd : LikeInode dir dir')
    (hs : dir'.iSize = dir.iSize) : HasRoom reads k' dir' := by
  have hfs : k'.fileSys dir' = k.fileSys dir' := by rw [fileSys, fileSys, h.blocks]
  have hdir : (k'.fileSys dir').dir () = (k.fileSys dir).dir () := by rw [hfs, dir_same hd.zone hd.dev hs]
  have hend : endEntry dir' = endEntry dir := by rw [endEntry, hs, endEntry]
  refine ⟨?_, ?_, ?_⟩
  · rw [hd.zone]
    exact hr.zone
  · rw [hd.zone, hd.dev]
    exact hr.first
  · rw [NextEntry, hdir, hend]
    obtain hfree | h0 | hmod | ⟨r, k₁, hc, hz, hread⟩ := hr.next
    · exact .inl hfree
    · exact .inr (.inl h0)
    · exact .inr (.inr (.inl hmod))
    · obtain ⟨r', k₁', hc', ⟨hr1, hr2⟩, -⟩ := createBlock_like h hd r k₁ hc
      refine .inr (.inr (.inr ?_))
      rw [MoreBlocks, h.delivers]
      refine ⟨r', k₁', hc', ?_, ?_⟩
      · rw [hr1]
        exact hz
      · rw [hr1, hr2.dev]
        exact hread

end RootDisk

end OldLinux.Files
