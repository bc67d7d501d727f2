import OldLinux.Bitmap.Exact
import OldLinux.Files.Disk

/-!
# Failed allocation

`new_block` and `new_inode` (`fs/bitmap.c`) when they find nothing. `new_inode` gives back the slot that it
has taken and touches the bitmap only if it succeeds. `new_block` sets the bit before it looks whether there
is such a zone, so that a failure can cost a bit: `failed_allocation_iff`.
-/

namespace OldLinux.Files
open Lib Fs Function Bitmap

/-- When `new_block` returns 0, the zone bitmap is as before, with its dirty flags. -/
def LeavesZoneMap (sb : SuperBlock) (dev : Int) (getblk : Int → Option Nat) : Prop :=
  ∀ sb', Bitmap.newBlock sb dev getblk = .ret (0, sb') → sb'.sZmap = sb.sZmap

/-- When `new_inode` returns null, the inode bitmap is as before, with its dirty flags, and every inode has
    its count. -/
def LeavesInodeMap {μ : Type} (reads : Nat × Nat → Bool) (sv : Services μ) (dev : Nat)
    (s : Tables (RootDisk μ)) : Prop :=
  Prog.wp (newInode (RootDisk.services reads sv) dev) (fun r s' => r = none →
    s'.kernel.super.sImap = s.kernel.super.sImap ∧
      ∀ i, (s'.inodeTable i).iCount = (s.inodeTable i).iCount) s

/-- The first clear bit of the zone bitmap is one that `set_bit` can set, but of no zone of the device, or
    of zone 0, which cannot be told from a failure. -/
def WastesBit (sb : SuperBlock) (dev : Int) (getblk : Int → Option Nat) : Prop :=
  (sb.sDev.toNat : Int) = dev ∧ ∃ n, FirstClear sb.sZmap n ∧ n % 8192 < 64 ∧
    ((sb.sNzones.toNat : Int) ≤ bitZone sb n ∨ bitZone sb n = 0 ∧ getblk 0 = some 1)

/-! ## Zones -/

section
variable {sb : SuperBlock} {dev : Int} {getblk : Int → Option Nat}

/-- There is no super block of another device. -/
lemma getSuper_of_ne (h : (sb.sDev.toNat : Int) ≠ dev) : getSuper sb dev = none := if_neg h

/-- A bit that has been set shows in the maps. -/
lemma update_setBit_ne {maps : Nat → Option MapBuffer} {k j : Nat} (bh : MapBuffer) (hj : j < 64)
    (hc : ¬ MapBit maps (8192 * k + j)) :
    update maps k (some ⟨(setBit j bh.bData).2, true⟩) ≠ maps := by
  intro e
  have hdiv : (8192 * k + j) / 8192 = k := by omega
  have hmod : (8192 * k + j) % 8192 = j % 64 := by omega
  have hset : MapBit (update maps k (some ⟨(setBit j bh.bData).2, true⟩)) (8192 * k + j) := by
    rw [mapBit_update, if_pos hdiv, bit_setBit, hmod, decide_eq_true rfl, Bool.or_true]
  rw [e] at hset
  exact hc hset

/-- `new_block` loses a bit exactly when it returns 0 after it has set one. -/
lemma leavesZoneMap_iff : LeavesZoneMap sb dev getblk ↔ ¬ WastesBit sb dev getblk := by
  by_cases hd : (sb.sDev.toNat : Int) = dev
  swap
  · refine ⟨fun _ h => hd h.1, fun _ sb' e => ?_⟩
    rw [Bitmap.newBlock, getSuper_of_ne hd] at e
    cases e
  obtain ⟨hs, hnone⟩ | ⟨k, bh, j, hs, hm, hj, hfirst, hset⟩ := @searchMaps_firstClear sb.sZmap
  · refine ⟨fun _ h => ?_, fun _ sb' e => ?_⟩
    · obtain ⟨_, n, hn, _⟩ := h
      exact hnone n hn
    rw [newBlock_of_not_found hs hd] at e
    cases e
    rfl
  -- a search that ends at a bit
  have hrun := newBlock_of_found (g := getblk) hs hd (setBit_fst_of_firstClear hm hj hfirst hset)
  have hmod : (8192 * k + j) % 8192 = j := by omega
  have hwastes : WastesBit sb dev getblk ↔ j < 64 ∧ ((sb.sNzones.toNat : Int) ≤ bitZone sb (8192 * k + j) ∨
      bitZone sb (8192 * k + j) = 0 ∧ getblk 0 = some 1) := by
    constructor
    · rintro ⟨-, n, hn, hlt, hz⟩
      cases hn.unique hfirst
      exact ⟨by omega, hz⟩
    · rintro ⟨hlt, hz⟩
      exact ⟨hd, _, hfirst, by omega, hz⟩
  rw [hwastes, LeavesZoneMap, hrun]
  by_cases h64 : 64 ≤ j
  · rw [if_pos h64]
    refine ⟨fun _ h => absurd h.1 (Nat.not_lt.2 h64), fun _ _ e => ?_⟩
    cases e
  have hlt := Nat.lt_of_not_le h64
  have hne := update_setBit_ne bh hlt hfirst.2.2.1
  rw [if_neg h64]
  by_cases hz : (sb.sNzones.toNat : Int) ≤ bitZone sb (8192 * k + j)
  · simp only [ge_iff_le, if_pos hz]
    exact ⟨fun h => absurd (h _ rfl) hne, fun h => absurd ⟨hlt, .inl hz⟩ h⟩
  simp only [ge_iff_le, if_neg hz]
  by_cases hg : getblk (bitZone sb (8192 * k + j)) = some 1
  swap
  · refine ⟨fun _ h => ?_, fun _ sb' e => ?_⟩
    · obtain ⟨h0, h1⟩ := h.2.resolve_left hz
      exact hg (h0 ▸ h1)
    · split at e
      · cases e
      · cases e
  simp only [ne_eq, hg, not_true_eq_false, if_false]
  constructor
  · rintro h ⟨-, hw⟩
    obtain ⟨h0, -⟩ := hw.resolve_left hz
    exact hne (h _ (congrArg (fun z => Result.ret (z, _)) h0))
  · intro h sb' e
    have h0 : bitZone sb (8192 * k + j) = 0 := congrArg Prod.fst (Result.ret.inj e)
    exact absurd ⟨hlt, .inr ⟨h0, h0 ▸ hg⟩⟩ h

end

/-! ## Inodes -/

section
variable {κ μ : Type} {sv : Services κ} {s : Tables κ}

/-- `get_empty_inode` clears the inode that it returns. -/
lemma getEmptyInode_clears : Prog.wp (getEmptyInode sv)
    (fun i s' => s'.inodeTable i = { MInode.zero with iCount := 1 }) s := by
  rw [getEmptyInode, Prog.wp_bind, Prog.wp_get]
  cases emptySlot s with
  | none => exact Prog.wp_panic
  | some i =>
    show Prog.wp (_ >>= _) _ s
    rw [Prog.wp_bind, Prog.wp_modify, Prog.wp_bind]
    intro _ s₁ _
    rw [Prog.wp_bind, setInode, Prog.wp_modify, Prog.wp_pure]
    exact update_self ..

/-- An inode that has been cleared is given back without anything else being done. -/
lemma iput_cleared {i : Fin 32} (h : s.inodeTable i = { MInode.zero with iCount := 1 }) :
    Prog.wp (iput sv (some i)) (fun _ s' => s'.kernel = s.kernel) s := by
  rw [iput, Prog.wp_bind, wp_inodeAt, h]
  show Prog.wp (dropCount i) _ s
  rw [dropCount, setInode, Prog.wp_modify]

variable {sv : Services μ} {reads : Nat × Nat → Bool} {s : Tables (RootDisk μ)} {dev : Nat}

/-- Writing an inode touches the blocks of the inodes only. -/
lemma writeInode_super {i : Fin 32} : Prog.wp (writeInode (RootDisk.services reads sv) i)
    (fun _ s' => s'.kernel.super = s.kernel.super) s := by
  rw [writeInode, Prog.wp_bind, wp_inodeAt, Prog.wp_bind, service, Prog.wp_zoom]
  show Prog.wp (RootDisk.writeInode _ _ _) _ _
  rw [RootDisk.writeInode, Prog.wp_bind, Prog.wp_get]
  split
  · exact Prog.wp_fault
  · exact Prog.wp_panic
  · rw [Prog.wp_modify, setInode, Prog.wp_modify]

/-- `get_empty_inode` leaves the super block. -/
lemma getEmptyInode_super : Prog.wp (getEmptyInode (RootDisk.services reads sv))
    (fun _ s' => s'.kernel.super = s.kernel.super) s := by
  rw [getEmptyInode, Prog.wp_bind, Prog.wp_get]
  cases emptySlot s with
  | none => exact Prog.wp_panic
  | some i =>
    show Prog.wp (_ >>= _) _ s
    rw [Prog.wp_bind, Prog.wp_modify, Prog.wp_bind, writeIfDirty, Prog.wp_bind, wp_inodeAt]
    split
    · refine (writeInode_super (s := { s with lastAllocatedInode := i })).mono ?_
      intro _ s₁ h₁
      rw [Prog.wp_bind, setInode, Prog.wp_modify, Prog.wp_pure]
      exact h₁
    · rw [Prog.wp_pure, Prog.wp_bind, setInode, Prog.wp_modify, Prog.wp_pure]

/-- Without an inode, the bitmap is left alone. -/
lemma newInodeBit_none {k : RootDisk μ} : Prog.wp (RootDisk.newInodeBit dev)
    (fun nr k' => nr = none → k'.super = k.super) k := by
  intro nr k' e hnr
  subst hnr
  rw [RootDisk.newInodeBit] at e
  split at e
  · next inode sb hrun =>
    cases inode with
    | some i => cases e
    | none =>
      cases e
      rw [Bitmap.newInode] at hrun
      split at hrun
      · cases hrun
      · next sb' hsb =>
        have hsame : sb' = k.super := by
          rw [getSuper] at hsb
          split at hsb
          · cases hsb
            rfl
          · cases hsb
        split at hrun
        · cases hrun
          exact hsame
        · split at hrun
          · cases hrun
            exact hsame
          · dsimp only at hrun
            split at hrun
            · cases hrun
            · cases hrun
  · cases e
  · cases e

/-- A failing `new_inode` changes neither the bitmap nor the counts. -/
lemma newInode_leaves : LeavesInodeMap reads sv dev s := by
  have hcount : Prog.wp (newInode (RootDisk.services reads sv) dev)
      (fun r => HoldsMod 0 s ((fun i => (s.inodeTable i).iCount) + ref r)) s :=
    newInode_spec .start
  have hsuper : Prog.wp (newInode (RootDisk.services reads sv) dev)
      (fun r s' => r = none → s'.kernel.super = s.kernel.super) s := by
    rw [newInode, Prog.wp_bind]
    intro i s₁ hrun
    have hclear := getEmptyInode_clears i s₁ hrun
    have h₁ := getEmptyInode_super i s₁ hrun
    rw [Prog.wp_bind, service, Prog.wp_zoom]
    refine (@newInodeBit_none _ dev _).mono ?_
    intro nr k hk
    cases nr with
    | none =>
      rw [Prog.wp_bind]
      have h₂ : ({ s₁ with kernel := k } : Tables (RootDisk μ)).inodeTable i =
          { MInode.zero with iCount := 1 } := hclear
      refine (iput_cleared h₂).mono ?_
      intro _ s₃ h₃
      rw [Prog.wp_pure]
      intro _
      rw [h₃, ← h₁]
      exact hk rfl
    | some nr =>
      rw [Prog.wp_bind, wp_currentTime, Prog.wp_bind, setInode, Prog.wp_modify, Prog.wp_pure]
      rintro ⟨⟩
  intro r s' hrun hr
  have h := hcount r s' hrun
  rw [hr, ref_none, add_zero] at h
  exact ⟨congrArg SuperBlock.sImap (hsuper r s' hrun hr), h.exact⟩

end

/-- Failed allocation leaves the maps and the inode table alone if and only if `new_block` does not set a
    bit that it then cannot use. -/
theorem failed_allocation_iff {μ : Type} (reads : Nat × Nat → Bool) (sv : Services μ)
    (s : Tables (RootDisk μ)) (dev : Nat) (getblk : Int → Option Nat) :
    LeavesZoneMap s.kernel.super dev getblk ∧ LeavesInodeMap reads sv dev s ↔
      ¬ WastesBit s.kernel.super dev getblk := by
  rw [← leavesZoneMap_iff]
  exact and_iff_left newInode_leaves

/-- A device of two zones with the map `m`; the first zone is number 1. -/
def twoZones (m : BitVec 8) : SuperBlock where
  sDev := 0x301
  sNinodes := 1
  sNzones := 2
  sFirstdatazone := 1
  sImap k := if k = 0 then some ⟨fun _ => 0xFF, false⟩ else none
  sZmap k := if k = 0 then some ⟨fun _ => m, false⟩ else none

/-- With its one zone in use, the first clear bit is that of zone 2. -/
theorem failed_allocation_wastes : ∃ sb', Bitmap.newBlock (twoZones 3) 0x301 (fun _ => some 1) = .ret (0, sb') ∧
    ¬ MapBit (twoZones 3).sZmap 2 ∧ MapBit sb'.sZmap 2 ∧
    ¬ LeavesZoneMap (twoZones 3) 0x301 fun _ => some 1 := by
  have hclear : ¬ MapBit (twoZones 3).sZmap 2 := by
    rintro ⟨bh, hbh, hbit⟩
    cases hbh
    exact absurd hbit (by decide)
  have hset : MapBit (update (twoZones 3).sZmap 0
      (some ⟨(setBit 2 fun _ => (3 : BitVec 8)).2, true⟩)) 2 := ⟨_, rfl, by decide⟩
  refine ⟨_, rfl, hclear, hset, fun h => ?_⟩
  rw [← h _ rfl] at hclear
  exact hclear hset

end OldLinux.Files
