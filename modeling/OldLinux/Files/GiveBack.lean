import OldLinux.Files.DirRoom

/-!
# Taking and giving back

What `new_inode` and `new_block` do to the bitmaps of the mounted disk, case by case, and what becomes of the bits
that they set. `clear_bit` returns the bit as it was, and `free_block` and `free_inode` take a bit that was set for
one that had already been cleared: what has been taken cannot be given back (`freeBlock_stops`,
`freeInodeBit_stops`).
-/

namespace OldLinux.Files
open Lib Fs Function Bitmap

variable {μ : Type} {k k' : RootDisk μ} {reads : Nat × Nat → Bool} {dir : MInode} {b e i m n z dev nr : Nat}
  {de : Option EntryPtr} {name : Name} {maps : Nat → Option MapBuffer}

/-! ## Setting a bit -/

/-- The maps with bit `n` set. -/
def setMap (maps : Nat → Option MapBuffer) (n : Nat) : Nat → Option MapBuffer :=
  update maps (n / 8192) ((maps (n / 8192)).map fun bh => ⟨(setBit (n % 8192) bh.bData).2, true⟩)

/-- Marking a bit of the first word sets it and no other one. -/
lemma mapBit_setMap (hm : Mapped maps n) (h64 : n % 8192 < 64) :
    MapBit (setMap maps n) m ↔ m = n ∨ MapBit maps m := by
  obtain ⟨bh, hbh⟩ := Option.ne_none_iff_exists'.1 hm
  rw [setMap, hbh, Option.map_some, mapBit_update]
  split
  · next e =>
    have hbit : MapBit maps m ↔ bh.bData.bit (m % 8192) = true := by simp [MapBit, e, hbh]
    have hiff : m % 8192 = n % 8192 % 64 ↔ m = n := by omega
    rw [hbit, bit_setBit, Bool.or_eq_true, decide_eq_true_iff, hiff, or_comm]
  · next hne =>
    have hmn : m ≠ n := fun e => hne (e ▸ rfl)
    rw [or_iff_right hmn]

/-- The search of the maps, in terms of their first clear bit. -/
lemma searchMaps_cases : (searchMaps maps 0 8 = none ∧ ∀ n, ¬ FirstClear maps n) ∨
    ∃ n bh, FirstClear maps n ∧ maps (n / 8192) = some bh ∧ searchMaps maps 0 8 = some (n / 8192, bh, n % 8192) ∧
      (setBit (n % 8192) bh.bData).1 = decide (64 ≤ n % 8192) := by
  obtain h | ⟨q, bh, j, hs, hm, hj, hfirst, hset⟩ := @searchMaps_firstClear maps
  · exact .inl h
  · have hdiv : (8192 * q + j) / 8192 = q := by omega
    have hmod : (8192 * q + j) % 8192 = j := by omega
    refine .inr ⟨8192 * q + j, bh, hfirst, ?_⟩
    rw [hdiv, hmod]
    exact ⟨hm, hs, setBit_fst_of_firstClear hm hj hfirst hset⟩

namespace RootDisk

/-- What `new_inode` comes to on the inode bitmap. -/
inductive NewInodeBit (k : RootDisk μ) : Result (Option Nat × RootDisk μ) → Prop where
  | none : (∀ n, FirstClear k.super.sImap n → k.super.sNinodes.toNat < n) → NewInodeBit k (.ret (none, k))
  | panic {n : Nat} : FirstClear k.super.sImap n → n ≤ k.super.sNinodes.toNat → 64 ≤ n % 8192 →
    NewInodeBit k (.panic "new_inode: bit already set")
  | some {n : Nat} : FirstClear k.super.sImap n → n ≤ k.super.sNinodes.toNat → n % 8192 < 64 →
    NewInodeBit k (.ret (some n, { k with super := { k.super with sImap := setMap k.super.sImap n } }))

/-- How the search for an inode bit ends. -/
lemma newInodeBit_cases (hd : k.super.sDev.toNat = dev) : NewInodeBit k (newInodeBit dev k) := by
  have hsb : Bitmap.getSuper k.super dev = some k.super := getSuper_root hd
  obtain ⟨hs, hnone⟩ | ⟨n, bh, hfirst, hm, hs, hres⟩ := @searchMaps_cases k.super.sImap
  · have hrun : newInodeBit dev k = .ret (none, k) := by
      simp only [newInodeBit, Bitmap.newInode, hsb, hs]
      rfl
    rw [hrun]
    exact .none fun n hn => absurd hn (hnone n)
  have hn : n % 8192 + n / 8192 * 8192 = n := by omega
  by_cases hle : n ≤ k.super.sNinodes.toNat
  swap
  · have hrun : newInodeBit dev k = .ret (none, k) := by
      simp only [newInodeBit, Bitmap.newInode, hsb, hs, hn, gt_iff_lt, if_pos (Nat.lt_of_not_le hle)]
      rfl
    rw [hrun]
    refine .none fun n' hn' => ?_
    rw [← hfirst.unique hn']
    exact Nat.lt_of_not_le hle
  by_cases h64 : 64 ≤ n % 8192
  · have hrun : newInodeBit dev k = .panic "new_inode: bit already set" := by
      simp only [newInodeBit, Bitmap.newInode, hsb, hs, hn, gt_iff_lt, if_neg (Nat.not_lt.2 hle), hres,
        decide_eq_true h64, if_true]
    rw [hrun]
    exact .panic hfirst hle h64
  · have hrun : newInodeBit dev k =
        .ret (some n, { k with super := { k.super with sImap := setMap k.super.sImap n } }) := by
      simp only [newInodeBit, Bitmap.newInode, hsb, hs, hn, gt_iff_lt, if_neg (Nat.not_lt.2 hle), hres,
        decide_eq_false h64, Bool.false_eq_true, if_false, setMap, hm, Option.map_some]
    rw [hrun]
    exact .some hfirst hle (Nat.lt_of_not_le h64)

/-- The disk after `new_block` has taken the zone of bit `m`. -/
def withZone (k : RootDisk μ) (m : Nat) : RootDisk μ :=
  { k with
    super := { k.super with sZmap := setMap k.super.sZmap m }
    blocks := update k.blocks (k.super.sDev.toNat, (bitZone k.super m).toNat) fun _ => 0
    taken := (k.super.sDev.toNat, (bitZone k.super m).toNat) :: k.taken }

/-- What `new_block` comes to. -/
inductive NewBlock (k : RootDisk μ) : Result (Int × RootDisk μ) → Prop where
  | none : (∀ m, ¬ FirstClear k.super.sZmap m) → NewBlock k (.ret (0, k))
  | panic {m : Nat} : FirstClear k.super.sZmap m → 64 ≤ m % 8192 →
    NewBlock k (.panic "new_block: bit already set")
  | lost {m : Nat} : FirstClear k.super.sZmap m → m % 8192 < 64 →
    (k.super.sNzones.toNat : Int) ≤ bitZone k.super m ∨ bitZone k.super m = 0 →
    NewBlock k (.ret (0, { k with super := { k.super with sZmap := setMap k.super.sZmap m } }))
  | some {m : Nat} : FirstClear k.super.sZmap m → m % 8192 < 64 → bitZone k.super m < k.super.sNzones.toNat →
    bitZone k.super m ≠ 0 → NewBlock k (.ret (bitZone k.super m, k.withZone m))

/-- How `new_block` ends. -/
lemma newBlock_cases (hd : k.super.sDev.toNat = dev) : NewBlock k (newBlock dev k) := by
  subst hd
  obtain ⟨hs, hnone⟩ | ⟨m, bh, hfirst, hm, hs, hres⟩ := @searchMaps_cases k.super.sZmap
  · have hrun : newBlock k.super.sDev.toNat k = .ret (0, k) := by
      simp only [newBlock, newBlock_of_not_found (g := fun _ => some 1) hs rfl, if_true]
    rw [hrun]
    exact .none hnone
  have hn : 8192 * (m / 8192) + m % 8192 = m := by omega
  have hmap : update k.super.sZmap (m / 8192) (some ⟨(setBit (m % 8192) bh.bData).2, true⟩) =
      setMap k.super.sZmap m := by
    rw [setMap, hm]
    rfl
  have hnew := @newBlock_of_found k.super k.super.sDev.toNat (fun _ => some 1) _ _ _ hs rfl hres
  rw [hn, hmap] at hnew
  by_cases h64 : 64 ≤ m % 8192
  · rw [if_pos h64] at hnew
    have hrun : newBlock k.super.sDev.toNat k = .panic "new_block: bit already set" := by
      simp only [newBlock, hnew]
    rw [hrun]
    exact .panic hfirst h64
  rw [if_neg h64] at hnew
  dsimp only at hnew
  have hlt := Nat.lt_of_not_le h64
  by_cases hz : bitZone k.super m ≥ k.super.sNzones.toNat
  · rw [if_pos hz] at hnew
    have hrun : newBlock k.super.sDev.toNat k =
        .ret (0, { k with super := { k.super with sZmap := setMap k.super.sZmap m } }) := by
      simp only [newBlock, hnew, if_true]
    rw [hrun]
    exact .lost hfirst hlt (.inl hz)
  rw [if_neg hz, if_neg (Option.some_ne_none 1), if_neg (not_not.2 rfl)] at hnew
  by_cases h0 : bitZone k.super m = 0
  · have hrun : newBlock k.super.sDev.toNat k =
        .ret (0, { k with super := { k.super with sZmap := setMap k.super.sZmap m } }) := by
      simp only [newBlock, hnew, if_pos h0]
    rw [hrun]
    exact .lost hfirst hlt (.inr h0)
  · have hrun : newBlock k.super.sDev.toNat k = .ret (bitZone k.super m, k.withZone m) := by
      simp only [newBlock, hnew, if_neg h0]
      rfl
    rw [hrun]
    exact .some hfirst hlt (Int.lt_of_not_ge hz) h0

/-! ## Giving back -/

/-- `free_inode` of an inode whose bit is set. -/
lemma freeInodeBit_stops (h0 : dev ≠ 0) (hb : MapBit k.super.sImap n) (h64 : n % 8192 < 64) :
    Prog.wp (freeInodeBit dev n) (fun _ _ => False) k := by
  obtain ⟨bh, hm, hbit⟩ := hb
  intro r k₁ e
  rw [freeInodeBit, Bitmap.freeInode] at e
  dsimp only at e
  rw [if_neg h0, if_neg (by decide), if_neg (by decide)] at e
  split at e
  · next inode sb hrun =>
    split at hrun
    · cases hrun
    · next sb' hsb =>
      have hsame : sb' = k.super := by
        rw [getSuper] at hsb
        split at hsb
        · cases hsb
          rfl
        · cases hsb
      subst hsame
      split at hrun
      · cases hrun
      · rw [hm] at hrun
        have hmod : n % 8192 % 64 = n % 8192 := Nat.mod_eq_of_lt h64
        have hclear : (clearBit (n % 8192) bh.bData).1 = true := by rw [clearBit_fst, hmod, hbit]
        dsimp only at hrun
        rw [if_pos hclear] at hrun
        cases hrun
  · cases e
  · cases e

/-- `free_block` of a zone whose bit is set. -/
lemma freeBlock_stops (hz : (z : Int) = bitZone k.super m)
    (hb : MapBit k.super.sZmap m) (h64 : m % 8192 < 64) : Prog.wp (freeBlock dev z) (fun _ _ => False) k := by
  obtain ⟨bh, hm, hbit⟩ := hb
  intro r k₁ e
  rw [freeBlock, Bitmap.freeBlock] at e
  split at e
  · next sb hrun =>
    split at hrun
    · cases hrun
    · next sb' hsb =>
      have hsame : sb' = k.super := by
        rw [getSuper] at hsb
        split at hsb
        · cases hsb
          rfl
        · cases hsb
      subst hsame
      split at hrun
      · cases hrun
      · have hn : ((z : Int) - (k.super.sFirstdatazone.toNat - 1)).toNat = m := by
          rw [hz, bitZone]
          omega
        have hmod : m % 8192 % 64 = m % 8192 := Nat.mod_eq_of_lt h64
        have hclear : (clearBit (m % 8192) bh.bData).1 = true := by rw [clearBit_fst, hmod, hbit]
        rw [if_neg (by decide)] at hrun
        dsimp only at hrun
        rw [hn, hm] at hrun
        dsimp only at hrun
        rw [if_pos hclear] at hrun
        cases hrun
  · cases e
  · cases e

/-! ## Bits that stay -/

/-- The zones that are marked in `k` are marked in `k'`. -/
structure Keeps (k k' : RootDisk μ) : Prop where
  first : k'.super.sFirstdatazone = k.super.sFirstdatazone
  bits : ∀ m, MapBit k.super.sZmap m → MapBit k'.super.sZmap m

/-- Nothing done keeps everything. -/
lemma Keeps.refl (k : RootDisk μ) : Keeps k k := ⟨rfl, fun _ h => h⟩

variable {k₀ : RootDisk μ}

/-- A bit is set. -/
lemma Keeps.setMap (h : Keeps k₀ k) (hs : k'.super.sFirstdatazone = k.super.sFirstdatazone)
    (hz : k'.super.sZmap = Files.setMap k.super.sZmap m) (hm : FirstClear k.super.sZmap m)
    (h64 : m % 8192 < 64) : Keeps k₀ k' := by
  refine ⟨hs.trans h.first, fun n hn => ?_⟩
  rw [hz, mapBit_setMap hm.2.1 h64]
  exact .inr (h.bits n hn)

/-- `new_block` clears no bit. -/
lemma newBlock_keeps (h : Keeps k₀ k) : Prog.wp (newBlock dev) (fun _ => Keeps k₀) k := by
  by_cases hd : k.super.sDev.toNat = dev
  swap
  · intro z k₁ e
    have hne : ¬ (k.super.sDev.toNat : Int) = dev := fun he => hd (Int.ofNat.inj he)
    simp only [newBlock, Bitmap.newBlock, Bitmap.getSuper, if_neg hne] at e
    cases e
  intro z k₁ e
  have hc := newBlock_cases hd
  rw [e] at hc
  cases hc with
  | none => exact h
  | lost hm h64 => exact h.setMap rfl rfl hm h64
  | some hm h64 => exact h.setMap rfl rfl hm h64

/-- The links of the inode stay as well. -/
lemma ensureZone_keeps (h : Keeps k₀ k) :
    Prog.wp (ensureZone dir i) (fun dir' k' => Keeps k₀ k' ∧ dir'.iNlinks = dir.iNlinks) k := by
  rw [ensureZone]
  split
  · rw [Prog.wp_bind]
    refine (newBlock_keeps h).mono ?_
    intro z k₁ h₁
    rw [Prog.wp_bind, Prog.wp_get]
    dsimp only
    split
    · rw [Prog.wp_pure]
      exact ⟨h₁, rfl⟩
    · rw [Prog.wp_pure]
      exact ⟨h₁, rfl⟩
  · rw [Prog.wp_pure]
    exact ⟨h, rfl⟩

/-- Reading an entry of an index block keeps the links. -/
lemma readEntry_keeps (h : Keeps k₀ k) : Prog.wp (readEntry reads dev z e) (fun _ => Keeps k₀) k := by
  rw [readEntry, Prog.wp_bind, Prog.wp_get]
  split
  · dsimp only
    split
    · rw [Prog.wp_bind]
      refine (newBlock_keeps h).mono ?_
      intro i k₁ h₁
      split
      · rw [Prog.wp_bind, Prog.wp_modify, Prog.wp_pure]
        exact ⟨h₁.first, h₁.bits⟩
      · rw [Prog.wp_pure]
        exact h₁
    · rw [Prog.wp_pure]
      exact h
  · rw [Prog.wp_pure]
    exact h

/-- `create_block` clears no bit and keeps the links. -/
lemma createBlock_keeps (h : Keeps k₀ k) :
    Prog.wp (createBlock reads dir b) (fun r k' => Keeps k₀ k' ∧ r.2.iNlinks = dir.iNlinks) k := by
  rw [createBlock]
  split
  · exact Prog.wp_panic
  split
  · rw [Prog.wp_bind]
    refine (ensureZone_keeps h).mono ?_
    rintro dir₁ k₁ h₁
    rw [Prog.wp_pure]
    exact h₁
  split
  · rw [Prog.wp_bind]
    refine (ensureZone_keeps h).mono ?_
    rintro dir₁ k₁ ⟨h₁, hl⟩
    split
    · rw [Prog.wp_pure]
      exact ⟨h₁, hl⟩
    · rw [Prog.wp_bind]
      refine (readEntry_keeps h₁).mono ?_
      intro z k₂ h₂
      rw [Prog.wp_pure]
      exact ⟨h₂, hl⟩
  · rw [Prog.wp_bind]
    refine (ensureZone_keeps h).mono ?_
    rintro dir₁ k₁ ⟨h₁, hl⟩
    split
    · rw [Prog.wp_pure]
      exact ⟨h₁, hl⟩
    · rw [Prog.wp_bind]
      refine (readEntry_keeps h₁).mono ?_
      intro z k₂ h₂
      split
      · rw [Prog.wp_pure]
        exact ⟨h₂, hl⟩
      · rw [Prog.wp_bind]
        refine (readEntry_keeps h₂).mono ?_
        intro z' k₃ h₃
        rw [Prog.wp_pure]
        exact ⟨h₃, hl⟩

/-- Getting the next block of a directory keeps the links. -/
lemma fetchOrCreate_keeps (h : Keeps k₀ k) :
    Prog.wp (fetchOrCreate reads dir de i) (fun r k' => Keeps k₀ k' ∧ r.2.iNlinks = dir.iNlinks) k := by
  cases de with
  | none => exact Prog.wp_fault
  | some de =>
    rw [fetchOrCreate]
    split
    · rw [Prog.wp_pure]
      exact ⟨h, rfl⟩
    · rw [Prog.wp_bind, Prog.wp_get, Prog.wp_bind]
      refine (createBlock_keeps h).mono ?_
      rintro ⟨z, dir₁⟩ k₁ h₁
      dsimp only
      split
      · rw [Prog.wp_pure]
        exact h₁
      split
      · rw [Prog.wp_pure]
        exact h₁
      · rw [Prog.wp_pure]
        exact h₁

/-- Using an entry clears no bit and keeps the links. -/
lemma useEntry_keeps {de : EntryPtr} (h : Keeps k₀ k) :
    Prog.wp (useEntry dir name de i) (fun r k' => Keeps k₀ k' ∧ r.2.iNlinks = dir.iNlinks) k := by
  intro r k₁ e
  rw [useEntry_run] at e
  obtain ⟨rfl, rfl⟩ := Prod.mk.inj (Result.ret.inj e)
  refine ⟨⟨h.first, h.bits⟩, ?_⟩
  dsimp only [FileSys.useEntry]
  split
  · split
    · rfl
    · rfl
  · split
    · rfl
    · rfl

/-- The loop of `add_entry`, turn by turn. -/
lemma addFrom_keeps (h : Keeps k₀ k) :
    Prog.wp (addFrom reads name n de i dir) (fun r k' => Keeps k₀ k' ∧ r.2.iNlinks = dir.iNlinks) k := by
  induction n generalizing de i dir k with
  | zero => exact Prog.wp_fault
  | succ n ih =>
    rw [addFrom, Prog.wp_bind]
    refine (fetchOrCreate_keeps h).mono ?_
    rintro ⟨f, dir₁⟩ k₁ ⟨h₁, hl₁⟩
    cases f with
    | entry de' =>
      show Prog.wp (useEntry dir₁ name de' i >>= _) _ k₁
      rw [Prog.wp_bind]
      refine (useEntry_keeps h₁).mono ?_
      rintro ⟨used, dir₂⟩ k₂ ⟨h₂, hl₂⟩
      cases used with
      | true =>
        show Prog.wp (pure _) _ k₂
        rw [Prog.wp_pure]
        exact ⟨h₂, hl₂.trans hl₁⟩
      | false => exact (ih h₂).mono fun r k' hr => ⟨hr.1, hr.2.trans (hl₂.trans hl₁)⟩
    | skip => exact (ih h₁).mono fun r k' hr => ⟨hr.1, hr.2.trans hl₁⟩
    | null =>
      rw [Prog.wp_pure]
      exact ⟨h₁, hl₁⟩

/-- `add_entry` may set bits, but clears none. -/
lemma addEntry_keeps {upd : DirUpdate} {chars : List Char} : Prog.wp (addEntry reads dev upd chars nr)
    (fun r k' => Keeps k k' ∧ r.2.inode.iNlinks = upd.inode.iNlinks) k := by
  rw [addEntry]
  dsimp only
  cases nameOf chars with
  | none =>
    rw [Prog.wp_pure]
    exact ⟨.refl k, rfl⟩
  | some name =>
    dsimp only
    split
    · rw [Prog.wp_pure]
      exact ⟨.refl k, rfl⟩
    · rw [Prog.wp_bind]
      refine (addFrom_keeps (.refl k)).mono ?_
      rintro ⟨de, dir⟩ k₁ ⟨h₁, hl⟩
      cases de with
      | none =>
        rw [Prog.wp_pure]
        exact ⟨h₁, hl⟩
      | some de =>
        show Prog.wp (Prog.modify _ >>= _) _ k₁
        rw [Prog.wp_bind, Prog.wp_modify, Prog.wp_pure]
        exact ⟨⟨h₁.first, h₁.bits⟩, hl⟩

end RootDisk

end OldLinux.Files
