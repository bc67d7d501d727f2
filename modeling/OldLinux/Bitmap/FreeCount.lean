import Mathlib.Data.Nat.Count
import OldLinux.Bitmap.Exact

/-!
# Counting free space

The two loops with which `mount_root` (`fs/super.c`) counts the free blocks and inodes. They look at a bit
with a `set_bit` of that file, the same as in `fs/bitmap.c`: it sets the bit it looks at, and it looks at
bit `nr % 64` of the map. So the number is that of the clear bits only if there are none to set.
-/

namespace OldLinux.Bitmap
open Lib Fs Function

/-- `while (-- i >= 0) if (!set_bit(i&8191,maps[i>>13]->b_data)) free++;` with `i` before it is counted
    down. -/
def countLoop : Nat → Nat → (Nat → Option MapBuffer) → Result (Nat × (Nat → Option MapBuffer))
  | 0, free, maps => .ret (free, maps)
  | i + 1, free, maps =>
    match maps (i >>> 13) with
    | none => .fault
    | some bh =>
      let (res, data) := setBit (i &&& 8191) bh.bData
      countLoop i (if res then free else free + 1) (update maps (i >>> 13) (some { bh with bData := data }))

/-- The loop over the zone bitmap. -/
def countZones : Prog SuperBlock Nat := fun p =>
  match countLoop p.sNzones.toNat 0 p.sZmap with
  | .ret (free, maps) => .ret (free, { p with sZmap := maps })
  | .panic msg => .panic msg
  | .fault => .fault

/-- The loop over the inode bitmap. -/
def countInodes : Prog SuperBlock Nat := fun p =>
  match countLoop (p.sNinodes.toNat + 1) 0 p.sImap with
  | .ret (free, maps) => .ret (free, { p with sImap := maps })
  | .panic msg => .panic msg
  | .fault => .fault

/-- The end of `mount_root`: the numbers of free blocks and free inodes that it prints. -/
def countFree : Prog SuperBlock (Nat × Nat) := do
  let blocks ← countZones
  let inodes ← countInodes
  pure (blocks, inodes)

instance (maps : Nat → Option MapBuffer) (n : Nat) : Decidable (MapBit maps n) :=
  decidable_of_iff ((maps (n / 8192)).any fun bh => bh.bData.bit (n % 8192)) (by
    rw [Option.any_eq_true, MapBit])

/-- The number of clear bits below `n`. -/
def clearBits (maps : Nat → Option MapBuffer) (n : Nat) : Nat := Nat.count (fun k => ¬ MapBit maps k) n

/-- Every bit to be counted has a buffer behind it. -/
structure Covered (p : SuperBlock) : Prop where
  zones : ∀ k < p.sNzones.toNat, Mapped p.sZmap k
  inodes : ∀ k < p.sNinodes.toNat + 1, Mapped p.sImap k

/-- Counting prints the numbers of clear bits and leaves the bitmaps as they are. -/
def CountsFree (p : SuperBlock) : Prop :=
  countFree p = .ret ((clearBits p.sZmap p.sNzones.toNat, clearBits p.sImap (p.sNinodes.toNat + 1)), p)

/-- There is nothing to count. -/
structure NoneFree (p : SuperBlock) : Prop where
  zones : ∀ k < p.sNzones.toNat, MapBit p.sZmap k
  inodes : ∀ k < p.sNinodes.toNat + 1, MapBit p.sImap k

/-! ## One turn -/

variable {maps maps' maps'' : Nat → Option MapBuffer} {bh : MapBuffer} {addr : Bytes} {i n free : Nat}

/-- Memory is its bits. -/
lemma bytes_ext {m m' : Bytes} (h : ∀ k, m.bit k = m'.bit k) : m = m' := by
  funext a
  apply BitVec.eq_of_getLsbD_eq
  intro j hj
  have hk := h (8 * a + j)
  have hdiv : (8 * a + j) / 8 = a := by omega
  have hmod : (8 * a + j) % 8 = j := by omega
  rwa [Bytes.bit, Bytes.bit, hdiv, hmod] at hk

/-- `set_bit` on a bit that is set. -/
lemma setBit_of_set (h : addr.bit (i % 64) = true) : (setBit i addr).2 = addr := by
  apply bytes_ext
  intro k
  rw [bit_setBit]
  by_cases e : k = i % 64
  · rw [e, h, Bool.true_or]
  · rw [decide_eq_false e, Bool.or_false]

/-- The bit that a turn looks at: the bit of the same map among its first 64. -/
def lookedAt (i : Nat) : Nat := 8192 * (i / 8192) + i % 64

/-- The bit that is looked at is not behind the one that is meant. -/
lemma lookedAt_le : lookedAt i ≤ i := by
  rw [lookedAt]
  omega

/-- What the test finds is the bit that is looked at. -/
lemma mapBit_lookedAt (h : maps (i / 8192) = some bh) :
    MapBit maps (lookedAt i) ↔ bh.bData.bit (i % 64) = true := by
  have hdiv : lookedAt i / 8192 = i / 8192 := by
    rw [lookedAt]
    omega
  have hmod : lookedAt i % 8192 = i % 64 := by
    rw [lookedAt]
    omega
  rw [MapBit, hdiv, hmod, h]
  simp

/-- The maps after a turn. -/
def marked (maps : Nat → Option MapBuffer) (i : Nat) (bh : MapBuffer) : Nat → Option MapBuffer :=
  update maps (i / 8192) (some { bh with bData := (setBit (i % 8192) bh.bData).2 })

/-- One turn of the count. -/
lemma countLoop_succ (h : maps (i / 8192) = some bh) : countLoop (i + 1) free maps =
    countLoop i (if MapBit maps (lookedAt i) then free else free + 1) (marked maps i bh) := by
  have hdiv : i >>> 13 = i / 8192 := Nat.shiftRight_eq_div_pow i 13
  have hmod : i &&& 8191 = i % 8192 := Nat.and_two_pow_sub_one_eq_mod i 13
  have hres : (setBit (i % 8192) bh.bData).1 = bh.bData.bit (i % 64) := by
    rw [setBit_fst, Nat.mod_mod_of_dvd i (by decide : 64 ∣ 8192)]
  rw [countLoop, hdiv, hmod, h]
  simp only [hres, mapBit_lookedAt h]
  rfl

/-- A turn on a bit that is set leaves the maps alone. -/
lemma marked_of_set (h : maps (i / 8192) = some bh) (hb : MapBit maps (lookedAt i)) :
    marked maps i bh = maps := by
  have hbit := (mapBit_lookedAt h).1 hb
  rw [← Nat.mod_mod_of_dvd i (by decide : 64 ∣ 8192)] at hbit
  rw [marked, setBit_of_set hbit, ← h, update_eq_self]

/-- Otherwise it sets the bit. -/
lemma mapBit_marked (h : maps (i / 8192) = some bh) :
    MapBit (marked maps i bh) n ↔ MapBit maps n ∨ n = lookedAt i := by
  rw [marked, mapBit_update]
  by_cases e : n / 8192 = i / 8192
  · have hbit : MapBit maps n ↔ bh.bData.bit (n % 8192) = true := by
      rw [MapBit, e, h]
      simp
    have hn : n % 8192 = i % 8192 % 64 ↔ n = lookedAt i := by
      rw [lookedAt]
      omega
    rw [if_pos e, bit_setBit, Bool.or_eq_true, decide_eq_true_iff, hbit, hn]
  · have hne : n ≠ lookedAt i := by
      rintro rfl
      rw [lookedAt] at e
      omega
    rw [if_neg e, or_iff_left hne]

/-- Marking a bit takes no map away. -/
lemma mapped_marked (h : Mapped maps n) : Mapped (marked maps i bh) n := by
  rw [Mapped, marked]
  by_cases e : n / 8192 = i / 8192
  · rw [e, update_self]
    exact Option.some_ne_none _
  · rwa [update_of_ne e]

/-! ## The loop -/

/-- The loop ends, sets bits and clears none; if it has left the maps as they were it has counted nothing. -/
lemma countLoop_spec (hc : ∀ k < n, Mapped maps k) : ∃ free' maps',
    countLoop n free maps = .ret (free', maps') ∧ (∀ k, MapBit maps k → MapBit maps' k) ∧
      (maps' = maps → free' = free) := by
  induction n generalizing free maps with
  | zero => exact ⟨free, maps, rfl, fun _ => id, fun _ => rfl⟩
  | succ i ih =>
    obtain ⟨bh, h⟩ := Option.ne_none_iff_exists'.1 (hc i (Nat.lt_succ_self i))
    have hc' : ∀ k < i, Mapped (marked maps i bh) k :=
      fun k hk => mapped_marked (hc k (Nat.lt_succ_of_lt hk))
    rw [countLoop_succ h]
    by_cases hb : MapBit maps (lookedAt i)
    · rw [if_pos hb, marked_of_set h hb]
      exact ih fun k hk => hc k (Nat.lt_succ_of_lt hk)
    · obtain ⟨free', maps', hrun, hgrow, -⟩ := @ih _ (free + 1) hc'
      rw [if_neg hb]
      refine ⟨free', maps', hrun, fun k hk => hgrow k ((mapBit_marked h).2 (.inl hk)), ?_⟩
      rintro rfl
      -- the bit that this turn has set is still set at the end
      exact absurd (hgrow _ ((mapBit_marked h).2 (.inr rfl))) hb

/-- The loop leaves maps alone in which all bits to be counted are set. -/
lemma countLoop_of_set (hs : ∀ k < n, MapBit maps k) : countLoop n free maps = .ret (free, maps) := by
  induction n with
  | zero => rfl
  | succ i ih =>
    obtain ⟨bh, h, -⟩ := hs i (Nat.lt_succ_self i)
    have hb := hs _ (Nat.lt_succ_of_le (lookedAt_le (i := i)))
    rw [countLoop_succ h, if_pos hb, marked_of_set h hb]
    exact ih fun k hk => hs k (Nat.lt_succ_of_lt hk)

/-- There is no clear bit exactly if all bits are set. -/
lemma clearBits_eq_zero : clearBits maps n = 0 ↔ ∀ k < n, MapBit maps k := by
  rw [clearBits, Nat.count_iff_forall_not]
  exact forall₂_congr fun _ _ => not_not

/-- One loop counts the clear bits and leaves the maps alone if and only if there are no clear bits. -/
lemma countLoop_iff (hc : ∀ k < n, Mapped maps k) :
    countLoop n 0 maps = .ret (clearBits maps n, maps) ↔ ∀ k < n, MapBit maps k := by
  constructor
  · intro e
    obtain ⟨free, maps', hrun, -, hsame⟩ := @countLoop_spec _ _ 0 hc
    rw [hrun] at e
    have hmaps : maps' = maps := congrArg Prod.snd (Result.ret.inj e)
    have hfree : free = clearBits maps n := congrArg Prod.fst (Result.ret.inj e)
    exact clearBits_eq_zero.1 (hfree ▸ hsame hmaps)
  · intro h
    rw [countLoop_of_set h, clearBits_eq_zero.2 h]

/-- Mounting leaves the bitmaps as they are, and prints the numbers of clear bits, if and only if there is
    no clear bit: every zone and every inode is in use. -/
theorem count_free_iff {p : SuperBlock} (h : Covered p) : CountsFree p ↔ NoneFree p := by
  have hz := countLoop_iff h.zones
  have hi := countLoop_iff h.inodes
  constructor
  · intro e
    obtain ⟨zones, p₁, hzones, e⟩ := Prog.bind_ret_iff.1 e
    obtain ⟨inodes, p₂, hinodes, e⟩ := Prog.bind_ret_iff.1 e
    cases e
    obtain ⟨a, maps, hrun, -, -⟩ := @countLoop_spec _ _ 0 h.zones
    rw [countZones, hrun] at hzones
    cases hzones
    obtain ⟨b, maps', hrun', -, -⟩ := @countLoop_spec _ _ 0 h.inodes
    rw [countInodes] at hinodes
    simp only [hrun'] at hinodes
    injection hinodes with hinodes
    injection hinodes with hb hp
    have hmaps : maps = p.sZmap := congrArg SuperBlock.sZmap hp
    have hmaps' : maps' = p.sImap := congrArg SuperBlock.sImap hp
    subst hmaps hmaps' hb
    exact ⟨hz.1 hrun, hi.1 hrun'⟩
  · rintro ⟨hzones, hinodes⟩
    have hzrun : countZones p = .ret (clearBits p.sZmap p.sNzones.toNat, p) := by
      rw [countZones, hz.2 hzones]
    have hirun : countInodes p = .ret (clearBits p.sImap (p.sNinodes.toNat + 1), p) := by
      rw [countInodes, hi.2 hinodes]
    rw [CountsFree, countFree, Prog.bind_of_ret hzrun, Prog.bind_of_ret hirun]
    rfl

/-- A disk of three zones and one inode, whose maps have the bytes `z` and `i`. -/
def tinySuper (z i : BitVec 8) : SuperBlock where
  sDev := 0x301
  sNinodes := 1
  sNzones := 3
  sFirstdatazone := 2
  sImap k := if k = 0 then some ⟨fun _ => i, false⟩ else none
  sZmap k := if k = 0 then some ⟨fun _ => z, false⟩ else none

/-- The maps of the small super block cover its zones and inodes. -/
lemma tinySuper_covered {z i : BitVec 8} : Covered (tinySuper z i) := by
  constructor
  · intro k hk
    have hk : k < 3 := hk
    have e : k / 8192 = 0 := by omega
    rw [Mapped, tinySuper, e]
    exact Option.some_ne_none _
  · intro k hk
    have hk : k < 2 := hk
    have e : k / 8192 = 0 := by omega
    rw [Mapped, tinySuper, e]
    exact Option.some_ne_none _

/-- Where all bits are set the counts are 0. -/
theorem count_free_full : countFree (tinySuper 7 3) = .ret ((0, 0), tinySuper 7 3) :=
  (count_free_iff tinySuper_covered).2 ⟨by decide, by decide⟩

/-- Two free zones are counted, and are in use afterwards. -/
theorem count_free_fills : Covered (tinySuper 1 3) ∧ ¬ CountsFree (tinySuper 1 3) ∧
    ¬ MapBit (tinySuper 1 3).sZmap 1 ∧
    ∃ p', countFree (tinySuper 1 3) = .ret ((2, 0), p') ∧ MapBit p'.sZmap 1 := by
  have hclear : ¬ MapBit (tinySuper 1 3).sZmap 1 := by decide
  refine ⟨tinySuper_covered, fun h => ?_, hclear, _, rfl, by decide⟩
  have hbit : (Prog.after countFree (tinySuper 1 3)).sZmap = (tinySuper 1 3).sZmap := by
    rw [Prog.after, show countFree (tinySuper 1 3) = _ from h]
  rw [← hbit] at hclear
  exact hclear (by decide)

end OldLinux.Bitmap
