import OldLinux.Bitmap.Alloc
import OldLinux.Lib.System
import Mathlib.Data.Set.Insert
import Mathlib.Tactic.IntervalCases
import Mathlib.Tactic.Ring

/-!
# When the bitmaps are exact

A mounted device with the sets of zones and inodes that are allocated on it (`Volume`), over any
sequence of `new_block`, `free_block`, `new_inode` and `free_inode`. The bits of the eight maps are
numbered through, `n` being bit `n % 8192` of map `n / 8192`. `Volume.Exact` says that the set bits
are the allocated objects, `StepOk` what each call should do to the bits.

`set_bit` and `clear_bit` act on the first 64 bits of a map only, `clear_bit` returns the old bit
where its callers expect the opposite, and `new_block` marks a zone before it finds it out of range.
`Spared` singles out the calls that none of this touches; the headline `bitmaps_exact_iff` says that
a run does what it should exactly when all its calls are spared.
-/

namespace OldLinux.Bitmap
open Lib Fs Function

/-- Bit `n` of the maps has a buffer behind it. -/
def Mapped (maps : Nat → Option MapBuffer) (n : Nat) : Prop := maps (n / 8192) ≠ none

/-- Bit `n` of the maps is set. -/
def MapBit (maps : Nat → Option MapBuffer) (n : Nat) : Prop :=
  ∃ bh, maps (n / 8192) = some bh ∧ bh.bData.bit (n % 8192) = true

/-- Bit `n` is the first clear bit of the maps that are there. -/
def FirstClear (maps : Nat → Option MapBuffer) (n : Nat) : Prop :=
  n < 65536 ∧ Mapped maps n ∧ ¬ MapBit maps n ∧ ∀ m < n, Mapped maps m → MapBit maps m

/-- The bit of a zone. -/
def zoneBit (sb : SuperBlock) (z : Int) : Nat := (z - (sb.sFirstdatazone.toNat - 1)).toNat

/-- The zone of a bit. -/
def bitZone (sb : SuperBlock) (n : Nat) : Int := n + sb.sFirstdatazone.toNat - 1

/-- A mounted device, the bits of the objects allocated on it, and whether the kernel has stopped. -/
structure Volume where
  sb : SuperBlock
  zones : Set Nat
  inodes : Set Nat
  halted : Bool

/-- The four calls, with what the buffer cache and the inode table give them. -/
inductive Call where
  | newBlock (dev : Int) (getblk : Int → Option Nat)
  | freeBlock (dev block : Int) (bh : Option Nat)
  | newInode (dev : Nat) (empty : Option MInode) (now : Nat)
  | freeInode (inode : Option MInode)

/-- What a call comes back with. -/
inductive Reply where
  | zone (z : Int)
  | inode (inode : Option MInode)
  | done
  | panic (msg : String)
  | fault

/-- Runs a call and keeps account of what it allocated or freed: a nonzero zone and an inode that are
    returned are allocated, and an unreferenced zone and an inode that are freed are not any more. -/
def Volume.exec (v : Volume) : Call → Reply × Volume
  | .newBlock dev getblk =>
    match newBlock v.sb dev getblk with
    | .ret (z, sb) =>
      (.zone z, { v with sb := sb, zones := { n | z ≠ 0 ∧ n = zoneBit v.sb z } ∪ v.zones })
    | .panic msg => (.panic msg, { v with halted := true })
    | .fault => (.fault, { v with halted := true })
  | .freeBlock dev block bh =>
    match freeBlock v.sb dev block bh with
    | .ret sb =>
      (.done, { v with
        sb := sb, zones := v.zones \ { n | bh.all (· = 1) ∧ n = zoneBit v.sb block } })
    | .panic msg => (.panic msg, { v with halted := true })
    | .fault => (.fault, { v with halted := true })
  | .newInode dev empty now =>
    match newInode v.sb dev empty now with
    | .ret (r, sb) =>
      (.inode r, { v with sb := sb, inodes := { n | ∃ i, r = some i ∧ n = i.iNum } ∪ v.inodes })
    | .panic msg => (.panic msg, { v with halted := true })
    | .fault => (.fault, { v with halted := true })
  | .freeInode inode =>
    match freeInode v.sb inode with
    | .ret (r, sb) =>
      (.inode r, { v with
        sb := sb, inodes := v.inodes \ { n | ∃ i, inode = some i ∧ i.iDev ≠ 0 ∧ n = i.iNum } })
    | .panic msg => (.panic msg, { v with halted := true })
    | .fault => (.fault, { v with halted := true })

/-- The set bits are exactly the allocated objects; bit 0 of each first map, which `do_mount` sets and
    which stands for no object, counts as allocated. -/
structure Volume.Exact (v : Volume) : Prop where
  zones : ∀ n < 65536, MapBit v.sb.sZmap n ↔ n ∈ v.zones
  inodes : ∀ n < 65536, MapBit v.sb.sImap n ↔ n ∈ v.inodes
  zone0 : MapBit v.sb.sZmap 0
  inode0 : MapBit v.sb.sImap 0

/-- Any sequence of calls on a mounted device, until the kernel stops. -/
def volumeSystem : System Volume (Call × Reply) where
  init v := v.Exact ∧ v.halted = false
  step v l v' := v.halted = false ∧ v.exec l.1 = (l.2, v')

/-- The panics about a bit that is not as it should be. -/
def bitPanics : List String :=
  ["new_block: bit already set", "free_block: bit already cleared",
    "new_inode: bit already set", "free_inode: bit already cleared"]

/-- `free_block` is given an allocated zone that nobody else refers to. -/
def Volume.FreesZone (v : Volume) (dev block : Int) (bh : Option Nat) : Prop :=
  (v.sb.sDev.toNat : Int) = dev ∧ (v.sb.sFirstdatazone.toNat : Int) ≤ block ∧
    block < v.sb.sNzones.toNat ∧ bh.all (· = 1) ∧ zoneBit v.sb block ∈ v.zones

/-- `free_inode` is given an allocated inode that nobody else refers to. -/
def Volume.FreesInode (v : Volume) (inode : Option MInode) : Prop :=
  ∃ i, inode = some i ∧ i.iDev ≠ 0 ∧ v.sb.sDev.toNat = i.iDev ∧ i.iCount ≤ 1 ∧ i.iNlinks = 0 ∧
    1 ≤ i.iNum ∧ i.iNum ≤ v.sb.sNinodes.toNat ∧ i.iNum ∈ v.inodes

/-- The maps differ by exactly one bit, which has been set. -/
def SetsBit (maps maps' : Nat → Option MapBuffer) (n : Nat) : Prop :=
  ¬ MapBit maps n ∧ ∀ m < 65536, MapBit maps' m ↔ m = n ∨ MapBit maps m

/-- The maps differ by exactly one bit, which has been cleared. -/
def ClearsBit (maps maps' : Nat → Option MapBuffer) (n : Nat) : Prop :=
  ∀ m < 65536, MapBit maps' m ↔ m ≠ n ∧ MapBit maps m

/-- No bit has changed. -/
def SameBits (maps maps' : Nat → Option MapBuffer) : Prop :=
  ∀ m < 65536, MapBit maps' m ↔ MapBit maps m

/-- What the four calls should do. A panic that is not about a bit ends the run and is allowed. -/
def StepOk (v : Volume) (l : Call × Reply) (v' : Volume) : Prop :=
  match l.1 with
  | .newBlock _ _ =>
    (l.2 = .zone 0 ∧ SameBits v.sb.sZmap v'.sb.sZmap) ∨
    (∃ z, l.2 = .zone z ∧ z ≠ 0 ∧ (v.sb.sFirstdatazone.toNat : Int) ≤ z ∧ z < v.sb.sNzones.toNat ∧
      SetsBit v.sb.sZmap v'.sb.sZmap (zoneBit v.sb z)) ∨
    ∃ msg, l.2 = .panic msg ∧ msg ∉ bitPanics
  | .freeBlock dev block bh =>
    v.FreesZone dev block bh →
      l.2 = .done ∧ ClearsBit v.sb.sZmap v'.sb.sZmap (zoneBit v.sb block)
  | .newInode _ _ _ =>
    (l.2 = .inode none ∧ SameBits v.sb.sImap v'.sb.sImap) ∨
    (∃ i, l.2 = .inode (some i) ∧ 1 ≤ i.iNum ∧ i.iNum ≤ v.sb.sNinodes.toNat ∧
      SetsBit v.sb.sImap v'.sb.sImap i.iNum) ∨
    ∃ msg, l.2 = .panic msg ∧ msg ∉ bitPanics
  | .freeInode inode =>
    v.FreesInode inode →
      l.2 = .inode (some .zero) ∧
        ∀ i, inode = some i → ClearsBit v.sb.sImap v'.sb.sImap i.iNum

/-- The calls that the defects do not touch: an allocation whose first clear bit is among the first 64
    of its map and, for a zone, in range and not that of zone 0, which cannot be told from a failure;
    no freeing of an allocated object. -/
def Spared (v : Volume) (l : Call × Reply) (_ : Volume) : Prop :=
  match l.1 with
  | .newBlock dev getblk =>
    (v.sb.sDev.toNat : Int) = dev → ∀ n, FirstClear v.sb.sZmap n →
      n % 8192 < 64 ∧ bitZone v.sb n < v.sb.sNzones.toNat ∧ (bitZone v.sb n = 0 → getblk 0 ≠ some 1)
  | .freeBlock dev block bh => ¬ v.FreesZone dev block bh
  | .newInode dev empty _ =>
    empty ≠ none → v.sb.sDev.toNat = dev → ∀ n, FirstClear v.sb.sImap n →
      n ≤ v.sb.sNinodes.toNat → n % 8192 < 64
  | .freeInode inode => ¬ v.FreesInode inode

/-! ## The search over the maps -/

section
variable {maps : Nat → Option MapBuffer} {bh : MapBuffer} {i j k n : Nat}

/-- A map is full when the search in it finds nothing. -/
def Full (bh : MapBuffer) : Prop := ∀ m < 8192, bh.bData.bit m = true

/-- A map in which no zero is found is full. -/
lemma full_of_not_lt (h : ¬ findFirstZero bh.bData < 8192) : Full bh :=
  fun m hm => findFirstZero_spec.2.2 m (by omega)

/-- The search ends in a map with a zero. -/
lemma searchMaps_of_not_full (hm : maps i = some bh) (h : findFirstZero bh.bData < 8192) :
    searchMaps maps i (n + 1) = some (i, bh, findFirstZero bh.bData) := by
  simp [searchMaps, hm, h]

/-- It goes on behind a map that is full or not there. -/
lemma searchMaps_of_full (hm : ∀ b, maps i = some b → ¬ findFirstZero b.bData < 8192) :
    searchMaps maps i (n + 1) = searchMaps maps (i + 1) n := by
  rcases hmi : maps i with _ | b
  · simp [searchMaps, hmi]
  · simp [searchMaps, hmi, hm b hmi]

/-- The maps the search has passed are full, and the map it stops at is not. -/
lemma searchMaps_spec :
    (∀ m, i ≤ m → m < i + n → ∀ b, maps m = some b → Full b) ∧ searchMaps maps i n = none ∨
    ∃ k bh, i ≤ k ∧ k < i + n ∧ maps k = some bh ∧ findFirstZero bh.bData < 8192 ∧
      searchMaps maps i n = some (k, bh, findFirstZero bh.bData) ∧
      ∀ m, i ≤ m → m < k → ∀ b, maps m = some b → Full b := by
  induction n generalizing i with
  | zero => exact .inl ⟨fun m h1 h2 => by omega, rfl⟩
  | succ n ih =>
    by_cases hfull : ∀ b, maps i = some b → ¬ findFirstZero b.bData < 8192
    · have extend : ∀ k, (∀ m, i + 1 ≤ m → m < k → ∀ b, maps m = some b → Full b) →
          ∀ m, i ≤ m → m < k → ∀ b, maps m = some b → Full b := by
        intro k h m h1 h2 b hb
        by_cases e : m = i
        · exact full_of_not_lt (hfull b (e ▸ hb))
        · exact h m (by omega) h2 b hb
      rw [searchMaps_of_full hfull]
      obtain ⟨h, hs⟩ | ⟨k, bh, hle, hlt, hm, hz, hs, h⟩ := ih (i := i + 1)
      · exact .inl ⟨extend _ (by rwa [Nat.add_right_comm] at h), hs⟩
      · exact .inr ⟨k, bh, by omega, by omega, hm, hz, hs, extend _ h⟩
    · push Not at hfull
      obtain ⟨b, hb, hz⟩ := hfull
      refine .inr ⟨i, b, le_refl i, by omega, hb, hz, searchMaps_of_not_full hb hz, ?_⟩
      exact fun m h1 h2 => by omega

/-- All bits of a full map are set. -/
lemma Full.mapBit (hm : maps (n / 8192) = some bh) (h : Full bh) : MapBit maps n :=
  ⟨bh, hm, h _ (Nat.mod_lt _ (by omega))⟩

/-- There is one first clear bit. -/
lemma FirstClear.unique {n'} (h : FirstClear maps n) (h' : FirstClear maps n') : n = n' := by
  obtain ⟨_, hm, hc, hall⟩ := h
  obtain ⟨_, hm', hc', hall'⟩ := h'
  rcases Nat.lt_trichotomy n n' with hlt | rfl | hlt
  · exact (hc (hall' n hlt hm)).elim
  · rfl
  · exact (hc' (hall n' hlt hm')).elim

/-- The search finds the first clear bit, or nothing when there is none. -/
lemma searchMaps_firstClear :
    (searchMaps maps 0 8 = none ∧ ∀ n, ¬ FirstClear maps n) ∨
    ∃ k bh j, searchMaps maps 0 8 = some (k, bh, j) ∧ maps k = some bh ∧ j < 8192 ∧
      FirstClear maps (8192 * k + j) ∧ ∀ m < j, bh.bData.bit m = true := by
  obtain ⟨hfull, hs⟩ | ⟨k, bh, _, hk, hm, hz, hs, hfull⟩ := @searchMaps_spec maps 0 8
  · refine .inl ⟨hs, ?_⟩
    rintro n ⟨hlt, hmap, hclear, _⟩
    obtain ⟨b, hb⟩ := Option.ne_none_iff_exists'.1 hmap
    exact hclear ((hfull (n / 8192) (Nat.zero_le _) (by omega) b hb).mapBit hb)
  · obtain ⟨_, hclear, hset⟩ := @findFirstZero_spec bh.bData
    refine .inr ⟨k, bh, _, hs, hm, hz, ?_, hset⟩
    generalize findFirstZero bh.bData = j at hz hclear hset
    have ediv : (8192 * k + j) / 8192 = k := by omega
    have emod : (8192 * k + j) % 8192 = j := by omega
    refine ⟨by omega, ?_, ?_, fun m hlt' hmap => ?_⟩
    · rw [Mapped, ediv, hm]
      exact Option.some_ne_none bh
    · rintro ⟨b, hb, hbit⟩
      rw [ediv] at hb
      cases hm.symm.trans hb
      rw [emod, hclear hz] at hbit
      cases hbit
    · obtain ⟨b, hb⟩ := Option.ne_none_iff_exists'.1 hmap
      by_cases e : m / 8192 = k
      · refine ⟨b, hb, ?_⟩
        rw [e] at hb
        cases hm.symm.trans hb
        exact hset _ (by omega)
      · exact (hfull (m / 8192) (Nat.zero_le _) (by omega) b hb).mapBit hb

/-! ## One bit of one map -/

/-- The bits after a map has been stored. -/
lemma mapBit_update {data : Bytes} {d : Bool} :
    MapBit (update maps k (some ⟨data, d⟩)) n ↔
      if n / 8192 = k then data.bit (n % 8192) = true else MapBit maps n := by
  by_cases e : n / 8192 = k
  · simp [MapBit, e]
  · simp [MapBit, e]

/-- `set_bit` on one of the first 64 bits sets that bit of the maps. -/
lemma setsBit_setBit (hm : maps k = some bh) (hj : j < 64) (hc : ¬ MapBit maps (8192 * k + j)) :
    SetsBit maps (update maps k (some ⟨(setBit j bh.bData).2, true⟩)) (8192 * k + j) := by
  refine ⟨hc, fun m _ => ?_⟩
  rw [mapBit_update]
  split
  · have e : m / 8192 = k := ‹_›
    have hbit : MapBit maps m ↔ bh.bData.bit (m % 8192) = true := by
      simp [MapBit, e, hm]
    have hiff : m % 8192 = j % 64 ↔ m = 8192 * k + j := by omega
    rw [hbit, bit_setBit, Bool.or_eq_true, decide_eq_true_iff, hiff, or_comm]
  · have hne : m ≠ 8192 * k + j := by
      rintro rfl
      omega
    simp [hne]

/-- `clear_bit` that finds the bit clear changes nothing. -/
lemma mapBit_clearBit (hm : maps k = some bh) (hres : (clearBit j bh.bData).1 = false) (m : Nat) :
    MapBit (update maps k (some ⟨(clearBit j bh.bData).2, true⟩)) m ↔ MapBit maps m := by
  rw [mapBit_update]
  split
  · have e : m / 8192 = k := ‹_›
    have hbit : MapBit maps m ↔ bh.bData.bit (m % 8192) = true := by
      simp [MapBit, e, hm]
    rw [hbit, bit_clearBit, Bool.and_eq_true, decide_eq_true_iff]
    constructor
    · exact fun h => h.1
    · intro h
      refine ⟨h, ?_⟩
      intro e'
      rw [clearBit_fst, ← e', h] at hres
      cases hres
  · rfl

end

section
variable {v v' : Volume} {reply : Reply}

/-- The maps stay exact when the kernel stops. -/
lemma Volume.Exact.halt (h : v.Exact) : Volume.Exact { v with halted := true } :=
  ⟨h.zones, h.inodes, h.zone0, h.inode0⟩

/-- The first clear bit is never bit 0. -/
lemma Volume.Exact.zone_pos (h : v.Exact) {n} (hn : FirstClear v.sb.sZmap n) : 0 < n := by
  apply Nat.pos_of_ne_zero
  rintro rfl
  exact hn.2.2.1 h.zone0

/-- The first clear inode bit is not bit 0. -/
lemma Volume.Exact.inode_pos (h : v.Exact) {n} (hn : FirstClear v.sb.sImap n) : 0 < n := by
  apply Nat.pos_of_ne_zero
  rintro rfl
  exact hn.2.2.1 h.inode0

/-- The bit of the zone of a bit is that bit. -/
lemma zoneBit_bitZone (sb : SuperBlock) (n : Nat) : zoneBit sb (bitZone sb n) = n := by
  rw [zoneBit, bitZone]
  omega

/-! ## `new_block` -/

/-- Without a clear bit `new_block` returns 0. -/
lemma newBlock_of_not_found {sb : SuperBlock} {dev g} (hs : searchMaps sb.sZmap 0 8 = none)
    (hd : (sb.sDev.toNat : Int) = dev) : newBlock sb dev g = .ret (0, sb) := by
  simp [newBlock, getSuper, hd, hs]

/-- `set_bit` finds the bit set exactly when the position is beyond the first word. -/
lemma setBit_fst_of_firstClear {maps : Nat → Option MapBuffer} {k bh j} (hm : maps k = some bh)
    (hj : j < 8192) (hc : FirstClear maps (8192 * k + j)) (hset : ∀ m < j, bh.bData.bit m = true) :
    (setBit j bh.bData).1 = decide (64 ≤ j) := by
  rw [setBit_fst]
  by_cases h64 : 64 ≤ j
  · rw [hset _ (by omega), decide_eq_true h64]
  · rw [decide_eq_false h64]
    have hne : ¬ MapBit maps (8192 * k + j) := hc.2.2.1
    have ediv : (8192 * k + j) / 8192 = k := by omega
    have emod : (8192 * k + j) % 8192 = j % 64 := by omega
    simpa [MapBit, ediv, emod, hm] using hne

/-- What `new_block` does with the first clear bit. -/
lemma newBlock_of_found {sb : SuperBlock} {dev g k bh j} (hs : searchMaps sb.sZmap 0 8 = some (k, bh, j))
    (hd : (sb.sDev.toNat : Int) = dev) (hres : (setBit j bh.bData).1 = decide (64 ≤ j)) :
    newBlock sb dev g =
      if 64 ≤ j then .panic "new_block: bit already set"
      else
        let sb' := { sb with sZmap := update sb.sZmap k (some ⟨(setBit j bh.bData).2, true⟩) }
        let z := bitZone sb (8192 * k + j)
        if z ≥ sb.sNzones.toNat then .ret (0, sb')
        else if g z = none then .panic "new_block: cannot get block"
        else if g z ≠ some 1 then .panic "new block: count is != 1"
        else .ret (z, sb') := by
  have e : (j : Int) + (k * 8192 + sb.sFirstdatazone.toNat - 1) = bitZone sb (8192 * k + j) := by
    rw [bitZone]
    push_cast
    ring
  rw [setBit_fst] at hres
  by_cases h64 : 64 ≤ j
  · simp [newBlock, getSuper, hd, hs, hres, h64]
  · rcases hg : g (bitZone sb (8192 * k + j)) with _ | c
    · simp [newBlock, getSuper, hd, hs, hres, h64, e, hg]
    · simp [newBlock, getSuper, hd, hs, hres, h64, e, hg]

/-- A failure that has set a bit is not what `new_block` should do. -/
lemma not_stepOk_newBlock_zero {dev g n} (hb : SetsBit v.sb.sZmap v'.sb.sZmap n) (hn : n < 65536) :
    ¬ StepOk v (.newBlock dev g, .zone 0) v' := by
  rintro (⟨_, hsame⟩ | ⟨z, hz, hne, _⟩ | ⟨msg, hmsg, _⟩)
  · exact hb.1 ((hsame n hn).1 ((hb.2 n hn).2 (.inl rfl)))
  · cases hz
    exact hne rfl
  · cases hmsg

/-- `new_block` panics, but not over a bit. -/
lemma newBlock_panics {dev g} (msg : String) (h : v.Exact) (hnew : newBlock v.sb dev g = .panic msg)
    (hmsg : msg ∉ bitPanics) (hx : v.exec (.newBlock dev g) = (reply, v')) :
    v'.Exact ∧ StepOk v (.newBlock dev g, reply) v' := by
  rw [Volume.exec, hnew] at hx
  cases hx
  exact ⟨h.halt, .inr (.inr ⟨_, rfl, hmsg⟩)⟩

/-- Without a clear bit `new_block` returns 0 and changes nothing. -/
lemma newBlock_full {dev g} (h : v.Exact) (hnew : newBlock v.sb dev g = .ret (0, v.sb))
    (hx : v.exec (.newBlock dev g) = (reply, v')) : v'.Exact ∧ StepOk v (.newBlock dev g, reply) v' := by
  rw [Volume.exec, hnew] at hx
  cases hx
  refine ⟨⟨fun n hn => ?_, h.inodes, h.zone0, h.inode0⟩, .inl ⟨rfl, fun _ _ => Iff.rfl⟩⟩
  simpa using h.zones n hn

/-- The first clear bit is the one that `Spared` speaks about. -/
lemma spared_newBlock {dev g} (hd : (v.sb.sDev.toNat : Int) = dev) (hj : j < 8192)
    (hc : FirstClear v.sb.sZmap (8192 * k + j)) : Spared v (.newBlock dev g, reply) v' ↔
      j < 64 ∧ bitZone v.sb (8192 * k + j) < v.sb.sNzones.toNat ∧ (bitZone v.sb (8192 * k + j) = 0 → g 0 ≠ some 1) := by
  have emod : (8192 * k + j) % 8192 = j := by omega
  constructor
  · intro hsp
    have hsp := hsp hd _ hc
    rwa [emod] at hsp
  · intro hsp _ n hn
    obtain rfl := hc.unique hn
    rwa [emod]

/-- The bit is beyond the first word of its map, where `set_bit` does not get to. -/
lemma newBlock_beyond {dev g} (hnew : newBlock v.sb dev g = .panic "new_block: bit already set")
    (hx : v.exec (.newBlock dev g) = (reply, v')) : ¬ (v'.Exact ∧ StepOk v (.newBlock dev g, reply) v') := by
  rw [Volume.exec, hnew] at hx
  cases hx
  rintro ⟨_, ⟨hz, _⟩ | ⟨z, hz, _⟩ | ⟨msg, hmsg, hnot⟩⟩
  · cases hz
  · cases hz
  · cases hmsg
    exact hnot (by decide)

/-- `new_block` has set the bit, and returns 0 all the same. -/
lemma newBlock_lost {dev g maps} (hnew : newBlock v.sb dev g = .ret (0, { v.sb with sZmap := maps })) {n : Nat}
    (hn : n < 65536) (sets : SetsBit v.sb.sZmap maps n) (hx : v.exec (.newBlock dev g) = (reply, v')) :
    ¬ (v'.Exact ∧ StepOk v (.newBlock dev g, reply) v') := by
  rw [Volume.exec, hnew] at hx
  cases hx
  exact fun hok => not_stepOk_newBlock_zero sets hn hok.2

/-- `new_block` has set the bit of the zone that it returns. -/
lemma newBlock_given {dev g maps n} (h : v.Exact) (hc : FirstClear v.sb.sZmap n)
    (hnew : newBlock v.sb dev g = .ret (bitZone v.sb n, { v.sb with sZmap := maps }))
    (h0 : bitZone v.sb n ≠ 0) (hz : bitZone v.sb n < v.sb.sNzones.toNat) (sets : SetsBit v.sb.sZmap maps n)
    (hx : v.exec (.newBlock dev g) = (reply, v')) : v'.Exact ∧ StepOk v (.newBlock dev g, reply) v' := by
  rw [Volume.exec, hnew] at hx
  cases hx
  refine ⟨⟨fun m hm => ?_, h.inodes, ?_, h.inode0⟩, .inr (.inl ⟨_, rfl, h0, ?_, ?_, ?_⟩)⟩
  · rw [zoneBit_bitZone]
    show MapBit _ m ↔ (_ ∧ m = _) ∨ m ∈ v.zones
    rw [sets.2 m hm, h.zones m hm]
    simp [h0]
  · exact (sets.2 0 (by omega)).2 (.inr h.zone0)
  · have hpos := h.zone_pos hc
    rw [bitZone]
    omega
  · omega
  · rw [zoneBit_bitZone]
    exact sets

/-- `new_block` does what it should exactly if its bit is among the first 64 and its zone in range. -/
lemma newBlock_step {dev g} (h : v.Exact) (hx : v.exec (.newBlock dev g) = (reply, v')) :
    v'.Exact ∧ StepOk v (.newBlock dev g, reply) v' ↔ Spared v (.newBlock dev g, reply) v' := by
  by_cases hd : (v.sb.sDev.toNat : Int) = dev
  swap
  · refine iff_of_true (newBlock_panics "trying to get new block from nonexistant device" h ?_ ?_ hx) ?_
    · simp [newBlock, getSuper, hd]
    · decide
    · exact fun hd' => (hd hd').elim
  obtain ⟨hs, hnone⟩ | ⟨k, bh, j, hs, hm, hj, hc, hset⟩ := @searchMaps_firstClear v.sb.sZmap
  · exact iff_of_true (newBlock_full h (newBlock_of_not_found hs hd) hx) fun _ n hn => (hnone n hn).elim
  have hnew := newBlock_of_found (g := g) hs hd (setBit_fst_of_firstClear hm hj hc hset)
  rw [spared_newBlock hd hj hc]
  -- `set_bit` only reaches the first word of a map
  by_cases h64 : 64 ≤ j
  · rw [if_pos h64] at hnew
    exact iff_of_false (newBlock_beyond hnew hx) fun hsp => by omega
  rw [if_neg h64] at hnew
  have sets := setsBit_setBit hm (Nat.lt_of_not_le h64) hc.2.2.1
  -- a bit past the last zone is set all the same, and 0 is returned
  by_cases hz : bitZone v.sb (8192 * k + j) ≥ v.sb.sNzones.toNat
  · refine iff_of_false (newBlock_lost ?_ hc.1 sets hx) fun hsp => by omega
    rw [hnew, if_pos hz]
  by_cases hg : g (bitZone v.sb (8192 * k + j)) = some 1
  swap
  · refine iff_of_true ?_ ⟨by omega, by omega, fun e => e ▸ hg⟩
    by_cases hg' : g (bitZone v.sb (8192 * k + j)) = none
    · refine newBlock_panics "new_block: cannot get block" h ?_ (by decide) hx
      simp [hnew, hz, hg']
    · refine newBlock_panics "new block: count is != 1" h ?_ (by decide) hx
      simp [hnew, hz, hg, hg']
  have hnew : newBlock v.sb dev g = .ret (bitZone v.sb (8192 * k + j),
      { v.sb with sZmap := update v.sb.sZmap k (some ⟨(setBit j bh.bData).2, true⟩) }) := by
    simp [hnew, hz, hg]
  by_cases h0 : bitZone v.sb (8192 * k + j) = 0
  · refine iff_of_false (newBlock_lost ?_ hc.1 sets hx) fun hsp => hsp.2.2 h0 (h0 ▸ hg)
    rw [hnew, h0]
  · exact iff_of_true (newBlock_given h hc hnew h0 (by omega) sets hx) ⟨by omega, by omega, fun e => (h0 e).elim⟩

/-! ## `free_block` -/

/-- Maps with the same bits have not lost one that was set. -/
lemma not_clearsBit {maps maps' : Nat → Option MapBuffer} {n} (hn : n < 65536)
    (hb : MapBit maps n) (hsame : ∀ m, MapBit maps' m ↔ MapBit maps m) : ¬ ClearsBit maps maps' n := by
  intro hcl
  exact ((hcl n hn).1 ((hsame n).2 hb)).1 rfl

section
variable {dev block : Int} {bh : Option Nat} {map : MapBuffer}

/-- `free_block` panics or faults, and there was no zone to free. -/
lemma freeBlock_stop {r : Result SuperBlock} (h : v.Exact) (hfree : freeBlock v.sb dev block bh = r)
    (hr : (∃ msg, r = .panic msg) ∨ r = .fault) (hnot : ¬ v.FreesZone dev block bh)
    (hx : v.exec (.freeBlock dev block bh) = (reply, v')) :
    v'.Exact ∧ StepOk v (.freeBlock dev block bh, reply) v' ↔ ¬ v.FreesZone dev block bh := by
  obtain ⟨msg, rfl⟩ | rfl := hr
  · rw [Volume.exec, hfree] at hx
    cases hx
    exact iff_of_true ⟨h.halt, fun hf => (hnot hf).elim⟩ hnot
  · rw [Volume.exec, hfree] at hx
    cases hx
    exact iff_of_true ⟨h.halt, fun hf => (hnot hf).elim⟩ hnot

/-- Somebody else holds the buffer of the block, so that `free_block` gives up. -/
lemma freeBlock_held (h : v.Exact) (hfree : freeBlock v.sb dev block bh = .ret v.sb)
    (hcnt : ¬ bh.all (· = 1) = true) (hx : v.exec (.freeBlock dev block bh) = (reply, v')) :
    v'.Exact ∧ StepOk v (.freeBlock dev block bh, reply) v' ↔ ¬ v.FreesZone dev block bh := by
  rw [Volume.exec, hfree] at hx
  cases hx
  refine iff_of_true ⟨⟨fun n hn => ?_, h.inodes, h.zone0, h.inode0⟩, ?_⟩ ?_
  · simpa [hcnt] using h.zones n hn
  · exact fun hf => (hcnt hf.2.2.2.1).elim
  · exact fun hf => hcnt hf.2.2.2.1

variable (dev block bh) in
/-- The tests of `free_block` before it comes to the map: it stops at one of them, where there was no zone to free,
    or gives up, or gets to the bit of the zone. -/
lemma freeBlock_tests (h : v.Exact) :
    (((∃ msg, freeBlock v.sb dev block bh = .panic msg) ∨ freeBlock v.sb dev block bh = .fault) ∧
        ¬ v.FreesZone dev block bh) ∨
      (freeBlock v.sb dev block bh = .ret v.sb ∧ ¬ bh.all (· = 1) = true) ∨
      ∃ map, v.sb.sZmap (zoneBit v.sb block / 8192) = some map ∧ zoneBit v.sb block < 65536 ∧
        (v.FreesZone dev block bh ↔ zoneBit v.sb block ∈ v.zones) ∧
        freeBlock v.sb dev block bh =
          if (clearBit (zoneBit v.sb block % 8192) map.bData).1 then .panic "free_block: bit already cleared"
          else
            .ret
              { v.sb with
                sZmap := update v.sb.sZmap (zoneBit v.sb block / 8192)
                  (some ⟨(clearBit (zoneBit v.sb block % 8192) map.bData).2, true⟩) } := by
  by_cases hd : (v.sb.sDev.toNat : Int) = dev
  swap
  · refine .inl ⟨.inl ⟨"trying to free block on nonexistent device", ?_⟩, fun hf => hd hf.1⟩
    simp [freeBlock, getSuper, hd]
  by_cases hrange : block < v.sb.sFirstdatazone.toNat ∨ block ≥ v.sb.sNzones.toNat
  · refine .inl ⟨.inl ⟨"trying to free block not in datazone", ?_⟩, ?_⟩
    · simp only [freeBlock, getSuper, hd, if_true, hrange]
    · rintro ⟨_, h1, h2, _⟩
      omega
  by_cases hcnt : bh.all (· = 1) = true
  swap
  · have hany : bh.any (· ≠ 1) = true := by
      cases bh <;> simp_all
    refine .inr (.inl ⟨?_, hcnt⟩)
    simp only [freeBlock, getSuper, hd, if_true, hrange, if_false, hany]
  have hany : ¬ bh.any (· ≠ 1) = true := by
    cases bh <;> simp_all
  have hlt : zoneBit v.sb block < 65536 := by
    have hz := v.sb.sNzones.isLt
    rw [zoneBit]
    omega
  cases hm : v.sb.sZmap (zoneBit v.sb block / 8192) with
  | none =>
    refine .inl ⟨.inr ?_, ?_⟩
    · rw [zoneBit] at hm
      simp only [freeBlock, getSuper, hd, if_true, hrange, if_false, hany, hm]
      rfl
    · rintro ⟨_, _, _, _, hmem⟩
      obtain ⟨b, hb, _⟩ := (h.zones _ hlt).2 hmem
      cases hm.symm.trans hb
  | some map =>
    refine .inr (.inr ⟨map, rfl, hlt, ⟨fun hf => hf.2.2.2.2, fun hmem => ?_⟩, ?_⟩)
    · exact ⟨hd, by omega, by omega, hcnt, hmem⟩
    · rw [zoneBit] at hm
      simp only [freeBlock, getSuper, hd, if_true, hrange, if_false, hany, hm, zoneBit]
      rfl

/-- The bit of the zone is found set, which `free_block` takes for a bit that is cleared already. -/
lemma freeBlock_found (h : v.Exact) (hfree : freeBlock v.sb dev block bh = .panic "free_block: bit already cleared")
    (hx : v.exec (.freeBlock dev block bh) = (reply, v')) :
    v'.Exact ∧ StepOk v (.freeBlock dev block bh, reply) v' ↔ ¬ v.FreesZone dev block bh := by
  rw [Volume.exec, hfree] at hx
  cases hx
  constructor
  · rintro ⟨_, hok⟩ hf
    cases (hok hf).1
  · exact fun hnot => ⟨h.halt, fun hf => (hnot hf).elim⟩

/-- The bit of the zone is not found set, and `free_block` has cleared none. -/
lemma freeBlock_missed (h : v.Exact) (hm : v.sb.sZmap (zoneBit v.sb block / 8192) = some map)
    (hlt : zoneBit v.sb block < 65536) (frees : v.FreesZone dev block bh ↔ zoneBit v.sb block ∈ v.zones)
    (hres : (clearBit (zoneBit v.sb block % 8192) map.bData).1 = false)
    (hfree : freeBlock v.sb dev block bh = .ret { v.sb with
      sZmap := update v.sb.sZmap (zoneBit v.sb block / 8192)
        (some ⟨(clearBit (zoneBit v.sb block % 8192) map.bData).2, true⟩) })
    (hx : v.exec (.freeBlock dev block bh) = (reply, v')) :
    v'.Exact ∧ StepOk v (.freeBlock dev block bh, reply) v' ↔ ¬ v.FreesZone dev block bh := by
  have hsame := mapBit_clearBit hm hres
  rw [Volume.exec, hfree] at hx
  cases hx
  constructor
  · rintro ⟨_, hok⟩ hf
    exact not_clearsBit hlt ((h.zones _ hlt).2 (frees.1 hf)) hsame (hok hf).2
  · intro hnot
    refine ⟨⟨fun n hn => ?_, h.inodes, (hsame 0).2 h.zone0, h.inode0⟩, fun hf => (hnot hf).elim⟩
    refine (hsame n).trans ((h.zones n hn).trans ⟨fun hmem => ⟨hmem, ?_⟩, fun hmem => hmem.1⟩)
    rintro ⟨_, rfl⟩
    exact hnot (frees.2 hmem)

/-- `free_block` does what it should exactly if the zone is not allocated. -/
lemma freeBlock_step (h : v.Exact) (hx : v.exec (.freeBlock dev block bh) = (reply, v')) :
    v'.Exact ∧ StepOk v (.freeBlock dev block bh, reply) v' ↔ Spared v (.freeBlock dev block bh, reply) v' := by
  show _ ↔ ¬ v.FreesZone dev block bh
  obtain ⟨hr, hnot⟩ | ⟨hfree, hcnt⟩ | ⟨map, hm, hlt, frees, hfree⟩ := freeBlock_tests dev block bh h
  · exact freeBlock_stop h rfl hr hnot hx
  · exact freeBlock_held h hfree hcnt hx
  · cases hres : (clearBit (zoneBit v.sb block % 8192) map.bData).1 with
    | true => exact freeBlock_found h (by rw [hfree, if_pos hres]) hx
    | false => exact freeBlock_missed h hm hlt frees hres (by rw [hfree, if_neg (by rw [hres]; decide)]) hx

end

/-! ## `new_inode` -/

section
variable {dev now : Nat} {empty : Option MInode}

/-- `new_inode` returns no inode and changes nothing. -/
lemma newInode_fails (h : v.Exact) (hnew : newInode v.sb dev empty now = .ret (none, v.sb))
    (hx : v.exec (.newInode dev empty now) = (reply, v')) :
    v'.Exact ∧ StepOk v (.newInode dev empty now, reply) v' := by
  rw [Volume.exec, hnew] at hx
  cases hx
  refine ⟨⟨h.zones, fun n hn => ?_, h.zone0, h.inode0⟩, .inl ⟨rfl, fun _ _ => Iff.rfl⟩⟩
  simpa using h.inodes n hn

/-- `new_inode` panics as the device is not mounted. -/
lemma newInode_unmounted (h : v.Exact) (hnew : newInode v.sb dev empty now = .panic "new_inode with unknown device")
    (hx : v.exec (.newInode dev empty now) = (reply, v')) :
    v'.Exact ∧ StepOk v (.newInode dev empty now, reply) v' := by
  rw [Volume.exec, hnew] at hx
  cases hx
  exact ⟨h.halt, .inr (.inr ⟨_, rfl, by decide⟩)⟩

/-- The first clear bit is the one that `Spared` speaks about. -/
lemma spared_newInode {inode : MInode} (hd : v.sb.sDev.toNat = dev) (hj : j < 8192)
    (hc : FirstClear v.sb.sImap (8192 * k + j)) : Spared v (.newInode dev (some inode) now, reply) v' ↔
      (8192 * k + j ≤ v.sb.sNinodes.toNat → j < 64) := by
  have emod : (8192 * k + j) % 8192 = j := by omega
  constructor
  · intro hsp hle
    have hsp := hsp (Option.some_ne_none inode) hd _ hc hle
    rwa [emod] at hsp
  · intro hsp _ _ n hn hle
    obtain rfl := hc.unique hn
    rw [emod]
    exact hsp hle

/-- The bit is beyond the first word of its map, where `set_bit` does not get to. -/
lemma newInode_beyond (hnew : newInode v.sb dev empty now = .panic "new_inode: bit already set")
    (hx : v.exec (.newInode dev empty now) = (reply, v')) :
    ¬ (v'.Exact ∧ StepOk v (.newInode dev empty now, reply) v') := by
  rw [Volume.exec, hnew] at hx
  cases hx
  rintro ⟨_, ⟨hr, _⟩ | ⟨i, hr, _⟩ | ⟨msg, hmsg, hnot⟩⟩
  · cases hr
  · cases hr
  · cases hmsg
    exact hnot (by decide)

/-- `new_inode` has set the bit of the inode that it returns. -/
lemma newInode_given {maps i} (h : v.Exact) (hc : FirstClear v.sb.sImap i.iNum)
    (hnew : newInode v.sb dev empty now = .ret (some i, { v.sb with sImap := maps }))
    (hle : i.iNum ≤ v.sb.sNinodes.toNat) (sets : SetsBit v.sb.sImap maps i.iNum)
    (hx : v.exec (.newInode dev empty now) = (reply, v')) :
    v'.Exact ∧ StepOk v (.newInode dev empty now, reply) v' := by
  rw [Volume.exec, hnew] at hx
  cases hx
  refine ⟨⟨h.zones, fun n hn => ?_, h.zone0, ?_⟩, .inr (.inl ⟨_, rfl, h.inode_pos hc, hle, sets⟩)⟩
  · refine (sets.2 n hn).trans ?_
    rw [h.inodes n hn]
    simp
  · exact (sets.2 0 (by omega)).2 (.inr h.inode0)

/-- `new_inode` does what it should exactly if its bit is among the first 64. -/
lemma newInode_step (h : v.Exact) (hx : v.exec (.newInode dev empty now) = (reply, v')) :
    v'.Exact ∧ StepOk v (.newInode dev empty now, reply) v' ↔ Spared v (.newInode dev empty now, reply) v' := by
  cases empty with
  | none => exact iff_of_true (newInode_fails h rfl hx) fun hne => (hne rfl).elim
  | some inode =>
    by_cases hd : v.sb.sDev.toNat = dev
    swap
    · refine iff_of_true (newInode_unmounted h ?_ hx) fun _ hd' => (hd hd').elim
      simp [newInode, getSuper, hd]
    obtain ⟨hs, hnone⟩ | ⟨k, bh, j, hs, hm, hj, hc, hset⟩ := @searchMaps_firstClear v.sb.sImap
    · -- no map has a clear bit
      refine iff_of_true (newInode_fails h ?_ hx) fun _ _ n hn => (hnone n hn).elim
      simp [newInode, getSuper, hd, hs]
    have hres := setBit_fst_of_firstClear hm hj hc hset
    have e : j + k * 8192 = 8192 * k + j := by omega
    rw [spared_newInode hd hj hc]
    by_cases hle : 8192 * k + j ≤ v.sb.sNinodes.toNat
    swap
    · refine iff_of_true (newInode_fails h ?_ hx) fun hle' => (hle hle').elim
      simp [newInode, getSuper, hd, hs, e, Nat.lt_of_not_le hle]
    rw [setBit_fst] at hres
    by_cases h64 : 64 ≤ j
    · -- `set_bit` looks at the first word of the map, where the bit is set
      refine iff_of_false (newInode_beyond ?_ hx) fun hsp => by
        have hlt := hsp hle
        omega
      simp [newInode, getSuper, hd, hs, e, Nat.not_lt.2 hle, hres, h64]
    -- the bit in the first word is the one that was found
    have sets := setsBit_setBit hm (Nat.lt_of_not_le h64) hc.2.2.1
    have hnew : newInode v.sb dev (some inode) now =
        .ret
          (some
            { inode with
              iCount := 1, iNlinks := 1, iDev := dev, iDirt := true, iNum := 8192 * k + j
              iMtime := now, iAtime := now, iCtime := now },
          { v.sb with sImap := update v.sb.sImap k (some ⟨(setBit j bh.bData).2, true⟩) }) := by
      simp [newInode, getSuper, hd, hs, e, Nat.not_lt.2 hle, hres, h64]
    exact iff_of_true (newInode_given h hc hnew hle sets hx) fun _ => by omega

end

/-! ## `free_inode` -/

section
variable {inode : Option MInode} {i : MInode} {map : MapBuffer}

/-- `free_inode` panics, and there was no inode to free. -/
lemma freeInode_stop {msg : String} (h : v.Exact) (hfree : freeInode v.sb inode = .panic msg)
    (hnot : ¬ v.FreesInode inode) (hx : v.exec (.freeInode inode) = (reply, v')) :
    v'.Exact ∧ StepOk v (.freeInode inode, reply) v' ↔ ¬ v.FreesInode inode := by
  rw [Volume.exec, hfree] at hx
  cases hx
  exact iff_of_true ⟨h.halt, fun hf => (hnot hf).elim⟩ hnot

/-- `free_inode` returns without a look at the maps, as the inode is of no device. -/
lemma freeInode_idle {r : Option MInode} (h : v.Exact) (hfree : freeInode v.sb inode = .ret (r, v.sb))
    (hdev : ∀ i, inode = some i → i.iDev = 0) (hx : v.exec (.freeInode inode) = (reply, v')) :
    v'.Exact ∧ StepOk v (.freeInode inode, reply) v' ↔ ¬ v.FreesInode inode := by
  have hnot : ¬ v.FreesInode inode := fun ⟨i, hi, hne, _⟩ => hne (hdev i hi)
  rw [Volume.exec, hfree] at hx
  cases hx
  refine iff_of_true ⟨⟨h.zones, fun n hn => ?_, h.zone0, h.inode0⟩, fun hf => (hnot hf).elim⟩ hnot
  refine (h.inodes n hn).trans ⟨fun hmem => ⟨hmem, ?_⟩, fun hmem => hmem.1⟩
  rintro ⟨i, hi, hne, _⟩
  exact hne (hdev i hi)

/-- The tests of `free_inode` before it comes to the map: it panics at one of them, where there was no inode to
    free, or gets to the bit of the inode. -/
lemma freeInode_tests (h : v.Exact) (hdev : i.iDev ≠ 0) :
    (∃ msg, freeInode v.sb (some i) = .panic msg ∧ ¬ v.FreesInode (some i)) ∨
      ∃ map, v.sb.sImap (i.iNum / 8192) = some map ∧ i.iNum < 65536 ∧
        (v.FreesInode (some i) ↔ i.iNum ∈ v.inodes) ∧
        freeInode v.sb (some i) =
          if (clearBit (i.iNum % 8192) map.bData).1 then .panic "free_inode: bit already cleared"
          else
            .ret (some .zero,
              { v.sb with
                sImap := update v.sb.sImap (i.iNum / 8192)
                  (some ⟨(clearBit (i.iNum % 8192) map.bData).2, true⟩) }) := by
  by_cases hcount : i.iCount > 1
  · refine .inl ⟨"free_inode", ?_, ?_⟩
    · simp [freeInode, hdev, hcount]
    · rintro ⟨_, hi, _, _, hle, _⟩
      cases hi
      omega
  by_cases hlinks : i.iNlinks = 0
  swap
  · refine .inl ⟨"trying to free inode with links", ?_, ?_⟩
    · simp [freeInode, hdev, hcount, hlinks]
    · rintro ⟨_, hi, _, _, _, hl, _⟩
      cases hi
      exact hlinks hl
  by_cases hd : v.sb.sDev.toNat = i.iDev
  swap
  · refine .inl ⟨"trying to free inode on nonexistent device", ?_, ?_⟩
    · simp [freeInode, hdev, hcount, hlinks, getSuper, hd]
    · rintro ⟨_, hi, _, hd', _⟩
      cases hi
      exact hd hd'
  have hsuper : getSuper v.sb i.iDev = some v.sb := by
    simp [getSuper, hd]
  by_cases hrange : i.iNum < 1 ∨ i.iNum > v.sb.sNinodes.toNat
  · refine .inl ⟨"trying to free inode 0 or nonexistant inode", ?_, ?_⟩
    · simp only [freeInode, hdev, hcount, hlinks, hsuper, if_false, hrange, if_true, ne_eq, not_true]
    · rintro ⟨_, hi, _, _, _, _, h1, h2, _⟩
      cases hi
      omega
  have hlt : i.iNum < 65536 := by
    have hn := v.sb.sNinodes.isLt
    omega
  cases hm : v.sb.sImap (i.iNum / 8192) with
  | none =>
    refine .inl ⟨"nonexistent imap in superblock", ?_, ?_⟩
    · simp only [freeInode, hdev, hcount, hlinks, hsuper, if_false, hrange, hm, ne_eq, not_true]
    · rintro ⟨_, hi, _, _, _, _, _, _, hmem⟩
      cases hi
      obtain ⟨b, hb, _⟩ := (h.inodes _ hlt).2 hmem
      cases hm.symm.trans hb
  | some map =>
    refine .inr ⟨map, rfl, hlt, ⟨?_, fun hmem => ?_⟩, ?_⟩
    · rintro ⟨_, hi, _, _, _, _, _, _, hmem⟩
      cases hi
      exact hmem
    · exact ⟨i, rfl, hdev, hd, by omega, hlinks, by omega, by omega, hmem⟩
    · simp only [freeInode, hdev, hcount, hlinks, hsuper, if_false, hrange, hm, ne_eq, not_true]

/-- The bit of the inode is found set, which `free_inode` takes for a bit that is cleared already. -/
lemma freeInode_found (h : v.Exact) (hfree : freeInode v.sb (some i) = .panic "free_inode: bit already cleared")
    (hx : v.exec (.freeInode (some i)) = (reply, v')) :
    v'.Exact ∧ StepOk v (.freeInode (some i), reply) v' ↔ ¬ v.FreesInode (some i) := by
  rw [Volume.exec, hfree] at hx
  cases hx
  constructor
  · rintro ⟨_, hok⟩ hf
    cases (hok hf).1
  · exact fun hnot => ⟨h.halt, fun hf => (hnot hf).elim⟩

/-- The bit of the inode is not found set, and `free_inode` has cleared none. -/
lemma freeInode_missed (h : v.Exact) (hm : v.sb.sImap (i.iNum / 8192) = some map) (hlt : i.iNum < 65536)
    (frees : v.FreesInode (some i) ↔ i.iNum ∈ v.inodes) (hres : (clearBit (i.iNum % 8192) map.bData).1 = false)
    (hfree : freeInode v.sb (some i) = .ret (some .zero, { v.sb with
      sImap := update v.sb.sImap (i.iNum / 8192) (some ⟨(clearBit (i.iNum % 8192) map.bData).2, true⟩) }))
    (hx : v.exec (.freeInode (some i)) = (reply, v')) :
    v'.Exact ∧ StepOk v (.freeInode (some i), reply) v' ↔ ¬ v.FreesInode (some i) := by
  have hsame := mapBit_clearBit hm hres
  rw [Volume.exec, hfree] at hx
  cases hx
  constructor
  · rintro ⟨_, hok⟩ hf
    exact not_clearsBit hlt ((h.inodes _ hlt).2 (frees.1 hf)) hsame ((hok hf).2 i rfl)
  · intro hnot
    refine ⟨⟨h.zones, fun n hn => ?_, h.zone0, (hsame 0).2 h.inode0⟩, fun hf => (hnot hf).elim⟩
    refine (hsame n).trans ((h.inodes n hn).trans ⟨fun hmem => ⟨hmem, ?_⟩, fun hmem => hmem.1⟩)
    rintro ⟨i', hi, _, rfl⟩
    cases hi
    exact hnot (frees.2 hmem)

/-- `free_inode` does what it should exactly when there is no inode to free. -/
lemma freeInode_step (h : v.Exact) (hx : v.exec (.freeInode inode) = (reply, v')) :
    v'.Exact ∧ StepOk v (.freeInode inode, reply) v' ↔ Spared v (.freeInode inode, reply) v' := by
  show _ ↔ ¬ v.FreesInode inode
  cases inode with
  | none => exact freeInode_idle h rfl (fun i hi => by cases hi) hx
  | some i =>
    by_cases hdev : i.iDev = 0
    · refine freeInode_idle h (r := some .zero) ?_ (fun i' hi => by cases hi; exact hdev) hx
      simp [freeInode, hdev]
    obtain ⟨msg, hfree, hnot⟩ | ⟨map, hm, hlt, frees, hfree⟩ := freeInode_tests h hdev
    · exact freeInode_stop h hfree hnot hx
    cases hres : (clearBit (i.iNum % 8192) map.bData).1 with
    | true => exact freeInode_found h (by rw [hfree, if_pos hres]) hx
    | false => exact freeInode_missed h hm hlt frees hres (by rw [hfree, if_neg (by rw [hres]; decide)]) hx

end

/-! ## Every run -/

/-- A call does what it should exactly if it is spared. -/
lemma volume_step {l} (h : v.Exact) (st : volumeSystem.step v l v') :
    v'.Exact ∧ StepOk v l v' ↔ Spared v l v' := by
  obtain ⟨call, reply⟩ := l
  cases call with
  | newBlock => exact newBlock_step h st.2
  | freeBlock => exact freeBlock_step h st.2
  | newInode => exact newInode_step h st.2
  | freeInode => exact freeInode_step h st.2

/-- Over any sequence of calls on a mounted device, the set bits are always exactly the allocated
    objects and every call does to the bits what it should, if and only if every allocation finds its
    first clear bit among the first 64 of a map (and a zone in range) and no allocated object is ever
    freed. -/
theorem bitmaps_exact_iff {tr} (h0 : volumeSystem.init v) (ex : volumeSystem.Exec v tr) :
    Always Volume.Exact v tr ∧ Along StepOk v tr ↔ Along Spared v tr := by
  rw [always_and_along_iff h0.1]
  refine ex.along_iff (fun v l v' h st hc => ?_) (fun v l v' h st => (volume_step h st).1) h0.1
  have hok := (volume_step h st).2 hc
  exact ⟨hok.1, hok⟩

/-- A map whose first `n` bits, at most 8, are set. -/
def sampleMap (n : Nat) : Nat → Option MapBuffer :=
  fun i => if i = 0 then some ⟨fun b => if b = 0 then .ofNat 8 (2 ^ n - 1) else 0, false⟩ else none

/-- A device with data zones 5 .. 99 and 64 inodes, of which the first zone and the first inode are
    allocated. -/
def sampleVolume : Volume where
  sb :=
    { sDev := 0x301, sNinodes := 64, sNzones := 100, sFirstdatazone := 5
      sImap := sampleMap 2, sZmap := sampleMap 2 }
  zones := { n | MapBit (sampleMap 2) n }
  inodes := { n | MapBit (sampleMap 2) n }
  halted := false

/-- The sample volume is exact. -/
lemma sampleVolume_init : volumeSystem.init sampleVolume :=
  ⟨⟨fun _ _ => Iff.rfl, fun _ _ => Iff.rfl, ⟨_, rfl, by decide⟩, ⟨_, rfl, by decide⟩⟩, rfl⟩

/-- Its first clear zone bit is bit 2. -/
lemma sampleVolume_firstClear : FirstClear sampleVolume.sb.sZmap 2 := by
  refine ⟨by omega, Option.some_ne_none _, ?_, fun m hm _ => ?_⟩
  · rintro ⟨b, hb, hbit⟩
    cases hb
    revert hbit
    decide
  · interval_cases m <;> exact ⟨_, rfl, by decide⟩

/-- The next zone is allocated as it should be. -/
theorem bitmaps_exact_new_block :
    let call := Call.newBlock 0x301 fun _ => some 1
    let tr := [((call, Reply.zone 6), (sampleVolume.exec call).2)]
    volumeSystem.Exec sampleVolume tr ∧ Always Volume.Exact sampleVolume tr ∧
      Along StepOk sampleVolume tr := by
  intro call tr
  have ex : volumeSystem.Exec sampleVolume tr := .cons ⟨rfl, rfl⟩ .nil
  refine ⟨ex, (bitmaps_exact_iff sampleVolume_init ex).2 ⟨?_, trivial⟩⟩
  intro _ n hn
  obtain rfl := sampleVolume_firstClear.unique hn
  decide

/-- Freeing the allocated zone 5 ends in "free_block: bit already cleared". -/
theorem bitmaps_not_exact_free_block :
    ¬ ∀ (v : Volume) tr, volumeSystem.init v → volumeSystem.Exec v tr →
      Always Volume.Exact v tr ∧ Along StepOk v tr := by
  intro h
  have ex : volumeSystem.Exec sampleVolume
      [((.freeBlock 0x301 5 none, .panic "free_block: bit already cleared"),
        { sampleVolume with halted := true })] := .cons ⟨rfl, rfl⟩ .nil
  have hok := (h _ _ sampleVolume_init ex).2.1
  have hf : sampleVolume.FreesZone 0x301 5 none :=
    ⟨by decide, by decide, by decide, by decide, ⟨_, rfl, by decide⟩⟩
  cases (hok hf).1

end

end OldLinux.Bitmap
