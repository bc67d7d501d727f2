import Mathlib.Algebra.BigOperators.Intervals
import OldLinux.Fs.DiskFormat
import OldLinux.Lib.Program

/-!
# Failing to mount

`do_mount` (`fs/super.c`) with the memory around the slot that it fills, and with the counts of the buffers.
`super_block[]` is at the address `table`. What `bread` returns may be anything, and something else in
each call. What the function itself writes to memory is recorded; the counts and the data of the buffers
are kept by the addresses of their heads.

The blocks of the bitmaps are counted by the disk, and there is room for 8 of each: the ninth block of the inode
bitmap is put into the slots of the zone bitmap, and the ninth of the zone bitmap behind them. `mount_atomic_iff`
says when a call that fails leaves no traces.
-/

namespace OldLinux.Fs.Mount
open Lib Lib.Bytes Function

/-- What `bread` returns: the address of a buffer head, and its data. -/
structure Buffer where
  addr : BitVec 64
  ne : addr ≠ 0
  data : Bytes

/-- The memory, the buffers, the number of calls of `bread`, and the addresses and sizes of what has been
    written. -/
structure Kernel where
  mem : Bytes
  bCount : BitVec 64 → Nat
  bData : BitVec 64 → Bytes
  calls : Nat
  written : List (Nat × Nat)

namespace Kernel

/-- A word is stored in memory. -/
def store {n : Nat} (s : Kernel) (a : Nat) (w : BitVec (8 * n)) : Kernel :=
  { s with mem := Bytes.store s.mem a w, written := (a, n) :: s.written }

/-- `bread(dev,block)`: the next of its outcomes. -/
def bread (reads : Nat → Option Buffer) (s : Kernel) : BitVec 64 × Kernel :=
  match reads s.calls with
  | none => (0, { s with calls := s.calls + 1 })
  | some b =>
    (b.addr,
      { s with
        calls := s.calls + 1
        bCount := update s.bCount b.addr (s.bCount b.addr + 1)
        bData := update s.bData b.addr b.data })

/-- `brelse(buf)`. -/
def brelse (buf : BitVec 64) : Prog Kernel Unit := fun s =>
  if buf = 0 then .ret ((), s)
  else if s.bCount buf = 0 then .panic "Trying to free free buffer"
  else .ret ((), { s with bCount := update s.bCount buf (s.bCount buf - 1) })

/-- `p->m`. -/
def field (s : Kernel) (n p : Nat) (m : SMember) : BitVec (8 * n) := load n s.mem (p + superBlock.offset m)

/-- `p->m[i]`. -/
def slot (s : Kernel) (p : Nat) (m : SMember) (i : Nat) : BitVec 64 :=
  load 8 s.mem (p + superBlock.offset m + 8 * i)

/-- `p->m = w`. -/
def setField {n : Nat} (s : Kernel) (p : Nat) (m : SMember) (w : BitVec (8 * n)) : Kernel :=
  s.store (p + superBlock.offset m) w

/-- `p->m[i] = w`. -/
def setSlot (s : Kernel) (p : Nat) (m : SMember) (i : Nat) (w : BitVec 64) : Kernel :=
  s.store (n := 8) (p + superBlock.offset m + 8 * i) w

/-- `for (i=0;i<8;i++) p->m[i] = NULL`. -/
def clearSlots (s : Kernel) (p : Nat) (m : SMember) : Kernel :=
  (List.range 8).foldl (fun s i => s.setSlot p m i 0) s

/-- A loop over the blocks of a bitmap, from slot `i` of the array `m` and from `block` on. The number of blocks
    is in the member `cnt`; the first number bounds the turns. -/
def mapLoop (reads : Nat → Option Buffer) (p : Nat) (m cnt : SMember) : Nat → Nat → Nat → Kernel → Nat × Kernel
  | 0, _, block, s => (block, s)
  | k + 1, i, block, s =>
    if i < (s.field 2 p cnt).toNat then
      let (bh, s) := s.bread reads
      let s := s.setSlot p m i bh
      if bh ≠ 0 then mapLoop reads p m cnt k (i + 1) (block + 1) s else (block, s)
    else (block, s)

/-- `for (i=0;i<8;i++) brelse(p->m[i])`. -/
def brelseSlots (p : Nat) (m : SMember) : Prog Kernel Unit :=
  forM (List.range 8) fun i => do
    let s ← Prog.get
    brelse (s.slot p m i)

/-- `p->m[0]->b_data[0] |= 1`. -/
def markFirst (p : Nat) (m : SMember) : Prog Kernel Unit := do
  let s ← Prog.get
  let bh := s.slot p m 0
  if bh = 0 then Prog.fault
  else Prog.modify fun s => { s with bData := update s.bData bh (update (s.bData bh) 0 (s.bData bh 0 ||| 1)) }

end Kernel

open Kernel

/-- The address of `super_block[j]`. -/
def slotAddr (table j : Nat) : Nat := table + superBlock.sizeof * j

/-- The first slot with `s_dev` zero, or `NR_SUPER`. -/
def freeSlot (table : Nat) (s : Kernel) : Nat :=
  ((List.range 8).find? fun j => s.field 2 (slotAddr table j) .sDev = 0).getD 8

/-- The end of `do_mount`, when not all blocks of the bitmaps could be read. -/
def giveUp (p : Nat) : Prog Kernel (Option Nat) := do
  brelseSlots p .sImap
  brelseSlots p .sZmap
  Prog.modify fun s => s.setField (n := 2) p .sDev 0
  pure none

/-- The end of `do_mount`, when they could. -/
def finish (p : Nat) (dev : BitVec 16) : Prog Kernel (Option Nat) := do
  markFirst p .sImap
  markFirst p .sZmap
  Prog.modify fun s =>
    let s := s.setField (n := 2) p .sDev dev
    let s := (s.setField (n := 8) p .sIsup 0).setField (n := 8) p .sImount 0
    let s := s.setField (n := 8) p .sTime 0
    (s.setField (n := 1) p .sRdOnly 0).setField (n := 1) p .sDirt 0
  pure (some p)

/-- What has been written between two states is in the addresses from `a` on, before `b`. -/
def WritesIn (a b : Nat) (s s' : Kernel) : Prop :=
  ∃ new, s'.written = new ++ s.written ∧ ∀ w ∈ new, a ≤ w.1 ∧ w.1 + w.2 ≤ b

/-- The pointer that call `k` of `bread` returns. -/
def ptr (reads : Nat → Option Buffer) (k : Nat) : BitVec 64 := ((reads k).map Buffer.addr).getD 0

/-- How many of the next `n` calls, from call `k` on, return a buffer before the first that does not. -/
def got (reads : Nat → Option Buffer) : Nat → Nat → Nat
  | _, 0 => 0
  | k, n + 1 => if ptr reads k = 0 then 0 else got reads (k + 1) n + 1

/-- The calls that are made for these: also the one that fails. -/
def tried (reads : Nat → Option Buffer) (k n : Nat) : Nat := min (got reads k n + 1) n

/-- How many of `W 0`, .., `W (n - 1)` are `h`. -/
def cnt (W : Nat → BitVec 64) (n : Nat) (h : BitVec 64) : Nat := ∑ i ∈ Finset.range n, if W i = h then 1 else 0

section
variable {W V : Nat → BitVec 64} {n m : Nat} {h : BitVec 64} {φ : Nat → Nat}

/-- The count without its first place. -/
lemma cnt_front : cnt W (n + 1) h = cnt (fun i => W (i + 1)) n h + if W 0 = h then 1 else 0 :=
  Finset.sum_range_succ' _ _

/-- The count over two stretches. -/
lemma cnt_add : cnt W (n + m) h = cnt W n h + cnt (fun i => W (n + i)) m h :=
  Finset.sum_range_add _ _ _

/-- The count depends on the places only. -/
lemma cnt_congr (hW : ∀ i < n, W i = V i) : cnt W n h = cnt V n h :=
  Finset.sum_congr rfl fun i hi => by rw [hW i (Finset.mem_range.1 hi)]

/-- The count as a number of places. -/
lemma cnt_eq_card : cnt W n h = ((Finset.range n).filter fun i => W i = h).card := (Finset.card_filter _ _).symm

/-- The pointers `h` among `W` are all found among `V`, at different places. -/
structure Found (W V : Nat → BitVec 64) (n m : Nat) (h : BitVec 64) (φ : Nat → Nat) : Prop where
  maps : ∀ i < n, W i = h → φ i < m ∧ V (φ i) = h
  inj : ∀ i < n, ∀ i' < n, W i = h → W i' = h → φ i = φ i' → i = i'

/-- What is found is counted. -/
lemma Found.le (hf : Found W V n m h φ) : cnt W n h ≤ cnt V m h := by
  rw [cnt_eq_card, cnt_eq_card]
  refine Finset.card_le_card_of_injOn φ (fun i hi => ?_) fun i hi i' hi' e => ?_
  · simp only [Finset.coe_filter, Finset.mem_range, Set.mem_ofPred_eq] at hi ⊢
    exact hf.maps i hi.1 hi.2
  · simp only [Finset.coe_filter, Finset.mem_range, Set.mem_ofPred_eq] at hi hi'
    exact hf.inj i hi.1 i' hi'.1 hi.2 hi'.2 e

/-- One of those among `V` is not found. -/
lemma Found.lt (hf : Found W V n m h φ) {k : Nat} (hk : k < m) (hV : V k = h)
    (hlost : ∀ i < n, W i = h → φ i ≠ k) : cnt W n h < cnt V m h := by
  rw [cnt_eq_card, cnt_eq_card]
  have hmem : k ∈ (Finset.range m).filter fun i => V i = h := Finset.mem_filter.2 ⟨Finset.mem_range.2 hk, hV⟩
  refine lt_of_le_of_lt (Finset.card_le_card_of_injOn φ (fun i hi => ?_) fun i hi i' hi' e => ?_)
    (Finset.card_erase_lt_of_mem hmem)
  · simp only [Finset.coe_filter, Finset.mem_range, Set.mem_ofPred_eq] at hi
    obtain ⟨hm, hv⟩ := hf.maps i hi.1 hi.2
    exact Finset.mem_coe.2 (Finset.mem_erase.2 ⟨hlost i hi.1 hi.2, Finset.mem_filter.2 ⟨Finset.mem_range.2 hm, hv⟩⟩)
  · simp only [Finset.coe_filter, Finset.mem_range, Set.mem_ofPred_eq] at hi hi'
    exact hf.inj i hi.1 i' hi'.1 hi.2 hi'.2 e

end

/-! ## The calls of `bread` -/

section
variable {reads : Nat → Option Buffer} {k n : Nat}

/-- No more blocks are got than are asked for. -/
lemma got_le : ∀ {n k : Nat}, got reads k n ≤ n
  | 0, _ => le_rfl
  | n + 1, k => by
    rw [got]
    split
    · exact Nat.zero_le _
    · exact Nat.succ_le_succ got_le

/-- The blocks that are got are there. -/
lemma ptr_of_lt_got : ∀ {n k j : Nat}, j < got reads k n → ptr reads (k + j) ≠ 0
  | 0, _, _, h => absurd h (Nat.not_lt_zero _)
  | n + 1, k, j, h => by
    rw [got] at h
    split at h
    · exact absurd h (Nat.not_lt_zero _)
    · rename_i h0
      cases j with
      | zero => exact h0
      | succ j =>
        have e : k + (j + 1) = k + 1 + j := by omega
        rw [e]
        exact ptr_of_lt_got (Nat.lt_of_succ_lt_succ h)

/-- The next call after these fails. -/
lemma ptr_got : ∀ {n k : Nat}, got reads k n < n → ptr reads (k + got reads k n) = 0
  | 0, _, h => absurd h (Nat.not_lt_zero _)
  | n + 1, k, h => by
    rw [got] at h ⊢
    split
    · rename_i h0
      exact h0
    · rename_i h0
      rw [if_neg h0] at h
      have e : k + (got reads (k + 1) n + 1) = k + 1 + got reads (k + 1) n := by omega
      rw [e]
      exact ptr_got (Nat.lt_of_succ_lt_succ h)

end

/-! ## Parts of the function -/

section
variable {a b a' b' k : Nat} {s s' t : Kernel}

/-- Nothing done writes nothing. -/
lemma WritesIn.refl : WritesIn a b s s := ⟨[], rfl, nofun⟩

/-- Two steps that write in a range write in it together. -/
lemma WritesIn.trans (h1 : WritesIn a b s s') (h2 : WritesIn a b s' t) : WritesIn a b s t := by
  obtain ⟨n1, e1, h1⟩ := h1
  obtain ⟨n2, e2, h2⟩ := h2
  refine ⟨n2 ++ n1, by rw [e2, e1, List.append_assoc], fun w hw => ?_⟩
  cases List.mem_append.1 hw with
  | inl hw => exact h2 w hw
  | inr hw => exact h1 w hw

/-- A larger range. -/
lemma WritesIn.mono (h : WritesIn a b s s') (ha : a' ≤ a) (hb : b ≤ b') : WritesIn a' b' s s' := by
  obtain ⟨new, e, h⟩ := h
  exact ⟨new, e, fun w hw => ⟨ha.trans (h w hw).1, (h w hw).2.trans hb⟩⟩

/-- One write. -/
lemma WritesIn.cons {w : Nat × Nat} (hw : s'.written = w :: s.written) (ha : a ≤ w.1) (hb : w.1 + w.2 ≤ b) :
    WritesIn a b s s' :=
  ⟨[w], hw, fun v hv => by rw [List.mem_singleton.1 hv]; exact ⟨ha, hb⟩⟩

/-- A store is in its own range. -/
lemma WritesIn.store {w : BitVec (8 * k)} (ha : a ≤ a') (hb : a' + k ≤ b) : WritesIn a b s (s.store a' w) :=
  .cons rfl ha hb

end

namespace Kernel

variable {reads : Nat → Option Buffer} {s s' : Kernel} {p i j k n : Nat} {m c : SMember}
  {h bh : BitVec 64}

/-- `bread` gives the next buffer. -/
lemma bread_ptr : (s.bread reads).1 = ptr reads s.calls := by
  rw [bread, ptr]
  cases reads s.calls <;> rfl

/-- `bread` leaves the memory. -/
lemma bread_rest : (s.bread reads).2.mem = s.mem ∧ (s.bread reads).2.written = s.written ∧
    (s.bread reads).2.calls = s.calls + 1 := by
  rw [bread]
  cases reads s.calls <;> exact ⟨rfl, rfl, rfl⟩

/-- It counts up the buffer it gives. -/
lemma bread_count (h0 : h ≠ 0) :
    (s.bread reads).2.bCount h = s.bCount h + if ptr reads s.calls = h then 1 else 0 := by
  rw [bread, ptr]
  cases reads s.calls with
  | none =>
    show s.bCount h = s.bCount h + if (0 : BitVec 64) = h then 1 else 0
    rw [if_neg (Ne.symm h0)]
    rfl
  | some b =>
    show update s.bCount b.addr (s.bCount b.addr + 1) h = s.bCount h + if b.addr = h then 1 else 0
    by_cases e : b.addr = h
    · rw [if_pos e, ← e, update_self]
    · rw [if_neg e, update_of_ne (Ne.symm e)]
      rfl

/-- `bread` counts up no null pointer. -/
lemma bread_count_zero : (s.bread reads).2.bCount 0 = s.bCount 0 := by
  rw [bread]
  cases reads s.calls with
  | none => rfl
  | some b => exact update_of_ne (Ne.symm b.ne) _ _

/-- The slot that has been set. -/
lemma slot_setSlot_self : (s.setSlot p m i bh).slot p m i = bh := load_store_self

/-- Setting a slot leaves the others. -/
lemma slot_setSlot_of_ne (hij : j ≠ i) : (s.setSlot p m i bh).slot p m j = s.slot p m j :=
  load_store_of_disjoint (by omega)

/-- Storing a pointer leaves the rest of the memory. -/
lemma mem_setSlot {x : Nat} (hx : x < p + superBlock.offset m + 8 * i ∨ p + superBlock.offset m + 8 * (i + 1) ≤ x) :
    (s.setSlot p m i bh).mem x = s.mem x :=
  store_of_not_mem (by omega)

/-- A pointer is its 8 bytes. -/
lemma slot_congr (hm : ∀ x, p + superBlock.offset m + 8 * i ≤ x → x < p + superBlock.offset m + 8 * (i + 1) →
    s'.mem x = s.mem x) : s'.slot p m i = s.slot p m i :=
  load_congr fun j hj => hm _ (by omega) (by omega)

/-- A field is its bytes. -/
lemma field_congr (hm : ∀ x, p + superBlock.offset m ≤ x → x < p + superBlock.offset m + n → s'.mem x = s.mem x) :
    s'.field n p m = s.field n p m :=
  load_congr fun j hj => hm _ (by omega) (by omega)

/-- `e` slots of the array `m` from slot `i` on have been filled by calls of `bread`. -/
structure Fills (reads : Nat → Option Buffer) (p : Nat) (m : SMember) (i e : Nat) (s s' : Kernel) : Prop where
  calls : s'.calls = s.calls + e
  slot : ∀ j < e, s'.slot p m (i + j) = ptr reads (s.calls + j)
  mem : ∀ x, x < p + superBlock.offset m + 8 * i ∨ p + superBlock.offset m + 8 * (i + e) ≤ x → s'.mem x = s.mem x
  count : ∀ h, h ≠ 0 → s'.bCount h = s.bCount h + cnt (fun j => ptr reads (s.calls + j)) e h
  count_zero : s'.bCount 0 = s.bCount 0
  written : WritesIn (p + superBlock.offset m + 8 * i) (p + superBlock.offset m + 8 * (i + e)) s s'

/-- No turn fills nothing. -/
lemma Fills.refl : Fills reads p m i 0 s s where
  calls := rfl
  slot _ hj := absurd hj (Nat.not_lt_zero _)
  mem _ _ := rfl
  count _ _ := rfl
  count_zero := rfl
  written := WritesIn.refl

/-- One more slot, in front. -/
lemma Fills.cons {e : Nat} (hf : Fills reads p m (i + 1) e ((s.bread reads).2.setSlot p m i (s.bread reads).1) s') :
    Fills reads p m i (e + 1) s s' := by
  obtain ⟨hmem, hw, hc⟩ := @bread_rest reads s
  have hcalls : ((s.bread reads).2.setSlot p m i (s.bread reads).1).calls = s.calls + 1 := hc
  have hshift : ∀ j, s.calls + 1 + j = s.calls + (j + 1) := fun j => by omega
  constructor
  · rw [hf.calls, hcalls]
    omega
  · intro j hj
    cases j with
    | zero =>
      have e : s'.slot p m (i + 0) = ((s.bread reads).2.setSlot p m i (s.bread reads).1).slot p m i :=
        slot_congr fun x _ hx => hf.mem x (.inl (by omega))
      rw [e, slot_setSlot_self, bread_ptr]
      rfl
    | succ j =>
      have e := hf.slot j (by omega)
      rw [hcalls, hshift] at e
      rw [← e]
      exact congrArg (s'.slot p m) (by omega)
  · intro x hx
    rw [hf.mem x (by omega), mem_setSlot (by omega), hmem]
  · intro h h0
    have hb : ((s.bread reads).2.setSlot p m i (s.bread reads).1).bCount h = (s.bread reads).2.bCount h := rfl
    have hc' : cnt (fun j => ptr reads (s.calls + (j + 1))) e h = cnt (fun j => ptr reads (s.calls + 1 + j)) e h :=
      cnt_congr fun j _ => by rw [hshift]
    rw [hf.count h h0, hcalls, hb, bread_count h0, cnt_front, hc']
    simp only [Nat.add_zero]
    omega
  · rw [hf.count_zero]
    exact bread_count_zero
  · have h1 : WritesIn (p + superBlock.offset m + 8 * i) (p + superBlock.offset m + 8 * (i + (e + 1)))
        (s.bread reads).2 ((s.bread reads).2.setSlot p m i (s.bread reads).1) :=
      .store le_rfl (by omega)
    have h2 := h1.trans (hf.written.mono (by omega) (by omega))
    rw [WritesIn, hw] at h2
    exact h2

/-- The slots of an array are `NULL`. -/
structure Clears (p : Nat) (m : SMember) (e : Nat) (s s' : Kernel) : Prop where
  calls : s'.calls = s.calls
  slot : ∀ j < e, s'.slot p m j = 0
  mem : ∀ x, x < p + superBlock.offset m ∨ p + superBlock.offset m + 8 * e ≤ x → s'.mem x = s.mem x
  count : s'.bCount = s.bCount
  written : WritesIn (p + superBlock.offset m) (p + superBlock.offset m + 8 * e) s s'

/-- The loop that clears pointers. -/
lemma foldl_clears : ∀ e, Clears p m e s ((List.range e).foldl (fun s i => s.setSlot p m i 0) s)
  | 0 => ⟨rfl, fun _ h => absurd h (Nat.not_lt_zero _), fun _ _ => rfl, rfl, .refl⟩
  | e + 1 => by
    have ih := foldl_clears e
    rw [List.range_succ, List.foldl_append]
    constructor
    · exact ih.calls
    · intro j hj
      by_cases he : j = e
      · rw [he]
        exact slot_setSlot_self
      · exact (slot_setSlot_of_ne he).trans (ih.slot j (by omega))
    · intro x hx
      exact (mem_setSlot (by omega)).trans (ih.mem x (by omega))
    · exact ih.count
    · exact (ih.written.mono le_rfl (by omega)).trans (.store (by omega) (by omega))

/-- It clears all eight. -/
lemma clearSlots_clears : Clears p m 8 s (s.clearSlots p m) := foldl_clears 8

end Kernel

/-! ## The bitmaps -/

section
variable {reads : Nat → Option Buffer} {p a b n l k : Nat} {dev : BitVec 16} {s s' t : Kernel} {h : BitVec 64}

/-- The slots when `a` and `b` calls have been made for the two bitmaps. The slots of the zone bitmap are those
    of the inode bitmap from the ninth on. -/
structure Filled (reads : Nat → Option Buffer) (p a b : Nat) (s t : Kernel) : Prop where
  slot : ∀ i < 16, t.slot p .sImap i = if 8 ≤ i ∧ i - 8 < b then ptr reads (s.calls + (a + (i - 8)))
    else if i < a then ptr reads (s.calls + i) else 0
  mem : ∀ x, x < p + 32 ∨ p + 32 + 8 * max 16 (max a (8 + b)) ≤ x → t.mem x = s.mem x
  count : ∀ h, h ≠ 0 → t.bCount h = s.bCount h + cnt (fun k => ptr reads (s.calls + k)) (a + b) h
  count_zero : t.bCount 0 = s.bCount 0
  written : WritesIn (p + 32) (p + 32 + 8 * max 16 (max a (8 + b))) s t

/-- Where the inode maps are. -/
lemma offset_sImap : superBlock.offset .sImap = 32 := by decide
/-- The member of the zone maps. -/
lemma offset_sZmap : superBlock.offset .sZmap = 96 := by decide
/-- The zone maps follow the inode maps. -/
lemma slot_sZmap {i : Nat} : s.slot p .sZmap i = s.slot p .sImap (8 + i) := by
  have e : p + superBlock.offset .sZmap + 8 * i = p + superBlock.offset .sImap + 8 * (8 + i) := by
    rw [offset_sZmap, offset_sImap]
    omega
  rw [Kernel.slot, e, Kernel.slot]

/-- Both loops, on slots that are `NULL`. -/
lemma filled (h0 : ∀ i < 16, s.slot p .sImap i = 0) (hi : Fills reads p .sImap 0 a s s')
    (hz : Fills reads p .sZmap 0 b s' t) : Filled reads p a b s t := by
  have him := hi.mem
  have hzm := hz.mem
  rw [offset_sImap] at him
  rw [offset_sZmap] at hzm
  have hs' : ∀ i < 16, s'.slot p .sImap i = if i < a then ptr reads (s.calls + i) else 0 := fun i hlt => by
    by_cases ha : i < a
    · rw [if_pos ha, ← hi.slot i ha, Nat.zero_add]
    · rw [if_neg ha, ← h0 i hlt]
      exact slot_congr fun x hx _ => him x (by rw [offset_sImap] at hx; omega)
  constructor
  · intro i hlt
    by_cases hc : 8 ≤ i ∧ i - 8 < b
    · have e := hz.slot (i - 8) hc.2
      have hi8 : 8 + (0 + (i - 8)) = i := by omega
      rw [slot_sZmap, hi8, hi.calls, Nat.add_assoc] at e
      rw [if_pos hc, e]
    · rw [if_neg hc, ← hs' i hlt]
      refine slot_congr fun x hx hx' => hzm x ?_
      rw [offset_sImap] at hx hx'
      omega
  · intro x hx
    rw [hzm x (by omega), him x (by omega)]
  · intro h hh
    rw [hz.count h hh, hi.count h hh, hi.calls, cnt_add]
    have e : cnt (fun j => ptr reads (s.calls + a + j)) b h = cnt (fun j => ptr reads (s.calls + (a + j))) b h :=
      cnt_congr fun j _ => by rw [Nat.add_assoc]
    rw [e, Nat.add_assoc]
  · rw [hz.count_zero, hi.count_zero]
  · have wi := hi.written
    have wz := hz.written
    rw [offset_sImap] at wi
    rw [offset_sZmap] at wz
    exact (wi.mono (by omega) (by omega)).trans (wz.mono (by omega) (by omega))

/-- After the slots have been cleared. -/
lemma cleared : Clears p .sImap 16 s ((s.clearSlots p .sImap).clearSlots p .sZmap) := by
  have h1 := clearSlots_clears (s := s) (p := p) (m := .sImap)
  have h2 := clearSlots_clears (s := s.clearSlots p .sImap) (p := p) (m := .sZmap)
  have hm1 := h1.mem
  have hm2 := h2.mem
  have hw1 := h1.written
  have hw2 := h2.written
  rw [offset_sImap] at hm1 hw1
  rw [offset_sZmap] at hm2 hw2
  constructor
  · rw [h2.calls, h1.calls]
  · intro i hi
    by_cases h8 : i < 8
    · rw [← h1.slot i h8]
      refine slot_congr fun x hx hx' => hm2 x ?_
      rw [offset_sImap] at hx'
      omega
    · have hi8 : 8 + (i - 8) = i := by omega
      have e := h2.slot (i - 8) (by omega)
      rw [slot_sZmap, hi8] at e
      exact e
  · intro x hx
    rw [offset_sImap] at hx
    rw [hm2 x (by omega), hm1 x (by omega)]
  · rw [h2.count, h1.count]
  · rw [offset_sImap]
    exact (hw1.mono (by omega) (by omega)).trans (hw2.mono (by omega) (by omega))

/-- Filling the maps leaves the fields of the disk. -/
lemma Filled.field (hf : Filled reads p a b s t) {m : SMember} (hm : superBlock.offset m + k ≤ 32) :
    t.field k p m = s.field k p m :=
  field_congr fun x _ hx => hf.mem x (.inl (by omega))

/-- Where the pointer in slot `i` comes from. -/
def source (a b i : Nat) : Nat := if 8 ≤ i ∧ i - 8 < b then a + (i - 8) else i

/-- The slot that the pointer from call `k` has been put into last. -/
def place (a k : Nat) : Nat := if k < a then k else k - a + 8

/-- The buffers that were read are in the pointers. -/
lemma Filled.found (hf : Filled reads p a b s t) (hh : h ≠ 0) :
    Found (t.slot p .sImap) (fun k => ptr reads (s.calls + k)) 16 (a + b) h (source a b) := by
  have hi : ∀ i < 16, t.slot p .sImap i = h →
      source a b i < a + b ∧ ptr reads (s.calls + source a b i) = h ∧ (¬(8 ≤ i ∧ i - 8 < b) → i < a) := fun i hi e => by
    rw [hf.slot i hi] at e
    rw [source]
    by_cases hc : 8 ≤ i ∧ i - 8 < b
    · rw [if_pos hc] at e ⊢
      exact ⟨by omega, e, fun hn => absurd hc hn⟩
    · rw [if_neg hc] at e ⊢
      by_cases ha : i < a
      · rw [if_pos ha] at e
        exact ⟨by omega, e, fun _ => ha⟩
      · rw [if_neg ha] at e
        exact absurd e.symm hh
  constructor
  · intro i hlt e
    exact ⟨(hi i hlt e).1, (hi i hlt e).2.1⟩
  · intro i hlt i' hlt' e e' heq
    have h1 := (hi i hlt e).2.2
    have h2 := (hi i' hlt' e').2.2
    rw [source, source] at heq
    split at heq <;> split at heq <;> omega

/-- All pointers are in slots. -/
lemma Filled.kept (hf : Filled reads p a b s t) (hh : h ≠ 0) (hn : a = tried reads s.calls n)
    (hl : b = tried reads (s.calls + a) l)
    (hfit : got reads s.calls n ≤ 8 ∧ got reads (s.calls + a) l ≤ 8 ∨ l = 0 ∧ got reads s.calls n ≤ 16) :
    Found (fun k => ptr reads (s.calls + k)) (t.slot p .sImap) (a + b) 16 h (place a) := by
  have hin : ∀ k < a, ptr reads (s.calls + k) = h → k < got reads s.calls n := fun k hk e => by
    by_contra hge
    have hlast : k = got reads s.calls n := by
      rw [hn, tried] at hk
      omega
    have h0 := @ptr_got reads n s.calls (by rw [hn, tried] at hk; omega)
    rw [← hlast, e] at h0
    exact hh h0
  have hiz : ∀ k, a ≤ k → k < a + b → ptr reads (s.calls + k) = h → k - a < got reads (s.calls + a) l :=
    fun k hak hk e => by
      by_contra hge
      have hb : k - a < b := by omega
      rw [hl, tried] at hb
      have hlast : k - a = got reads (s.calls + a) l := by omega
      have h0 := @ptr_got reads l (s.calls + a) (by omega)
      have ek : s.calls + a + got reads (s.calls + a) l = s.calls + k := by omega
      rw [ek, e] at h0
      exact hh h0
  have hb : b ≤ l := by
    rw [hl, tried]
    omega
  constructor
  · intro k hk e
    by_cases hka : k < a
    · have hg := hin k hka e
      have hp : place a k = k := if_pos hka
      refine ⟨by omega, ?_⟩
      rw [hp, hf.slot k (by omega), if_neg (by omega), if_pos hka]
      exact e
    · have hg := hiz k (by omega) hk e
      have hp : place a k = k - a + 8 := if_neg hka
      have ek : a + (k - a + 8 - 8) = k := by omega
      refine ⟨by omega, ?_⟩
      rw [hp, hf.slot _ (by omega), if_pos (by omega), ek]
      exact e
  · intro k hk k' hk' e e' heq
    have h1 := hin k
    have h2 := hin k'
    rw [place, place] at heq
    split at heq
    · have h1 := h1 ‹_› e
      split at heq <;> omega
    · split at heq
      · have h2 := h2 ‹_› e'
        omega
      · omega

/-- A pointer is lost if the maps do not fit: that of a block of the inode bitmap that a block of the zone bitmap
    took the slot of, or of a block that was put behind the slots. -/
lemma Filled.lost (hf : Filled reads p a b s t) (hn : a = tried reads s.calls n)
    (hl : b = tried reads (s.calls + a) l)
    (hfit : ¬(got reads s.calls n ≤ 8 ∧ got reads (s.calls + a) l ≤ 8 ∨ l = 0 ∧ got reads s.calls n ≤ 16)) :
    ∃ h, h ≠ 0 ∧ cnt (t.slot p .sImap) 16 h < cnt (fun k => ptr reads (s.calls + k)) (a + b) h := by
  have ha : got reads s.calls n ≤ a := by
    rw [hn, tried]
    have : got reads s.calls n ≤ n := got_le
    omega
  have hb : got reads (s.calls + a) l ≤ b ∧ (l ≠ 0 → 0 < b) := by
    rw [hl, tried]
    have : got reads (s.calls + a) l ≤ l := got_le
    omega
  have hlose : ∀ k, k < a + b → ptr reads (s.calls + k) ≠ 0 → (∀ i < 16, i < a ∨ 8 ≤ i ∧ i - 8 < b → source a b i ≠ k) →
      ∃ h, h ≠ 0 ∧ cnt (t.slot p .sImap) 16 h < cnt (fun k => ptr reads (s.calls + k)) (a + b) h :=
    fun k hk h0 hs => by
      refine ⟨_, h0, (hf.found h0).lt hk rfl fun i hi e => hs i hi ?_⟩
      rw [hf.slot i hi] at e
      by_contra hno
      rw [if_neg fun hc => hno (.inr hc), if_neg fun hc => hno (.inl hc)] at e
      exact h0 e.symm
  by_cases hz : 8 < got reads (s.calls + a) l
  · refine hlose (a + 8) (by omega) ?_ fun i hi hc => ?_
    · rw [← Nat.add_assoc]
      exact ptr_of_lt_got hz
    · rw [source]
      split <;> omega
  · by_cases h0 : l = 0
    · have h16 : 16 < got reads s.calls n := by omega
      refine hlose 16 (by omega) (ptr_of_lt_got h16) fun i hi hc => ?_
      have hb0 : b = 0 := by rw [hl, h0, tried, Nat.min_zero]
      rw [source, if_neg (by omega)]
      omega
    · have h8 : 8 < got reads s.calls n := by omega
      refine hlose 8 (by omega) (ptr_of_lt_got h8) fun i hi hc => ?_
      rw [source]
      have := hb.2 h0
      split <;> omega

/-! ## The ends -/

end

/-! ## A whole call -/

section
variable {table j p n : Nat} {reads : Nat → Option Buffer} {dev : BitVec 16} {s s' u : Kernel} {b : Buffer}

/-- The super block has been read into the slot. -/
structure Loaded (p : Nat) (b : Buffer) (s u : Kernel) : Prop where
  calls : u.calls = s.calls + 1
  count : u.bCount = s.bCount
  mem : ∀ x, x < p ∨ p + 200 ≤ x → u.mem x = s.mem x
  field : ∀ k m, superBlock.offset m + k ≤ 200 → u.field k p m = load k b.data (superBlock.offset m)
  written : WritesIn p (p + 200) s u

end

end OldLinux.Fs.Mount
