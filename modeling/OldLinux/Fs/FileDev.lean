import OldLinux.Fs.Bmap

/-!
# Reading and writing regular files

Model of `file_read` and `file_write` (`fs/file_dev.c`). Each turn of either loop handles the part of
the transfer that lies in one block; `bread` always succeeds, and user memory is a function from
offsets in the buffer to bytes. A turn of the write loop fills in the block (`create_block`, which
keeps all contents) and then overwrites bytes of it, which changes the contents at these offsets and
nowhere else; `writeLoop_spec` carries this over the loop. The headline is `file_write_contents`.
-/

namespace OldLinux.Fs
open Lib Function

/-- `O_APPEND`. -/
def oAppend : BitVec 16 := 0o2000

/-- `filp->f_flags & O_APPEND`. -/
def File.appends {ι : Type*} (f : File ι) : Prop := f.fFlags &&& oAppend ≠ 0

instance {ι : Type*} (f : File ι) : Decidable f.appends := inferInstanceAs (Decidable (_ ≠ _))

/-- `while (n-->0) *(d++) = *(s++)`. -/
def copyBytes : Nat → Bytes → Nat → Bytes → Nat → Bytes
  | 0, dst, _, _, _ => dst
  | n + 1, dst, d, src, s => copyBytes n (update dst d (src s)) (d + 1) src (s + 1)

namespace FileSys

section
variable {ι : Type*} [DecidableEq ι] (newBlock : Disk → Nat → Nat × Disk) (now : Nat)

/-- The loop of `file_read`, with the number of bytes left, `f_pos`, the position in the buffer and the
    buffer; `left` bounds its number of turns. -/
def readLoop (fs : FileSys ι) (k : ι) : Nat → Nat → Nat → Nat → Bytes → Result (Nat × Nat × Bytes)
  | 0, left, pos, _, buf => .ret (left, pos, buf)
  | n + 1, left, pos, b, buf =>
    if left = 0 then .ret (left, pos, buf)
    else
      match fs.bmap newBlock now k (pos / 1024) with
      | .ret (nr, _) =>
        let data := if nr ≠ 0 then fs.disk.blocks (fs.dev k, nr) else fun _ => 0
        let chars := min (1024 - pos % 1024) left
        readLoop fs k n (left - chars) (pos + chars) (b + chars) (copyBytes chars buf b data (pos % 1024))
      | .panic msg => .panic msg
      | .fault => .fault

/-- `file_read(inode, filp, buf, count)`: the value returned, the buffer, the file and the file
    system. -/
def fileRead (fs : FileSys ι) (k : ι) (f : File ι) (buf : Bytes) (count : Int) :
    Result (Int × Bytes × File ι × FileSys ι) :=
  if count ≤ 0 then .ret (0, buf, f, fs)
  else
    match fs.readLoop newBlock now k count.toNat count.toNat f.fPos 0 buf with
    | .ret (left, pos, buf) =>
      let fs := { fs with inode := update fs.inode k { fs.inode k with iAtime := now } }
      .ret (if count - left ≠ 0 then count - left else -99, buf, { f with fPos := pos }, fs)
    | .panic msg => .panic msg
    | .fault => .fault

/-- `if (pos > inode->i_size) ..`. -/
def growTo (fs : FileSys ι) (k : ι) (pos : Nat) : FileSys ι :=
  if pos > (fs.inode k).iSize.toNat then
    { fs with inode := update fs.inode k { fs.inode k with iSize := .ofNat 64 pos, iDirt := true } }
  else fs

/-- New data for a block. -/
def putBlock (fs : FileSys ι) (a : Nat × Nat) (data : Bytes) : FileSys ι :=
  { fs with disk := { fs.disk with blocks := update fs.disk.blocks a data } }

/-- The loop of `file_write`, with `i` bytes of `count` written and `pos` the next offset; the first
    argument bounds its number of turns. -/
def writeLoop (k : ι) (buf : Bytes) (count : Nat) :
    Nat → Nat → Nat → FileSys ι → Result (Nat × Nat × FileSys ι)
  | 0, i, pos, fs => .ret (i, pos, fs)
  | n + 1, i, pos, fs =>
    if i < count then
      match fs.createBlock newBlock now k (pos / 1024) with
      | .ret (block, fs) =>
        if block = 0 then .ret (i, pos, fs)
        else
          let c := min (1024 - pos % 1024) (count - i)
          let fs := fs.growTo k (pos + c)
          let a := (fs.dev k, block)
          let fs := fs.putBlock a (copyBytes c (fs.disk.blocks a) (pos % 1024) buf i)
          writeLoop k buf count n (i + c) (pos + c) fs
      | .panic msg => .panic msg
      | .fault => .fault
    else .ret (i, pos, fs)

/-- Where `file_write` starts. -/
def startPos (fs : FileSys ι) (k : ι) (f : File ι) : Nat :=
  if f.appends then (fs.inode k).iSize.toNat else f.fPos

/-- `file_write(inode, filp, buf, count)`: the value returned, the file and the file system. -/
def fileWrite (fs : FileSys ι) (k : ι) (f : File ι) (buf : Bytes) (count : Int) :
    Result (Int × File ι × FileSys ι) :=
  match writeLoop newBlock now k buf count.toNat count.toNat 0 (fs.startPos k f) fs with
  | .ret (i, pos, fs) =>
    let inode := { fs.inode k with iMtime := now }
    let inode := if f.appends then inode else { inode with iCtime := now }
    let f := if f.appends then f else { f with fPos := pos }
    .ret (if i ≠ 0 then i else -1, f, { fs with inode := update fs.inode k inode })
  | .panic msg => .panic msg
  | .fault => .fault

end

end FileSys

/-- The bytes after a copy. -/
lemma copyBytes_apply (n : Nat) (dst : Bytes) (d : Nat) (src : Bytes) (s j : Nat) :
    copyBytes n dst d src s j = if d ≤ j ∧ j < d + n then src (s + (j - d)) else dst j := by
  induction n generalizing dst d s with
  | zero => rw [copyBytes, if_neg (by omega)]
  | succ n ih =>
    rw [copyBytes, ih]
    by_cases e : j = d
    · subst e
      rw [if_neg (by omega), if_pos (by omega), update_self, Nat.sub_self, Nat.add_zero]
    · rw [update_of_ne e]
      by_cases hj : d + 1 ≤ j ∧ j < d + 1 + n
      · have hs : s + 1 + (j - (d + 1)) = s + (j - d) := by omega
        rw [if_pos hj, if_pos (by omega), hs]
      · rw [if_neg hj, if_neg (by omega)]

namespace FileSys
variable {ι : Type*} [DecidableEq ι] {newBlock : Disk → Nat → Nat × Disk} {now : Nat}
variable {fs fs' : FileSys ι} {k : ι}

/-- The contents of a file are what `bmap` gives. -/
lemma contents_eq_bmap (off : Nat) :
    fs.contents k off =
      match fs.bmap newBlock now k (off / 1024) with
      | .ret (z, _) => if z ≠ 0 then fs.disk.blocks (fs.dev k, z) (off % 1024) else 0
      | _ => 0 := by
  rw [FileSys.contents]
  by_cases hlt : off / 1024 < maxBlocks
  · rw [bmap_eq hlt]
    simp only [hlt, true_and]
    rfl
  · rw [if_neg (fun hc => hlt hc.1), bmap, bmapOrCreate, if_pos (Nat.le_of_not_lt hlt)]

/-! ## One turn of the write loop -/

/-- Changes of an inode that leave its zones and its device alone change no contents. -/
lemma setInode_spec (h : fs.WF) {m : MInode} (hz : m.iZone = (fs.inode k).iZone)
    (hd : m.iDev = (fs.inode k).iDev) :
    FileSys.WF { fs with inode := update fs.inode k m } ∧
      (∀ k' off, FileSys.contents { fs with inode := update fs.inode k m } k' off =
        fs.contents k' off) ∧
      (∀ k', FileSys.dev { fs with inode := update fs.inode k m } k' = fs.dev k') ∧
      ∀ {k' s}, s.Valid → FileSys.zone { fs with inode := update fs.inode k m } k' s = fs.zone k' s := by
  have hdev : ∀ k', FileSys.dev { fs with inode := update fs.inode k m } k' = fs.dev k' := by
    intro k'
    by_cases e : k' = k
    · subst e; simp [dev, hd]
    · simp [dev, e]
  have hzone : ∀ {k' s}, s.Valid →
      FileSys.zone { fs with inode := update fs.inode k m } k' s = fs.zone k' s := by
    intro k' s hs
    refine zone_congr (fun k' i => ?_) hdev (fun _ _ => rfl) hs
    show (update fs.inode k m k').iZone i = _
    by_cases e : k' = k
    · subst e; rw [update_self, hz]
    · rw [update_of_ne e]
  refine ⟨h.congr hzone hdev fun _ => id, fun k' off => ?_, hdev, hzone⟩
  rw [FileSys.contents, FileSys.contents]
  by_cases hlt : off / 1024 < maxBlocks
  · rw [addr, hzone (slotOf_valid hlt), hdev]
    rfl
  · simp only [hlt, false_and, if_false]

omit [DecidableEq ι] in
/-- Overwriting a data block changes no zone. -/
lemma zone_putBlock (h : fs.WF) {block : Nat} (hb : block < maxBlocks) {data : Bytes} {k' : ι}
    {s : Slot} (hs : s.Valid) :
    (fs.putBlock (fs.addr k (slotOf block)) data).zone k' s = fs.zone k' s := by
  refine zone_congr (fun _ _ => rfl) (fun _ => rfl) (fun {k₁ p} hp hpz => ?_) hs
  apply update_of_ne
  intro ha
  obtain ⟨_, rfl⟩ := h.inj hp.valid (slotOf_valid hb) hpz ha
  exact slotOf_not_index _ hp

/-- Overwriting a data block changes no zone, and the contents of that block of that file only. -/
lemma putBlock_spec (h : fs.WF) {block : Nat} (hb : block < maxBlocks)
    (hz : fs.zone k (slotOf block) ≠ 0) (data : Bytes) :
    let fs' := fs.putBlock (fs.addr k (slotOf block)) data
    fs'.WF ∧ ∀ k' off, fs'.contents k' off =
      if k' = k ∧ off / 1024 = block then data (off % 1024) else fs.contents k' off := by
  intro fs'
  have hzone : ∀ {k' s}, s.Valid → fs'.zone k' s = fs.zone k' s := zone_putBlock h hb
  have haddr : ∀ {k' s}, s.Valid → fs'.addr k' s = fs.addr k' s := by
    intro k' s hs
    rw [addr, hzone hs]
    rfl
  refine ⟨h.congr hzone (fun _ => rfl) fun _ => id, fun k' off => ?_⟩
  rw [FileSys.contents, FileSys.contents]
  by_cases hlt : off / 1024 < maxBlocks
  swap
  · have hne : ¬ (k' = k ∧ off / 1024 = block) := fun hc => hlt (hc.2 ▸ hb)
    simp only [hlt, false_and, if_false, if_neg hne]
  have hv := slotOf_valid hlt
  rw [hzone hv, haddr hv]
  by_cases hc : k' = k ∧ off / 1024 = block
  · obtain ⟨rfl, rfl⟩ := hc
    rw [if_pos ⟨hlt, hz⟩, if_pos ⟨rfl, rfl⟩]
    exact congrFun (update_self _ _ _) _
  · rw [if_neg hc]
    by_cases hz' : fs.zone k' (slotOf (off / 1024)) = 0
    · rw [if_neg (fun hc => hc.2 hz'), if_neg (fun hc => hc.2 hz')]
    · rw [if_pos ⟨hlt, hz'⟩, if_pos ⟨hlt, hz'⟩]
      refine congrFun (update_of_ne (fun ha => ?_) _ _) _
      obtain ⟨rfl, hs⟩ := h.inj hv (slotOf_valid hb) hz' ha
      exact hc ⟨rfl, slotOf_injective hs⟩

/-- What a write of the bytes `buf[i]`, `buf[i+1]`, .. to the offsets from `pos` up to `pos'` does: the
    contents of this file change there, those of the others nowhere. -/
structure Wrote (fs fs' : FileSys ι) (k : ι) (buf : Bytes) (i pos pos' : Nat) : Prop where
  wf : fs'.WF
  contents : ∀ k' off, fs'.contents k' off =
    if k' = k ∧ pos ≤ off ∧ off < pos' then buf (i + (off - pos)) else fs.contents k' off
  others : ∀ k', k' ≠ k → fs'.inode k' = fs.inode k'
  size : (fs'.inode k).iSize.toNat =
    if pos < pos' then max (fs.inode k).iSize.toNat pos' else (fs.inode k).iSize.toNat

/-- A write of nothing. -/
lemma Wrote.of_keeps {buf : Bytes} {i pos : Nat} (h : Keeps fs fs' k) :
    Wrote fs fs' k buf i pos pos where
  wf := h.wf
  contents k' off := by rw [h.contents, if_neg (by omega)]
  others := h.others
  size := by rw [h.size, if_neg (lt_irrefl pos)]

/-- Two writes one behind the other. -/
lemma Wrote.trans {fs'' : FileSys ι} {buf : Bytes} {i pos c pos' : Nat}
    (h : Wrote fs fs' k buf i pos (pos + c)) (h' : Wrote fs' fs'' k buf (i + c) (pos + c) pos')
    (hle : pos + c ≤ pos') : Wrote fs fs'' k buf i pos pos' where
  wf := h'.wf
  contents k' off := by
    rw [h'.contents, h.contents]
    by_cases hk : k' = k
    swap
    · simp only [hk, false_and, if_false]
    by_cases h2 : pos + c ≤ off ∧ off < pos'
    · have e : i + c + (off - (pos + c)) = i + (off - pos) := by omega
      rw [if_pos ⟨hk, h2⟩, if_pos ⟨hk, by omega⟩, e]
    · rw [if_neg (fun hc => h2 hc.2)]
      by_cases h1 : pos ≤ off ∧ off < pos + c
      · rw [if_pos ⟨hk, h1⟩, if_pos ⟨hk, by omega⟩]
      · rw [if_neg (fun hc => h1 hc.2), if_neg (fun hc => by omega)]
  others k' hk := (h'.others k' hk).trans (h.others k' hk)
  size := by
    rw [h'.size, h.size]
    split <;> split <;> split <;> omega

/-- A step that keeps the contents, before a write. -/
lemma Wrote.of_keeps_left {fs'' : FileSys ι} {buf : Bytes} {i pos pos' : Nat} (h : Keeps fs fs' k)
    (h' : Wrote fs' fs'' k buf i pos pos') (hle : pos ≤ pos') : Wrote fs fs'' k buf i pos pos' :=
  Wrote.trans (c := 0) (.of_keeps h) h' hle

/-- `i_size` after `if (pos > inode->i_size) ..`; nothing else of account has changed. -/
lemma growTo_spec (h : fs.WF) (pos : Nat) (hpos : pos < 2 ^ 64) :
    (fs.growTo k pos).WF ∧ (∀ k' off, (fs.growTo k pos).contents k' off = fs.contents k' off) ∧
      (∀ k', (fs.growTo k pos).dev k' = fs.dev k') ∧
      (∀ {k' s}, s.Valid → (fs.growTo k pos).zone k' s = fs.zone k' s) ∧
      (∀ k', k' ≠ k → (fs.growTo k pos).inode k' = fs.inode k') ∧
      ((fs.growTo k pos).inode k).iSize.toNat = max (fs.inode k).iSize.toNat pos := by
  rw [growTo]
  split
  · obtain ⟨hwf, hc, hd, hz⟩ := setInode_spec (k := k)
      (m := { fs.inode k with iSize := .ofNat 64 pos, iDirt := true }) h rfl rfl
    refine ⟨hwf, hc, hd, hz, fun k' hk => update_of_ne hk _ _, ?_⟩
    simp only [update_self, BitVec.toNat_ofNat, Nat.mod_eq_of_lt hpos]
    omega
  · refine ⟨h, fun _ _ => rfl, fun _ => rfl, fun _ => rfl, fun _ _ => rfl, ?_⟩
    omega

/-- A turn of the write loop writes `c` bytes within one block. -/
lemma wrote_turn (h : fs.WF) (buf : Bytes) (i : Nat) {pos c : Nat} (hb : pos / 1024 < maxBlocks)
    (hz : fs.zone k (slotOf (pos / 1024)) ≠ 0) (hc : 0 < c) (hle : c ≤ 1024 - pos % 1024) :
    let fs₁ := fs.growTo k (pos + c)
    let a := (fs₁.dev k, fs.zone k (slotOf (pos / 1024)))
    Wrote fs (fs₁.putBlock a (copyBytes c (fs₁.disk.blocks a) (pos % 1024) buf i)) k buf i pos
      (pos + c) := by
  intro fs₁ a
  have hmax : maxBlocks = 7 + 512 + 512 * 512 := rfl
  obtain ⟨hwf, hcon, hdev, hzone, hothers, hsize⟩ := growTo_spec (k := k) h (pos + c) (by omega)
  have hv := slotOf_valid hb
  have ha : a = fs₁.addr k (slotOf (pos / 1024)) := by
    show (fs₁.dev k, _) = (fs₁.dev k, _)
    rw [hzone hv]
  rw [ha]
  obtain ⟨hwf', hcon'⟩ := putBlock_spec (k := k) hwf hb (hzone hv ▸ hz)
    (copyBytes c (fs₁.disk.blocks (fs₁.addr k (slotOf (pos / 1024)))) (pos % 1024) buf i)
  refine ⟨hwf', fun k' off => ?_, hothers, ?_⟩
  · rw [hcon', hcon]
    by_cases hk : k' = k ∧ off / 1024 = pos / 1024
    · obtain ⟨rfl, hoff⟩ := hk
      rw [if_pos ⟨rfl, hoff⟩, copyBytes_apply]
      by_cases hr : pos ≤ off ∧ off < pos + c
      · have e : off % 1024 - pos % 1024 = off - pos := by omega
        rw [if_pos (by omega), if_pos ⟨rfl, hr⟩, e]
      · rw [if_neg (by omega), if_neg (fun hc => hr hc.2), ← hcon, FileSys.contents, hoff,
          if_pos ⟨hb, hzone hv ▸ hz⟩]
    · rw [if_neg hk, if_neg]
      rintro ⟨hk', h1, h2⟩
      exact hk ⟨hk', by omega⟩
  · rw [if_pos (by omega)]
    exact hsize

/-! ## The loops -/

/-- The write loop returns, having written the bytes `i` to `i'` of the buffer. -/
lemma writeLoop_spec (ha : Allocates newBlock) {buf : Bytes} {count : Nat} :
    ∀ (n i pos : Nat) {fs : FileSys ι}, fs.WF → i ≤ count → count - i ≤ n →
      pos + (count - i) ≤ maxBlocks * 1024 →
      ∃ i' fs', writeLoop newBlock now k buf count n i pos fs = .ret (i', pos + (i' - i), fs') ∧
        i ≤ i' ∧ i' ≤ count ∧ Wrote fs fs' k buf i pos (pos + (i' - i))
  | 0, i, pos, fs, h, hi, hn, _ => by
    refine ⟨i, fs, ?_, le_refl i, hi, ?_⟩
    · rw [writeLoop, Nat.sub_self]
      rfl
    · rw [Nat.sub_self]
      exact .of_keeps (.refl h)
  | n + 1, i, pos, fs, h, hi, hn, hpos => by
    rw [writeLoop]
    by_cases hlt : i < count
    swap
    · refine ⟨i, fs, ?_, le_refl i, hi, ?_⟩
      · rw [if_neg hlt, Nat.sub_self]
        rfl
      · rw [Nat.sub_self]
        exact .of_keeps (.refl h)
    rw [if_pos hlt]
    have hb : pos / 1024 < maxBlocks := by omega
    obtain ⟨z, fs₁, hcreate, hk, hz⟩ := @createBlock_spec _ fs k _ _ now ha h _ hb
    rw [hcreate]
    by_cases hz0 : z = 0
    · -- no zone is left: the loop ends early
      refine ⟨i, fs₁, ?_, le_refl i, hi, ?_⟩
      · simp only [hz0, if_true, Nat.sub_self]
        rfl
      · rw [Nat.sub_self]
        exact .of_keeps hk
    · simp only [if_neg hz0]
      have hc : 0 < min (1024 - pos % 1024) (count - i) := by omega
      have hle : min (1024 - pos % 1024) (count - i) ≤ 1024 - pos % 1024 := by omega
      have hle' : i + min (1024 - pos % 1024) (count - i) ≤ count := by omega
      generalize min (1024 - pos % 1024) (count - i) = c at hc hle hle'
      have hturn := wrote_turn (k := k) hk.wf buf i hb (hz ▸ hz0) hc hle
      rw [hz] at hturn
      obtain ⟨i', fs', hloop, h1, h2, hw⟩ :=
        writeLoop_spec ha n (i + c) (pos + c) hturn.wf hle' (by omega)
        (by omega)
      have e : pos + c + (i' - (i + c)) = pos + (i' - i) := by omega
      rw [e] at hloop hw
      refine ⟨i', fs', hloop, by omega, h2, ?_⟩
      exact .of_keeps_left hk (hturn.trans hw (by omega)) (by omega)

/-- The read loop returns with nothing left, having delivered the contents from `pos` on. -/
lemma readLoop_spec : ∀ (n left pos b : Nat) (buf : Bytes), left ≤ n →
    pos + left ≤ maxBlocks * 1024 →
    ∃ buf', fs.readLoop newBlock now k n left pos b buf = .ret (0, pos + left, buf') ∧
      ∀ j, buf' j = if b ≤ j ∧ j < b + left then fs.contents k (pos + (j - b)) else buf j
  | 0, left, pos, b, buf, hn, _ => by
    obtain rfl : left = 0 := by omega
    refine ⟨buf, by rw [readLoop, Nat.add_zero], fun j => ?_⟩
    rw [if_neg (by omega)]
  | n + 1, left, pos, b, buf, hn, hpos => by
    rw [readLoop]
    by_cases h0 : left = 0
    · subst h0
      refine ⟨buf, by rw [if_pos rfl, Nat.add_zero], fun j => ?_⟩
      rw [if_neg (by omega)]
    have hb : pos / 1024 < maxBlocks := by omega
    rw [if_neg h0, bmap_eq hb]
    have hc : 0 < min (1024 - pos % 1024) left := by omega
    have hle : min (1024 - pos % 1024) left ≤ 1024 - pos % 1024 := by omega
    have hle' : min (1024 - pos % 1024) left ≤ left := by omega
    simp only
    generalize min (1024 - pos % 1024) left = c at hc hle hle'
    obtain ⟨buf', hloop, hbuf⟩ := readLoop_spec n (left - c) (pos + c) (b + c) _ (by omega) (by omega)
    have e : pos + c + (left - c) = pos + left := by omega
    rw [e] at hloop
    refine ⟨buf', hloop, fun j => ?_⟩
    rw [hbuf, copyBytes_apply]
    by_cases h2 : b + c ≤ j ∧ j < b + c + (left - c)
    · have e' : pos + c + (j - (b + c)) = pos + (j - b) := by omega
      rw [if_pos h2, if_pos (by omega), e']
    · -- what this turn has copied is from one block, or zeros for a hole
      rw [if_neg h2]
      by_cases h1 : b ≤ j ∧ j < b + c
      · have hdiv : (pos + (j - b)) / 1024 = pos / 1024 := by omega
        have hmod : (pos + (j - b)) % 1024 = pos % 1024 + (j - b) := by omega
        have h3 : b ≤ j ∧ j < b + left := by omega
        rw [if_pos h1, if_pos h3, FileSys.contents, hdiv, hmod]
        by_cases hz : fs.zone k (slotOf (pos / 1024)) = 0
        · rw [if_neg (not_not.2 hz), if_neg (fun hc => hc.2 hz)]
        · rw [if_pos hz, if_pos ⟨hb, hz⟩]
          rfl
      · rw [if_neg h1, if_neg (by omega)]

/-- `file_read` delivers the contents from `f_pos` on and advances it. -/
lemma fileRead_spec {f : File ι} (buf : Bytes) {count : Int} (hc : 0 < count)
    (hpos : f.fPos + count.toNat ≤ maxBlocks * 1024) :
    ∃ buf' fs', fs.fileRead newBlock now k f buf count =
        .ret (count, buf', { f with fPos := f.fPos + count.toNat }, fs') ∧
      ∀ j, buf' j = if j < count.toNat then fs.contents k (f.fPos + j) else buf j := by
  obtain ⟨buf', hloop, hbuf⟩ := @readLoop_spec _ _ newBlock now fs k
    count.toNat count.toNat f.fPos 0 buf (le_refl _) hpos
  have hne : count ≠ 0 := by omega
  refine ⟨buf', { fs with inode := update fs.inode k { fs.inode k with iAtime := now } }, ?_,
    fun j => ?_⟩
  · rw [fileRead, if_neg (by omega), hloop]
    simp only [Int.natCast_zero, Int.sub_zero, if_pos hne]
  · rw [hbuf]
    simp

/-- In a well-formed file system, a write within the largest possible file returns. When it returns
    `n > 0`, the contents of this file are now the first `n` bytes of the buffer on the `n` offsets
    from the start position and what they were elsewhere, every other file's contents are what they
    were, `i_size` is the larger of the old one and the end of the write, `f_pos` is at that end
    (without `O_APPEND`), and reading from any position gives the new contents. -/
theorem file_write_contents (ha : Allocates newBlock) (h : fs.WF) (f : File ι) (buf : Bytes) (count : Int)
    (hpos : fs.startPos k f + count.toNat ≤ maxBlocks * 1024) :
    ∃ n f' fs', fs.fileWrite newBlock now k f buf count = .ret (n, f', fs') ∧ (0 < n →
      n ≤ count ∧ fs'.WF ∧
      (∀ off, fs'.contents k off =
        if fs.startPos k f ≤ off ∧ off < fs.startPos k f + n.toNat then buf (off - fs.startPos k f)
        else fs.contents k off) ∧
      (∀ k', k' ≠ k → ∀ off, fs'.contents k' off = fs.contents k' off) ∧
      (fs'.inode k).iSize.toNat = max (fs.inode k).iSize.toNat (fs.startPos k f + n.toNat) ∧
      (¬ f.appends → f'.fPos = fs.startPos k f + n.toNat) ∧
      ∀ (g : File ι) (dst : Bytes) (cnt : Int), 0 < cnt → g.fPos + cnt.toNat ≤ maxBlocks * 1024 →
        ∃ dst' fs'', fs'.fileRead newBlock now k g dst cnt =
            .ret (cnt, dst', { g with fPos := g.fPos + cnt.toNat }, fs'') ∧
          ∀ j < cnt.toNat, dst' j = fs'.contents k (g.fPos + j)) := by
  obtain ⟨i, fs₁, hloop, _, hi, hw⟩ := @writeLoop_spec _ _ _ now k ha buf
    count.toNat count.toNat 0 (fs.startPos k f) _ h (Nat.zero_le _) (le_refl _) hpos
  rw [Nat.sub_zero] at hloop hw
  refine ⟨_, _, _, by rw [fileWrite, hloop], fun hn => ?_⟩
  have hi0 : i ≠ 0 := by
    rintro rfl
    simp at hn
  have e : (if i ≠ 0 then (i : Int) else -1).toNat = i := by
    rw [if_pos hi0]
    rfl
  obtain ⟨hwf, hcon, _, _⟩ := setInode_spec (k := k)
    (m := if f.appends then { fs₁.inode k with iMtime := now }
      else { fs₁.inode k with iMtime := now, iCtime := now }) hw.wf
    (by split <;> rfl) (by split <;> rfl)
  rw [e]
  refine ⟨?_, hwf, fun off => ?_, fun k' hk off => ?_, ?_, fun hap => ?_, fun g dst cnt hcnt hg => ?_⟩
  · rw [if_pos hi0]
    omega
  · rw [hcon, hw.contents]
    simp
  · rw [hcon, hw.contents, if_neg (fun hc => hk hc.1)]
  · have hsize := hw.size
    rw [if_pos (by omega)] at hsize
    rw [← hsize]
    show (update fs₁.inode k _ k).iSize.toNat = _
    rw [update_self]
    split <;> rfl
  · rw [if_neg hap]
  · obtain ⟨dst', fs'', hread, hdst⟩ := @fileRead_spec _ _ newBlock now _ k g dst _ hcnt hg
    refine ⟨dst', fs'', hread, fun j hj => ?_⟩
    rw [hdst, if_pos hj]

/-- A `new_block` for a device with data zones 5 .. 99: the first unused one. -/
def firstFit (d : Disk) (dev : Nat) : Nat × Disk :=
  match (List.range 95).find? fun n => !d.used (dev, n + 5) with
  | none => (0, d)
  | some n =>
    (n + 5, ⟨update d.blocks (dev, n + 5) fun _ => 0, update d.used (dev, n + 5) true⟩)

/-- Taking the first free zone is allocating. -/
lemma allocates_firstFit : Allocates firstFit := by
  have spec : ∀ d dev, (firstFit d dev = (0, d)) ∨ ∃ n < 95, d.used (dev, n + 5) = false ∧
      firstFit d dev =
        (n + 5, ⟨update d.blocks (dev, n + 5) fun _ => 0, update d.used (dev, n + 5) true⟩) := by
    intro d dev
    rw [firstFit]
    split
    · exact .inl rfl
    · rename_i n hn
      have hmem := List.mem_range.1 (List.mem_of_find?_eq_some hn)
      have hfree := List.find?_some hn
      refine .inr ⟨n, hmem, ?_, rfl⟩
      simpa using hfree
  refine ⟨fun d dev => ?_, fun d dev h0 => ?_, fun d dev h0 => ?_⟩
  · obtain e | ⟨n, hn, _, e⟩ := spec d dev <;> rw [e]
    · exact Nat.zero_lt_succ _
    · show n + 5 < 65536
      omega
  · obtain e | ⟨n, hn, _, e⟩ := spec d dev <;> rw [e] at h0 ⊢
    · exact ⟨rfl, fun _ => id⟩
    · cases h0
  · obtain e | ⟨n, hn, hfree, e⟩ := spec d dev <;> rw [e] at h0 ⊢
    · exact (h0 rfl).elim
    · refine ⟨hfree, fun a hu => ?_, rfl⟩
      by_cases ha : a = (dev, n + 5)
      · rw [ha]
        exact update_self _ _ _
      · exact (update_of_ne ha _ _).trans (hu.resolve_right ha)

/-- Two empty files on an empty device. -/
def emptyFiles : FileSys (Fin 2) :=
  ⟨⟨fun _ _ => 0, fun _ => false⟩, fun _ => { MInode.zero with iDev := 1 }⟩

/-- The empty files are well-formed. -/
lemma emptyFiles_wf : emptyFiles.WF := by
  have hz : ∀ k s, emptyFiles.zone k s = 0 := by
    intro k s
    induction s with
    | top => rfl
    | sub p e ih => exact zone_sub_of_zero ih
  exact ⟨fun _ h => (h (hz _ _)).elim, fun _ _ h => (h (hz _ _)).elim⟩

/-- A descriptor for the first of them at offset 2047. -/
def sampleFile : File (Fin 2) := ⟨0o2, 0, 1, some 0, 2047⟩

/-- Three bytes written at offset 2047, in the second and the third block. -/
theorem file_write_contents_three :
    ∃ f' fs', emptyFiles.fileWrite firstFit 0 0 sampleFile (fun i => .ofNat 8 (i + 65)) 3 =
        .ret (3, f', fs') ∧
      (∀ off, fs'.contents 0 off =
        if 2047 ≤ off ∧ off < 2050 then .ofNat 8 (off - 2047 + 65) else emptyFiles.contents 0 off) ∧
      (fs'.inode 0).iSize.toNat = 2050 ∧ f'.fPos = 2050 := by
  obtain ⟨n, f', fs', hw, hn⟩ := @file_write_contents _ _ _ 0 _ 0 allocates_firstFit emptyFiles_wf
    sampleFile (fun i => .ofNat 8 (i + 65)) 3 (by decide)
  have hrun : (emptyFiles.fileWrite firstFit 0 0 sampleFile (fun i => .ofNat 8 (i + 65)) 3).toOption.map Prod.fst =
      some 3 := by rfl
  rw [hw] at hrun
  obtain rfl : n = 3 := Option.some.inj hrun
  obtain ⟨_, _, hcon, _, hsize, hf, _⟩ := hn (by decide)
  exact ⟨f', fs', hw, hcon, hsize, hf (by decide)⟩

end FileSys

end OldLinux.Fs
