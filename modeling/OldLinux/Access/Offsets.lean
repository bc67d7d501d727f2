import OldLinux.Access.Permission
import OldLinux.Access.Seek
import OldLinux.Fs.Offsets

/-!
# Reading and writing at any offset

`sys_read` and `sys_write` at all positions that `sys_lseek` can set.

`sys_read` gets to the end of the file by a subtraction whose result is cut to an `int`, so from 2 GB behind
the end on a read may take place there (`read_to_end_iff`). The number of a block is cut to an `int` as well:
`offset_safe_iff` says when a read and a write are safe.
-/

namespace OldLinux.Access
open Lib Fs Function
open Files (isReg isDir isChr einval)

variable {ρ : Type} {sv : Services ρ} {breads : Nat → Nat × Nat → Bool} {s s' : State ρ} {fd : Nat} {f : Fin 64}
  {k : Ino} {buf : Bytes} {count : Int}

/-- Descriptor `fd` is open, through entry `f` of the file table, on the regular file or directory `k`. The
    position is not negative as a `long`. -/
structure OpenAt (s : State ρ) (fd : Nat) (f : Fin 64) (k : Ino) : Prop where
  filp : filp s.task fd = some f
  inode : (s.fileTable f).fInode = some (.file k)
  file : (s.fs.inode k).isFile = true
  pos : (s.fileTable f).fPos < 2 ^ 63

/-- `count` in `sys_read` when `file_read` is called. -/
def readCount (s : State ρ) (f : Fin 64) (k : Ino) (count : Int) : Int :=
  if count + (s.fileTable f).fPos > (s.fs.inode k).iSize.toNat then
    (((s.fs.inode k).iSize - .ofNat 64 (s.fileTable f).fPos).setWidth 32).toInt
  else count

/-- A file that is open and regular is open. -/
lemma OpenOn.openAt (h : OpenOn s fd f k) : OpenAt s fd f k :=
  ⟨h.filp, h.inode, isFile_of_isReg h.reg, h.pos⟩

/-- A regular file or directory is no device. -/
lemma not_device {m : MInode} (h : m.isFile = true) : isChr m.iMode = false ∧ isBlk m.iMode = false := by
  rw [MInode.isFile, Bool.or_eq_true] at h
  cases h with
  | inl h =>
    simp only [isReg, beq_iff_eq] at h
    simp [isChr, isBlk, h]
  | inr h =>
    simp only [isDir, beq_iff_eq] at h
    simp [isChr, isBlk, h]

/-! ## The system calls on a file -/

/-- `sys_read` with a positive count reads what `inode->i_size - f_pos` leaves of it. -/
lemma sysReadWith_eq (h : OpenAt s fd f k) (hc : 0 < count)
    (read : Ino → Fin 64 → Bytes → Int → Prog (State ρ) (Int × Bytes)) :
    sysReadWith sv read fd buf count s =
      if 0 < readCount s f k count then read k f buf (readCount s f k count) s else .ret ((0, buf), s) := by
  have hget : Prog.get s = .ret (s, s) := rfl
  have hfile : fileAt f s = .ret (s.fileTable f, s) := rfl
  have hinode : inodeAt k s = .ret (s.fs.inode k, s) := rfl
  obtain ⟨hchr, hblk⟩ := not_device h.file
  have hdr : (isDir (s.fs.inode k).iMode || isReg (s.fs.inode k).iMode) = true := by
    rw [Bool.or_comm]
    exact h.file
  rw [sysReadWith, Prog.bind_of_ret hget]
  simp only [h.filp]
  rw [if_neg (not_lt.2 hc.le), if_neg hc.ne', Prog.bind_of_ret hfile]
  simp only [h.inode]
  rw [Prog.bind_of_ret hinode, hchr, hblk, hdr, if_neg Bool.false_ne_true, if_neg Bool.false_ne_true,
    if_pos rfl]
  show (if readCount s f k count ≤ 0 then _ else read k f buf (readCount s f k count)) s = _
  by_cases h0 : 0 < readCount s f k count
  · rw [if_pos h0, if_neg (not_le.2 h0)]
  · rw [if_neg h0, if_pos (not_lt.1 h0)]
    rfl

/-- `sys_write` with a positive count writes to the file. -/
lemma sysWriteWith_eq (h : OpenOn s fd f k) (hc : 0 < count)
    (write : Ino → Fin 64 → Bytes → Int → Prog (State ρ) Int) :
    sysWriteWith sv write fd buf count s = write k f buf count s := by
  have hget : Prog.get s = .ret (s, s) := rfl
  have hfile : fileAt f s = .ret (s.fileTable f, s) := rfl
  have hinode : inodeAt k s = .ret (s.fs.inode k, s) := rfl
  obtain ⟨hchr, hblk⟩ := not_device (isFile_of_isReg h.reg)
  rw [sysWriteWith, Prog.bind_of_ret hget]
  simp only [h.filp]
  rw [if_neg (not_lt.2 hc.le), if_neg hc.ne', Prog.bind_of_ret hfile]
  simp only [h.inode]
  rw [Prog.bind_of_ret hinode, hchr, hblk, h.reg, if_neg Bool.false_ne_true, if_neg Bool.false_ne_true,
    if_pos rfl]

/-- `sys_read` without a positive count reads nothing. -/
lemma sysReadWith_none (h : filp s.task fd = some f) (hc : ¬ 0 < count)
    (read : Ino → Fin 64 → Bytes → Int → Prog (State ρ) (Int × Bytes)) :
    sysReadWith sv read fd buf count s = .ret ((if count < 0 then -einval else 0, buf), s) := by
  have hget : Prog.get s = .ret (s, s) := rfl
  rw [sysReadWith, Prog.bind_of_ret hget]
  simp only [h]
  split
  · rfl
  · rw [if_pos (by omega)]
    rfl

/-- `sys_write` without a positive count writes nothing. -/
lemma sysWriteWith_none (h : filp s.task fd = some f) (hc : ¬ 0 < count)
    (write : Ino → Fin 64 → Bytes → Int → Prog (State ρ) Int) :
    sysWriteWith sv write fd buf count s = .ret (if count < 0 then -einval else 0, s) := by
  have hget : Prog.get s = .ret (s, s) := rfl
  rw [sysWriteWith, Prog.bind_of_ret hget]
  simp only [h]
  split
  · rfl
  · rw [if_pos (by omega)]
    rfl

/-- A function of the file system that returns. -/
lemma onFs_of_ret {α : Type} {m : FileSys Ino → Result (α × FileSys Ino)} {a : α} {fs : FileSys Ino}
    (h : m s.fs = .ret (a, fs)) : onFs m s = .ret (a, { s with fs := fs }) := by
  simp only [onFs, Prog.zoom, h]

/-- One that panics. -/
lemma onFs_of_panic {α : Type} {m : FileSys Ino → Result (α × FileSys Ino)} {msg : String}
    (h : m s.fs = .panic msg) : onFs m s = .panic msg := by
  simp only [onFs, Prog.zoom, h]

/-- One that faults. -/
lemma onFs_of_fault {α : Type} {m : FileSys Ino → Result (α × FileSys Ino)} (h : m s.fs = .fault) :
    onFs m s = .fault := by
  simp only [onFs, Prog.zoom, h]

/-- `file_read` panics if it gets to a block that a file cannot have, else it returns. -/
lemma fileRead_returns (hc : 0 < count) :
    (¬ s.fs.ReadFits sv.newBlock s.now breads k (s.fileTable f).fPos count.toNat ∧
      ∃ msg ∈ FileSys.bmapPanics, fileRead sv breads k f buf count s = .panic msg) ∨
    s.fs.ReadFits sv.newBlock s.now breads k (s.fileTable f).fPos count.toNat ∧ ∃ n buf' s',
      fileRead sv breads k f buf count s = .ret ((n, buf'), s') ∧
      ((∀ b a, breads b a = true) → n = count) ∧ ∀ j, count.toNat ≤ j → buf' j = buf j := by
  have hnow : currentTime s = .ret (s.now, s) := rfl
  have hfile : fileAt f s = .ret (s.fileTable f, s) := rfl
  rw [fileRead, Prog.bind_of_ret hnow, Prog.bind_of_ret hfile]
  obtain ⟨hfit, msg, hmem, e⟩ | ⟨hfit, n, buf', f', fs', e, hn, hbuf⟩ :=
    @FileSys.fileReadInt_spec _ _ sv.newBlock s.now breads s.fs k buf (File.on (s.fileTable f) k) _ hc
  · refine .inl ⟨hfit, msg, hmem, Prog.bind_of_panic (onFs_of_panic ?_)⟩
    rw [e]
    rfl
  · refine .inr ⟨hfit, n, buf', { s with fs := fs' }.seek f f'.fPos, ?_, hn, hbuf⟩
    rw [Prog.bind_of_ret (onFs_of_ret (by rw [e]; rfl))]
    rfl

/-! ## Reading to the end of the file -/

/-- The number of bytes from the position to the end of the file, and `count` at most. -/
def toEnd (s : State ρ) (f : Fin 64) (k : Ino) (count : Int) : Int :=
  min count (max 0 ((s.fs.inode k).iSize.toNat - (s.fileTable f).fPos))

/-- `sys_read` gets to no byte behind the end of the file, and to all up to there; the rest of the buffer stays
    as it is. -/
structure ReadsToEnd (sv : Services ρ) (s : State ρ) (fd : Nat) (f : Fin 64) (k : Ino) (buf : Bytes)
    (count : Int) : Prop where
  within : ∃ c : Int, (0 < c → (s.fileTable f).fPos + c ≤ (s.fs.inode k).iSize.toNat) ∧
    ∀ read, sysReadWith sv read fd buf count s = if 0 < c then read k f buf c s else .ret ((0, buf), s)
  returns : ∃ buf' s', sysRead sv (fun _ _ => true) fd buf count s = .ret ((toEnd s f k count, buf'), s') ∧
    ∀ j, (toEnd s f k count).toNat ≤ j → buf' j = buf j

/-- The distance to the end of the file is not positive as an `int` behind the end, and the bytes up to the end
    are in blocks whose numbers are those of blocks of a file as an `int`. -/
def EndFits (s : State ρ) (f : Fin 64) (k : Ino) (count : Int) : Prop :=
  ((s.fileTable f).fPos ≤ (s.fs.inode k).iSize.toNat ∨
    ((s.fileTable f).fPos - (s.fs.inode k).iSize.toNat) % 2 ^ 32 ≤ 2 ^ 31) ∧
  ∀ off, (s.fileTable f).fPos ≤ off → off < (s.fileTable f).fPos + (toEnd s f k count).toNat →
    off / 1024 % 2 ^ 32 < maxBlocks

/-- A difference of 64 bits is that of the integers. -/
lemma ofInt_sub_ofNat (x : BitVec 64) (n : Nat) : x - .ofNat 64 n = .ofInt 64 (x.toNat - n) := by
  rw [Int.sub_eq_add_neg, BitVec.ofInt_add, BitVec.ofInt_neg, BitVec.ofInt_natCast, BitVec.ofInt_natCast,
    BitVec.ofNat_toNat, BitVec.setWidth_eq, BitVec.sub_eq_add_neg]

/-- At or below the end the count is cut to what is left of the file. -/
lemma readCount_of_le (hle : (s.fileTable f).fPos ≤ (s.fs.inode k).iSize.toNat) (hc : count < 2 ^ 31) :
    readCount s f k count = min count ((s.fs.inode k).iSize.toNat - (s.fileTable f).fPos) := by
  rw [readCount]
  split
  · rw [toInt_low (ofInt_sub_ofNat _ _), Int.bmod_eq_of_le_mul_two (by omega) (by omega)]
    omega
  · omega

/-- Above the end the count is positive exactly if the low half of the difference is. -/
lemma readCount_of_lt (hlt : (s.fs.inode k).iSize.toNat < (s.fileTable f).fPos) (hc : 0 < count) :
    0 < readCount s f k count ↔ 2 ^ 31 < ((s.fileTable f).fPos - (s.fs.inode k).iSize.toNat) % 2 ^ 32 := by
  rw [readCount, if_pos (by omega), toInt_low (ofInt_sub_ofNat _ _), Int.bmod_def]
  split <;> omega

/-- `sys_read` delivers what there is up to the end of the file if and only if the numbers are such that
    it can. -/
theorem read_to_end_iff (h : OpenAt s fd f k) (hc : 0 < count) (hc' : count < 2 ^ 31) :
    ReadsToEnd sv s fd f k buf count ↔ EndFits s f k count := by
  have hcall := fun read => @sysReadWith_eq _ sv _ _ _ _ buf _ h hc read
  have hread : sysRead sv (fun _ _ => true) fd buf count s = _ := hcall _
  obtain hlt | hle := Nat.lt_or_ge (s.fs.inode k).iSize.toNat (s.fileTable f).fPos
  swap
  · have hcount := readCount_of_le hle hc'
    have hend : toEnd s f k count = readCount s f k count := by
      rw [toEnd, hcount]
      omega
    by_cases h0 : 0 < readCount s f k count
    · rw [if_pos h0] at hread
      have hfits := @FileSys.readFits_iff _ _ sv.newBlock s.now (fun _ _ => true) s.fs k
        (s.fileTable f).fPos (toEnd s f k count).toNat fun _ _ => rfl
      obtain ⟨hno, msg, -, e⟩ | ⟨hfit, n, buf', s', e, hn, hbuf⟩ :=
        @fileRead_returns _ sv (fun _ _ => true) s f k buf _ h0
      · rw [← hend] at hno
        constructor
        · rintro ⟨-, buf', s', e', -⟩
          rw [hread, e] at e'
          cases e'
        · exact fun hf => absurd (hfits.2 hf.2) hno
      · refine ⟨fun _ => ⟨.inl hle, hfits.1 (hend ▸ hfit)⟩, fun _ => ⟨⟨_, fun _ => ?_, hcall⟩, buf', s', ?_, ?_⟩⟩
        · omega
        · rw [hread, e, hn fun _ _ => rfl, hend]
        · rwa [hend]
    · rw [if_neg h0] at hread
      refine ⟨fun _ => ⟨.inl hle, fun off h₁ h₂ => ?_⟩, fun _ => ⟨⟨_, fun h => absurd h h0, hcall⟩, buf, s, ?_, ?_⟩⟩
      · omega
      · have hz : toEnd s f k count = 0 := by
          rw [toEnd]
          omega
        rw [hread, hz]
      · exact fun _ _ => rfl
  · have hend : toEnd s f k count = 0 := by
      rw [toEnd]
      omega
    have hpos := readCount_of_lt hlt hc
    by_cases h0 : 0 < readCount s f k count
    · constructor
      · rintro ⟨⟨c, hin, hall⟩, -⟩
        have hc0 : 0 < c := by
          by_contra hn
          have e := hall fun _ _ _ _ => Prog.panic ""
          rw [hcall, if_pos h0, if_neg hn] at e
          cases e
        have := hin hc0
        omega
      · rintro ⟨hf, -⟩
        have := hpos.1 h0
        omega
    · rw [if_neg h0] at hread
      refine ⟨fun _ => ⟨.inr ?_, fun off h₁ h₂ => ?_⟩, fun _ => ⟨⟨_, fun h => absurd h h0, hcall⟩, buf, s, ?_, ?_⟩⟩
      · have := mt hpos.2 h0
        omega
      · omega
      · rw [hread, hend]
      · exact fun _ _ => rfl

/-- Of 10 bytes from offset 2 of a file of 5, 3 are read. -/
theorem read_to_end_two : ReadsToEnd fullDisk (seekSample 2) 3 0 (0x301, 2) (fun _ => 0xFF) 10 :=
  (read_to_end_iff (seekSample_open (by decide)).openAt (by decide) (by decide)).2
    ⟨.inl (by decide), fun off h₁ h₂ => by
      have hend : (toEnd (seekSample 2) 0 (0x301, 2) 10).toNat = 3 := by decide
      have hpos : ((seekSample 2).fileTable 0).fPos = 2 := rfl
      rw [hend, hpos] at h₂
      have hmax : maxBlocks = 7 + 512 + 512 * 512 := rfl
      omega⟩

/-- Behind the end of a file of 5 bytes: one byte is read at offset 4 TB + 4, and at 4 GB + 4 `_bmap` is called
    for a block that is too big. -/
theorem read_behind_end : OpenAt (seekSample 0x40000000004) 3 0 (0x301, 2) ∧
    (∃ buf s', sysRead fullDisk (fun _ _ => true) 3 (fun _ => 0xFF) 10 (seekSample 0x40000000004) =
      .ret ((1, buf), s')) ∧
    ¬ ReadsToEnd fullDisk (seekSample 0x40000000004) 3 0 (0x301, 2) (fun _ => 0xFF) 10 ∧
    sysRead fullDisk (fun _ _ => true) 3 (fun _ => 0xFF) 10 (seekSample 0x100000004) =
      .panic "_bmap: block>big" := by
  have hrun : ∃ buf s', sysRead fullDisk (fun _ _ => true) 3 (fun _ => 0xFF) 10 (seekSample 0x40000000004) =
      .ret ((1, buf), s') := ⟨_, _, rfl⟩
  refine ⟨(seekSample_open (by decide)).openAt, hrun, fun h => ?_, rfl⟩
  obtain ⟨buf, s', e⟩ := hrun
  obtain ⟨buf', s'', e', -⟩ := h.returns
  have hend : toEnd (seekSample 0x40000000004) 0 (0x301, 2) 10 = 0 := by decide
  rw [e, hend] at e'
  cases e'

/-! ## Reading and writing after a seek -/

/-- A write puts the bytes that it says it has written where it starts, and changes no contents elsewhere, also
    if it returns an error; a read returns. -/
structure OffsetSafe (sv : Services ρ) (breads : Nat → Nat × Nat → Bool) (s : State ρ) (fd : Nat) (f : Fin 64) (k : Ino)
    (count : Int) : Prop where
  write : ∀ buf, ∃ n s', sysWrite sv breads fd buf count s = .ret (n, s') ∧ n ≤ max 0 count ∧
    (0 < count → n ≠ 0) ∧ ∀ k' off, s'.fs.files.contents k' off =
      if k' = k ∧ s.fs.startPos k (File.on (s.fileTable f) k) ≤ off ∧
        off < s.fs.startPos k (File.on (s.fileTable f) k) + n.toNat
      then buf (off - s.fs.startPos k (File.on (s.fileTable f) k))
      else s.fs.files.contents k' off
  read : ∀ buf, ∃ r, sysRead sv breads fd buf count s = .ret r

/-- No turn of the write or of the read gets to a block that the file cannot have. -/
def OffsetFits (sv : Services ρ) (breads : Nat → Nat × Nat → Bool) (s : State ρ) (f : Fin 64) (k : Ino)
    (count : Int) : Prop :=
  0 < count →
    s.fs.WriteFits sv.newBlock s.now breads k (s.fs.startPos k (File.on (s.fileTable f) k)) count.toNat ∧
    s.fs.ReadFits sv.newBlock s.now breads k (s.fileTable f).fPos (readCount s f k count).toNat

/-- As `OpenOn`; the size of the file is not negative as a `long` either. -/
structure OpenSized (s : State ρ) (fd : Nat) (f : Fin 64) (k : Ino) : Prop extends OpenOn s fd f k where
  size : (s.fs.inode k).iSize.toNat < 2 ^ 63

/-- `sys_lseek` changes nothing or sets a position that is not negative. -/
lemma sysLseek_seeks {offset : BitVec 64} {origin : BitVec 32} {r : Int} (h : OpenOn s fd f k)
    (hl : sysLseek fd offset origin s = .ret (r, s')) : s' = s ∨ ∃ pos < 2 ^ 63, s' = s.seek f pos := by
  have hseek : ∀ {pos : BitVec 64}, seekTo f pos s = .ret (r, s') → s' = s ∨ ∃ pos < 2 ^ 63, s' = s.seek f pos := by
    intro pos hp
    obtain hneg | hneg := Int.lt_or_le pos.toInt 0
    · rw [seekTo_neg hneg] at hp
      cases hp
      exact .inl rfl
    · rw [seekTo_nonneg hneg] at hp
      cases hp
      have hlt := BitVec.toInt_lt (x := pos)
      exact .inr ⟨_, by omega, rfl⟩
  rw [sysLseek_eq h] at hl
  split at hl
  · exact hseek hl
  split at hl
  · exact hseek hl
  split at hl
  · exact hseek hl
  · cases hl
    exact .inl rfl

/-- `sys_lseek` leaves the file open and its contents. -/
lemma OpenOn.lseek {offset : BitVec 64} {origin : BitVec 32} {r : Int} (h : OpenOn s fd f k)
    (hl : sysLseek fd offset origin s = .ret (r, s')) : OpenOn s' fd f k ∧ s'.fs = s.fs := by
  obtain rfl | ⟨pos, hpos, rfl⟩ := sysLseek_seeks h hl
  · exact ⟨h, rfl⟩
  · have hfile : (s.seek f pos).fileTable f = { s.fileTable f with fPos := pos } := update_self _ _ _
    refine ⟨⟨h.filp, ?_, h.reg, h.dev, h.pipe, ?_⟩, rfl⟩
    · rw [hfile]
      exact h.inode
    · rwa [hfile]

/-- `file_write` returns if its model in `Fs/Offsets` does. -/
lemma fileWrite_iff {P : Int → FileSys Ino → Prop} :
    (∃ n s', fileWrite sv breads k f buf count s = .ret (n, s') ∧ P n s'.fs) ↔
      ∃ n f' fs', s.fs.fileWriteInt sv.newBlock s.now breads k (File.on (s.fileTable f) k) buf count =
        .ret (n, f', fs') ∧ P n fs' := by
  have hnow : currentTime s = .ret (s.now, s) := rfl
  have hfile : fileAt f s = .ret (s.fileTable f, s) := rfl
  rw [fileWrite, Prog.bind_of_ret hnow, Prog.bind_of_ret hfile]
  cases e : s.fs.fileWriteInt sv.newBlock s.now breads k (File.on (s.fileTable f) k) buf count with
  | panic msg =>
    rw [Prog.bind_of_panic (onFs_of_panic ?_)]
    · constructor
      · rintro ⟨n, s', e', -⟩
        cases e'
      · rintro ⟨n, f', fs', e', -⟩
        cases e'
    · exact msg
    · rw [e]
      rfl
  | fault =>
    rw [Prog.bind_of_fault (onFs_of_fault ?_)]
    · constructor
      · rintro ⟨n, s', e', -⟩
        cases e'
      · rintro ⟨n, f', fs', e', -⟩
        cases e'
    · rw [e]
      rfl
  | ret r =>
    obtain ⟨n, f', fs'⟩ := r
    rw [Prog.bind_of_ret (onFs_of_ret ?_)]
    rotate_left
    · exact (n, f'.fPos)
    · exact fs'
    · rw [e]
      rfl
    constructor
    · rintro ⟨n', s', e', hp⟩
      cases e'
      exact ⟨n, f', fs', rfl, hp⟩
    · rintro ⟨n', f₁, fs₁, e', hp⟩
      cases e'
      exact ⟨n, _, rfl, hp⟩

/-- A write of a positive count is as it should be exactly if it fits. -/
lemma write_safe_iff (ha : FileSys.Allocates sv.newBlock) (hwf : s.fs.files.WF) (h : OpenOn s fd f k)
    (hc : 0 < count) :
    (∀ buf, ∃ n s', sysWrite sv breads fd buf count s = .ret (n, s') ∧ n ≤ max 0 count ∧
      (0 < count → n ≠ 0) ∧ ∀ k' off, s'.fs.files.contents k' off =
        if k' = k ∧ s.fs.startPos k (File.on (s.fileTable f) k) ≤ off ∧
          off < s.fs.startPos k (File.on (s.fileTable f) k) + n.toNat
        then buf (off - s.fs.startPos k (File.on (s.fileTable f) k))
        else s.fs.files.contents k' off) ↔
      s.fs.WriteFits sv.newBlock s.now breads k (s.fs.startPos k (File.on (s.fileTable f) k)) count.toNat := by
  have hf := isFile_of_isReg h.reg
  have hstart : s.fs.files.startPos k (File.on (s.fileTable f) k) = s.fs.startPos k (File.on (s.fileTable f) k) := by
    rw [FileSys.startPos, FileSys.startPos, FileSys.files_inode hf]
  rw [← FileSys.writeFits_files hf, ← hstart, ← FileSys.storesAt_iff ha hwf hc]
  refine forall_congr' fun buf => ?_
  rw [FileSys.storesAt_files hf, sysWrite, sysWriteWith_eq h hc, hstart, max_eq_right hc.le]
  simp only [hc, true_imp_iff]
  exact fileWrite_iff (P := fun n fs => n ≤ count ∧ n ≠ 0 ∧ ∀ k' off, fs.files.contents k' off =
    if k' = k ∧ s.fs.startPos k (File.on (s.fileTable f) k) ≤ off ∧
      off < s.fs.startPos k (File.on (s.fileTable f) k) + n.toNat
    then buf (off - s.fs.startPos k (File.on (s.fileTable f) k))
    else s.fs.files.contents k' off)

/-- A read of a positive count returns exactly if it fits. -/
lemma read_safe_iff (h : OpenOn s fd f k) (hc : 0 < count) :
    (∀ buf, ∃ r, sysRead sv breads fd buf count s = .ret r) ↔
      s.fs.ReadFits sv.newBlock s.now breads k (s.fileTable f).fPos (readCount s f k count).toNat := by
  have hcall := fun buf => @sysReadWith_eq _ sv _ _ _ _ buf _ h.openAt hc (fileRead sv breads)
  by_cases h0 : 0 < readCount s f k count
  · constructor
    · intro hr
      obtain ⟨r, e⟩ := hr fun _ => 0
      rw [sysRead, hcall, if_pos h0] at e
      obtain ⟨-, msg, -, e'⟩ | ⟨hfit, -⟩ := @fileRead_returns _ sv breads s f k (fun _ => 0) _ h0
      · cases e'.symm.trans e
      · exact hfit
    · intro hfit buf
      rw [sysRead, hcall, if_pos h0]
      obtain ⟨hno, -⟩ | ⟨-, n, buf', s', e, -⟩ := @fileRead_returns _ sv breads s f k buf _ h0
      · exact absurd hfit hno
      · exact ⟨_, e⟩
  · refine ⟨fun _ hne => absurd (Int.toNat_of_nonpos (not_lt.1 h0)) hne, fun _ buf => ⟨((0, buf), s), ?_⟩⟩
    rw [sysRead, hcall, if_neg h0]

/-- At every position that `sys_lseek` sets, a write and a read are safe if and only if they do not get to a
    block that the file cannot have. -/
theorem offset_safe_iff {s₁ : State ρ} {offset : BitVec 64} {origin : BitVec 32} {r : Int}
    (ha : FileSys.Allocates sv.newBlock) (hwf : s.fs.files.WF) (h : OpenSized s fd f k)
    (hl : sysLseek fd offset origin s = .ret (r, s₁)) :
    OffsetSafe sv breads s₁ fd f k count ↔ OffsetFits sv breads s₁ f k count := by
  obtain ⟨h₁, hfs⟩ := h.toOpenOn.lseek hl
  rw [← hfs] at hwf
  by_cases hc : 0 < count
  · have hw := @write_safe_iff _ _ breads _ _ _ _ _ ha hwf h₁ hc
    have hr := @read_safe_iff _ sv breads _ _ _ _ _ h₁ hc
    exact ⟨fun hs _ => ⟨hw.1 hs.write, hr.1 hs.read⟩, fun hf => ⟨hw.2 (hf hc).1, hr.2 (hf hc).2⟩⟩
  · refine ⟨fun _ h => absurd h hc, fun _ => ⟨fun buf => ?_, fun buf => ⟨_, sysReadWith_none h₁.filp hc _⟩⟩⟩
    refine ⟨_, s₁, sysWriteWith_none h₁.filp hc _, ?_, fun h => absurd h hc, fun k' off => ?_⟩
    · have he : -einval = -22 := rfl
      split <;> omega
    · have hn : (if count < 0 then -einval else 0).toNat = 0 := by split <;> rfl
      rw [hn, if_neg (by omega)]

/-- A kernel with free zones. -/
def emptyDisk : Services Unit := { fullDisk with newBlock := FileSys.firstFit }

/-- The sample file system is well-formed. -/
lemma seekSample_wf (pos : Nat) : (seekSample pos).fs.files.WF := by
  have hz : ∀ k s, (seekSample pos).fs.files.zone k s = 0 := by
    intro k s
    induction s with
    | top i =>
      show ((MInode.masked _).iZone i).toNat = 0
      rw [MInode.masked_of_zero rfl]
      rfl
    | sub p e ih => exact FileSys.zone_sub_of_zero ih
  exact ⟨fun _ h => (h (hz _ _)).elim, fun _ _ h => (h (hz _ _)).elim⟩

/-- Its open file has a size below 2^31. -/
lemma seekSample_sized : OpenSized (seekSample 0) 3 0 (0x301, 2) :=
  ⟨seekSample_open (by decide), (by decide : (5#64).toNat < 2 ^ 63)⟩

/-- Two bytes written or read at offset 3. -/
theorem offset_safe_three :
    OffsetSafe emptyDisk (fun _ _ => true) ((seekSample 0).seek 0 3) 3 0 (0x301, 2) 2 := by
  have hl : sysLseek 3 3#64 0 (seekSample 0) = .ret (3, (seekSample 0).seek 0 3) := rfl
  exact (offset_safe_iff FileSys.allocates_firstFit (seekSample_wf 0) seekSample_sized hl).2 fun _ =>
    ⟨FileSys.writeFits_of_le (by decide), FileSys.readFits_of_le (by decide)⟩

/-- A byte written at offset 4 TB is stored at offset 0; at the first offset behind the 262663 blocks of a file
    the kernel panics. -/
theorem offset_unsafe : OpenSized (seekSample 0) 3 0 (0x301, 2) ∧ (seekSample 0).fs.files.WF ∧
    sysLseek 3 0x40000000000#64 0 (seekSample 0) = .ret (0, (seekSample 0).seek 0 0x40000000000) ∧
    ¬ OffsetSafe emptyDisk (fun _ _ => true) ((seekSample 0).seek 0 0x40000000000) 3 0 (0x301, 2) 1 ∧
    sysLseek 3 268966912#64 0 (seekSample 0) = .ret (268966912, (seekSample 0).seek 0 268966912) ∧
    sysWrite emptyDisk (fun _ _ => true) 3 (fun _ => 0x41) 1 ((seekSample 0).seek 0 268966912) =
      .panic "_bmap: block>big" := by
  refine ⟨seekSample_sized, seekSample_wf 0, rfl, fun h => ?_, rfl, rfl⟩
  obtain ⟨n, s', e, -, -, hcon⟩ := h.write fun _ => 0x41
  have hrun : ∃ s', sysWrite emptyDisk (fun _ _ => true) 3 (fun _ => 0x41) 1
      ((seekSample 0).seek 0 0x40000000000) = .ret (1, s') ∧ s'.fs.files.contents (0x301, 2) 0 = 0x41 :=
    ⟨_, rfl, by decide⟩
  obtain ⟨s'', e', h0⟩ := hrun
  cases e.symm.trans e'
  have hstart : ((seekSample 0).seek 0 0x40000000000).fs.startPos (0x301, 2)
      (File.on (((seekSample 0).seek 0 0x40000000000).fileTable 0) (0x301, 2)) = 0x40000000000 := rfl
  have hold : ((seekSample 0).seek 0 0x40000000000).fs.files.contents (0x301, 2) 0 = 0 := by decide
  have hz := hcon (0x301, 2) 0
  rw [hstart, if_neg (by omega), h0, hold] at hz
  exact absurd hz (by decide)

end OldLinux.Access
