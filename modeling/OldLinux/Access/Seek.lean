import OldLinux.Access.Calls

/-!
# Seeking

What `sys_lseek` does to a regular file over the whole range of its 64-bit offsets. `f_pos` and `offset` are
of type `long`, but the value returned is an `int`, and with origin 2 so is the sum on its way to `f_pos`.
So a position from 2 GB on is not the one returned, and from the end of the file it is not the one set
either; `lseek_exact_iff` says which positions are reached.
-/

namespace OldLinux.Access
open Lib Fs Function
open Files (isReg einval)

variable {ρ : Type} {s : State ρ} {fd : Nat} {f : Fin 64} {k : Ino} {offset : BitVec 64} {origin : BitVec 32}

/-- Descriptor `fd` is open, through entry `f` of the file table, on the regular file `k` of a disk. The
    position is not negative as a `long`. -/
structure OpenOn (s : State ρ) (fd : Nat) (f : Fin 64) (k : Ino) : Prop where
  filp : filp s.task fd = some f
  inode : (s.fileTable f).fInode = some (.file k)
  reg : isReg (s.fs.inode k).iMode = true
  dev : isBlockdev (s.fs.inode k).iDev = true
  pipe : (s.fs.inode k).iPipe = false
  pos : (s.fileTable f).fPos < 2 ^ 63

/-- `file->f_pos = pos`. -/
def State.seek (s : State ρ) (f : Fin 64) (pos : Nat) : State ρ :=
  { s with fileTable := update s.fileTable f { s.fileTable f with fPos := pos } }

/-- Where the offset is counted from. -/
def seekBase (s : State ρ) (f : Fin 64) (k : Ino) (origin : BitVec 32) : Int :=
  if origin = 0 then 0
  else if origin = 1 then (s.fileTable f).fPos
  else (s.fs.inode k).iSize.toNat

/-- The call gets to position `target`, or refuses a negative one and leaves everything as it is. -/
def SeeksTo (s : State ρ) (fd : Nat) (f : Fin 64) (offset : BitVec 64) (origin : BitVec 32)
    (target : Int) : Prop :=
  sysLseek fd offset origin s =
    if target < 0 then .ret (-einval, s) else .ret (target, s.seek f target.toNat)

/-- The position fits in an `int`, or it is negative; from the end of the file, it is also negative as an
    `int`. -/
def IntTarget (origin : BitVec 32) (target : Int) : Prop :=
  target < 2 ^ 31 ∧ (origin = 2 → target < 0 → 2 ^ 31 ≤ target % 2 ^ 32)

/-! ## Integers in machine words -/

/-- A sum that fits in a `long` is exact. -/
lemma toInt_of_fits {x : BitVec 64} {t : Int} (h : x = BitVec.ofInt 64 t) (hl : -2 ^ 63 ≤ t)
    (hu : t < 2 ^ 63) : x.toInt = t := by
  rw [h, BitVec.toInt_ofInt]
  exact Int.bmod_eq_of_le_mul_two (by omega) (by omega)

/-- A `long` as an `int`. -/
lemma toInt_low {x : BitVec 64} {t : Int} (h : x = BitVec.ofInt 64 t) :
    (x.setWidth 32).toInt = t.bmod (2 ^ 32) := by
  have hlow : x.setWidth 32 = BitVec.ofInt 32 t := by
    apply BitVec.eq_of_toNat_eq
    rw [h, BitVec.toNat_setWidth, BitVec.toNat_ofInt, BitVec.toNat_ofInt]
    omega
  rw [hlow, BitVec.toInt_ofInt]

/-- An integer is its low half as an `int` as long as it is below 2^31. -/
lemma low_eq_iff {t : Int} (h : -2 ^ 31 ≤ t) : t.bmod (2 ^ 32) = t ↔ t < 2 ^ 31 := by
  constructor
  · intro e
    have hlt := Int.bmod_lt (x := t) (m := 2 ^ 32) (by decide)
    omega
  · intro hu
    exact Int.bmod_eq_of_le_mul_two (by omega) (by omega)

/-- The low half is negative if its highest bit is set. -/
lemma low_neg_iff {t : Int} : t.bmod (2 ^ 32) < 0 ↔ 2 ^ 31 ≤ t % 2 ^ 32 := by
  rw [Int.bmod_def]
  split <;> omega

/-! ## One assignment to `f_pos` -/

/-- A negative offset is refused. -/
lemma seekTo_neg {pos : BitVec 64} (h : pos.toInt < 0) : seekTo f pos s = .ret (-einval, s) := by
  have hneg : pos.slt 0 = true := by rwa [BitVec.slt, decide_eq_true_eq]
  rw [seekTo, if_pos hneg]
  rfl

/-- Any other offset is set, and its low half returned. -/
lemma seekTo_nonneg {pos : BitVec 64} (h : 0 ≤ pos.toInt) :
    seekTo f pos s = .ret ((pos.setWidth 32).toInt, s.seek f pos.toInt.toNat) := by
  have hneg : ¬ pos.slt 0 = true := by
    rw [BitVec.slt, decide_eq_true_eq]
    exact Int.not_lt.2 h
  have hpos : pos.toNat = pos.toInt.toNat := by
    rw [BitVec.toInt_eq_toNat_cond] at h ⊢
    split at h <;> split <;> omega
  rw [seekTo, if_neg hneg, ← hpos]
  rfl

/-- With a `long` for the sum, the position set is right, and the value returned is if it is an `int`. -/
lemma seekTo_long {pos : BitVec 64} {t : Int} (h : pos = BitVec.ofInt 64 t) (hl : -2 ^ 63 ≤ t)
    (hu : t < 2 ^ 63) :
    (seekTo f pos s = if t < 0 then .ret (-einval, s) else .ret (t, s.seek f t.toNat)) ↔ t < 2 ^ 31 := by
  have ht := toInt_of_fits h hl hu
  by_cases hneg : t < 0
  · rw [seekTo_neg (ht ▸ hneg), if_pos hneg]
    exact ⟨fun _ => by omega, fun _ => rfl⟩
  · rw [seekTo_nonneg (by omega), if_neg hneg, ht, toInt_low h, ← low_eq_iff (by omega)]
    constructor
    · intro e
      exact congrArg Prod.fst (Result.ret.inj e)
    · intro e
      rw [e]

/-- With an `int` for the sum, the position set is the sum as an `int`. -/
lemma seekTo_int {sum : BitVec 64} {t : Int} (h : sum = BitVec.ofInt 64 t) :
    (seekTo f ((sum.setWidth 32).signExtend 64) s =
        if t < 0 then .ret (-einval, s) else .ret (t, s.seek f t.toNat)) ↔
      t < 2 ^ 31 ∧ (t < 0 → 2 ^ 31 ≤ t % 2 ^ 32) := by
  have hlow := toInt_low h
  have hext : ((sum.setWidth 32).signExtend 64).toInt = t.bmod (2 ^ 32) := by
    rw [BitVec.toInt_signExtend_of_le (by decide), hlow]
  have hof : (sum.setWidth 32).signExtend 64 = BitVec.ofInt 64 (t.bmod (2 ^ 32)) := by
    rw [← hext, BitVec.ofInt_toInt]
  have hback : (((sum.setWidth 32).signExtend 64).setWidth 32).toInt = t.bmod (2 ^ 32) := by
    rw [toInt_low hof, Int.bmod_bmod]
  by_cases hint : t.bmod (2 ^ 32) < 0
  · rw [seekTo_neg (hext ▸ hint)]
    have hmod := low_neg_iff.1 hint
    by_cases hneg : t < 0
    · rw [if_pos hneg]
      exact ⟨fun _ => ⟨by omega, fun _ => hmod⟩, fun _ => rfl⟩
    · rw [if_neg hneg]
      constructor
      · intro e
        have e : -einval = t := congrArg Prod.fst (Result.ret.inj e)
        rw [← e] at hneg
        exact absurd (by decide) hneg
      · rintro ⟨hu, -⟩
        rw [(low_eq_iff (by omega)).2 hu] at hint
        exact absurd hint hneg
  · rw [seekTo_nonneg (by omega), hext, hback]
    by_cases hneg : t < 0
    · rw [if_pos hneg]
      constructor
      · intro e
        have e : t.bmod (2 ^ 32) = -einval := congrArg Prod.fst (Result.ret.inj e)
        rw [e] at hint
        exact absurd (by decide) hint
      · rintro ⟨-, hmod⟩
        exact absurd (low_neg_iff.2 (hmod hneg)) hint
    · rw [if_neg hneg]
      constructor
      · intro e
        exact ⟨(low_eq_iff (by omega)).1 (congrArg Prod.fst (Result.ret.inj e)), fun h => absurd h hneg⟩
      · rintro ⟨hu, -⟩
        rw [(low_eq_iff (by omega)).2 hu]

/-! ## The system call -/

/-- On a regular file the call comes to one assignment. -/
lemma sysLseek_eq (h : OpenOn s fd f k) : sysLseek fd offset origin s =
    if origin = 0 then seekTo f offset s
    else if origin = 1 then seekTo f (.ofNat 64 (s.fileTable f).fPos + offset) s
    else if origin = 2 then seekTo f ((((s.fs.inode k).iSize + offset).setWidth 32).signExtend 64) s
    else .ret (-einval, s) := by
  have hget : Prog.get s = .ret (s, s) := rfl
  have hfile : fileAt f s = .ret (s.fileTable f, s) := rfl
  have hinode : inodeAt k s = .ret (s.fs.inode k, s) := rfl
  rw [sysLseek, Prog.bind_of_ret hget]
  simp only [h.filp]
  rw [Prog.bind_of_ret hfile]
  simp only [h.inode]
  rw [Prog.bind_of_ret hinode, if_neg (not_not.2 h.dev), h.pipe, if_neg Bool.false_ne_true]
  split
  · rfl
  · split
    · rfl
    · split <;> rfl

/-- `sys_lseek` gets to the position asked for, and returns it, if and only if it is below 2 GB and, when
    it is negative and counted from the end of the file, still negative as an `int`. -/
theorem lseek_exact_iff (h : OpenOn s fd f k) (ho : origin = 0 ∨ origin = 1 ∨ origin = 2)
    (hl : -2 ^ 63 ≤ seekBase s f k origin + offset.toInt)
    (hu : seekBase s f k origin + offset.toInt < 2 ^ 63) :
    SeeksTo s fd f offset origin (seekBase s f k origin + offset.toInt) ↔
      IntTarget origin (seekBase s f k origin + offset.toInt) := by
  rw [SeeksTo, IntTarget, sysLseek_eq h]
  obtain rfl | rfl | rfl := ho
  · have hsum : offset = BitVec.ofInt 64 (seekBase s f k 0 + offset.toInt) := by
      rw [seekBase, if_pos rfl, Int.zero_add, BitVec.ofInt_toInt]
    rw [if_pos rfl, seekTo_long hsum hl hu]
    exact ⟨fun h => ⟨h, nofun⟩, fun h => h.1⟩
  · have hsum : .ofNat 64 (s.fileTable f).fPos + offset =
        BitVec.ofInt 64 (seekBase s f k 1 + offset.toInt) := by
      rw [seekBase, if_neg (by decide), if_pos rfl, BitVec.ofInt_add, BitVec.ofInt_toInt,
        BitVec.ofInt_natCast]
    rw [if_neg (by decide), if_pos rfl, seekTo_long hsum hl hu]
    exact ⟨fun h => ⟨h, nofun⟩, fun h => h.1⟩
  · have hsum : (s.fs.inode k).iSize + offset =
        BitVec.ofInt 64 (seekBase s f k 2 + offset.toInt) := by
      rw [seekBase, if_neg (by decide), if_neg (by decide), BitVec.ofInt_add, BitVec.ofInt_toInt,
        BitVec.ofInt_natCast, BitVec.ofNat_toNat, BitVec.setWidth_eq]
    rw [if_neg (by decide), if_neg (by decide), if_pos rfl, seekTo_int hsum]
    exact ⟨fun h => ⟨h.1, fun _ => h.2⟩, fun h => ⟨h.1, h.2 rfl⟩⟩

/-- A process whose descriptors are all open on a file of 5 bytes. -/
def seekSample (pos : Nat) : State Unit where
  fs :=
    { disk := ⟨fun _ _ => 0, fun _ => false⟩
      inode := fun _ => { MInode.zero with iMode := 0o100644, iDev := 0x301, iSize := 5, iNlinks := 1 } }
  inodeMap _ := true
  task :=
    { state := .running, signal := 0, exitCode := 0, pid := 3, father := 1, pgrp := 3, leader := false
      uid := 0, euid := 0, gid := 0, egid := 0, tty := 0, umask := 0o022, pwd := none, root := none
      closeOnExec := 0, filp := fun _ => some 0 }
  pwd := none
  root := none
  fileTable _ := ⟨0, 0, 1, some (.file (0x301, 2)), pos⟩
  now := 0
  rest := ()

/-- Descriptor 3 of the sample is open on its regular file. -/
lemma seekSample_open {pos : Nat} (h : pos < 2 ^ 63) : OpenOn (seekSample pos) 3 0 (0x301, 2) :=
  ⟨rfl, rfl, (by decide : isReg 0o100644 = true), (by decide : isBlockdev 0x301 = true), rfl, h⟩

/-- Two bytes before the end of the file. -/
theorem lseek_exact_end : sysLseek 3 (-2) 2 (seekSample 0) = .ret (3, (seekSample 0).seek 0 3) :=
  (@lseek_exact_iff _ _ _ _ _ (-2) _ (seekSample_open (by decide)) (.inr (.inr rfl)) (by decide) (by decide)).2
    ⟨by decide, by decide⟩

/-- The position 2 GB is set, but a negative number is returned. -/
theorem lseek_truncates : OpenOn (seekSample 0) 3 0 (0x301, 2) ∧
    sysLseek 3 0x80000000#64 0 (seekSample 0) = .ret (-2147483648, (seekSample 0).seek 0 2147483648) ∧
    ¬ SeeksTo (seekSample 0) 3 0 0x80000000#64 0 2147483648 := by
  have hrun : sysLseek 3 0x80000000#64 0 (seekSample 0) =
      .ret (-2147483648, (seekSample 0).seek 0 2147483648) := rfl
  refine ⟨seekSample_open (by decide), hrun, fun h => ?_⟩
  rw [SeeksTo, hrun, if_neg (by decide)] at h
  exact absurd (congrArg Prod.fst (Result.ret.inj h)) (by decide)

end OldLinux.Access
