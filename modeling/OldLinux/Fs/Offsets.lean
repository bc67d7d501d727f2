import Mathlib.Logic.Relation
import OldLinux.Fs.Touches

/-!
# Offsets of files

`file_read` and `file_write` (`fs/file_dev.c`) over the whole range of `f_pos`. A position is a `long`, and
so is the number of its block until it is passed to `_bmap`, whose parameter is an `int`: it may arrive as a
negative number, as one that is too big, or as that of another block. Some blocks may be unreadable: `breads b`
are those that `bread` delivers in the turn for block `b`, from the cache or from the disk. A zone that
`new_block` gives in this turn is up to date in the cache, whatever the disk does (`delivers`). Where the numbers
are small and all blocks can be read, these are the functions of `FileDev`
(`fileReadInt_eq`, `fileWriteInt_eq`).

Each loop is followed turn by turn: `ReadFits` and `WriteFits` say that no turn gets to a block that the file
cannot have.
-/

namespace OldLinux.Fs
open Lib Function

/-- `pos/BLOCK_SIZE` as `_bmap` gets it. -/
def blockInt (pos : Nat) : BitVec 32 := .ofNat 32 (pos / 1024)

namespace FileSys

section
variable {ι : Type*} [DecidableEq ι] (newBlock : Disk → Nat → Nat × Disk) (now : Nat)
  (reads : Nat × Nat → Bool)

/-- `_bmap(inode, block, create)`. -/
def bmapInt (fs : FileSys ι) (k : ι) (block : BitVec 32) (create : Bool) : Result (Nat × FileSys ι) :=
  if block.slt 0#32 then .panic "_bmap: block<0"
  else fs.bmapOrCreateReads newBlock now reads k block.toNat create

variable (breads : Nat → Nat × Nat → Bool)

/-- The blocks that `bread` delivers in the turn for block `b` of a write that begins in `fs`: the new ones too. -/
def delivers (fs : FileSys ι) (b : Nat) (a : Nat × Nat) : Bool := breads b a || !fs.disk.used a

/-- The loop of `file_read`, as in `readLoop`; it ends at a block that cannot be read. -/
def readLoopInt (fs : FileSys ι) (k : ι) : Nat → Nat → Nat → Nat → Bytes → Result (Nat × Nat × Bytes)
  | 0, left, pos, _, buf => .ret (left, pos, buf)
  | n + 1, left, pos, b, buf =>
    if left = 0 then .ret (left, pos, buf)
    else
      match fs.bmapInt newBlock now (breads (pos / 1024)) k (blockInt pos) false with
      | .ret (nr, _) =>
        if nr ≠ 0 ∧ breads (pos / 1024) (fs.dev k, nr) = false then .ret (left, pos, buf)
        else
          let data := if nr ≠ 0 then fs.disk.blocks (fs.dev k, nr) else fun _ => 0
          let chars := min (1024 - pos % 1024) left
          readLoopInt fs k n (left - chars) (pos + chars) (b + chars)
            (copyBytes chars buf b data (pos % 1024))
      | .panic msg => .panic msg
      | .fault => .fault

/-- `file_read(inode, filp, buf, count)`. -/
def fileReadInt (fs : FileSys ι) (k : ι) (f : File ι) (buf : Bytes) (count : Int) :
    Result (Int × Bytes × File ι × FileSys ι) :=
  if count ≤ 0 then .ret (0, buf, f, fs)
  else
    match fs.readLoopInt newBlock now breads k count.toNat count.toNat f.fPos 0 buf with
    | .ret (left, pos, buf) =>
      let fs := { fs with inode := update fs.inode k { fs.inode k with iAtime := now } }
      .ret (if count - left ≠ 0 then count - left else -99, buf, { f with fPos := pos }, fs)
    | .panic msg => .panic msg
    | .fault => .fault

/-- A turn of the loop of `file_write` with `i` bytes of `count` written and `pos` the next offset: the
    number of bytes that it writes, none if it ends the loop. -/
def writeTurn (k : ι) (buf : Bytes) (count i pos : Nat) (fs : FileSys ι) :
    Result (Option Nat × FileSys ι) :=
  let delivers := fs.delivers breads (pos / 1024)
  match fs.bmapInt newBlock now delivers k (blockInt pos) true with
  | .ret (block, fs) =>
    if block = 0 ∨ delivers (fs.dev k, block) = false then .ret (none, fs)
    else
      let c := min (1024 - pos % 1024) (count - i)
      let fs := fs.growTo k (pos + c)
      let a := (fs.dev k, block)
      .ret (some c, fs.putBlock a (copyBytes c (fs.disk.blocks a) (pos % 1024) buf i))
  | .panic msg => .panic msg
  | .fault => .fault

/-- The loop of `file_write`; the first number bounds its number of turns. -/
def writeLoopInt (k : ι) (buf : Bytes) (count : Nat) :
    Nat → Nat → Nat → FileSys ι → Result (Nat × Nat × FileSys ι)
  | 0, i, pos, fs => .ret (i, pos, fs)
  | n + 1, i, pos, fs =>
    if i < count then
      match fs.writeTurn newBlock now breads k buf count i pos with
      | .ret (some c, fs) => writeLoopInt k buf count n (i + c) (pos + c) fs
      | .ret (none, fs) => .ret (i, pos, fs)
      | .panic msg => .panic msg
      | .fault => .fault
    else .ret (i, pos, fs)

/-- `file_write(inode, filp, buf, count)`. -/
def fileWriteInt (fs : FileSys ι) (k : ι) (f : File ι) (buf : Bytes) (count : Int) :
    Result (Int × File ι × FileSys ι) :=
  match writeLoopInt newBlock now breads k buf count.toNat count.toNat 0 (fs.startPos k f) fs with
  | .ret (i, pos, fs) =>
    let inode := { fs.inode k with iMtime := now }
    let inode := if f.appends then inode else { inode with iCtime := now }
    let f := if f.appends then f else { f with fPos := pos }
    .ret (if i ≠ 0 then i else -1, f, { fs with inode := update fs.inode k inode })
  | .panic msg => .panic msg
  | .fault => .fault

/-! ## Which blocks the loops get to -/

/-- The loop of `file_read` ends at block `b`. -/
def ReadStops (fs : FileSys ι) (k : ι) (b : Nat) : Prop :=
  ∃ nr fs', fs.bmapInt newBlock now (breads b) k (.ofNat 32 b) false = .ret (nr, fs') ∧
    nr ≠ 0 ∧ breads b (fs.dev k, nr) = false

/-- Every block from that of `pos` on, up to the first at which the loop ends, has a number that a file can
    have, when it is cut to an `int`. -/
def ReadFits (fs : FileSys ι) (k : ι) (pos left : Nat) : Prop :=
  left ≠ 0 → ∀ b, pos / 1024 ≤ b → b * 1024 < pos + left →
    (∀ b', pos / 1024 ≤ b' → b' < b → ¬ fs.ReadStops newBlock now breads k b') → b % 2 ^ 32 < maxBlocks

/-- The state of the loop of `file_write` at the head of a turn: `i`, `pos` and the file system. -/
abbrev TurnState (ι : Type*) := Nat × Nat × FileSys ι

/-- One turn to the next. -/
def NextTurn (k : ι) (buf : Bytes) (count : Nat) (t t' : TurnState ι) : Prop :=
  t.1 < count ∧ ∃ c, t.2.2.writeTurn newBlock now breads k buf count t.1 t.2.1 = .ret (some c, t'.2.2) ∧
    t'.1 = t.1 + c ∧ t'.2.1 = t.2.1 + c

/-- The block that the number of this one is cut to cannot be had: there is no zone for it, or it has one, or an
    index block, that cannot be read. -/
def NoBlock (fs : FileSys ι) (k : ι) (pos : Nat) : Prop :=
  ∃ z fs', fs.bmapInt newBlock now (fs.delivers breads (pos / 1024)) k (blockInt pos) true = .ret (z, fs') ∧
    (z = 0 ∨ fs.delivers breads (pos / 1024) (fs'.dev k, z) = false)

/-- Every turn from `t` on is at a block of the file, or at one that cannot be had. -/
def TurnsFit (k : ι) (buf : Bytes) (count : Nat) (t : TurnState ι) : Prop :=
  ∀ t', Relation.ReflTransGen (NextTurn newBlock now breads k buf count) t t' → t'.1 < count →
    t'.2.1 / 1024 < maxBlocks ∨ t'.2.2.NoBlock newBlock now breads k t'.2.1

/-- The same for all turns of a write from `pos` on, whatever is written. -/
def WriteFits (fs : FileSys ι) (k : ι) (pos count : Nat) : Prop :=
  ∀ buf, TurnsFit newBlock now breads k buf count (0, pos, fs)

end

variable {ι : Type*} [DecidableEq ι] {newBlock : Disk → Nat → Nat × Disk} {now : Nat}
  {reads : Nat × Nat → Bool} {breads : Nat → Nat × Nat → Bool} {fs fs' : FileSys ι} {k : ι}
  {b pos left count : Nat} {buf : Bytes} {create : Bool}

/-! ## Block numbers -/

/-- The panics of `_bmap`. -/
def bmapPanics : List String := ["_bmap: block<0", "_bmap: block>big"]

/-- `_bmap` panics at a block that is out of range as an `int`. -/
lemma bmapInt_of_ge (h : maxBlocks ≤ b % 2 ^ 32) :
    ∃ msg ∈ bmapPanics, fs.bmapInt newBlock now reads k (.ofNat 32 b) create = .panic msg := by
  rw [bmapInt]
  split
  · exact ⟨_, List.mem_cons_self, rfl⟩
  · refine ⟨_, List.mem_cons_of_mem _ List.mem_cons_self, if_pos ?_⟩
    rwa [BitVec.toNat_ofNat]

/-- It takes the low half of any other one. -/
lemma bmapInt_of_lt (h : b % 2 ^ 32 < maxBlocks) : fs.bmapInt newBlock now reads k (.ofNat 32 b) create =
    fs.bmapOrCreateReads newBlock now reads k (b % 2 ^ 32) create := by
  have hmax : maxBlocks = 7 + 512 + 512 * 512 := rfl
  have hpos : ¬ (BitVec.ofNat 32 b).slt 0#32 = true := by
    rw [BitVec.slt_zero_iff_msb_cond, BitVec.msb_eq_decide, BitVec.toNat_ofNat]
    simp only [decide_eq_true_eq]
    omega
  rw [bmapInt, if_neg hpos, BitVec.toNat_ofNat]

/-- The blocks of a file have numbers that are ints. -/
lemma mod_of_lt (h : b < maxBlocks) : b % 2 ^ 32 = b := by
  have hmax : maxBlocks = 7 + 512 + 512 * 512 := rfl
  omega

/-- `bmap` changes nothing, and returns for the blocks that a file can have. -/
lemma bmapInt_read (h : b % 2 ^ 32 < maxBlocks) :
    ∃ nr, fs.bmapInt newBlock now reads k (.ofNat 32 b) false = .ret (nr, fs) := by
  obtain ⟨nr, e, -⟩ := @bmapOrCreateReads_keep _ fs k _ newBlock now reads _ false h nofun
  exact ⟨nr, (bmapInt_of_lt h).trans e⟩

/-! ## Reading -/

/-- After a turn at `pos`, the loop is at the next block, or nothing is left. -/
lemma readFits_next {c : Nat} (hc : c = min (1024 - pos % 1024) left) (hleft : left ≠ 0)
    (hb : pos / 1024 % 2 ^ 32 < maxBlocks) (hstops : ¬ fs.ReadStops newBlock now breads k (pos / 1024)) :
    fs.ReadFits newBlock now breads k (pos + c) (left - c) ↔ fs.ReadFits newBlock now breads k pos left := by
  have hend : pos + c + (left - c) = pos + left := by omega
  have hnext : c < left → (pos + c) / 1024 = pos / 1024 + 1 := by omega
  constructor
  · intro h _ b hle hlt hgo
    by_cases e : b = pos / 1024
    · rwa [e]
    · exact h (by omega) b (by omega) (by omega) fun b' h₁ h₂ => hgo b' (by omega) h₂
  · intro h hne b hle hlt hgo
    have hlt' : c < left := by omega
    refine h hleft b (by omega) (by omega) fun b' h₁ h₂ => ?_
    by_cases e : b' = pos / 1024
    · rwa [e]
    · exact hgo b' (by omega) h₂

/-- The loop of `file_read` panics if it gets to a block that a file cannot have. Otherwise it returns, with
    nothing left if all blocks can be read, and it fills the buffer up to there at most. -/
lemma readLoopInt_spec : ∀ (n left pos b : Nat) (buf : Bytes), left ≤ n →
    (¬ fs.ReadFits newBlock now breads k pos left ∧
      ∃ msg ∈ bmapPanics, fs.readLoopInt newBlock now breads k n left pos b buf = .panic msg) ∨
    fs.ReadFits newBlock now breads k pos left ∧ ∃ left' buf',
      fs.readLoopInt newBlock now breads k n left pos b buf = .ret (left', pos + (left - left'), buf') ∧
      left' ≤ left ∧ ((∀ b a, breads b a = true) → left' = 0) ∧ ∀ j, b + left ≤ j → buf' j = buf j
  | 0, left, pos, b, buf, hn => by
    obtain rfl := Nat.le_zero.1 hn
    exact .inr ⟨fun h => absurd rfl h, 0, buf, rfl, le_rfl, fun _ => rfl, fun _ _ => rfl⟩
  | n + 1, left, pos, b, buf, hn => by
    rw [readLoopInt]
    by_cases h0 : left = 0
    · subst h0
      exact .inr ⟨fun h => absurd rfl h, 0, buf, if_pos rfl, le_rfl, fun _ => rfl, fun _ _ => rfl⟩
    rw [if_neg h0, blockInt]
    by_cases hb : pos / 1024 % 2 ^ 32 < maxBlocks
    swap
    · obtain ⟨msg, hmem, e⟩ :=
        @bmapInt_of_ge _ _ newBlock now (breads (pos / 1024)) fs k _ false (Nat.le_of_not_lt hb)
      refine .inl ⟨fun h => hb (h h0 (pos / 1024) le_rfl (by omega) fun b' h₁ h₂ => by omega), msg, hmem, ?_⟩
      rw [e]
    obtain ⟨nr, e⟩ := @bmapInt_read _ _ newBlock now (breads (pos / 1024)) fs k _ hb
    rw [e]
    by_cases hstop : nr ≠ 0 ∧ breads (pos / 1024) (fs.dev k, nr) = false
    · -- the block cannot be read
      have hstops : fs.ReadStops newBlock now breads k (pos / 1024) := ⟨nr, fs, e, hstop⟩
      refine .inr ⟨fun _ b' hle hlt hgo => ?_, left, buf, ?_, le_rfl, fun hr => ?_, fun _ _ => rfl⟩
      · obtain e' | hne := hle.eq_or_lt
        · rwa [← e']
        · exact absurd hstops (hgo _ le_rfl hne)
      · rw [Nat.sub_self]
        exact if_pos hstop
      · rw [hr] at hstop
        exact absurd hstop.2 (Bool.noConfusion)
    · have hstops : ¬ fs.ReadStops newBlock now breads k (pos / 1024) := by
        rintro ⟨nr', fs', e', hstop'⟩
        rw [e] at e'
        cases e'
        exact hstop hstop'
      simp only [if_neg hstop]
      generalize hc : min (1024 - pos % 1024) left = c
      have hnext := @readFits_next _ _ newBlock now breads fs k _ _ _ hc.symm h0 hb hstops
      have hpos : 0 < c := by omega
      have hle : c ≤ left := by omega
      obtain ⟨hfit, hpanic⟩ | ⟨hfit, left', buf', hrun, hle', hall, hbuf⟩ :=
        readLoopInt_spec n (left - c) (pos + c) (b + c)
          (copyBytes c buf b (if nr ≠ 0 then fs.disk.blocks (fs.dev k, nr) else fun _ => 0) (pos % 1024))
          (by omega)
      · exact .inl ⟨fun h => hfit (hnext.2 h), hpanic⟩
      · have hend : pos + c + (left - c - left') = pos + (left - left') := by omega
        rw [hend] at hrun
        refine .inr ⟨hnext.1 hfit, left', buf', hrun, by omega, hall, fun j hj => ?_⟩
        rw [hbuf j (by omega), copyBytes_apply, if_neg (by omega)]

/-- If all blocks can be read, the blocks are those of the offsets read. -/
lemma readFits_iff (hr : ∀ b a, breads b a = true) : fs.ReadFits newBlock now breads k pos left ↔
    ∀ off, pos ≤ off → off < pos + left → off / 1024 % 2 ^ 32 < maxBlocks := by
  constructor
  · intro h off hle hlt
    refine h (by omega) _ (Nat.div_le_div_right hle) (by omega) fun b _ _ hstop => ?_
    obtain ⟨nr, fs', -, -, hno⟩ := hstop
    rw [hr] at hno
    cases hno
  · intro h h0 b hle hlt _
    have hoff := h (max pos (b * 1024)) (Nat.le_max_left _ _) (by omega)
    have hb : max pos (b * 1024) / 1024 = b := by omega
    rwa [hb] at hoff

/-- What ends below the limit fits. -/
lemma readFits_of_le (h : pos + left ≤ maxBlocks * 1024) : fs.ReadFits newBlock now breads k pos left := by
  intro _ b _ hlt _
  have hb : b < maxBlocks := by omega
  rwa [mod_of_lt hb]

/-- `file_read` returns if it fits, and panics if not. -/
lemma fileReadInt_spec {f : File ι} {count : Int} (hc : 0 < count) :
    (¬ fs.ReadFits newBlock now breads k f.fPos count.toNat ∧
      ∃ msg ∈ bmapPanics, fs.fileReadInt newBlock now breads k f buf count = .panic msg) ∨
    fs.ReadFits newBlock now breads k f.fPos count.toNat ∧ ∃ n buf' f' fs',
      fs.fileReadInt newBlock now breads k f buf count = .ret (n, buf', f', fs') ∧
      ((∀ b a, breads b a = true) → n = count) ∧ ∀ j, count.toNat ≤ j → buf' j = buf j := by
  rw [fileReadInt, if_neg (not_le.2 hc)]
  obtain ⟨hfit, msg, hmem, hrun⟩ | ⟨hfit, left, buf', hrun, hle, hall, hbuf⟩ :=
    @readLoopInt_spec _ _ newBlock now breads fs k
      count.toNat count.toNat f.fPos 0 buf le_rfl
  · exact .inl ⟨hfit, msg, hmem, by rw [hrun]⟩
  · refine .inr ⟨hfit, _, buf', _, _, by rw [hrun], fun hr => ?_, fun j hj => hbuf j (by omega)⟩
    rw [hall hr, Nat.cast_zero, sub_zero, if_pos hc.ne']

/-! ## Writing -/

variable {c i n : Nat} {t t' : TurnState ι}

/-- A turn that returns is at a number that a block can have. -/
lemma block_lt_of_turn {o : Option Nat}
    (e : fs.writeTurn newBlock now breads k buf count i pos = .ret (o, fs')) :
    pos / 1024 % 2 ^ 32 < maxBlocks := by
  by_contra hb
  obtain ⟨msg, -, e'⟩ :=
    @bmapInt_of_ge _ _ newBlock now (fs.delivers breads (pos / 1024)) fs k _ true (Nat.le_of_not_lt hb)
  rw [writeTurn] at e
  dsimp only at e
  rw [blockInt, e'] at e
  cases e

/-- The number of bytes that a turn writes. -/
lemma eq_of_turn (e : fs.writeTurn newBlock now breads k buf count i pos = .ret (some c, fs')) :
    c = min (1024 - pos % 1024) (count - i) := by
  rw [writeTurn] at e
  dsimp only at e
  split at e
  · split at e
    · cases e
    · cases e
      rfl
  · cases e
  · cases e

/-- A turn writes to the block that its number is cut to, or it ends the loop. -/
lemma writeTurn_spec (ha : Allocates newBlock) (h : fs.WF) (hi : i < count)
    (hb : pos / 1024 % 2 ^ 32 < maxBlocks) :
    (fs.NoBlock newBlock now breads k pos ∧ ∃ fs', Keeps fs fs' k ∧
      fs.writeTurn newBlock now breads k buf count i pos = .ret (none, fs')) ∨
    ¬ fs.NoBlock newBlock now breads k pos ∧ ∃ c fs',
      fs.writeTurn newBlock now breads k buf count i pos = .ret (some c, fs') ∧
      (pos / 1024 < maxBlocks → Wrote fs fs' k buf i pos (pos + c)) := by
  obtain ⟨z, fs₁, e, hw, hz⟩ : ∃ z fs₁,
      fs.createBlockReads newBlock now (fs.delivers breads (pos / 1024)) k (pos / 1024 % 2 ^ 32) = .ret (z, fs₁) ∧
        _ ∧ _ :=
    createBlockReads_walked ha h hb
  have e' : fs.bmapInt newBlock now (fs.delivers breads (pos / 1024)) k (blockInt pos) true = .ret (z, fs₁) :=
    (bmapInt_of_lt hb).trans e
  rw [writeTurn]
  dsimp only
  rw [e']
  by_cases hstop : z = 0 ∨ fs.delivers breads (pos / 1024) (fs₁.dev k, z) = false
  · exact .inl ⟨⟨z, fs₁, e', hstop⟩, fs₁, hw.keeps, if_pos hstop⟩
  · refine .inr ⟨?_, _, _, if_neg hstop, fun hlt => ?_⟩
    · rintro ⟨z', fs₂, e₂, hstop'⟩
      rw [e'] at e₂
      cases e₂
      exact hstop hstop'
    · rw [mod_of_lt hlt] at hz
      have hzone := (hz.resolve_left fun hf => hstop (.inl hf.1)).1
      have hne : fs₁.zone k (slotOf (pos / 1024)) ≠ 0 := fun h0 => hstop (.inl (hzone.symm.trans h0))
      have hturn := wrote_turn hw.keeps.wf buf i hlt hne (c := min (1024 - pos % 1024) (count - i))
        (by omega) (by omega)
      rw [hzone] at hturn
      exact .of_keeps_left hw.keeps hturn (Nat.le_add_right _ _)

/-- The turns from the next one on. -/
lemma TurnsFit.next (h : TurnsFit newBlock now breads k buf count t)
    (hn : NextTurn newBlock now breads k buf count t t') : TurnsFit newBlock now breads k buf count t' :=
  fun t'' hr => h t'' (.head hn hr)

/-- The loop of `file_write` returns if all its turns fit, having written the bytes `i` to `i'` of the
    buffer. -/
lemma writeLoopInt_spec (ha : Allocates newBlock) : ∀ (n i pos : Nat) {fs : FileSys ι}, fs.WF → i ≤ count →
    count - i ≤ n → TurnsFit newBlock now breads k buf count (i, pos, fs) →
    ∃ i' fs', writeLoopInt newBlock now breads k buf count n i pos fs = .ret (i', pos + (i' - i), fs') ∧
      i ≤ i' ∧ i' ≤ count ∧ Wrote fs fs' k buf i pos (pos + (i' - i))
  | 0, i, pos, fs, h, hi, hn, _ => by
    refine ⟨i, fs, ?_, le_rfl, hi, ?_⟩
    · rw [Nat.sub_self]
      rfl
    · rw [Nat.sub_self]
      exact .of_keeps (.refl h)
  | n + 1, i, pos, fs, h, hi, hn, hfit => by
    rw [writeLoopInt]
    by_cases hlt : i < count
    swap
    · refine ⟨i, fs, ?_, le_rfl, hi, ?_⟩
      · rw [if_neg hlt, Nat.sub_self]
        rfl
      · rw [Nat.sub_self]
        exact .of_keeps (.refl h)
    rw [if_pos hlt]
    have hfirst := hfit _ .refl hlt
    have hb : pos / 1024 % 2 ^ 32 < maxBlocks := by
      cases hfirst with
      | inl hfirst => rwa [mod_of_lt hfirst]
      | inr hno =>
        obtain ⟨z, fs', e, -⟩ := hno
        by_contra hb
        obtain ⟨msg, -, e'⟩ :=
          @bmapInt_of_ge _ _ newBlock now (fs.delivers breads (pos / 1024)) fs k _ true (Nat.le_of_not_lt hb)
        cases e.symm.trans e'
    obtain ⟨-, fs₁, hk, e⟩ | ⟨hgo, c, fs₁, e, hw⟩ := @writeTurn_spec _ _ newBlock now breads _ k _ _ buf _ ha h hlt hb
    · -- the block cannot be had
      refine ⟨i, fs₁, ?_, le_rfl, hi, ?_⟩
      · rw [e, Nat.sub_self]
        rfl
      · rw [Nat.sub_self]
        exact .of_keeps hk
    · have hw := hw (hfirst.resolve_right hgo)
      have hc := eq_of_turn e
      have hnext : NextTurn newBlock now breads k buf count (i, pos, fs) (i + c, pos + c, fs₁) :=
        ⟨hlt, c, e, rfl, rfl⟩
      obtain ⟨i', fs', hloop, h₁, h₂, hw'⟩ :=
        writeLoopInt_spec ha n (i + c) (pos + c) hw.wf (by omega) (by omega) (hfit.next hnext)
      have hend : pos + c + (i' - (i + c)) = pos + (i' - i) := by omega
      rw [hend] at hloop hw'
      refine ⟨i', fs', ?_, by omega, h₂, hw.trans hw' (by omega)⟩
      rw [e]
      exact hloop

/-- The number of bytes written does not shrink. -/
lemma le_of_writeLoopInt : ∀ {n i pos : Nat} {fs : FileSys ι} {i' pos' : Nat} {fs' : FileSys ι},
    writeLoopInt newBlock now breads k buf count n i pos fs = .ret (i', pos', fs') → i ≤ i'
  | 0, i, pos, fs, i', pos', fs', e => by
    cases e
    exact le_rfl
  | n + 1, i, pos, fs, i', pos', fs', e => by
    rw [writeLoopInt] at e
    split at e
    · split at e
      · exact le_trans (Nat.le_add_right _ _) (le_of_writeLoopInt e)
      · cases e
        exact le_rfl
      · cases e
      · cases e
    · cases e
      exact le_rfl

/-- If the loop returns, so does every turn that it gets to. -/
lemma turn_of_writeLoopInt {r : TurnState ι}
    (e : writeLoopInt newBlock now breads k buf count n t.1 t.2.1 t.2.2 = .ret r) (hn : count - t.1 ≤ n)
    (hr : Relation.ReflTransGen (NextTurn newBlock now breads k buf count) t t') (ht : t'.1 < count) :
    ∃ o fs', t'.2.2.writeTurn newBlock now breads k buf count t'.1 t'.2.1 = .ret (o, fs') := by
  induction hr using Relation.ReflTransGen.head_induction_on generalizing n with
  | refl =>
    obtain ⟨n, rfl⟩ : ∃ m, n = m + 1 := ⟨n - 1, by omega⟩
    rw [writeLoopInt, if_pos ht] at e
    cases hturn : t'.2.2.writeTurn newBlock now breads k buf count t'.1 t'.2.1 with
    | ret o => exact ⟨o.1, o.2, rfl⟩
    | panic msg =>
      rw [hturn] at e
      cases e
    | fault =>
      rw [hturn] at e
      cases e
  | head hnext _ ih =>
    obtain ⟨hlt, c, hturn, hi, hp⟩ := hnext
    obtain ⟨n, rfl⟩ : ∃ m, n = m + 1 := ⟨n - 1, by omega⟩
    have hc := eq_of_turn hturn
    rw [writeLoopInt, if_pos hlt, hturn] at e
    simp only [← hi, ← hp] at e
    exact ih e (by omega)

/-- A turn does not get further than to the first block behind the file. -/
lemma next_le (hn : NextTurn newBlock now breads k buf count t t') (h : t.2.1 / 1024 ≤ maxBlocks) :
    t'.2.1 / 1024 ≤ maxBlocks := by
  have hmax : maxBlocks = 7 + 512 + 512 * 512 := rfl
  obtain ⟨-, c, hturn, -, hp⟩ := hn
  have hb := block_lt_of_turn hturn
  have hc := eq_of_turn hturn
  omega

/-- Within the first 262663 blocks, all turns fit. -/
lemma writeFits_of_le (h : pos + count ≤ maxBlocks * 1024) :
    fs.WriteFits newBlock now breads k pos count := by
  intro buf t' hr ht
  have hle : t'.2.1 + (count - t'.1) ≤ maxBlocks * 1024 := by
    clear ht
    induction hr with
    | refl => exact h
    | tail _ hnext ih =>
      obtain ⟨hlt, c, hturn, hi, hp⟩ := hnext
      have hc := eq_of_turn hturn
      omega
  exact .inl (by omega)

/-- What a write should do: it returns, and the bytes that it says it has written are at the offsets from
    its start on; all other contents are as before, also if it returns an error. -/
def StoresAt (newBlock : Disk → Nat → Nat × Disk) (now : Nat) (breads : Nat → Nat × Nat → Bool) (fs : FileSys ι)
    (k : ι) (f : File ι) (buf : Bytes) (count : Int) : Prop :=
  ∃ n f' fs', fs.fileWriteInt newBlock now breads k f buf count = .ret (n, f', fs') ∧ n ≤ count ∧ n ≠ 0 ∧
    ∀ k' off, fs'.contents k' off =
      if k' = k ∧ fs.startPos k f ≤ off ∧ off < fs.startPos k f + n.toNat then buf (off - fs.startPos k f)
      else fs.contents k' off

/-- `file_write` is its loop and what it returns. -/
lemma loop_of_fileWriteInt {f f' : File ι} {count n : Int}
    (e : fs.fileWriteInt newBlock now breads k f buf count = .ret (n, f', fs')) : ∃ i pos fs₁,
      writeLoopInt newBlock now breads k buf count.toNat count.toNat 0 (fs.startPos k f) fs =
        .ret (i, pos, fs₁) ∧ n = if i ≠ 0 then (i : Int) else -1 := by
  rw [fileWriteInt] at e
  split at e
  · next i pos fs₁ hloop =>
    cases e
    exact ⟨i, pos, fs₁, hloop, rfl⟩
  · cases e
  · cases e

/-- A write that begins behind the file can only fail: what it stores is not where it should be. -/
lemma noBlock_of_storesAt (ha : Allocates newBlock) (h : fs.WF) {f : File ι} {count : Int} (hc : 0 < count)
    (hs : StoresAt newBlock now breads fs k f (fun _ => 0xFF) count)
    (hstart : ¬ fs.startPos k f / 1024 < maxBlocks) :
    fs.NoBlock newBlock now breads k (fs.startPos k f) := by
  obtain ⟨n, f', fs', e, -, -, hcon⟩ := hs
  obtain ⟨i, pos, fs₁, hloop, hn⟩ := loop_of_fileWriteInt e
  obtain ⟨m, hm⟩ : ∃ m, count.toNat = m + 1 := ⟨count.toNat - 1, by omega⟩
  have hlt : 0 < count.toNat := by omega
  obtain ⟨o, fs₂, hturn⟩ := turn_of_writeLoopInt (t := (0, fs.startPos k f, fs)) hloop (Nat.sub_le _ _) .refl hlt
  by_contra hgo
  obtain ⟨hno, -⟩ | ⟨-, c, fs₃, hturn', -⟩ := @writeTurn_spec _ _ newBlock now breads _ k _ _ (fun _ => 0xFF) _ ha h hlt
    (block_lt_of_turn hturn)
  · exact hgo hno
  rw [hm, writeLoopInt, ← hm, if_pos hlt, hturn'] at hloop
  have hle := le_of_writeLoopInt hloop
  have hpos := eq_of_turn hturn'
  have hi : i ≠ 0 := by omega
  rw [if_pos hi] at hn
  have hlost := hcon k (fs.startPos k f)
  rw [if_pos ⟨rfl, le_rfl, by omega⟩, FileSys.contents, if_neg fun hin => hstart hin.1] at hlost
  exact absurd (show (0 : BitVec 8) = 0xFF from hlost) (by decide)

/-- A write does what it should, whatever is written, if and only if its turns fit. -/
lemma storesAt_iff (ha : Allocates newBlock) (h : fs.WF) {f : File ι} {count : Int} (hc : 0 < count) :
    (∀ buf, StoresAt newBlock now breads fs k f buf count) ↔
      fs.WriteFits newBlock now breads k (fs.startPos k f) count.toNat := by
  constructor
  · intro hs buf t' hr ht
    by_cases hstart : fs.startPos k f / 1024 < maxBlocks
    · obtain ⟨n, f', fs', e, -⟩ := hs buf
      obtain ⟨i, pos, fs₁, hloop, -⟩ := loop_of_fileWriteInt e
      obtain ⟨o, fs₂, hturn⟩ :=
        turn_of_writeLoopInt (t := (0, fs.startPos k f, fs)) hloop (Nat.sub_le _ _) hr ht
      have hle : t'.2.1 / 1024 ≤ maxBlocks := by
        clear hturn ht
        induction hr with
        | refl => exact hstart.le
        | tail _ hnext ih => exact next_le hnext ih
      have hb := block_lt_of_turn hturn
      have hmax : maxBlocks = 7 + 512 + 512 * 512 := rfl
      exact .inl (by omega)
    · have hno := noBlock_of_storesAt ha h hc (hs _) hstart
      cases hr using Relation.ReflTransGen.head_induction_on with
      | refl => exact .inr hno
      | head hnext _ _ =>
        -- there is no second turn
        obtain ⟨hlt, c, hturn, -⟩ := hnext
        obtain ⟨-, fs₁, -, e⟩ | ⟨hgo, -⟩ := @writeTurn_spec _ _ newBlock now breads _ k _ _ buf _ ha h hlt
          (block_lt_of_turn hturn)
        · cases e.symm.trans hturn
        · exact absurd hno hgo
  · intro hfit buf
    obtain ⟨i, fs₁, hloop, -, hi, hw⟩ :=
      writeLoopInt_spec ha _ _ _ h (Nat.zero_le _) (Nat.sub_le _ _) (hfit buf)
    rw [Nat.sub_zero] at hloop hw
    obtain ⟨-, hcon, -, -⟩ := setInode_spec (k := k)
      (m := if f.appends then { fs₁.inode k with iMtime := now }
        else { fs₁.inode k with iMtime := now, iCtime := now }) hw.wf
      (by split <;> rfl) (by split <;> rfl)
    refine ⟨_, _, _, by rw [fileWriteInt, hloop], ?_, ?_, fun k' off => ?_⟩
    · split
      · omega
      · omega
    · split
      · omega
      · omega
    · have hn : (if i ≠ 0 then (i : Int) else -1).toNat = i := by
        split
        · rfl
        · omega
      rw [hn, hcon, hw.contents, Nat.zero_add]

/-! ## Inodes of devices -/

/-- `_bmap` does not panic for the blocks that a file can have. -/
lemma bmapOrCreateReads_returns {block : Nat} (hb : block < maxBlocks) :
    ∃ r, fs.bmapOrCreateReads newBlock now reads k block create = .ret r := by
  rw [bmapOrCreateReads, if_neg (Nat.not_le.2 hb)]
  split
  · exact ⟨_, rfl⟩
  · split
    · dsimp only
      split <;> exact ⟨_, rfl⟩
    · dsimp only
      split
      · exact ⟨_, rfl⟩
      · split <;> exact ⟨_, rfl⟩

/-- `_bmap` on a file needs the files only. -/
lemma bmapInt_files (hf : (fs.inode k).isFile = true) {block : BitVec 32} :
    fs.files.bmapInt newBlock now reads k block create =
        (fs.bmapInt newBlock now reads k block create).map (Prod.map id files) ∧
      ∀ z fs', fs.bmapInt newBlock now reads k block create = .ret (z, fs') → Only fs fs' k := by
  rw [bmapInt, bmapInt]
  split
  · exact ⟨rfl, nofun⟩
  by_cases hb : block.toNat < maxBlocks
  · obtain ⟨⟨z, fs'⟩, e⟩ := @bmapOrCreateReads_returns _ _ newBlock now reads fs k create _ hb
    obtain ⟨e', ho⟩ := bmapOrCreateReads_files hf e
    rw [e, e']
    refine ⟨rfl, fun z' fs₁ e₁ => ?_⟩
    cases e₁
    exact ho
  · have hpanic : ∀ fs : FileSys ι, fs.bmapOrCreateReads newBlock now reads k block.toNat create =
        .panic "_bmap: block>big" := fun _ => if_pos (Nat.le_of_not_lt hb)
    rw [hpanic, hpanic]
    exact ⟨rfl, nofun⟩

/-- The new size needs the files only. -/
lemma growTo_files (hf : (fs.inode k).isFile = true) {pos : Nat} :
    fs.files.growTo k pos = (fs.growTo k pos).files := by
  rw [growTo, growTo, files_inode hf]
  split
  · rw [files_update]
    · rfl
    · exact hf
  · rfl

/-- A turn comes to the same without the inodes of devices. -/
lemma writeTurn_files (hf : (fs.inode k).isFile = true) :
    fs.files.writeTurn newBlock now breads k buf count i pos =
        (fs.writeTurn newBlock now breads k buf count i pos).map (Prod.map id files) ∧
      ∀ o fs', fs.writeTurn newBlock now breads k buf count i pos = .ret (o, fs') → Only fs fs' k := by
  have hd : fs.files.delivers breads (pos / 1024) = fs.delivers breads (pos / 1024) := rfl
  obtain ⟨e, ho⟩ := @bmapInt_files _ _ newBlock now (fs.delivers breads (pos / 1024)) fs k true hf (blockInt pos)
  rw [writeTurn, writeTurn, hd]
  dsimp only
  rw [e]
  cases hb : fs.bmapInt newBlock now (fs.delivers breads (pos / 1024)) k (blockInt pos) true with
  | panic msg => exact ⟨rfl, nofun⟩
  | fault => exact ⟨rfl, nofun⟩
  | ret r =>
    obtain ⟨block, fs₁⟩ := r
    have ho := ho _ _ hb
    have hf₁ : (fs₁.inode k).isFile = true := (ho.isFile k).trans hf
    simp only [Result.map, Prod.map_apply, id_eq, files_dev, growTo_files hf₁]
    split
    · refine ⟨rfl, fun o fs' e => ?_⟩
      cases e
      exact ho
    · refine ⟨rfl, fun o fs' e => ?_⟩
      cases e
      have hg : Only fs₁ (fs₁.growTo k (pos + min (1024 - pos % 1024) (count - i))) k := growTo_only
      exact ho.trans ⟨hg.others, hg.head⟩

/-- The state of a turn without the zones that are none. -/
def TurnState.files (t : TurnState ι) : TurnState ι := (t.1, t.2.1, t.2.2.files)

/-- A turn of the loop needs the files only. -/
lemma nextTurn_files (hf : (t.2.2.inode k).isFile = true) :
    NextTurn newBlock now breads k buf count t.files t' ↔
      ∃ u, NextTurn newBlock now breads k buf count t u ∧ (u.2.2.inode k).isFile = true ∧ u.files = t' := by
  obtain ⟨e, ho⟩ := @writeTurn_files _ _ newBlock now breads _ _ t.2.1 count buf t.1 hf
  constructor
  · rintro ⟨hlt, c, hturn, hi, hp⟩
    obtain ⟨⟨o, fs₁⟩, hturn', h⟩ := Result.map_eq_ret.1 (e.symm.trans hturn)
    obtain ⟨rfl, hfs⟩ := Prod.mk.inj h
    exact ⟨(t'.1, t'.2.1, fs₁), ⟨hlt, c, hturn', hi, hp⟩, ((ho _ _ hturn').isFile k).trans hf,
      Prod.ext rfl (Prod.ext rfl hfs)⟩
  · rintro ⟨u, ⟨hlt, c, hturn, hi, hp⟩, -, rfl⟩
    exact ⟨hlt, c, e.trans (Result.map_eq_ret.2 ⟨_, hturn, rfl⟩), hi, hp⟩

/-- Any number of turns need the files only. -/
lemma turns_files (hf : (t.2.2.inode k).isFile = true) :
    Relation.ReflTransGen (NextTurn newBlock now breads k buf count) t.files t' ↔
      ∃ u, Relation.ReflTransGen (NextTurn newBlock now breads k buf count) t u ∧
        (u.2.2.inode k).isFile = true ∧ u.files = t' := by
  constructor
  · intro h
    induction h with
    | refl => exact ⟨t, .refl, hf, rfl⟩
    | tail _ hnext ih =>
      obtain ⟨u, hr, hu, rfl⟩ := ih
      obtain ⟨u', hnext', hu', rfl⟩ := (nextTurn_files hu).1 hnext
      exact ⟨u', hr.tail hnext', hu', rfl⟩
  · rintro ⟨u, hr, -, rfl⟩
    induction hr using Relation.ReflTransGen.head_induction_on with
    | refl => exact .refl
    | head hnext _ ih =>
      rename_i t u' _
      have hu' : (u'.2.2.inode k).isFile = true := by
        obtain ⟨-, c, hturn, -⟩ := hnext
        exact (((writeTurn_files hf).2 _ _ hturn).isFile k).trans hf
      exact .head ((nextTurn_files hf).2 ⟨_, hnext, hu', rfl⟩) (ih hu')

/-- The lack of a block is that of the files only. -/
lemma noBlock_files (hf : (fs.inode k).isFile = true) :
    fs.files.NoBlock newBlock now breads k pos ↔ fs.NoBlock newBlock now breads k pos := by
  have hd : fs.files.delivers breads (pos / 1024) = fs.delivers breads (pos / 1024) := rfl
  obtain ⟨e, -⟩ := @bmapInt_files _ _ newBlock now (fs.delivers breads (pos / 1024)) fs k true hf (blockInt pos)
  rw [NoBlock, NoBlock, hd, e]
  constructor
  · rintro ⟨z, fs', h, hz⟩
    obtain ⟨⟨z', fs₁⟩, h', e'⟩ := Result.map_eq_ret.1 h
    obtain ⟨rfl, rfl⟩ := Prod.mk.inj e'
    rw [files_dev] at hz
    exact ⟨z', fs₁, h', hz⟩
  · rintro ⟨z, fs', h, hz⟩
    rw [← files_dev] at hz
    exact ⟨z, fs'.files, Result.map_eq_ret.2 ⟨_, h, rfl⟩, hz⟩

/-- What fits is a matter of the files only. -/
lemma writeFits_files (hf : (fs.inode k).isFile = true) :
    fs.files.WriteFits newBlock now breads k pos count ↔ fs.WriteFits newBlock now breads k pos count := by
  constructor
  · intro h buf u hr hu
    have huf : (u.2.2.inode k).isFile = true := by
      clear hu
      induction hr with
      | refl => exact hf
      | tail _ hnext ih =>
        obtain ⟨-, c, hturn, -⟩ := hnext
        exact (((writeTurn_files ih).2 _ _ hturn).isFile k).trans ih
    have := h buf u.files ((turns_files (t := (0, pos, fs)) hf).2 ⟨u, hr, huf, rfl⟩) hu
    rwa [show u.files.2.2 = u.2.2.files from rfl, noBlock_files huf] at this
  · intro h buf t' hr ht
    obtain ⟨u, hr', hu, rfl⟩ := (turns_files (t := (0, pos, fs)) hf).1 hr
    have := h buf u hr' ht
    rwa [← noBlock_files hu] at this

/-- The loop of `file_write` needs the files only. -/
lemma writeLoopInt_files : ∀ {n i pos : Nat} {fs : FileSys ι}, (fs.inode k).isFile = true →
    writeLoopInt newBlock now breads k buf count n i pos fs.files =
      (writeLoopInt newBlock now breads k buf count n i pos fs).map (Prod.map id (Prod.map id files))
  | 0, _, _, _, _ => rfl
  | n + 1, i, pos, fs, hf => by
    rw [writeLoopInt, writeLoopInt]
    split
    swap
    · rfl
    obtain ⟨e, ho⟩ := @writeTurn_files _ _ newBlock now breads _ _ pos count buf i hf
    rw [e]
    cases hturn : fs.writeTurn newBlock now breads k buf count i pos with
    | panic msg => rfl
    | fault => rfl
    | ret r =>
      obtain ⟨o, fs₁⟩ := r
      cases o with
      | none => rfl
      | some c => exact writeLoopInt_files (((ho _ _ hturn).isFile k).trans hf)

/-- The loop changes no other inode. -/
lemma turns_only {n i pos i' pos' : Nat} (hf : (fs.inode k).isFile = true)
    (e : writeLoopInt newBlock now breads k buf count n i pos fs = .ret (i', pos', fs')) : Only fs fs' k := by
  induction n generalizing i pos fs with
  | zero =>
    cases e
    exact .refl
  | succ n ih =>
    rw [writeLoopInt] at e
    split at e
    swap
    · cases e
      exact .refl
    cases hturn : fs.writeTurn newBlock now breads k buf count i pos with
    | panic msg =>
      rw [hturn] at e
      cases e
    | fault =>
      rw [hturn] at e
      cases e
    | ret r =>
      obtain ⟨o, fs₁⟩ := r
      have ho := (writeTurn_files hf).2 _ _ hturn
      rw [hturn] at e
      cases o with
      | none =>
        cases e
        exact ho
      | some c => exact ho.trans (ih ((ho.isFile k).trans hf) e)

/-- `file_write` on a file needs the files only. -/
lemma fileWriteInt_files (hf : (fs.inode k).isFile = true) {f : File ι} {count : Int} :
    fs.files.fileWriteInt newBlock now breads k f buf count =
      (fs.fileWriteInt newBlock now breads k f buf count).map (Prod.map id (Prod.map id files)) := by
  have hstart : fs.files.startPos k f = fs.startPos k f := by rw [startPos, startPos, files_inode hf]
  rw [fileWriteInt, fileWriteInt, hstart, writeLoopInt_files hf]
  cases hloop : writeLoopInt newBlock now breads k buf count.toNat count.toNat 0 (fs.startPos k f) fs with
  | panic msg => rfl
  | fault => rfl
  | ret r =>
    obtain ⟨i, pos, fs₁⟩ := r
    have hf₁ : (fs₁.inode k).isFile = true := ((turns_only hf hloop).isFile k).trans hf
    simp only [Result.map, Prod.map_apply, id_eq, files_inode hf₁]
    rw [files_update]
    · rfl
    · split <;> exact hf₁

/-- What a write to a regular file should do, with the inodes of devices around. -/
lemma storesAt_files (hf : (fs.inode k).isFile = true) {f : File ι} {count : Int} :
    StoresAt newBlock now breads fs.files k f buf count ↔
      ∃ n f' fs', fs.fileWriteInt newBlock now breads k f buf count = .ret (n, f', fs') ∧ n ≤ count ∧
        n ≠ 0 ∧ ∀ k' off, fs'.files.contents k' off =
          if k' = k ∧ fs.startPos k f ≤ off ∧ off < fs.startPos k f + n.toNat then buf (off - fs.startPos k f)
          else fs.files.contents k' off := by
  have hstart : fs.files.startPos k f = fs.startPos k f := by rw [startPos, startPos, files_inode hf]
  rw [StoresAt, fileWriteInt_files hf, hstart]
  constructor
  · rintro ⟨n, f', fs', e, h⟩
    obtain ⟨⟨n', f₁, fs₁⟩, e', h'⟩ := Result.map_eq_ret.1 e
    cases h'
    exact ⟨_, _, fs₁, e', h⟩
  · rintro ⟨n, f', fs', e, h⟩
    exact ⟨n, f', fs'.files, Result.map_eq_ret.2 ⟨_, e, rfl⟩, h⟩

/-! ## Other files -/

/-- A turn of `file_write` touches one file. -/
lemma writeTurn_touches (ha : Allocates newBlock) (h : fs.files.WF) (hf : (fs.inode k).isFile = true) {o : Option Nat}
    (e : fs.writeTurn newBlock now breads k buf count i pos = .ret (o, fs')) : Touches fs fs' k ∧ Only fs fs' k := by
  refine ⟨?_, (writeTurn_files hf).2 o fs' e⟩
  have hb := block_lt_of_turn e
  rw [writeTurn] at e
  dsimp only at e
  rw [blockInt, bmapInt_of_lt hb] at e
  cases hc : fs.bmapOrCreateReads newBlock now (fs.delivers breads (pos / 1024)) k (pos / 1024 % 2 ^ 32) true with
  | panic msg =>
    rw [hc] at e
    cases e
  | fault =>
    rw [hc] at e
    cases e
  | ret r =>
    obtain ⟨block, fs₁⟩ := r
    rw [hc] at e
    obtain ⟨hs, ho, -, -, hz⟩ := createBlockReads_same ha h hf hc
    dsimp only at e
    split at e
    · cases e
      exact hs.touches
    rename_i hgo
    have h0 : block ≠ 0 := fun h0 => hgo (.inl h0)
    have hzone := hz.resolve_left fun hno => h0 hno.1
    obtain ⟨hg, hgo, hgz⟩ := growTo_same hs.wf k (pos + min (1024 - pos % 1024) (count - i))
    generalize fs₁.growTo k _ = fs₂ at e hg hgo hgz
    have hf₂ : (fs₂.inode k).isFile = true := (hgo.isFile k).trans ((ho.isFile k).trans hf)
    have hz₂ : fs₂.zone k (slotOf (pos / 1024 % 2 ^ 32)) = block := (hgz (slotOf_valid hb)).trans hzone
    have ha₂ : (fs₂.dev k, block) = fs₂.addr k (slotOf (pos / 1024 % 2 ^ 32)) := by rw [addr, hz₂]
    rw [ha₂] at e
    obtain ⟨hp, -⟩ := putBlock_touches hg.wf hf₂ hb (hz₂ ▸ h0)
      (copyBytes (min (1024 - pos % 1024) (count - i))
        (fs₂.disk.blocks (fs₂.addr k (slotOf (pos / 1024 % 2 ^ 32)))) (pos % 1024) buf i)
    cases e
    exact (hs.trans hg).touches.trans hp

/-- The loop of `file_write`, when it comes to its end. -/
lemma writeLoopInt_touches (ha : Allocates newBlock) : ∀ {n i pos : Nat} {fs : FileSys ι} {r : TurnState ι},
    fs.files.WF → (fs.inode k).isFile = true →
    writeLoopInt newBlock now breads k buf count n i pos fs = .ret r → Touches fs r.2.2 k ∧ Only fs r.2.2 k
  | 0, _, _, _, _, h, _, e => by
    cases e
    exact ⟨⟨h, fun _ _ => rfl⟩, .refl⟩
  | n + 1, i, pos, fs, r, h, hf, e => by
    rw [writeLoopInt] at e
    split at e
    swap
    · cases e
      exact ⟨⟨h, fun _ _ => rfl⟩, .refl⟩
    cases hturn : fs.writeTurn newBlock now breads k buf count i pos with
    | panic msg =>
      rw [hturn] at e
      cases e
    | fault =>
      rw [hturn] at e
      cases e
    | ret t =>
      obtain ⟨o, fs₁⟩ := t
      obtain ⟨ht, ho⟩ := writeTurn_touches ha h hf hturn
      rw [hturn] at e
      cases o with
      | none =>
        cases e
        exact ⟨ht, ho⟩
      | some c =>
        obtain ⟨ht', ho'⟩ := writeLoopInt_touches ha ht.wf ((ho.isFile k).trans hf) e
        exact ⟨ht.trans ht', ho.trans ho'⟩

/-- `file_write` changes the contents of one file, at whatever offset it begins. -/
lemma fileWriteInt_touches (ha : Allocates newBlock) {f f' : File ι} {count n : Int} (h : fs.files.WF)
    (hf : (fs.inode k).isFile = true)
    (e : fs.fileWriteInt newBlock now breads k f buf count = .ret (n, f', fs')) :
    Touches fs fs' k ∧ Only fs fs' k := by
  rw [fileWriteInt] at e
  cases hw : writeLoopInt newBlock now breads k buf count.toNat count.toNat 0 (fs.startPos k f) fs with
  | panic msg =>
    rw [hw] at e
    cases e
  | fault =>
    rw [hw] at e
    cases e
  | ret r =>
    rw [hw] at e
    obtain ⟨ht, ho⟩ := writeLoopInt_touches ha h hf hw
    cases e
    refine ⟨ht.trans (update_same ht.wf ?_ ?_ ?_).touches, ho.trans (only_update ?_)⟩
    all_goals split <;> rfl

/-- `file_read` changes no contents, and neither the size nor the count of the inode. -/
lemma fileReadInt_same {f f' : File ι} {buf' : Bytes} {count n : Int} (h : fs.files.WF)
    (e : fs.fileReadInt newBlock now breads k f buf count = .ret (n, buf', f', fs')) :
    Same fs fs' ∧ Only fs fs' k ∧ (fs'.inode k).iSize = (fs.inode k).iSize ∧
      (fs'.inode k).iCount = (fs.inode k).iCount := by
  rw [fileReadInt] at e
  split at e
  · cases e
    exact ⟨⟨h, fun _ => rfl⟩, .refl, rfl, rfl⟩
  split at e
  · cases e
    refine ⟨update_same h rfl rfl rfl, only_update (by rfl), ?_, ?_⟩
    · simp
    · simp
  · cases e
  · cases e

/-! ## Within the blocks of a file -/

/-- There the turns are those of `writeLoop`, when all blocks can be read. -/
lemma writeLoopInt_eq : ∀ {n i pos : Nat} {fs : FileSys ι}, pos + (count - i) ≤ maxBlocks * 1024 →
    writeLoopInt newBlock now (fun _ _ => true) k buf count n i pos fs = writeLoop newBlock now k buf count n i pos fs
  | 0, _, _, _, _ => rfl
  | n + 1, i, pos, fs, hpos => by
    rw [writeLoopInt, writeLoop]
    split
    swap
    · rfl
    have hb : pos / 1024 < maxBlocks := by omega
    have hcreate : fs.bmapInt newBlock now (fs.delivers (fun _ _ => true) (pos / 1024)) k (blockInt pos) true =
        fs.createBlock newBlock now k (pos / 1024) := by
      rw [blockInt, bmapInt_of_lt (by rwa [mod_of_lt hb]), mod_of_lt hb]
      rfl
    rw [writeTurn]
    dsimp only
    rw [hcreate]
    cases fs.createBlock newBlock now k (pos / 1024) with
    | panic msg => rfl
    | fault => rfl
    | ret r =>
      obtain ⟨block, fs₁⟩ := r
      dsimp only
      by_cases h0 : block = 0
      · rw [if_pos h0, if_pos (.inl h0)]
      · rw [if_neg h0, if_neg fun h => h.elim h0 Bool.noConfusion]
        exact writeLoopInt_eq (by omega)

/-- Below the limit the loop is that without the wrapping. -/
lemma readLoopInt_eq : ∀ {n left pos b : Nat} {buf : Bytes}, pos + left ≤ maxBlocks * 1024 →
    fs.readLoopInt newBlock now (fun _ _ => true) k n left pos b buf = fs.readLoop newBlock now k n left pos b buf
  | 0, _, _, _, _, _ => rfl
  | n + 1, left, pos, b, buf, hpos => by
    rw [readLoopInt, readLoop]
    split
    · rfl
    have hb : pos / 1024 < maxBlocks := by omega
    have hbmap : fs.bmapInt newBlock now (fun _ => true) k (blockInt pos) false =
        fs.bmap newBlock now k (pos / 1024) := by
      rw [blockInt, bmapInt_of_lt (by rwa [mod_of_lt hb]), mod_of_lt hb]
      rfl
    rw [hbmap]
    cases fs.bmap newBlock now k (pos / 1024) with
    | panic msg => rfl
    | fault => rfl
    | ret r =>
      obtain ⟨nr, fs₁⟩ := r
      dsimp only
      rw [if_neg fun h => Bool.noConfusion h.2]
      exact readLoopInt_eq (by omega)

/-- There `file_read` is that of `FileDev`. -/
lemma fileReadInt_eq {f : File ι} {count : Int} (h : f.fPos + count.toNat ≤ maxBlocks * 1024) :
    fs.fileReadInt newBlock now (fun _ _ => true) k f buf count = fs.fileRead newBlock now k f buf count := by
  rw [fileReadInt, readLoopInt_eq h]
  rfl

/-- There `file_write` is that of `FileDev`. -/
lemma fileWriteInt_eq {f : File ι} {count : Int} (h : fs.startPos k f + count.toNat ≤ maxBlocks * 1024) :
    fs.fileWriteInt newBlock now (fun _ _ => true) k f buf count = fs.fileWrite newBlock now k f buf count := by
  rw [fileWriteInt, writeLoopInt_eq (by omega)]
  rfl

end FileSys

end OldLinux.Fs
