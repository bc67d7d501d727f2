import OldLinux.Lib.StructLayout
import OldLinux.Lib.Bytes

/-!
# The format on the disk

`read_inode`, `write_inode` (`fs/inode.c`) and `do_mount` (`fs/super.c`) decode what is on the disk by
structure assignments. Here the structures are laid out as the compiler does, the functions copy their
bytes, and the result is compared with the Minix format, where an inode is a record of 32 bytes.

A disk is a function from block numbers to blocks, as `bread` delivers them; `none` is a block that
cannot be read. The counts of the buffers are not modelled.
-/

namespace OldLinux.Fs
open Lib Lib.Bytes

/-- Members of `struct d_inode`. -/
inductive DMember
  | iMode | iUid | iSize | iTime | iGid | iNlinks | iZone
  deriving DecidableEq

/-- Members of `struct m_inode`. -/
inductive MMember
  | iMode | iUid | iSize | iMtime | iGid | iNlinks | iZone
  | iWait | iAtime | iCtime | iDev | iNum | iCount | iLock | iDirt | iPipe | iMount | iSeek | iUpdate
  deriving DecidableEq

/-- Members of `struct super_block`. -/
inductive SMember
  | sNinodes | sNzones | sImapBlocks | sZmapBlocks | sFirstdatazone | sLogZoneSize | sMaxSize | sMagic
  | sImap | sZmap | sDev | sIsup | sImount | sTime | sRdOnly | sDirt
  deriving DecidableEq

/-- `struct d_inode`. -/
def dInode : Struct DMember where
  members := [.iMode, .iUid, .iSize, .iTime, .iGid, .iNlinks, .iZone]
  type
    | .iMode | .iUid => .ushort
    | .iSize | .iTime => .ulong
    | .iGid | .iNlinks => .uchar
    | .iZone => .array 9 .ushort

/-- `struct m_inode`. -/
def mInode : Struct MMember where
  members := [.iMode, .iUid, .iSize, .iMtime, .iGid, .iNlinks, .iZone, .iWait, .iAtime, .iCtime,
    .iDev, .iNum, .iCount, .iLock, .iDirt, .iPipe, .iMount, .iSeek, .iUpdate]
  type
    | .iMode | .iUid | .iDev | .iNum | .iCount => .ushort
    | .iSize | .iMtime | .iAtime | .iCtime => .ulong
    | .iGid | .iNlinks | .iLock | .iDirt | .iPipe | .iMount | .iSeek | .iUpdate => .uchar
    | .iZone => .array 9 .ushort
    | .iWait => .pointer

/-- `struct super_block`. -/
def superBlock : Struct SMember where
  members := [.sNinodes, .sNzones, .sImapBlocks, .sZmapBlocks, .sFirstdatazone, .sLogZoneSize,
    .sMaxSize, .sMagic, .sImap, .sZmap, .sDev, .sIsup, .sImount, .sTime, .sRdOnly, .sDirt]
  type
    | .sNinodes | .sNzones | .sImapBlocks | .sZmapBlocks | .sFirstdatazone | .sLogZoneSize => .ushort
    | .sMagic | .sDev => .ushort
    | .sMaxSize | .sTime => .ulong
    | .sImap | .sZmap => .array 8 .pointer
    | .sIsup | .sImount => .pointer
    | .sRdOnly | .sDirt => .uchar

/-- The member of `struct m_inode` at the place of a member of `struct d_inode`. -/
def DMember.toM : DMember → MMember
  | .iMode => .iMode
  | .iUid => .iUid
  | .iSize => .iSize
  | .iTime => .iMtime
  | .iGid => .iGid
  | .iNlinks => .iNlinks
  | .iZone => .iZone

/-- What `bread` delivers: the blocks by number. -/
abbrev Image := Nat → Option Bytes

/-- `BLOCK_SIZE`. -/
def blockSize : Nat := 1024

/-- `INODES_PER_BLOCK`. -/
def inodesPerBlock : Nat := blockSize / dInode.sizeof

/-- `SUPER_MAGIC`. -/
def superMagic : BitVec 16 := 0x137F#16

/-- `inode->i_num`. -/
def iNum (inode : Bytes) : Nat := (load 2 inode (mInode.offset .iNum)).toNat

/-- `2 + sb->s_imap_blocks + sb->s_zmap_blocks + (inode->i_num-1)/INODES_PER_BLOCK`. -/
def inodeBlock (sb inode : Bytes) : Nat :=
  2 + (load 2 sb (superBlock.offset .sImapBlocks)).toNat
    + (load 2 sb (superBlock.offset .sZmapBlocks)).toNat + (iNum inode - 1) / inodesPerBlock

/-- `[(inode->i_num-1)%INODES_PER_BLOCK]`: where the record of the inode begins in its block. -/
def inodeRecord (inode : Bytes) : Nat := (iNum inode - 1) % inodesPerBlock * dInode.sizeof

/-- `read_inode`. The assignment of a `struct d_inode` copies its bytes; `none` is the panic "unable
to read i-node block". -/
def readInode (img : Image) (sb inode : Bytes) : Option Bytes := do
  let bh ← img (inodeBlock sb inode)
  return copy dInode.sizeof bh (inodeRecord inode) inode 0

/-- `write_inode`. -/
def writeInode (img : Image) (sb inode : Bytes) : Option Image := do
  let bh ← img (inodeBlock sb inode)
  return Function.update img (inodeBlock sb inode)
    (some (copy dInode.sizeof inode 0 bh (inodeRecord inode)))

/-- `*p = *((struct super_block *) bh->b_data)`. -/
def superOf (bh p : Bytes) : Bytes := copy superBlock.sizeof bh 0 p 0

/-- A loop of `do_mount` over the blocks of a bitmap: `n` more of them, from slot `i` of the array
`m` and from `block` on. `head` gives the address of the buffer head of a block. -/
def mapLoop (img : Image) (head : Nat → BitVec 64) (m : SMember) :
    Nat → Nat → Nat → Bytes → Bytes × Nat
  | 0, _, block, p => (p, block)
  | n + 1, i, block, p =>
    match img block with
    | some _ =>
      mapLoop img head m n (i + 1) (block + 1) (store (n := 8) p (superBlock.offset m + 8 * i) (head block))
    | none => (store (n := 8) p (superBlock.offset m + 8 * i) 0, block)

/-- `for (i=0;i<8;i++) p->m[i] = NULL`. -/
def clearSlots (m : SMember) (p : Bytes) : Bytes :=
  (List.range 8).foldl (fun p i => store (n := 8) p (superBlock.offset m + 8 * i) 0) p

/-- The check `mount_root` begins with; if it fails, it panics with "bad i-node size". -/
def inodeSizeOk : Bool := 32 == dInode.sizeof

/-- `mount_root` never gets past its first statement: the compiled record has 48 bytes. -/
lemma inodeSize_bad : dInode.sizeof = 48 ∧ inodeSizeOk = false := by decide

/-- Fields of an inode that are on the disk; the zones are fields of their own. -/
inductive DField
  | iMode | iUid | iSize | iTime | iGid | iNlinks
  | iZone (k : Fin 9)
  deriving DecidableEq

namespace DField

/-- The member that holds the field. -/
def member : DField → DMember
  | iMode => .iMode
  | iUid => .iUid
  | iSize => .iSize
  | iTime => .iTime
  | iGid => .iGid
  | iNlinks => .iNlinks
  | iZone _ => .iZone

/-- Where the field begins in its member. -/
def index : DField → Nat
  | iZone k => 2 * k
  | _ => 0

/-- The size of the field in memory. -/
def size : DField → Nat
  | iZone _ => CType.ushort.size
  | f => (dInode.type f.member).size

/-- Where the format has the field in a record. -/
def diskOffset : DField → Nat
  | iMode => 0
  | iUid => 2
  | iSize => 4
  | iTime => 8
  | iGid => 12
  | iNlinks => 13
  | iZone k => 14 + 2 * k

/-- How many bytes the format gives the field. -/
def diskSize : DField → Nat
  | iMode | iUid | iZone _ => 2
  | iSize | iTime => 4
  | iGid | iNlinks => 1

/-- The field of an inode in memory. -/
def get (inode : Bytes) (f : DField) : Nat :=
  (load f.size inode (mInode.offset f.member.toM + f.index)).toNat

end DField

/-- Fields of the super block that are on the disk. -/
inductive SField
  | sNinodes | sNzones | sImapBlocks | sZmapBlocks | sFirstdatazone | sLogZoneSize | sMaxSize | sMagic
  deriving DecidableEq

namespace SField

/-- The member that holds the field. -/
def member : SField → SMember
  | sNinodes => .sNinodes
  | sNzones => .sNzones
  | sImapBlocks => .sImapBlocks
  | sZmapBlocks => .sZmapBlocks
  | sFirstdatazone => .sFirstdatazone
  | sLogZoneSize => .sLogZoneSize
  | sMaxSize => .sMaxSize
  | sMagic => .sMagic

/-- Where the format has the field in block 1. -/
def diskOffset : SField → Nat
  | sNinodes => 0
  | sNzones => 2
  | sImapBlocks => 4
  | sZmapBlocks => 6
  | sFirstdatazone => 8
  | sLogZoneSize => 10
  | sMaxSize => 12
  | sMagic => 16

/-- How many bytes the format gives the field. -/
def diskSize : SField → Nat
  | sMaxSize => 4
  | _ => 2

/-- The field of a super block in memory. -/
def get (sb : Bytes) (f : SField) : Nat :=
  (load (superBlock.type f.member).size sb (superBlock.offset f.member)).toNat

/-- The field as the format has it in block 1. -/
def onDisk (bh : Bytes) (f : SField) : Nat := (load f.diskSize bh f.diskOffset).toNat

end SField

/-- The counts of a Minix file system. A bitmap takes no more blocks than the super block has slots. -/
structure Geometry where
  sNinodes : BitVec 16
  sNzones : BitVec 16
  sImapBlocks : BitVec 16
  sZmapBlocks : BitVec 16
  sFirstdatazone : BitVec 16
  sLogZoneSize : BitVec 16
  sImapBlocks_le : sImapBlocks.toNat ≤ 8
  sZmapBlocks_le : sZmapBlocks.toNat ≤ 8

/-- A disk in the Minix format, with the blocks it consists of. -/
structure IsMinix (g : Geometry) (blocks : Nat → Bytes) : Prop where
  sNinodes : SField.onDisk (blocks 1) .sNinodes = g.sNinodes.toNat
  sNzones : SField.onDisk (blocks 1) .sNzones = g.sNzones.toNat
  sImapBlocks : SField.onDisk (blocks 1) .sImapBlocks = g.sImapBlocks.toNat
  sZmapBlocks : SField.onDisk (blocks 1) .sZmapBlocks = g.sZmapBlocks.toNat
  sFirstdatazone : SField.onDisk (blocks 1) .sFirstdatazone = g.sFirstdatazone.toNat
  sLogZoneSize : SField.onDisk (blocks 1) .sLogZoneSize = g.sLogZoneSize.toNat
  sMagic : SField.onDisk (blocks 1) .sMagic = superMagic.toNat

/-- The block in which the format has inode `n`. -/
def Geometry.block (g : Geometry) (n : Nat) : Nat :=
  2 + g.sImapBlocks.toNat + g.sZmapBlocks.toNat + (n - 1) / 32

/-- Where in its block the format has the record of inode `n`. -/
def diskRecord (n : Nat) : Nat := 32 * ((n - 1) % 32)

/-- A field of inode `n` as the format has it. -/
def DField.onDisk (blocks : Nat → Bytes) (g : Geometry) (n : Nat) (f : DField) : Nat :=
  (load f.diskSize (blocks (g.block n)) (diskRecord n + f.diskOffset)).toNat

/-- `read_inode` loads field `f` of inode `n` as the format has it. -/
def ReadsField (g : Geometry) (n : Nat) (f : DField) : Prop :=
  ∀ blocks p inode, IsMinix g blocks → iNum inode = n →
    ∃ inode', readInode (fun b => some (blocks b)) (superOf (blocks 1) p) inode = some inode' ∧
      f.get inode' = f.onDisk blocks g n

/-- `write_inode` stores field `f` of inode `n` as the format has it. -/
def WritesField (g : Geometry) (n : Nat) (f : DField) : Prop :=
  ∀ blocks p inode, IsMinix g blocks → iNum inode = n →
    ∃ blocks' : Nat → Bytes,
      writeInode (fun b => some (blocks b)) (superOf (blocks 1) p) inode
        = some (fun b => some (blocks' b)) ∧
      f.onDisk blocks' g n = f.get inode % 2 ^ (8 * f.diskSize)

/-- `write_inode` leaves everything but the record of inode `n` as it was. -/
def KeepsOthers (g : Geometry) (n : Nat) : Prop :=
  ∀ blocks p inode, IsMinix g blocks → iNum inode = n →
    ∃ blocks' : Nat → Bytes,
      writeInode (fun b => some (blocks b)) (superOf (blocks 1) p) inode
        = some (fun b => some (blocks' b)) ∧
      ∀ b i, b = g.block n ∧ diskRecord n ≤ i ∧ i < diskRecord n + 32 ∨ blocks' b i = blocks b i

/-- `do_mount` reads field `f` of the super block as the format has it. -/
def ReadsSuper (g : Geometry) (f : SField) : Prop :=
  ∀ blocks p, IsMinix g blocks → f.get (superOf (blocks 1) p) = f.onDisk (blocks 1)

/-! ### Where the fields are -/

section Places
variable {g : Geometry} {blocks : Nat → Bytes} {p inode : Bytes} {n : Nat} {f : DField}

/-- The two inode structures begin alike. -/
lemma offset_toM (m : DMember) : mInode.offset m.toM = dInode.offset m := by
  have hinj : Function.Injective DMember.toM := by
    intro a b
    cases a <;> cases b <;> decide
  have htype : ∀ m, mInode.type (DMember.toM m) = dInode.type m := by
    intro m
    cases m <;> rfl
  have hmem : m ∈ dInode.members := by cases m <;> decide
  exact Struct.offset_initial hinj htype rfl hmem

/-- A field is within the record. -/
lemma DField.index_add_size_le (f : DField) :
    dInode.offset f.member + f.index + f.size ≤ dInode.sizeof := by
  cases f <;> decide +revert

/-- A field that was copied out of a record. -/
lemma get_copy {bh : Bytes} {a : Nat} (f : DField) :
    f.get (copy dInode.sizeof bh a inode 0)
      = (load f.size bh (a + (dInode.offset f.member + f.index))).toNat := by
  have h : load f.size (copy dInode.sizeof bh a inode 0) (0 + (dInode.offset f.member + f.index)) =
      load f.size bh (a + (dInode.offset f.member + f.index)) := load_copy f.index_add_size_le
  rw [DField.get, offset_toM, ← h, Nat.zero_add]

/-- A field of the super block is read from block 1. -/
lemma get_superOf {bh : Bytes} (f : SField) :
    f.get (superOf bh p)
      = (load (superBlock.type f.member).size bh (superBlock.offset f.member)).toNat := by
  have hmem : f.member ∈ superBlock.members := by cases f <;> decide
  have hle := superBlock.offset_add_size_le hmem
  have h : load (superBlock.type f.member).size (copy superBlock.sizeof bh 0 p 0)
      (0 + superBlock.offset f.member) =
      load (superBlock.type f.member).size bh (0 + superBlock.offset f.member) := load_copy hle
  rw [SField.get, superOf, ← Nat.zero_add (superBlock.offset f.member), h, Nat.zero_add]

/-- The six counts are where the format has them. -/
lemma get_count {bh : Bytes} {s : SField} (hs : s ≠ .sMaxSize) (hs' : s ≠ .sMagic) :
    s.get (superOf bh p) = s.onDisk bh := by
  rw [get_superOf]
  cases s with
  | sMaxSize => exact absurd rfl hs
  | sMagic => exact absurd rfl hs'
  | _ => rfl

/-- The block in which the code has inode `n`. -/
def Geometry.codeBlock (g : Geometry) (n : Nat) : Nat :=
  2 + g.sImapBlocks.toNat + g.sZmapBlocks.toNat + (n - 1) / 21

/-- Where in its block the code has the record of inode `n`. -/
def codeRecord (n : Nat) : Nat := (n - 1) % 21 * 48

/-- Where the code has a field in a record. -/
def DField.codeOffset (f : DField) : Nat := dInode.offset f.member + f.index

/-- The block of an inode is where the code looks for it. -/
lemma inodeBlock_eq (h : IsMinix g blocks) (hn : iNum inode = n) :
    inodeBlock (superOf (blocks 1) p) inode = g.codeBlock n := by
  have hi : SField.sImapBlocks.get (superOf (blocks 1) p) = _ := get_count nofun nofun
  have hz : SField.sZmapBlocks.get (superOf (blocks 1) p) = _ := get_count nofun nofun
  rw [h.sImapBlocks] at hi
  rw [h.sZmapBlocks] at hz
  have hper : inodesPerBlock = 21 := by decide
  calc inodeBlock (superOf (blocks 1) p) inode
      = 2 + SField.get (superOf (blocks 1) p) .sImapBlocks
          + SField.get (superOf (blocks 1) p) .sZmapBlocks + (n - 1) / 21 := by
        rw [inodeBlock, hn, hper]; rfl
    _ = g.codeBlock n := by rw [hi, hz, Geometry.codeBlock]

/-- The record of an inode is where the code looks for it. -/
lemma inodeRecord_eq (hn : iNum inode = n) : inodeRecord inode = codeRecord n := by
  have hper : inodesPerBlock = 21 := by decide
  rw [inodeRecord, hn, hper, inodeSize_bad.1, codeRecord]

/-- The code has the field of an inode where the format has it. -/
def SamePlace (n : Nat) (f : DField) : Prop :=
  (n - 1) / 21 = (n - 1) / 32 ∧ codeRecord n + f.codeOffset = diskRecord n + f.diskOffset

/-- Records of 48 and of 32 bytes agree only where both begin, before the first padding. -/
lemma samePlace_iff (hn : 1 ≤ n) : SamePlace n f ↔ n = 1 ∧ (f = .iMode ∨ f = .iUid) := by
  have hle : f.diskOffset ≤ f.codeOffset := by cases f <;> decide +revert
  have heq : f.diskOffset = f.codeOffset ↔ f = .iMode ∨ f = .iUid := by cases f <;> decide +revert
  rw [← heq, SamePlace, codeRecord, diskRecord]
  constructor
  · rintro ⟨hblock, hplace⟩
    -- the record begins `16 * (n - 1) + 16 * ((n - 1) / 21)` bytes too far on
    omega
  · rintro ⟨rfl, h⟩
    omega

end Places

/-! ### What is read and written there -/

section Probe
variable {g : Geometry} {blocks : Nat → Bytes} {p inode : Bytes} {n a b k : Nat} {f : DField}

/-- Memory with a one at offset `a`. -/
def single (a : Nat) : Bytes := Function.update (fun _ => 0) a 1

/-- Block 1 of a disk of geometry `g`. -/
def Geometry.superBytes (g : Geometry) : Bytes :=
  let set (a : Nat) (w : BitVec 16) (m : Bytes) : Bytes := store (n := 2) m a w
  set 16 superMagic <| set 10 g.sLogZoneSize <| set 8 g.sFirstdatazone <| set 6 g.sZmapBlocks <|
    set 4 g.sImapBlocks <| set 2 g.sNzones <| set 0 g.sNinodes fun _ => 0

/-- A disk of geometry `g`, empty but for a one at offset `a` of block `b`. -/
def Geometry.probe (g : Geometry) (b a : Nat) : Nat → Bytes :=
  Function.update (Function.update (fun _ _ => 0) b (single a)) 1 g.superBytes

/-- The probing image is of a MINIX disk. -/
lemma probe_isMinix : IsMinix g (g.probe b a) := by
  have h : g.probe b a 1 = g.superBytes := Function.update_self _ _ _
  constructor <;> rw [h, SField.onDisk, Geometry.superBytes] <;>
    simp only [SField.diskSize, SField.diskOffset]
  all_goals repeat rw [load_store_of_disjoint (by decide)]
  all_goals rw [load_store_self]

/-- Its only byte that is set is in the block. -/
lemma probe_apart (h : 2 ≤ b) : g.probe k a b = if b = k then single a else fun _ => 0 := by
  rw [Geometry.probe, Function.update_of_ne (by omega), Function.update_apply]

/-- An inode in memory with number `n`, empty but for a one at offset `a`. -/
def numbered (n a : Nat) : Bytes :=
  store (n := 2) (single a) (mInode.offset .iNum) (BitVec.ofNat 16 n)

/-- The number of a numbered inode. -/
lemma iNum_numbered (h : n < 65536) : iNum (numbered n a) = n := by
  rw [iNum, numbered, load_store_self, BitVec.toNat_ofNat, Nat.mod_eq_of_lt h]

/-- It is behind the record. -/
lemma numbered_apart (h : k < dInode.sizeof) : numbered n a k = single a k := by
  have hnum : dInode.sizeof ≤ mInode.offset .iNum := by decide
  exact store_of_not_mem (.inl (Nat.lt_of_lt_of_le h hnum))

/-- The byte that is set. -/
lemma single_lowBit : (single a k).getLsbD 0 = true ↔ k = a := by
  rw [single, Function.update_apply]
  split <;> simp [*]

/-- The lowest bit of a word is that of its first byte. -/
lemma load_lowBit {m : Bytes} (h : 0 < k) : (load k m a).toNat.testBit 0 = (m a).getLsbD 0 := by
  have hpos : 0 < 8 * k := by omega
  have hbyte : 8 * a / 8 = a := by omega
  rw [BitVec.testBit_toNat, getLsbD_load, decide_eq_true hpos, Bool.true_and, bit, Nat.add_zero,
    hbyte, Nat.mul_mod_right]

/-- A field is not empty in memory. -/
lemma DField.size_pos (f : DField) : 0 < f.size := by
  cases f <;> decide +revert

/-- A field is not empty on the disk. -/
lemma DField.diskSize_pos (f : DField) : 0 < f.diskSize := by
  cases f <;> decide +revert

/-- The lowest bit of a field on the disk. -/
lemma DField.onDisk_lowBit :
    (f.onDisk blocks g n).testBit 0
      = (blocks (g.block n) (diskRecord n + f.diskOffset)).getLsbD 0 :=
  load_lowBit f.diskSize_pos

/-- The lowest bit of a field in memory. -/
lemma DField.get_lowBit :
    (f.get inode).testBit 0 = (inode f.codeOffset).getLsbD 0 := by
  rw [get, offset_toM]
  exact load_lowBit f.size_pos

/-- A field is within the record. -/
lemma DField.codeOffset_lt : f.codeOffset < dInode.sizeof := by
  cases f <;> decide +revert

/-- The inodes are behind the super block. -/
lemma two_le_block : 2 ≤ g.block n ∧ 2 ≤ g.codeBlock n := by
  rw [Geometry.block, Geometry.codeBlock]
  omega

/-- The code looks in the right place if block and offset are right. -/
lemma samePlace_of (hb : g.codeBlock n = g.block n)
    (ha : codeRecord n + f.codeOffset = diskRecord n + f.diskOffset) : SamePlace n f := by
  rw [Geometry.codeBlock, Geometry.block] at hb
  exact ⟨by omega, ha⟩

/-- `read_inode` copies a record. -/
lemma readInode_eq (h : IsMinix g blocks) (hn : iNum inode = n) :
    readInode (fun b => some (blocks b)) (superOf (blocks 1) p) inode
      = some (copy dInode.sizeof (blocks (g.codeBlock n)) (codeRecord n) inode 0) := by
  rw [readInode, inodeBlock_eq h hn, inodeRecord_eq hn]
  rfl

/-- The blocks after `write_inode` has put inode `n` in its place. -/
def Geometry.written (g : Geometry) (n : Nat) (blocks : Nat → Bytes) (inode : Bytes) : Nat → Bytes :=
  Function.update blocks (g.codeBlock n)
    (copy dInode.sizeof inode 0 (blocks (g.codeBlock n)) (codeRecord n))

/-- `write_inode` stores one. -/
lemma writeInode_eq (h : IsMinix g blocks) (hn : iNum inode = n) :
    writeInode (fun b => some (blocks b)) (superOf (blocks 1) p) inode
      = some (fun b => some (g.written n blocks inode b)) := by
  rw [writeInode, inodeBlock_eq h hn, inodeRecord_eq hn]
  refine congrArg some (funext fun b => ?_)
  rw [Geometry.written, Function.update_apply, Function.update_apply]
  split <;> rfl

/-- What is loaded from a disk with a single one shows where it is loaded from. -/
lemma ReadsField.samePlace (hlt : n < 65536) (h : ReadsField g n f) : SamePlace n f := by
  obtain ⟨inode', hread, heq⟩ :=
    h (g.probe (g.codeBlock n) (codeRecord n + f.codeOffset)) (fun _ => 0) (numbered n 0)
      probe_isMinix (iNum_numbered hlt)
  rw [readInode_eq probe_isMinix (iNum_numbered hlt), Option.some.injEq] at hread
  subst hread
  have hbit : (f.onDisk (g.probe (g.codeBlock n) (codeRecord n + f.codeOffset)) g n).testBit 0
      = true := by
    rw [← heq, get_copy, load_lowBit f.size_pos, probe_apart two_le_block.2, if_pos rfl]
    exact single_lowBit.mpr rfl
  rw [DField.onDisk_lowBit, probe_apart two_le_block.1] at hbit
  split at hbit
  next hb => exact samePlace_of hb.symm (single_lowBit.mp hbit).symm
  next => simp at hbit

/-- What is written from an inode with a single one shows where it is written to. -/
lemma WritesField.samePlace (hlt : n < 65536) (h : WritesField g n f) : SamePlace n f := by
  obtain ⟨blocks', hwrite, heq⟩ :=
    h (g.probe 0 0) (fun _ => 0) (numbered n f.codeOffset) probe_isMinix (iNum_numbered hlt)
  rw [writeInode_eq probe_isMinix (iNum_numbered hlt), Option.some.injEq] at hwrite
  have hwritten : g.written n (g.probe 0 0) (numbered n f.codeOffset) = blocks' :=
    funext fun b => Option.some.inj (congrFun hwrite b)
  have hzero : ∀ c, 2 ≤ c → g.probe 0 0 c = fun _ => 0 := by
    intro c hc
    rw [probe_apart hc, if_neg (by omega)]
  have hbit : (f.onDisk blocks' g n).testBit 0 = true := by
    have hpos : 0 < 8 * f.diskSize := Nat.mul_pos (by decide) f.diskSize_pos
    rw [heq, Nat.testBit_mod_two_pow, decide_eq_true hpos, Bool.true_and, DField.get_lowBit,
      numbered_apart DField.codeOffset_lt]
    exact single_lowBit.mpr rfl
  rw [DField.onDisk_lowBit, ← hwritten, Geometry.written, Function.update_apply] at hbit
  split at hbit
  next hb =>
    rw [copy] at hbit
    split at hbit
    next hmem =>
      -- the byte is one of the copied record
      rw [numbered_apart (by omega), single_lowBit] at hbit
      exact samePlace_of hb.symm (by omega)
    next =>
      rw [hzero _ two_le_block.2] at hbit
      simp at hbit
  next =>
    rw [hzero _ two_le_block.1] at hbit
    simp at hbit

/-- One end of what is written always lies outside the record of 32 bytes. -/
lemma not_keepsOthers (hlt : n < 65536) : ¬ KeepsOthers g n := by
  intro h
  have hsize : dInode.sizeof = 48 := inodeSize_bad.1
  have loses : ∀ c, codeRecord n ≤ c → c < codeRecord n + dInode.sizeof →
      (g.block n = g.codeBlock n → c < diskRecord n ∨ diskRecord n + 32 ≤ c) → False := by
    intro c hc hc' hout
    obtain ⟨blocks', hwrite, hkeep⟩ :=
      h (g.probe (g.codeBlock n) c) (fun _ => 0) (numbered n 48) probe_isMinix (iNum_numbered hlt)
    rw [writeInode_eq probe_isMinix (iNum_numbered hlt), Option.some.injEq] at hwrite
    have hwritten : g.written n (g.probe (g.codeBlock n) c) (numbered n 48) = blocks' :=
      funext fun b => Option.some.inj (congrFun hwrite b)
    have heq := (hkeep (g.codeBlock n) c).resolve_left (by omega)
    rw [← hwritten, Geometry.written, Function.update_self, copy, if_pos ⟨hc, hc'⟩,
      numbered_apart (by omega), probe_apart two_le_block.2, if_pos rfl] at heq
    have hone : (single c c).getLsbD 0 = true := single_lowBit.mpr rfl
    rw [← heq, single_lowBit, Nat.zero_add] at hone
    omega
  obtain hlow | hhigh := Nat.lt_or_ge (codeRecord n) (diskRecord n)
  · exact loses (codeRecord n) (by omega) (by omega) (by omega)
  · exact loses (codeRecord n + 47) (by omega) (by omega) (by omega)

/-- Bytes of block 1 that no count and no magic number is in are zero. -/
lemma superBytes_apart (h : 12 ≤ a) (h' : a < 16 ∨ 18 ≤ a) : g.superBytes a = 0 := by
  simp only [Geometry.superBytes]
  repeat rw [store_of_not_mem (by omega)]

/-- Block 1 of the probing image is the super block. -/
lemma probe_superBytes : g.probe b a 1 = g.superBytes := Function.update_self _ _ _

/-- The code looks for `s_max_size` where the format has the magic number. -/
lemma not_readsSuper_maxSize : ¬ ReadsSuper g .sMaxSize := by
  intro h
  have heq := h (g.probe 0 0) (fun _ => 0) probe_isMinix
  have hbit := congrArg (Nat.testBit · 0) heq
  have hoffset : superBlock.offset .sMaxSize = 16 + 0 := by decide
  have hmagic : g.superBytes (16 + 0) = superMagic.extractLsb' 0 8 := store_of_mem (by decide)
  simp only [get_superOf, SField.onDisk, SField.member, probe_superBytes] at hbit
  rw [load_lowBit (by decide), load_lowBit (by decide), hoffset, hmagic,
    superBytes_apart (by decide) (by decide)] at hbit
  revert hbit
  decide

/-- The code looks for the magic number past the end of the super block on the disk. -/
lemma not_readsSuper_magic : ¬ ReadsSuper g .sMagic := by
  intro h
  have heq := h (g.probe 0 0) (fun _ => 0) probe_isMinix
  rw [probe_isMinix.sMagic, get_superOf] at heq
  have hbit := congrArg (Nat.testBit · 0) heq
  have hoffset : superBlock.offset .sMagic = 24 := by decide
  simp only [SField.member, probe_superBytes] at hbit
  rw [load_lowBit (by decide), hoffset, superBytes_apart (by decide) (by decide)] at hbit
  revert hbit
  decide

end Probe

/-! ### The format and the code -/

section Main
variable {g : Geometry} {n : Nat} {f : DField} {s : SField}

/-- A field in the same place with the same size is read right. -/
lemma readsField_of (h : SamePlace n f) (hsize : f.size = f.diskSize) : ReadsField g n f := by
  intro blocks p inode hm hn
  refine ⟨_, readInode_eq hm hn, ?_⟩
  have hb : g.codeBlock n = g.block n := by
    rw [Geometry.codeBlock, Geometry.block, h.1]
  rw [get_copy, DField.onDisk, hb, ← h.2, hsize]
  rfl

/-- A field in the same place with the same size is written right. -/
lemma writesField_of (h : SamePlace n f) (hsize : f.size = f.diskSize) : WritesField g n f := by
  intro blocks p inode hm hn
  refine ⟨_, writeInode_eq hm hn, ?_⟩
  have hb : g.codeBlock n = g.block n := by
    rw [Geometry.codeBlock, Geometry.block, h.1]
  have hle : f.codeOffset + f.diskSize ≤ dInode.sizeof := hsize ▸ f.index_add_size_le
  rw [DField.onDisk, Geometry.written, hb, Function.update_self, ← h.2, load_copy hle, Nat.zero_add,
    DField.get, offset_toM, hsize, Nat.mod_eq_of_lt (BitVec.isLt _)]
  rfl

/-- All fields of the super block but the last two are read right. -/
lemma readsSuper_iff : ReadsSuper g s ↔ s ≠ .sMaxSize ∧ s ≠ .sMagic := by
  constructor
  · intro h
    constructor
    · rintro rfl
      exact not_readsSuper_maxSize h
    · rintro rfl
      exact not_readsSuper_magic h
  · rintro ⟨hs, hs'⟩ blocks p -
    exact get_count hs hs'

/-- What the code takes from a Minix disk is what the format has there for the six counts of the super
block and for the mode and the owner of inode 1, and for nothing else. -/
theorem disk_format (g : Geometry) (n : Nat) (hn : 1 ≤ n) (hlt : n < 65536) :
    (∀ f, ReadsField g n f ↔ n = 1 ∧ (f = .iMode ∨ f = .iUid)) ∧
      (∀ f, WritesField g n f ↔ n = 1 ∧ (f = .iMode ∨ f = .iUid)) ∧ ¬ KeepsOthers g n ∧
      ∀ s, ReadsSuper g s ↔ s ≠ .sMaxSize ∧ s ≠ .sMagic := by
  have hsize : ∀ {f}, n = 1 ∧ (f = .iMode ∨ f = .iUid) → DField.size f = f.diskSize := by
    rintro f ⟨-, rfl | rfl⟩ <;> rfl
  refine ⟨fun f => ⟨fun h => ?_, fun h => ?_⟩, fun f => ⟨fun h => ?_, fun h => ?_⟩,
    not_keepsOthers hlt, fun s => readsSuper_iff⟩
  · exact (samePlace_iff hn).mp (h.samePlace hlt)
  · exact readsField_of ((samePlace_iff hn).mpr h) (hsize h)
  · exact (samePlace_iff hn).mp (h.samePlace hlt)
  · exact writesField_of ((samePlace_iff hn).mpr h) (hsize h)

/-- A disk of 1440 blocks with 480 inodes. -/
def floppy : Geometry where
  sNinodes := 480#16
  sNzones := 1440#16
  sImapBlocks := 1#16
  sZmapBlocks := 1#16
  sFirstdatazone := 19#16
  sLogZoneSize := 0#16
  sImapBlocks_le := by decide
  sZmapBlocks_le := by decide

/-- The root of a floppy disk. -/
theorem disk_format_root :
    ¬ ReadsField floppy 1 .iSize ∧ ReadsField floppy 1 .iMode ∧ ¬ KeepsOthers floppy 1 := by
  obtain ⟨hread, -, hkeep, -⟩ := disk_format floppy 1 (by decide) (by decide)
  refine ⟨fun h => ?_, (hread _).mpr ⟨rfl, .inl rfl⟩, hkeep⟩
  obtain ⟨-, h | h⟩ := (hread _).mp h <;> cases h

/-- The floppy with a root directory of 32 bytes. -/
def floppyBlocks : Nat → Bytes :=
  Function.update (floppy.probe 0 0) 4 (store (n := 4) (fun _ => 0) 4 32#32)

/-- The root inode of the floppy is read with size zero; the format has 32 there. -/
theorem size_misread :
    IsMinix floppy floppyBlocks ∧ iNum (numbered 1 0) = 1 ∧
      ((readInode (fun b => some (floppyBlocks b)) (superOf (floppyBlocks 1) fun _ => 0)
        (numbered 1 0)).map fun inode => DField.get inode .iSize) = some 0 ∧
      DField.onDisk floppyBlocks floppy 1 .iSize = 32 := by
  have h : IsMinix floppy floppyBlocks := by
    have h := probe_isMinix (g := floppy) (b := 0) (a := 0)
    exact ⟨h.1, h.2, h.3, h.4, h.5, h.6, h.7⟩
  exact ⟨h, by decide, by decide, by decide⟩

end Main

end OldLinux.Fs
