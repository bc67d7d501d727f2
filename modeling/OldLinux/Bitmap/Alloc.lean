import OldLinux.Bitmap.Bits
import OldLinux.Fs.Types

/-!
# Allocation on the bitmaps

Model of `free_block`, `new_block`, `free_inode` and `new_inode` (`fs/bitmap.c`) on one mounted device.
What they ask of the buffer cache and of the inode table comes in as arguments: the `b_count` of the
buffer that `get_hash_table` or `getblk` returned, and the slot `get_empty_inode` returned. The flags of
that buffer and the contents of a new zone belong to the buffer cache and are left out here.
-/

namespace OldLinux.Bitmap
open Lib Fs Function

/-- `get_super(dev)` with one device mounted. -/
def getSuper (sb : SuperBlock) (dev : Int) : Option SuperBlock :=
  if (sb.sDev.toNat : Int) = dev then some sb else none

/-- The search loop of `new_block` and `new_inode` from map `i` on, with `n` maps to go: the first map
    with a zero bit, its buffer and the position of the bit. -/
def searchMaps (maps : Nat → Option MapBuffer) (i : Nat) : Nat → Option (Nat × MapBuffer × Nat)
  | 0 => none
  | n + 1 =>
    match maps i with
    | some bh =>
      if findFirstZero bh.bData < 8192 then some (i, bh, findFirstZero bh.bData)
      else searchMaps maps (i + 1) n
    | none => searchMaps maps (i + 1) n

/-- `free_block(dev, block)`; `bh` is the `b_count` of the buffer `get_hash_table` found. -/
def freeBlock (sb : SuperBlock) (dev block : Int) (bh : Option Nat) : Result SuperBlock :=
  match getSuper sb dev with
  | none => .panic "trying to free block on nonexistent device"
  | some sb =>
    if block < sb.sFirstdatazone.toNat ∨ block ≥ sb.sNzones.toNat then
      .panic "trying to free block not in datazone"
    else if bh.any (· ≠ 1) then .ret sb
    else
      let block := (block - (sb.sFirstdatazone.toNat - 1)).toNat
      match sb.sZmap (block / 8192) with
      | none => .fault
      | some map =>
        let (res, data) := clearBit (block % 8192) map.bData
        if res then .panic "free_block: bit already cleared"
        else .ret { sb with sZmap := update sb.sZmap (block / 8192) (some ⟨data, true⟩) }

/-- `new_block(dev)`; `getblk j` is the `b_count` of the buffer `getblk(dev, j)` returns. -/
def newBlock (sb : SuperBlock) (dev : Int) (getblk : Int → Option Nat) : Result (Int × SuperBlock) :=
  match getSuper sb dev with
  | none => .panic "trying to get new block from nonexistant device"
  | some sb =>
    match searchMaps sb.sZmap 0 8 with
    | none => .ret (0, sb)
    | some (i, bh, j) =>
      let (res, data) := setBit j bh.bData
      if res then .panic "new_block: bit already set"
      else
        let sb := { sb with sZmap := update sb.sZmap i (some ⟨data, true⟩) }
        let j : Int := j + (i * 8192 + sb.sFirstdatazone.toNat - 1)
        if j ≥ sb.sNzones.toNat then .ret (0, sb)
        else
          match getblk j with
          | none => .panic "new_block: cannot get block"
          | some count =>
            if count ≠ 1 then .panic "new block: count is != 1"
            else .ret (j, sb)

/-- `free_inode(inode)`: the inode and the maps afterwards. -/
def freeInode (sb : SuperBlock) : Option MInode → Result (Option MInode × SuperBlock)
  | none => .ret (none, sb)
  | some inode =>
    if inode.iDev = 0 then .ret (some .zero, sb)
    else if inode.iCount > 1 then .panic "free_inode"
    else if inode.iNlinks ≠ 0 then .panic "trying to free inode with links"
    else
      match getSuper sb inode.iDev with
      | none => .panic "trying to free inode on nonexistent device"
      | some sb =>
        if inode.iNum < 1 ∨ inode.iNum > sb.sNinodes.toNat then
          .panic "trying to free inode 0 or nonexistant inode"
        else
          match sb.sImap (inode.iNum / 8192) with
          | none => .panic "nonexistent imap in superblock"
          | some map =>
            let (res, data) := clearBit (inode.iNum % 8192) map.bData
            if res then .panic "free_inode: bit already cleared"
            else
              .ret (some .zero,
                { sb with sImap := update sb.sImap (inode.iNum / 8192) (some ⟨data, true⟩) })

/-- `new_inode(dev)` at time `now`; `empty` is what `get_empty_inode` returned. -/
def newInode (sb : SuperBlock) (dev : Nat) (empty : Option MInode) (now : Nat) :
    Result (Option MInode × SuperBlock) :=
  match empty with
  | none => .ret (none, sb)
  | some inode =>
    match getSuper sb dev with
    | none => .panic "new_inode with unknown device"
    | some sb =>
      match searchMaps sb.sImap 0 8 with
      | none => .ret (none, sb)
      | some (i, bh, j) =>
        if j + i * 8192 > sb.sNinodes.toNat then .ret (none, sb)
        else
          let (res, data) := setBit j bh.bData
          if res then .panic "new_inode: bit already set"
          else
            .ret
              (some
                { inode with
                  iCount := 1, iNlinks := 1, iDev := dev, iDirt := true, iNum := j + i * 8192
                  iMtime := now, iAtime := now, iCtime := now },
              { sb with sImap := update sb.sImap i (some ⟨data, true⟩) })

end OldLinux.Bitmap
