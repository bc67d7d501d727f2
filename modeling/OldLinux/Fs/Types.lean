import OldLinux.Lib.Bytes
import OldLinux.Lib.Numerals
import OldLinux.Lib.Program

/-!
# File system records

The in-memory records of `include/linux/fs.h` that the file system modules share, with the fields the
modelled functions use. Counters and numbers are naturals; `i_zone` and `i_size` keep their widths.
An in-memory inode begins with the fields of the inode on the disk (whose `i_time` is `i_mtime` here).
-/

namespace OldLinux.Fs
open Lib

/-- `struct d_inode`, the part of an inode that is on the disk. -/
structure DInode where
  iMode : BitVec 16
  iUid : BitVec 16
  iSize : BitVec 64
  iMtime : Nat
  iGid : BitVec 8
  iNlinks : Nat
  iZone : Nat → BitVec 16

/-- `struct m_inode`. -/
structure MInode extends DInode where
  iAtime : Nat
  iCtime : Nat
  iDev : Nat
  iNum : Nat
  iCount : Nat
  iDirt : Bool
  iPipe : Bool

/-- `memset(inode,0,sizeof(*inode))`. -/
def MInode.zero : MInode where
  iMode := 0
  iUid := 0
  iSize := 0
  iMtime := 0
  iGid := 0
  iNlinks := 0
  iZone := fun _ => 0
  iAtime := 0
  iCtime := 0
  iDev := 0
  iNum := 0
  iCount := 0
  iDirt := false
  iPipe := false

/-- `struct file`; `f_inode` names the inode. -/
structure File (ι : Type*) where
  fMode : BitVec 16
  fFlags : BitVec 16
  fCount : Nat
  fInode : Option ι
  fPos : Nat

/-- A buffer that holds a block of a bitmap. -/
structure MapBuffer where
  bData : Bytes
  bDirt : Bool

/-- `struct super_block`, with the buffers of the two bitmaps; a slot without a buffer is null. -/
structure SuperBlock where
  sDev : BitVec 16
  sNinodes : BitVec 16
  sNzones : BitVec 16
  sFirstdatazone : BitVec 16
  sImap : Nat → Option MapBuffer
  sZmap : Nat → Option MapBuffer

end OldLinux.Fs
