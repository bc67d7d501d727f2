import OldLinux.Files.Count
import OldLinux.Files.Disk
import OldLinux.Files.Path

/-!
# Taking names away

Model of `sys_rmdir`, `sys_unlink` and `sys_link` (`fs/namei.c`), of `sys_chmod`, `sys_chown` and `sys_utime`
(`fs/open.c`) and of `sys_stat` and `sys_fstat` (`fs/stat.c`), with all their exits, on the tables. What these
calls ask of the rest of the kernel beyond `Services` is in `EntryServices`; `RootDisk.entryServices` are those of
the mounted disk, with `empty_dir`.

Each exit has its own sequence of `iput`. However a call ends, it leaves every count as it found it.
-/

namespace OldLinux.Files
open Lib Fs Function

def exdev : Int := 18

def enotempty : Int := 39

/-- What the calls ask beyond `Services`. An entry in a buffer that the call holds is an `EntryPtr`. -/
structure EntryServices (κ : Type) extends Services κ where
  /-- `find_entry(dir, name, ..)`: the entry, and its `inode` field. -/
  findSlot : (dev : Nat) → (dir : DInode) → (name : List Char) → Prog κ (Option (EntryPtr × Nat))
  /-- `empty_dir(inode)`. -/
  emptyDir : (dev nr : Nat) → (inode : DInode) → Prog κ Bool
  /-- `de->inode = 0`. -/
  clearSlot : EntryPtr → Prog κ Unit
  /-- `brelse(bh)`. -/
  brelse : EntryPtr → Prog κ Unit
  /-- `times->actime` and `times->modtime`. -/
  readTimes : (times : BitVec 64) → Prog κ (Nat × Nat)
  /-- `cp_stat(inode, statbuf)`. -/
  cpStat : MInode → (statbuf : BitVec 64) → Prog κ Unit

variable {κ : Type} (sv : EntryServices κ) (c : Fin 64)

/-- `brelse(bh)`, of null too. -/
def brelse : Option EntryPtr → Prog (Tables κ) Unit
  | none => pure ()
  | some de => service (sv.brelse de)

/-- An exit with an error: the inodes and the buffer are given back. -/
def exitWith (inodes : List (Fin 32)) (bh : Option EntryPtr) (error : Int) : Prog (Tables κ) Int := do
  forM inodes fun i => iput sv.toServices (some i)
  brelse sv bh
  pure (-error)

/-! ## Entries -/

/-- The end of `sys_rmdir`. -/
def rmdirEntry (de : EntryPtr) (dir i : Fin 32) : Prog (Tables κ) Int := do
  service (sv.clearSlot de)
  service (sv.brelse de)
  setInode i fun inode => { inode with iNlinks := 0, iDirt := true }
  let now ← currentTime
  setInode dir fun inode =>
    { inode with iNlinks := (inode.iNlinks + 255) % 256, iCtime := now, iMtime := now, iDirt := true }
  iput sv.toServices (some dir)
  iput sv.toServices (some i)
  pure 0

/-- The part of `sys_rmdir` that has found the entry `de` with the inode number `inr`. -/
def rmdirFound (t : Task) (dir : Fin 32) (de : EntryPtr) (inr : Nat) : Prog (Tables κ) Int := do
  let d ← inodeAt dir
  if permission t d mayWrite = 0 then exitWith sv [dir] (some de) eperm
  else
    let i ← iget sv.toServices d.iDev inr
    if i = dir then exitWith sv [i, dir] (some de) eperm
    else
      let inode ← inodeAt i
      if ¬ isDir inode.iMode then exitWith sv [i, dir] (some de) enotdir
      else if ¬ (← service (sv.emptyDir inode.iDev inode.iNum inode.toDInode)) then
        exitWith sv [i, dir] (some de) enotempty
      else rmdirEntry sv de dir i

/-- `sys_rmdir(regs)`; `name` is the string at `regs->a0`. -/
def sysRmdir (name : Path.CString) : Prog (Tables κ) Int := do
  let t ← current c
  if t.euid ≠ 0 ∧ t.uid ≠ 0 then pure (-eperm)
  else
    match ← Path.dirNamei sv.toServices c name with
    | none => pure (-enoent)
    | some (dir, basename) =>
      if basename.length = 0 then exitWith sv [dir] none enoent
      else
        let d ← inodeAt dir
        match ← service (sv.findSlot d.iDev d.toDInode basename) with
        | none => exitWith sv [dir] none enoent
        | some (de, inr) => rmdirFound sv t dir de inr

/-- The end of `sys_unlink`; `i_nlinks` is an `unsigned char`. -/
def unlinkEntry (de : EntryPtr) (dir i : Fin 32) : Prog (Tables κ) Int := do
  setInode i fun inode => { inode with iNlinks := if inode.iNlinks = 0 then 1 else inode.iNlinks }
  service (sv.clearSlot de)
  service (sv.brelse de)
  let now ← currentTime
  setInode i fun inode => { inode with iNlinks := inode.iNlinks - 1, iDirt := true, iCtime := now }
  iput sv.toServices (some i)
  iput sv.toServices (some dir)
  pure 0

/-- `sys_unlink(regs)`; `name` is the string at `regs->a0`. -/
def sysUnlink (name : Path.CString) : Prog (Tables κ) Int := do
  match ← Path.dirNamei sv.toServices c name with
  | none => pure (-enoent)
  | some (dir, basename) =>
    if basename.length = 0 then exitWith sv [dir] none enoent
    else
      let d ← inodeAt dir
      let t ← current c
      if permission t d mayWrite = 0 then exitWith sv [dir] none eperm
      else
        match ← service (sv.findSlot d.iDev d.toDInode basename) with
        | none => exitWith sv [dir] none enoent
        | some (de, inr) =>
          let i ← iget sv.toServices d.iDev inr
          let inode ← inodeAt i
          if ¬ isReg inode.iMode then exitWith sv [i, dir] (some de) eperm
          else unlinkEntry sv de dir i

/-- The part of `sys_link` that has the old inode and the directory. -/
def linkIn (i dir : Fin 32) (basename : List Char) : Prog (Tables κ) Int := do
  let inode ← inodeAt i
  let d ← inodeAt dir
  let t ← current c
  if basename.length = 0 then exitWith sv [i, dir] none eperm
  else if d.iDev ≠ inode.iDev then exitWith sv [dir, i] none exdev
  else if permission t d mayWrite = 0 then exitWith sv [dir, i] none eacces
  else
    match ← service (sv.findSlot d.iDev d.toDInode basename) with
    | some (de, _) =>
      service (sv.brelse de)
      exitWith sv [dir, i] none eexist
    | none =>
      if ← addEntry sv.toServices dir basename inode.iNum then
        iput sv.toServices (some dir)
        let now ← currentTime
        setInode i fun inode =>
          { inode with iNlinks := (inode.iNlinks + 1) % 256, iCtime := now, iDirt := true }
        iput sv.toServices (some i)
        pure 0
      else exitWith sv [dir, i] none enospc

/-- `sys_link(oldname, newname)`. -/
def sysLink (oldname newname : Path.CString) : Prog (Tables κ) Int := do
  match ← Path.namei sv.toServices c oldname with
  | none => pure (-enoent)
  | some i =>
    let inode ← inodeAt i
    if ¬ isReg inode.iMode then exitWith sv [i] none eperm
    else
      match ← Path.dirNamei sv.toServices c newname with
      | none => exitWith sv [i] none eacces
      | some (dir, basename) => linkIn sv c i dir basename

/-! ## Fields of an inode -/

/-- `namei(filename)`, fields of the inode `f`, and `iput`. -/
def onInode (filename : Path.CString) (f : Fin 32 → Prog (Tables κ) Int) : Prog (Tables κ) Int := do
  match ← Path.namei sv.toServices c filename with
  | none => pure (-enoent)
  | some i =>
    let r ← f i
    iput sv.toServices (some i)
    pure r

/-- The mode that `sys_chmod` sets. -/
def chmodMode (t : Task) (inode : MInode) (mode : BitVec 16) : BitVec 16 :=
  let mode :=
    if t.uid ≠ 0 ∧ t.euid ≠ 0 then (mode &&& 0o777#16) ||| (inode.iMode &&& 0o7000#16) else mode
  (mode &&& 0o7777#16) ||| (inode.iMode &&& ~~~0o7777#16)

/-- `sys_chmod(regs)`. -/
def sysChmod (filename : Path.CString) (mode : BitVec 16) : Prog (Tables κ) Int :=
  onInode sv c filename fun i => do
    let inode ← inodeAt i
    let t ← current c
    if (t.uid ≠ 0 ∧ t.euid ≠ 0) ∧ t.uid ≠ inode.iUid ∧ t.euid ≠ inode.iUid then pure (-eacces)
    else
      setInode i fun inode => { inode with iMode := chmodMode t inode mode, iDirt := true }
      pure 0

/-- `sys_chown(regs)`. -/
def sysChown (filename : Path.CString) (uid : BitVec 16) (gid : BitVec 8) : Prog (Tables κ) Int :=
  onInode sv c filename fun i => do
    let t ← current c
    if t.uid ≠ 0 ∧ t.euid ≠ 0 then pure (-eacces)
    else
      setInode i fun inode => { inode with iUid := uid, iGid := gid, iDirt := true }
      pure 0

/-- `actime` and `modtime` of `sys_utime`. -/
def utimeTimes (times : BitVec 64) : Prog (Tables κ) (Nat × Nat) := do
  if times ≠ 0 then service (sv.readTimes times)
  else
    let now ← currentTime
    pure (now, now)

/-- `sys_utime(regs)`. -/
def sysUtime (filename : Path.CString) (times : BitVec 64) : Prog (Tables κ) Int :=
  onInode sv c filename fun i => do
    let (actime, modtime) ← utimeTimes sv times
    setInode i fun inode => { inode with iAtime := actime, iMtime := modtime, iDirt := true }
    pure 0

/-- `sys_stat(regs)`. -/
def sysStat (filename : Path.CString) (statbuf : BitVec 64) : Prog (Tables κ) Int :=
  onInode sv c filename fun i => do
    let inode ← inodeAt i
    service (sv.cpStat inode statbuf)
    pure 0

/-- `sys_fstat(regs)`. -/
def sysFstat (fd : Nat) (statbuf : BitVec 64) : Prog (Tables κ) Int := do
  let t ← current c
  if h : fd < 20 then
    match t.filp ⟨fd, h⟩ with
    | none => pure (-enoent)
    | some f =>
      let file ← fileAt f
      match file.fInode with
      | none => pure (-enoent)
      | some i =>
        let inode ← inodeAt i
        service (sv.cpStat inode statbuf)
        pure 0
  else pure (-enoent)

/-! ## The mounted disk -/

namespace RootDisk
variable {μ : Type} (reads : Nat × Nat → Bool)

/-- `find_entry(dir, name, namelen, &de)`. -/
def findSlot (dev : Nat) (dir : DInode) (name : List Char) : Prog (RootDisk μ) (Option (EntryPtr × Nat)) := do
  let k ← Prog.get
  let fs := k.fileSys { MInode.zero with toDInode := dir, iDev := dev }
  match nameOf name with
  | none => pure none
  | some name =>
    match fs.findEntry (fun disk _ => (0, disk)) k.currentTime reads () name with
    | .ret de => pure (de.map fun de => (de, (fs.deref de).inode.toNat))
    | .panic msg => Prog.panic msg
    | .fault => Prog.fault

/-- The loop of `empty_dir` at entry `nr`; the first number bounds its turns. Without a block it goes on with
    the buffer that it has released, and releases it again. -/
def emptyFrom (k : RootDisk μ) (inode : MInode) (len : Nat) : Nat → EntryPtr → Nat → Result Bool
  | 0, _, _ => .ret true
  | n + 1, de, nr =>
    if nr < len then
      if de.index < dirEntriesPerBlock then
        if ((k.fileSys inode).deref de).inode ≠ 0 then .ret false else emptyFrom k inode len n de.next (nr + 1)
      else
        match (k.fileSys inode).bmapReads (fun disk _ => (0, disk)) k.currentTime reads ()
          (nr / dirEntriesPerBlock) with
        | .ret (block, _) =>
          if block = 0 then .panic "Trying to free free buffer"
          else if reads (inode.iDev, block) then
            if ((k.fileSys inode).deref ⟨(inode.iDev, block), 0⟩).inode ≠ 0 then .ret false
            else emptyFrom k inode len n ⟨(inode.iDev, block), 1⟩ (nr + 1)
          else .ret false
        | .panic msg => .panic msg
        | .fault => .fault
    else .ret true

/-- `empty_dir(inode)`. -/
def emptyDir (dev nr : Nat) (inode : DInode) : Prog (RootDisk μ) Bool := do
  let k ← Prog.get
  let inode := { MInode.zero with toDInode := inode, iDev := dev, iNum := nr }
  -- an `int`, which is less than 2 if it is negative
  let len := ((inode.iSize / 16).setWidth 32).toInt.toNat
  let a := (dev, (inode.iZone 0).toNat)
  let de : Nat → DirEntry := fun i => (k.fileSys inode).deref ⟨a, i⟩
  if len < 2 ∨ inode.iZone 0 = 0 ∨ ¬ reads a then pure false
  else if (de 0).inode.toNat ≠ nr ∨ (de 1).inode = 0 ∨ (de 0).str ≠ [46] ∨ (de 1).str ≠ [46, 46] then pure false
  else
    match emptyFrom reads k inode len len ⟨a, 2⟩ 2 with
    | .ret empty => pure empty
    | .panic msg => Prog.panic msg
    | .fault => Prog.fault

/-- `de->inode = 0`. -/
def clearSlot (de : EntryPtr) : Prog (RootDisk μ) Unit :=
  Prog.modify fun k => { k with
    blocks := update k.blocks de.block ((k.blocks de.block).store (n := 2) (dirEntrySize * de.index) 0) }

/-- What the calls ask of the mounted disk; the memory is as in `sv`. -/
def entryServices (sv : EntryServices μ) : EntryServices (RootDisk μ) where
  toServices := services reads sv.toServices
  findSlot := findSlot reads
  emptyDir := emptyDir reads
  clearSlot := clearSlot
  brelse _ := pure ()
  readTimes times := onMemory (sv.readTimes times)
  cpStat inode statbuf := onMemory (sv.cpStat inode statbuf)

end RootDisk

/-- The memory of `emptyDisk`, with a clock that stands still. -/
def idleMemory : EntryServices Unit where
  toServices := emptyDisk
  findSlot _ _ _ := pure none
  emptyDir _ _ _ := pure false
  clearSlot _ := pure ()
  brelse _ := pure ()
  readTimes _ := pure (0, 0)
  cpStat _ _ := pure ()

/-! ## References -/

variable {sv} {c} {s t : Tables κ} {R R' : Fin 32 → Nat} {i dir : Fin 32} {de : EntryPtr} {error : Int}

/-- The references to some inodes. -/
def refs (inodes : List (Fin 32)) : Fin 32 → Nat := (inodes.map fun i => ref (some i)).sum

/-- The reference to one inode. -/
lemma refs_one : refs [i] = ref (some i) := by simp [refs]

/-- The references to two inodes. -/
lemma refs_two : refs [i, dir] = ref (some i) + ref (some dir) := by simp [refs]

/-- `brelse` keeps the references. -/
lemma brelse_spec {bh : Option EntryPtr} (h : Holds t R s) :
    Prog.wp (brelse sv bh) (fun _ => Holds t R) s := by
  cases bh with
  | none =>
    rw [brelse, Prog.wp_pure]
    exact h
  | some de => exact service_spec h

/-- An exit gives its references back. -/
lemma exitWith_spec {inodes : List (Fin 32)} {bh : Option EntryPtr} (h : Holds t (R + refs inodes) s) :
    Prog.wp (exitWith sv inodes bh error) (fun _ => Holds t R) s := by
  rw [exitWith, Prog.wp_bind]
  refine (Prog.wp_forM (I := fun l s => Holds t (R + refs l) s) ?_ h).mono ?_
  · intro i l s₁ h₁
    have e : R + refs (i :: l) = R + refs l + ref (some i) := by
      rw [refs, List.map_cons, List.sum_cons, add_comm (ref (some i)), ← add_assoc]
      rfl
    rw [e] at h₁
    exact iput_spec h₁
  · intro _ s₁ h₁
    rw [refs, List.map_nil, List.sum_nil, add_zero] at h₁
    rw [Prog.wp_bind]
    refine (brelse_spec h₁).mono ?_
    intro _ s₂ h₂
    rw [Prog.wp_pure]
    exact h₂

/-- An exit gives one inode back. -/
lemma exitOne_spec {bh : Option EntryPtr} (h : Holds t (R + ref (some i)) s) :
    Prog.wp (exitWith sv [i] bh error) (fun _ => Holds t R) s := by
  apply exitWith_spec
  rwa [refs_one]

/-- An exit gives two inodes back. -/
lemma exitTwo_spec {bh : Option EntryPtr} (h : Holds t (R + ref (some dir) + ref (some i)) s) :
    Prog.wp (exitWith sv [i, dir] bh error) (fun _ => Holds t R) s := by
  apply exitWith_spec
  rwa [refs_two, add_comm (ref (some i)), ← add_assoc]

/-- `dir_namei` with its scans gives one reference. -/
lemma pathDirNamei_spec {path : Path.CString} (h : Holds t R s) :
    Prog.wp (Path.dirNamei sv.toServices c path) (fun r => Holds t (R + ref (r.map Prod.fst))) s := by
  rw [Path.dirNamei_eq, Prog.wp_bind]
  refine (dirNamei_spec h).mono ?_
  intro r s₁ h₁
  rw [Prog.wp_pure]
  cases r with
  | none => exact h₁
  | some dir => exact h₁

/-- `namei` gives one reference. -/
lemma pathNamei_spec {path : Path.CString} (h : Holds t R s) :
    Prog.wp (Path.namei sv.toServices c path) (fun r => Holds t (R + ref r)) s := by
  rw [Path.namei_eq]
  exact namei_spec h

/-- The end of a call gives both references back. -/
lemma putBoth_spec {a : Int} (h : Holds t (R + ref (some dir) + ref (some i)) s) :
    Prog.wp (iput sv.toServices (some i) >>= fun _ => iput sv.toServices (some dir) >>= fun _ => pure a)
      (fun _ => Holds t R) s := by
  rw [Prog.wp_bind]
  refine (iput_spec h).mono ?_
  intro _ s₁ h₁
  exact iput_pure_spec h₁ fun _ h₂ => h₂

/-- The end of `sys_rmdir` gives both inodes back. -/
lemma rmdirEntry_spec (h : Holds t (R + ref (some dir) + ref (some i)) s) :
    Prog.wp (rmdirEntry sv de dir i) (fun _ => Holds t R) s := by
  rw [rmdirEntry, Prog.wp_bind]
  refine (service_spec h).mono ?_
  intro _ s₁ h₁
  rw [Prog.wp_bind]
  refine (service_spec h₁).mono ?_
  intro _ s₂ h₂
  rw [Prog.wp_bind]
  have h₃ := setInode_keep (i := i) (f := fun inode => { inode with iNlinks := 0, iDirt := true }) h₂ fun _ => rfl
  refine h₃.mono ?_
  intro _ s₄ h₄
  rw [Prog.wp_bind, wp_currentTime, Prog.wp_bind]
  have h₅ := setInode_keep (i := dir) (f := fun inode =>
    { inode with
      iNlinks := (inode.iNlinks + 255) % 256, iCtime := s₄.currentTime, iMtime := s₄.currentTime
      iDirt := true }) h₄ fun _ => rfl
  refine h₅.mono ?_
  intro _ s₆ h₆
  exact putBoth_spec h₆.swap

/-- So does its part with the entry found. -/
lemma rmdirFound_spec {p : Task} {inr : Nat} (h : Holds t (R + ref (some dir)) s) :
    Prog.wp (rmdirFound sv p dir de inr) (fun _ => Holds t R) s := by
  rw [rmdirFound, Prog.wp_bind, wp_inodeAt]
  split
  · exact exitOne_spec h
  · rw [Prog.wp_bind]
    refine (iget_spec h).mono ?_
    intro i s₁ h₁
    split
    · exact exitTwo_spec h₁
    · rw [Prog.wp_bind, wp_inodeAt]
      split
      · exact exitTwo_spec h₁
      · rw [Prog.wp_bind]
        refine (service_spec h₁).mono ?_
        intro empty s₂ h₂
        split
        · exact exitTwo_spec h₂
        · exact rmdirEntry_spec h₂

/-- `sys_rmdir` gives back all that it takes. -/
lemma sysRmdir_spec {name : Path.CString} (h : Holds t R s) :
    Prog.wp (sysRmdir sv c name) (fun _ => Holds t R) s := by
  rw [sysRmdir, Prog.wp_bind]
  apply wp_current
  intro p _
  split
  · rw [Prog.wp_pure]
    exact h
  · rw [Prog.wp_bind]
    refine (pathDirNamei_spec h).mono ?_
    rintro (_ | ⟨dir, basename⟩) s₁ h₁
    · rw [Prog.wp_pure]
      exact h₁
    · show Prog.wp (if _ then _ else _) _ s₁
      split
      · exact exitOne_spec h₁
      · rw [Prog.wp_bind, wp_inodeAt, Prog.wp_bind]
        refine (service_spec h₁).mono ?_
        rintro (_ | ⟨de, inr⟩) s₂ h₂
        · exact exitOne_spec h₂
        · exact rmdirFound_spec h₂

/-- The end of `sys_unlink` gives both inodes back. -/
lemma unlinkEntry_spec (h : Holds t (R + ref (some dir) + ref (some i)) s) :
    Prog.wp (unlinkEntry sv de dir i) (fun _ => Holds t R) s := by
  rw [unlinkEntry, Prog.wp_bind]
  have h₁ := setInode_keep (i := i)
    (f := fun inode => { inode with iNlinks := if inode.iNlinks = 0 then 1 else inode.iNlinks }) h fun _ => rfl
  refine h₁.mono ?_
  intro _ s₂ h₂
  rw [Prog.wp_bind]
  refine (service_spec h₂).mono ?_
  intro _ s₃ h₃
  rw [Prog.wp_bind]
  refine (service_spec h₃).mono ?_
  intro _ s₄ h₄
  rw [Prog.wp_bind, wp_currentTime, Prog.wp_bind]
  have h₅ := setInode_keep (i := i) (f := fun inode =>
    { inode with iNlinks := inode.iNlinks - 1, iDirt := true, iCtime := s₄.currentTime }) h₄ fun _ => rfl
  refine h₅.mono ?_
  intro _ s₆ h₆
  exact putBoth_spec h₆

/-- `sys_unlink` gives back all that it takes. -/
lemma sysUnlink_spec {name : Path.CString} (h : Holds t R s) :
    Prog.wp (sysUnlink sv c name) (fun _ => Holds t R) s := by
  rw [sysUnlink, Prog.wp_bind]
  refine (pathDirNamei_spec h).mono ?_
  rintro (_ | ⟨dir, basename⟩) s₁ h₁
  · rw [Prog.wp_pure]
    exact h₁
  · show Prog.wp (if _ then _ else _) _ s₁
    split
    · exact exitOne_spec h₁
    · rw [Prog.wp_bind, wp_inodeAt, Prog.wp_bind]
      apply wp_current
      intro p _
      split
      · exact exitOne_spec h₁
      · rw [Prog.wp_bind]
        refine (service_spec h₁).mono ?_
        rintro (_ | ⟨de, inr⟩) s₂ h₂
        · exact exitOne_spec h₂
        · show Prog.wp (_ >>= _) _ s₂
          rw [Prog.wp_bind]
          refine (iget_spec h₂).mono ?_
          intro i s₃ h₃
          rw [Prog.wp_bind, wp_inodeAt]
          split
          · exact exitTwo_spec h₃
          · exact unlinkEntry_spec h₃

/-- The end of `sys_link` gives both inodes back. -/
lemma linkIn_spec {basename : List Char} (h : Holds t (R + ref (some i) + ref (some dir)) s) :
    Prog.wp (linkIn sv c i dir basename) (fun _ => Holds t R) s := by
  rw [linkIn, Prog.wp_bind, wp_inodeAt, Prog.wp_bind, wp_inodeAt, Prog.wp_bind]
  apply wp_current
  intro p _
  split
  · exact exitTwo_spec h.swap
  split
  · exact exitTwo_spec h
  split
  · exact exitTwo_spec h
  rw [Prog.wp_bind]
  refine (service_spec h).mono ?_
  rintro (_ | ⟨de, inr⟩) s₁ h₁
  · show Prog.wp (_ >>= _) _ s₁
    rw [Prog.wp_bind]
    refine (addEntry_spec h₁).mono ?_
    intro found s₂ h₂
    split
    · rw [Prog.wp_bind]
      refine (iput_spec h₂).mono ?_
      intro _ s₃ h₃
      rw [Prog.wp_bind, wp_currentTime, Prog.wp_bind]
      have h₄ := setInode_keep (i := i) (f := fun inode =>
        { inode with iNlinks := (inode.iNlinks + 1) % 256, iCtime := s₃.currentTime, iDirt := true }) h₃
        fun _ => rfl
      refine h₄.mono ?_
      intro _ s₅ h₅
      exact iput_pure_spec h₅ fun _ h₆ => h₆
    · exact exitTwo_spec h₂
  · show Prog.wp (_ >>= _) _ s₁
    rw [Prog.wp_bind]
    refine (service_spec h₁).mono ?_
    intro _ s₂ h₂
    exact exitTwo_spec h₂

/-- `sys_link` gives back all that it takes. -/
lemma sysLink_spec {oldname newname : Path.CString} (h : Holds t R s) :
    Prog.wp (sysLink sv c oldname newname) (fun _ => Holds t R) s := by
  rw [sysLink, Prog.wp_bind]
  refine (pathNamei_spec h).mono ?_
  rintro (_ | i) s₁ h₁
  · rw [Prog.wp_pure]
    exact h₁
  · show Prog.wp (_ >>= _) _ s₁
    rw [Prog.wp_bind, wp_inodeAt]
    split
    · exact exitOne_spec h₁
    · rw [Prog.wp_bind]
      refine (pathDirNamei_spec h₁).mono ?_
      rintro (_ | ⟨dir, basename⟩) s₂ h₂
      · exact exitOne_spec h₂
      · exact linkIn_spec h₂

/-- What is done to the inode changes no count. -/
lemma onInode_spec {path : Path.CString} {f : Fin 32 → Prog (Tables κ) Int}
    (hf : ∀ {R i s}, Holds t R s → Prog.wp (f i) (fun _ => Holds t R) s) (h : Holds t R s) :
    Prog.wp (onInode sv c path f) (fun _ => Holds t R) s := by
  rw [onInode, Prog.wp_bind]
  refine (pathNamei_spec h).mono ?_
  rintro (_ | i) s₁ h₁
  · rw [Prog.wp_pure]
    exact h₁
  · show Prog.wp (_ >>= _) _ s₁
    rw [Prog.wp_bind]
    refine (hf h₁).mono ?_
    intro r s₂ h₂
    exact iput_pure_spec h₂ fun _ h₃ => h₃

/-- Setting fields that are no count, and a value. -/
lemma setInode_pure_spec {f : MInode → MInode} {a : Int} (h : Holds t R s)
    (hf : ∀ m : MInode, (f m).iCount = m.iCount) :
    Prog.wp (setInode i f >>= fun _ => pure a) (fun _ => Holds t R) s := by
  rw [Prog.wp_bind]
  refine (setInode_keep h hf).mono ?_
  intro _ s₁ h₁
  rw [Prog.wp_pure]
  exact h₁

/-- `sys_chmod` gives back all that it takes. -/
lemma sysChmod_spec {filename : Path.CString} {mode : BitVec 16} (h : Holds t R s) :
    Prog.wp (sysChmod sv c filename mode) (fun _ => Holds t R) s := by
  refine onInode_spec ?_ h
  intro R i s h
  rw [Prog.wp_bind, wp_inodeAt, Prog.wp_bind]
  apply wp_current
  intro p _
  split
  · rw [Prog.wp_pure]
    exact h
  · exact setInode_pure_spec h fun _ => rfl

/-- `sys_chown` gives back all that it takes. -/
lemma sysChown_spec {filename : Path.CString} {uid : BitVec 16} {gid : BitVec 8} (h : Holds t R s) :
    Prog.wp (sysChown sv c filename uid gid) (fun _ => Holds t R) s := by
  refine onInode_spec ?_ h
  intro R i s h
  rw [Prog.wp_bind]
  apply wp_current
  intro p _
  split
  · rw [Prog.wp_pure]
    exact h
  · exact setInode_pure_spec h fun _ => rfl

/-- Reading the times keeps the references. -/
lemma utimeTimes_spec {times : BitVec 64} (h : Holds t R s) :
    Prog.wp (utimeTimes sv times) (fun _ => Holds t R) s := by
  rw [utimeTimes]
  split
  · exact service_spec h
  · rw [Prog.wp_bind, wp_currentTime, Prog.wp_pure]
    exact h

/-- `sys_utime` gives back all that it takes. -/
lemma sysUtime_spec {filename : Path.CString} {times : BitVec 64} (h : Holds t R s) :
    Prog.wp (sysUtime sv c filename times) (fun _ => Holds t R) s := by
  refine onInode_spec ?_ h
  intro R i s h
  rw [Prog.wp_bind]
  refine (utimeTimes_spec h).mono ?_
  rintro ⟨actime, modtime⟩ s₁ h₁
  exact setInode_pure_spec h₁ fun _ => rfl

/-- `cp_stat` keeps the references. -/
lemma cpStat_spec {m : MInode} {statbuf : BitVec 64} {a : Int} (h : Holds t R s) :
    Prog.wp (service (sv.cpStat m statbuf) >>= fun _ => pure a) (fun _ => Holds t R) s := by
  rw [Prog.wp_bind]
  refine (service_spec h).mono ?_
  intro _ s₁ h₁
  rw [Prog.wp_pure]
  exact h₁

/-- `sys_stat` gives back all that it takes. -/
lemma sysStat_spec {filename : Path.CString} {statbuf : BitVec 64} (h : Holds t R s) :
    Prog.wp (sysStat sv c filename statbuf) (fun _ => Holds t R) s := by
  refine onInode_spec ?_ h
  intro R i s h
  rw [Prog.wp_bind, wp_inodeAt]
  exact cpStat_spec h

/-- `sys_fstat` keeps the references. -/
lemma sysFstat_spec {fd : Nat} {statbuf : BitVec 64} (h : Holds t R s) :
    Prog.wp (sysFstat sv c fd statbuf) (fun _ => Holds t R) s := by
  rw [sysFstat, Prog.wp_bind]
  apply wp_current
  intro p _
  split
  · split
    · rw [Prog.wp_pure]
      exact h
    · rw [Prog.wp_bind, fileAt, Prog.wp_bind, Prog.wp_get, Prog.wp_pure]
      split
      · rw [Prog.wp_pure]
        exact h
      · rw [Prog.wp_bind, wp_inodeAt]
        exact cpStat_spec h
  · rw [Prog.wp_pure]
    exact h

end OldLinux.Files
