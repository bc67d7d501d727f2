import OldLinux.Files.Inode

/-!
# Path names

Model of `permission`, `get_dir`, `dir_namei`, `namei` and `open_namei` (`fs/namei.c`). A path name is
the list of its characters. `get_dir` walks through the names before the last slash, and `dir_namei`
gives the name behind it; both come from splitting the path at the slashes.

Each of these functions leaves the counts as they were, but for one reference to the inode it returns.
-/

namespace OldLinux.Files
open Lib Fs Function

variable {κ : Type} (sv : Services κ)

def eperm : Int := 1

def enoent : Int := 2

def ebadf : Int := 9

def eagain : Int := 11

def eacces : Int := 13

def eexist : Int := 17

def enotdir : Int := 20

def eisdir : Int := 21

def einval : Int := 22

def emfile : Int := 24

def enospc : Int := 28

/-- The flags of `include/fcntl.h`. -/
def oAccmode : BitVec 32 := 0o0003#32

def oWronly : BitVec 32 := 0o0001#32

def oCreat : BitVec 32 := 0o0100#32

def oExcl : BitVec 32 := 0o0200#32

def oTrunc : BitVec 32 := 0o1000#32

def oAppend : BitVec 32 := 0o2000#32

def oNonblock : BitVec 32 := 0o4000#32

def mayExec : BitVec 16 := 1

def mayWrite : BitVec 16 := 2

/-- `ACC_MODE(x)`, a character of `"\004\002\006\377"`. -/
def accMode (x : BitVec 32) : BitVec 16 :=
  if x &&& oAccmode = 0 then 0o4#16
  else if x &&& oAccmode = 1 then 0o2#16
  else if x &&& oAccmode = 2 then 0o6#16
  else 0o377#16

/-- `permission(inode, mask)` for the task `t`. -/
def permission (t : Task) (inode : MInode) (mask : BitVec 16) : BitVec 16 :=
  if inode.iDev ≠ 0 ∧ inode.iNlinks = 0 then 0
  else
    let mode :=
      if ¬ (t.uid ≠ 0 ∧ t.euid ≠ 0) then 0o777#16
      else if t.uid = inode.iUid ∨ t.euid = inode.iUid then inode.iMode >>> 6
      else if t.gid = inode.iGid.setWidth 16 ∨ t.egid = inode.iGid.setWidth 16 then inode.iMode >>> 3
      else inode.iMode
    mode &&& mask &&& 7

/-- The names of the directories that `get_dir` goes through. -/
def dirNames (pathname : List Char) : List (List Char) :=
  let pathname := if pathname.head? = some '/' then pathname.tail else pathname
  (pathname.splitOn '/').dropLast

/-- The name `dir_namei` gives, what comes after the last slash. -/
def basename (pathname : List Char) : List Char :=
  (pathname.splitOn '/').getLastD []

/-- The loop of `get_dir` at a directory, with the names still to go. -/
def getDirLoop (c : Fin 64) : List (List Char) → Fin 32 → Prog (Tables κ) (Option (Fin 32))
  | names, i => do
    let inode ← inodeAt i
    let t ← current c
    if ¬ isDir inode.iMode ∨ permission t inode mayExec = 0 then do
      iput sv (some i)
      pure none
    else
      match names with
      | [] => pure (some i)
      | name :: names => do
        match ← service (sv.findEntry inode.iDev inode.toDInode name) with
        | none =>
          iput sv (some i)
          pure none
        | some inr =>
          iput sv (some i)
          let i ← iget sv inode.iDev inr
          getDirLoop c names i

/-- `!p || !p->i_count` for a pointer to an inode. -/
def unused (p : Option (Fin 32)) : Prog (Tables κ) Bool := do
  match p with
  | none => pure true
  | some i =>
    let inode ← inodeAt i
    pure (inode.iCount == 0)

/-- `get_dir(pathname)`. -/
def getDir (c : Fin 64) (pathname : List Char) : Prog (Tables κ) (Option (Fin 32)) := do
  let t ← current c
  if ← unused t.root then Prog.panic "No root inode"
  else if ← unused t.pwd then Prog.panic "No cwd inode"
  else
    match if pathname.head? = some '/' then t.root else if pathname ≠ [] then t.pwd else none with
    | none => pure none
    | some i =>
      addCount i
      getDirLoop sv c (dirNames pathname) i

/-- `dir_namei(pathname, ..)`; the name within the directory is `basename pathname`. -/
def dirNamei (c : Fin 64) (pathname : List Char) : Prog (Tables κ) (Option (Fin 32)) :=
  getDir sv c pathname

/-- `namei(pathname)`. -/
def namei (c : Fin 64) (pathname : List Char) : Prog (Tables κ) (Option (Fin 32)) := do
  match ← dirNamei sv c pathname with
  | none => pure none
  | some dir =>
    if basename pathname = [] then pure (some dir)
    else
      let inode ← inodeAt dir
      match ← service (sv.findEntry inode.iDev inode.toDInode (basename pathname)) with
      | none =>
        iput sv (some dir)
        pure none
      | some inr =>
        iput sv (some dir)
        let i ← iget sv inode.iDev inr
        let now ← currentTime
        setInode i fun inode => { inode with iAtime := now, iDirt := true }
        pure (some i)

/-- `add_entry(dir, ..)`, and `de->inode = nr` if there is room. -/
def addEntry (dir : Fin 32) (name : List Char) (nr : Nat) : Prog (Tables κ) Bool := do
  let inode ← inodeAt dir
  let (found, upd) ←
    service (sv.addEntry inode.iDev ⟨inode.toDInode, inode.iCtime, inode.iDirt⟩ name nr)
  setInode dir fun inode =>
    { inode with toDInode := upd.inode, iCtime := upd.ctime, iDirt := upd.dirt }
  pure found

/-- The part of `open_namei` that makes a new file in the directory `dir`. -/
def openCreate (c : Fin 64) (dir : Fin 32) (name : List Char) (flag : BitVec 32) (mode : BitVec 16) :
    Prog (Tables κ) (Except Int (Fin 32)) := do
  let inode ← inodeAt dir
  let t ← current c
  if flag &&& oCreat = 0 then do
    iput sv (some dir)
    pure (.error (-enoent))
  else if permission t inode mayWrite = 0 then do
    iput sv (some dir)
    pure (.error (-eacces))
  else
    match ← newInode sv inode.iDev with
    | none =>
      iput sv (some dir)
      pure (.error (-enospc))
    | some i =>
      setInode i fun inode => { inode with iMode := mode, iDirt := true }
      let new ← inodeAt i
      if ← addEntry sv dir name new.iNum then
        iput sv (some dir)
        pure (.ok i)
      else
        setInode i fun inode => { inode with iNlinks := inode.iNlinks - 1 }
        iput sv (some i)
        iput sv (some dir)
        pure (.error (-enospc))

/-- The part of `open_namei` that opens the inode `inr` of a device. -/
def openFound (c : Fin 64) (dev inr : Nat) (flag : BitVec 32) :
    Prog (Tables κ) (Except Int (Fin 32)) := do
  if flag &&& oExcl ≠ 0 then pure (.error (-eexist))
  else
    let i ← iget sv dev inr
    let inode ← inodeAt i
    let t ← current c
    if (isDir inode.iMode ∧ flag &&& oAccmode ≠ 0) ∨
        permission t inode (accMode flag) ≠ accMode flag then do
      iput sv (some i)
      pure (.error (-eperm))
    else
      let now ← currentTime
      setInode i fun inode => { inode with iAtime := now }
      if flag &&& oTrunc ≠ 0 then do
        truncate sv i
        pure (.ok i)
      else pure (.ok i)

/-- `if ((flag & O_TRUNC) && !(flag & O_ACCMODE)) flag |= O_WRONLY`. -/
def openFlag (flag : BitVec 32) : BitVec 32 :=
  if flag &&& oTrunc ≠ 0 ∧ flag &&& oAccmode = 0 then flag ||| oWronly else flag

/-- `open_namei(pathname, flag, mode, res_inode)`: the inode in `*res_inode` or the error. -/
def openNamei (c : Fin 64) (pathname : List Char) (flag : BitVec 32) (mode : BitVec 16) :
    Prog (Tables κ) (Except Int (Fin 32)) := do
  let t ← current c
  let flag := openFlag flag
  let mode := (mode &&& 0o777#16 &&& ~~~t.umask) ||| 0o100000#16
  match ← dirNamei sv c pathname with
  | none => pure (.error (-enoent))
  | some dir =>
    if basename pathname = [] then
      if flag &&& (oAccmode ||| oCreat ||| oTrunc) = 0 then pure (.ok dir)
      else do
        iput sv (some dir)
        pure (.error (-eisdir))
    else
      let inode ← inodeAt dir
      match ← service (sv.findEntry inode.iDev inode.toDInode (basename pathname)) with
      | none => openCreate sv c dir (basename pathname) flag mode
      | some inr =>
        iput sv (some dir)
        openFound sv c inode.iDev inr flag

/-! ## References -/

variable {sv} {t s : Tables κ} {R : Fin 32 → Nat} {c : Fin 64}

/-- `current` is the task. -/
lemma wp_current {Q : Task → Tables κ → Prop} (h : ∀ t, s.task c = some t → Q t s) :
    Prog.wp (current c) Q s := by
  rw [current, Prog.wp_bind, Prog.wp_get]
  cases ht : s.task c with
  | none => exact Prog.wp_fault
  | some t =>
    show Prog.wp (pure t) Q s
    rw [Prog.wp_pure]
    exact h t ht

/-- `iput`, and then a value that names no inode. -/
lemma iput_pure_spec {α : Type} {r : Option (Fin 32)} {a : α} (h : Holds t (R + ref r) s)
    {Q : α → Tables κ → Prop} (hQ : ∀ s', Holds t R s' → Q a s') :
    Prog.wp (iput sv r >>= fun _ => pure a) Q s := by
  rw [Prog.wp_bind]
  refine (iput_spec h).mono ?_
  intro _ s₁ h₁
  rw [Prog.wp_pure]
  exact hQ s₁ h₁

/-- The loop of `get_dir` trades one reference for another. -/
lemma getDirLoop_spec {names : List (List Char)} {i : Fin 32} (h : Holds t (R + ref (some i)) s) :
    Prog.wp (getDirLoop sv c names i) (fun r => Holds t (R + ref r)) s := by
  induction names generalizing s i with
  | nil =>
    rw [getDirLoop, Prog.wp_bind, wp_inodeAt, Prog.wp_bind]
    apply wp_current
    intro _ _
    split
    · exact iput_pure_spec h fun _ h₁ => h₁
    · rw [Prog.wp_pure]
      exact h
  | cons name names ih =>
    rw [getDirLoop, Prog.wp_bind, wp_inodeAt, Prog.wp_bind]
    apply wp_current
    intro _ _
    split
    · exact iput_pure_spec h fun _ h₁ => h₁
    · rw [Prog.wp_bind]
      refine (service_spec h).mono ?_
      intro inr s₁ h₁
      cases inr with
      | none => exact iput_pure_spec h₁ fun _ h₂ => h₂
      | some inr =>
        rw [Prog.wp_bind]
        refine (iput_spec h₁).mono ?_
        intro _ s₂ h₂
        rw [Prog.wp_bind]
        refine (iget_spec h₂).mono ?_
        intro i' s₃ h₃
        exact ih h₃

/-- Looking at a pointer changes nothing. -/
lemma unused_spec {p : Option (Fin 32)} (h : Holds t R s) :
    Prog.wp (unused p) (fun _ => Holds t R) s := by
  cases p with
  | none =>
    rw [unused, Prog.wp_pure]
    exact h
  | some i =>
    rw [unused, Prog.wp_bind, wp_inodeAt, Prog.wp_pure]
    exact h

/-- `dir_namei` gives one reference. -/
lemma dirNamei_spec {pathname : List Char} (h : Holds t R s) :
    Prog.wp (dirNamei sv c pathname) (fun r => Holds t (R + ref r)) s := by
  rw [dirNamei, getDir, Prog.wp_bind]
  apply wp_current
  intro p _
  rw [Prog.wp_bind]
  refine (unused_spec h).mono ?_
  intro b s₁ h₁
  split
  · exact Prog.wp_panic
  · rw [Prog.wp_bind]
    refine (unused_spec h₁).mono ?_
    intro b' s₂ h₂
    split
    · exact Prog.wp_panic
    · split
      · rw [Prog.wp_pure]
        exact h₂
      · rw [Prog.wp_bind]
        refine (addCount_spec h₂).mono ?_
        intro _ s₃ h₃
        exact getDirLoop_spec h₃

/-- `namei` gives one reference. -/
lemma namei_spec {pathname : List Char} (h : Holds t R s) :
    Prog.wp (namei sv c pathname) (fun r => Holds t (R + ref r)) s := by
  rw [namei, Prog.wp_bind]
  refine (dirNamei_spec h).mono ?_
  intro dir s₁ h₁
  cases dir with
  | none =>
    rw [Prog.wp_pure]
    exact h₁
  | some dir =>
    show Prog.wp (if _ then _ else _) _ s₁
    split
    · rw [Prog.wp_pure]
      exact h₁
    · rw [Prog.wp_bind, wp_inodeAt, Prog.wp_bind]
      refine (service_spec h₁).mono ?_
      intro inr s₂ h₂
      cases inr with
      | none => exact iput_pure_spec h₂ fun _ h₃ => h₃
      | some inr =>
        rw [Prog.wp_bind]
        refine (iput_spec h₂).mono ?_
        intro _ s₃ h₃
        rw [Prog.wp_bind]
        refine (iget_spec h₃).mono ?_
        intro i s₄ h₄
        rw [Prog.wp_bind, wp_currentTime, Prog.wp_bind]
        have h₅ : Prog.wp
            (setInode i fun inode => { inode with iAtime := s₄.currentTime, iDirt := true })
            (fun _ => Holds t (R + ref (some i))) s₄ := setInode_keep h₄ fun _ => rfl
        refine h₅.mono ?_
        intro _ s₆ h₆
        rw [Prog.wp_pure]
        exact h₆

/-- `add_entry` keeps the references. -/
lemma addEntry_spec {dir : Fin 32} {name : List Char} {nr : Nat} (h : Holds t R s) :
    Prog.wp (addEntry sv dir name nr) (fun _ => Holds t R) s := by
  rw [addEntry, Prog.wp_bind, wp_inodeAt, Prog.wp_bind]
  refine (service_spec h).mono ?_
  intro a s₁ h₁
  rw [Prog.wp_bind]
  have h₂ : Prog.wp
      (setInode dir fun inode =>
        { inode with toDInode := a.2.inode, iCtime := a.2.ctime, iDirt := a.2.dirt })
      (fun _ => Holds t R) s₁ := setInode_keep h₁ fun _ => rfl
  refine h₂.mono ?_
  intro _ s₃ h₃
  rw [Prog.wp_pure]
  exact h₃

/-- The new file that `open_namei` makes comes with one reference, and the directory is given back. -/
lemma openCreate_spec {dir : Fin 32} {name : List Char} {flag : BitVec 32} {mode : BitVec 16}
    (h : Holds t (R + ref (some dir)) s) :
    Prog.wp (openCreate sv c dir name flag mode) (fun r => Holds t (R + ref r.toOption)) s := by
  rw [openCreate, Prog.wp_bind, wp_inodeAt, Prog.wp_bind]
  apply wp_current
  intro _ _
  split
  · exact iput_pure_spec h fun _ h₁ => h₁
  · split
    · exact iput_pure_spec h fun _ h₁ => h₁
    · rw [Prog.wp_bind]
      refine (newInode_spec h).mono ?_
      intro r s₁ h₁
      cases r with
      | none =>
        rw [ref_none, add_zero] at h₁
        exact iput_pure_spec h₁ fun _ h₂ => h₂
      | some i =>
        rw [Prog.wp_bind]
        have h₂ : Prog.wp (setInode i fun inode => { inode with iMode := mode, iDirt := true })
            (fun _ => Holds t (R + ref (some dir) + ref (some i))) s₁ :=
          setInode_keep h₁ fun _ => rfl
        refine h₂.mono ?_
        intro _ s₃ h₃
        rw [Prog.wp_bind, wp_inodeAt, Prog.wp_bind]
        refine (addEntry_spec h₃).mono ?_
        intro found s₄ h₄
        cases found with
        | true => exact iput_pure_spec h₄.swap fun _ h₅ => h₅
        | false =>
          show Prog.wp (_ >>= _) _ s₄
          rw [Prog.wp_bind]
          have h₅ : Prog.wp (setInode i fun inode => { inode with iNlinks := inode.iNlinks - 1 })
              (fun _ => Holds t (R + ref (some dir) + ref (some i))) s₄ :=
            setInode_keep h₄ fun _ => rfl
          refine h₅.mono ?_
          intro _ s₆ h₆
          rw [Prog.wp_bind]
          refine (iput_spec h₆).mono ?_
          intro _ s₇ h₇
          exact iput_pure_spec h₇ fun _ h₈ => h₈

/-- Opening what is there takes a reference if it succeeds. -/
lemma openFound_spec {dev inr : Nat} {flag : BitVec 32} (h : Holds t R s) :
    Prog.wp (openFound sv c dev inr flag) (fun r => Holds t (R + ref r.toOption)) s := by
  rw [openFound]
  split
  · rw [Prog.wp_pure]
    exact h
  · rw [Prog.wp_bind]
    refine (iget_spec h).mono ?_
    intro i s₁ h₁
    rw [Prog.wp_bind, wp_inodeAt, Prog.wp_bind]
    apply wp_current
    intro _ _
    split
    · exact iput_pure_spec h₁ fun _ h₂ => h₂
    · rw [Prog.wp_bind, wp_currentTime, Prog.wp_bind]
      have h₂ : Prog.wp (setInode i fun inode => { inode with iAtime := s₁.currentTime })
          (fun _ => Holds t (R + ref (some i))) s₁ := setInode_keep h₁ fun _ => rfl
      refine h₂.mono ?_
      intro _ s₃ h₃
      split
      · rw [Prog.wp_bind]
        refine (truncate_spec h₃).mono ?_
        intro _ s₄ h₄
        rw [Prog.wp_pure]
        exact h₄
      · rw [Prog.wp_pure]
        exact h₃

/-- `open_namei` gives one reference if it does not fail. -/
lemma openNamei_spec {pathname : List Char} {flag : BitVec 32} {mode : BitVec 16} (h : Holds t R s) :
    Prog.wp (openNamei sv c pathname flag mode) (fun r => Holds t (R + ref r.toOption)) s := by
  rw [openNamei, Prog.wp_bind]
  apply wp_current
  intro p _
  rw [Prog.wp_bind]
  refine (dirNamei_spec h).mono ?_
  intro dir s₁ h₁
  cases dir with
  | none =>
    rw [Prog.wp_pure]
    exact h₁
  | some dir =>
    show Prog.wp (if _ then _ else _) _ s₁
    split
    · split
      · rw [Prog.wp_pure]
        exact h₁
      · exact iput_pure_spec h₁ fun _ h₂ => h₂
    · rw [Prog.wp_bind, wp_inodeAt, Prog.wp_bind]
      refine (service_spec h₁).mono ?_
      intro inr s₂ h₂
      cases inr with
      | none => exact openCreate_spec h₂
      | some inr =>
        rw [Prog.wp_bind]
        refine (iput_spec h₂).mono ?_
        intro _ s₃ h₃
        exact openFound_spec h₃

end OldLinux.Files
