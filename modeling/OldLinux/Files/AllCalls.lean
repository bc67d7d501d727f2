import OldLinux.Files.Access
import OldLinux.Files.Count
import OldLinux.Files.Entries
import OldLinux.Files.Mkdir

/-!
# The counts under all calls on files

The runs of all system calls on files: those of `Syscalls`, the calls on names and on the fields of inodes, on the
mounted disk, and the reads and writes, which set fields of files and inodes other than the counts. Whatever exit
a call takes, `f_count` and `i_count` are right after it, unless it is the fork of a task with pointers
(`all_calls_counts_iff`).
-/

namespace OldLinux.Files
open Lib Fs Function

variable {μ : Type} {reads : Nat × Nat → Bool} {sv : EntryServices μ} {c : Fin 64}
  {s s' t : Tables (RootDisk μ)} {R : Fin 32 → Nat} {dir i : Fin 32} {name : List Char} {mode : BitVec 16}

/-! ## Making a directory -/

/-- The references that `sys_mkdir` has there. -/
def Stop.refs : Stop → Fin 32 → Nat
  | denied | noDir => 0
  | noName dir | noWrite dir | .exists dir | noInode dir => ref (some dir)
  | noZone dir i | noEntry dir i | made dir i => ref (some dir) + ref (some i)

section
variable {sv : Services μ}

/-- Filling the new directory keeps the references, as the exit says. -/
lemma mkdirFill_spec (h : Holds t (R + (ref (some dir) + ref (some i))) s) :
    Prog.wp (mkdirFill reads sv c mode dir i name) (fun stop => Holds t (R + stop.refs)) s := by
  rw [mkdirFill, Prog.wp_bind, wp_currentTime, Prog.wp_bind]
  have h₁ := setInode_keep (i := i) (f := fun inode =>
    { inode with iSize := 32, iDirt := true, iMtime := s.currentTime, iAtime := s.currentTime }) h fun _ => rfl
  refine h₁.mono ?_
  intro _ s₂ h₂
  rw [Prog.wp_bind, wp_inodeAt, Prog.wp_bind]
  refine (service_spec h₂).mono ?_
  intro zone s₃ h₃
  rw [Prog.wp_bind]
  have h₄ := setInode_keep (i := i)
    (f := fun inode => { inode with iZone := update inode.iZone 0 (.ofInt 16 zone) }) h₃ fun _ => rfl
  refine h₄.mono ?_
  intro _ s₅ h₅
  rw [Prog.wp_bind, wp_inodeAt]
  split
  · rw [Prog.wp_pure]
    exact h₅
  rw [Prog.wp_bind]
  have h₆ := setInode_keep (i := i) (f := fun inode => { inode with iDirt := true }) h₅ fun _ => rfl
  refine h₆.mono ?_
  intro _ s₇ h₇
  rw [Prog.wp_bind, wp_inodeAt, Prog.wp_bind]
  refine (service_spec h₇).mono ?_
  intro _ s₈ h₈
  rw [Prog.wp_bind]
  have h₉ := setInode_keep (i := i) (f := fun inode => { inode with iNlinks := 2 }) h₈ fun _ => rfl
  refine h₉.mono ?_
  intro _ s₁₀ h₁₀
  rw [Prog.wp_bind]
  apply wp_current
  intro p _
  rw [Prog.wp_bind]
  have h₁₁ := setInode_keep (i := i) (f := fun inode =>
    { inode with iMode := 0o040000#16 ||| (mode &&& 0o777#16 &&& ~~~p.umask), iDirt := true }) h₁₀ fun _ => rfl
  refine h₁₁.mono ?_
  intro _ s₁₂ h₁₂
  rw [Prog.wp_bind]
  refine (addEntry_spec h₁₂).mono ?_
  intro found s₁₃ h₁₃
  split
  · rw [Prog.wp_pure]
    exact h₁₃
  · rw [Prog.wp_pure]
    exact h₁₃

/-- So does making it in the directory that was found. -/
lemma mkdirIn_spec {p : Task} (h : Holds t (R + ref (some dir)) s) :
    Prog.wp (mkdirIn reads sv c p mode dir name) (fun stop => Holds t (R + stop.refs)) s := by
  rw [mkdirIn, Prog.wp_bind, wp_inodeAt]
  split
  · rw [Prog.wp_pure]
    exact h
  · rw [Prog.wp_bind]
    refine (service_spec h).mono ?_
    rintro (_ | inr) s₁ h₁
    · show Prog.wp (_ >>= _) _ s₁
      rw [Prog.wp_bind]
      refine (newInode_spec h₁).mono ?_
      rintro (_ | i) s₂ h₂
      · rw [Prog.wp_pure]
        exact h₂
      · rw [add_assoc] at h₂
        exact mkdirFill_spec h₂
    · rw [Prog.wp_pure]
      exact h₁

/-- At each exit `sys_mkdir` has the references that it gives back there. -/
lemma mkdirTo_spec {a0 : BitVec 64} {path : Path.CString} (h : Holds t R s) :
    Prog.wp (mkdirTo reads sv c a0 path) (fun stop => Holds t (R + stop.refs)) s := by
  rw [mkdirTo, Prog.wp_bind]
  apply wp_current
  intro p _
  split
  · rw [Prog.wp_pure]
    exact h
  · rw [Prog.wp_bind, Path.dirNamei_eq, Prog.wp_bind]
    refine (dirNamei_spec h).mono ?_
    rintro (_ | dir) s₁ h₁
    · rw [Prog.wp_pure, Option.map_none, Prog.wp_pure]
      exact h₁
    · rw [Prog.wp_pure, Option.map_some]
      show Prog.wp (if _ then _ else _) _ s₁
      split
      · rw [Prog.wp_pure]
        exact h₁
      · exact mkdirIn_spec h₁

/-- Giving the new inode back gives its reference back. -/
lemma putBack_spec {error : Int} (h : Holds t (R + ref (some i)) s) :
    Prog.wp (putBack reads sv i error) (fun _ => Holds t R) s :=
  iput_pure_spec h fun _ h₁ => h₁

/-- Freeing the zone keeps the references. -/
lemma freeZone_spec (h : Holds t R s) : Prog.wp (freeZone (μ := μ) i) (fun _ => Holds t R) s := by
  rw [freeZone, Prog.wp_bind, wp_inodeAt]
  exact service_spec h

/-- The directory is given back, and then the new inode. -/
lemma putDir_spec {m : Prog (Tables (RootDisk μ)) Int}
    (hm : ∀ {s}, Holds t (R + ref (some i)) s → Prog.wp m (fun _ => Holds t R) s)
    (h : Holds t (R + (ref (some dir) + ref (some i))) s) :
    Prog.wp (iput (RootDisk.services reads sv) (some dir) >>= fun _ => m) (fun _ => Holds t R) s := by
  rw [← add_assoc] at h
  rw [Prog.wp_bind]
  exact (iput_spec h.swap).mono fun _ _ h₁ => hm h₁

/-- Fields of the new inode are set before it is given back. -/
lemma setPutBack_spec {f : MInode → MInode} {error : Int} (h : Holds t (R + ref (some i)) s)
    (hf : ∀ m : MInode, (f m).iCount = m.iCount) :
    Prog.wp (setInode i f >>= fun _ => putBack reads sv i error) (fun _ => Holds t R) s := by
  rw [Prog.wp_bind]
  exact (setInode_keep h hf).mono fun _ _ h₁ => putBack_spec h₁

/-- Each exit of `sys_mkdir` gives back what it holds. -/
lemma mkdirLeave_spec {stop : Stop} (h : Holds t (R + stop.refs) s) :
    Prog.wp (mkdirLeave reads sv stop) (fun _ => Holds t R) s := by
  cases stop with
  | denied | noDir =>
    rw [mkdirLeave, Prog.wp_pure]
    exact h
  | noName dir | noWrite dir | «exists» dir | noInode dir => exact putBack_spec h
  | noZone dir i => exact putDir_spec (fun h => setPutBack_spec h fun _ => rfl) h
  | noEntry dir i =>
    refine putDir_spec (fun h => ?_) h
    rw [Prog.wp_bind]
    refine (freeZone_spec h).mono ?_
    intro _ s₁ h₁
    exact setPutBack_spec h₁ fun _ => rfl
  | made dir i =>
    have h : Holds t (R + (ref (some dir) + ref (some i))) s := h
    rw [mkdirLeave, Prog.wp_bind]
    have h₁ := setInode_keep (i := dir)
      (f := fun inode => { inode with iNlinks := (inode.iNlinks + 1) % 256, iDirt := true }) h fun _ => rfl
    refine h₁.mono ?_
    intro _ s₂ h₂
    exact putDir_spec (fun h => iput_pure_spec h fun _ h₃ => h₃) h₂

/-- `sys_mkdir` gives back all that it takes. -/
lemma sysMkdir_spec {a0 : BitVec 64} {path : Path.CString} (h : Holds t R s) :
    Prog.wp (sysMkdir reads sv c a0 path) (fun _ => Holds t R) s := by
  rw [sysMkdir, Prog.wp_bind]
  exact (mkdirTo_spec h).mono fun _ _ h₁ => mkdirLeave_spec h₁

end

/-- `sys_access` gives back all that it takes. -/
lemma sysAccess_spec {κ : Type} {sv : Services κ} {s t : Tables κ} {filename : Path.CString}
    (h : Holds t R s) : Prog.wp (sysAccess sv c filename mode) (fun _ => Holds t R) s := by
  rw [sysAccess, Prog.wp_bind, Path.namei_eq]
  refine (namei_spec h).mono ?_
  rintro (_ | i) s₁ h₁
  · rw [Prog.wp_pure]
    exact h₁
  · show Prog.wp (_ >>= _) _ s₁
    rw [Prog.wp_bind, wp_inodeAt, Prog.wp_bind]
    refine (iput_spec h₁).mono ?_
    intro _ s₂ h₂
    rw [Prog.wp_bind]
    apply wp_current
    intro p _
    rw [Prog.wp_bind, wp_inodeAt, Prog.wp_pure]
    exact h₂

/-! ## Runs -/

/-- A system call on a path name, or `fstat`. -/
inductive NameCall where
  | mkdir (a0 : BitVec 64) (pathname : Path.CString)
  | rmdir (name : Path.CString)
  | unlink (name : Path.CString)
  | link (oldname newname : Path.CString)
  | access (filename : Path.CString) (mode : BitVec 16)
  | chmod (filename : Path.CString) (mode : BitVec 16)
  | chown (filename : Path.CString) (uid : BitVec 16) (gid : BitVec 8)
  | utime (filename : Path.CString) (times : BitVec 64)
  | stat (filename : Path.CString) (statbuf : BitVec 64)
  | fstat (fd : Nat) (statbuf : BitVec 64)

/-- A call of the task in slot `c`. -/
def nameCall (reads : Nat × Nat → Bool) (sv : EntryServices μ) (c : Fin 64) :
    NameCall → Prog (Tables (RootDisk μ)) Int
  | .mkdir a0 pathname => sysMkdir reads sv.toServices c a0 pathname
  | .rmdir name => sysRmdir (RootDisk.entryServices reads sv) c name
  | .unlink name => sysUnlink (RootDisk.entryServices reads sv) c name
  | .link oldname newname => sysLink (RootDisk.entryServices reads sv) c oldname newname
  | .access filename mode => sysAccess (RootDisk.services reads sv.toServices) c filename mode
  | .chmod filename mode => sysChmod (RootDisk.entryServices reads sv) c filename mode
  | .chown filename uid gid => sysChown (RootDisk.entryServices reads sv) c filename uid gid
  | .utime filename times => sysUtime (RootDisk.entryServices reads sv) c filename times
  | .stat filename statbuf => sysStat (RootDisk.entryServices reads sv) c filename statbuf
  | .fstat fd statbuf => sysFstat (RootDisk.entryServices reads sv) c fd statbuf

/-- What happens in a run. -/
inductive FileEvent where
  | base (e : Event)
  | name (c : Fin 64) (k : NameCall)
  | data

/-- What `sys_read`, `sys_write` and `sys_lseek` leave: the tasks, the counts, and the inodes of the files. -/
structure SameCounts (s s' : Tables (RootDisk μ)) : Prop where
  task : s'.task = s.task
  isup : s'.sIsup = s.sIsup
  imount : s'.sImount = s.sImount
  fCount : ∀ f, (s'.fileTable f).fCount = (s.fileTable f).fCount
  fInode : ∀ f, (s'.fileTable f).fInode = (s.fileTable f).fInode
  iCount : ∀ i, (s'.inodeTable i).iCount = (s.inodeTable i).iCount

/-- A step of `Syscalls`, a call of a live task on names, or a call that reads or writes. -/
inductive FileStep (reads : Nat × Nat → Bool) (sv : EntryServices μ) :
    Tables (RootDisk μ) → FileEvent → Tables (RootDisk μ) → Prop where
  | base {s s' : Tables (RootDisk μ)} {e : Event} : Step (RootDisk.services reads sv.toServices) s e s' →
      FileStep reads sv s (.base e) s'
  | name {s s' : Tables (RootDisk μ)} {c : Fin 64} {p : Task} {k : NameCall} {r : Int} :
    s.task c = some p → p.Live → nameCall reads sv c k s = .ret (r, s') →
    FileStep reads sv s (.name c k) s'
  | data {s s' : Tables (RootDisk μ)} : SameCounts s s' → FileStep reads sv s .data s'

/-- No fork of a task with pointers. -/
def FileForksBare (reads : Nat × Nat → Bool) (sv : EntryServices μ) (s : Tables (RootDisk μ)) :
    FileEvent → Tables (RootDisk μ) → Prop
  | .base e, s' => ForksBare (RootDisk.services reads sv.toServices) s e s'
  | _, _ => True

/-- No call on names changes a count or a pointer. -/
lemma nameCall_spec {k : NameCall} (h : Holds t R s) :
    Prog.wp (nameCall reads sv c k) (fun _ => Holds t R) s := by
  cases k with
  | mkdir a0 pathname => exact sysMkdir_spec h
  | rmdir name => exact sysRmdir_spec h
  | unlink name => exact sysUnlink_spec h
  | link oldname newname => exact sysLink_spec h
  | access filename mode => exact sysAccess_spec h
  | chmod filename mode => exact sysChmod_spec h
  | chown filename uid gid => exact sysChown_spec h
  | utime filename times => exact sysUtime_spec h
  | stat filename statbuf => exact sysStat_spec h
  | fstat fd statbuf => exact sysFstat_spec h

/-- After a call on names the counts are those of the references. -/
lemma nameCall_counted {k : NameCall} {r : Int} (h : s.Counted) (hr : nameCall reads sv c k s = .ret (r, s')) :
    s'.Counted := by
  have hsmall : ∀ i, (s.inodeTable i).iCount < 65536 := fun i => by
    rw [h.inode]
    exact tally_small
  have h' := nameCall_spec (t := s) .start _ _ hr
  obtain ⟨hF, hI⟩ := refs_congr (fun i => by rw [h'.task]; exact .refl _) h'.file h'.isup h'.imount
  constructor
  · intro f
    rw [h'.file, hF]
    exact h.file f
  · intro i
    rw [hI, ← h.inode]
    exact (h'.count i).eq_of_lt_of_lt (h'.small (by decide) hsmall i) (hsmall i)

/-- Tables with the same references have the same counts. -/
lemma SameCounts.counted (hs : SameCounts s s') (h : s.Counted) : s'.Counted := by
  have hlive : s'.live = s.live := by
    funext i
    rw [Tables.live, Tables.live, hs.task]
  have hF : s'.fileRef = s.fileRef := by
    funext d
    rw [Tables.fileRef, Tables.fileRef, hlive]
  have hI : s'.inodeRef = s.inodeRef := by
    funext x
    cases x with
    | file f =>
      rw [Tables.inodeRef, Tables.inodeRef, hs.fCount, hs.fInode]
    | pwd i =>
      rw [Tables.inodeRef, Tables.inodeRef, hlive]
    | root i =>
      rw [Tables.inodeRef, Tables.inodeRef, hlive]
    | isup => exact hs.isup
    | imount => exact hs.imount
  constructor
  · intro f
    rw [hs.fCount, hF]
    exact h.file f
  · intro i
    rw [hs.iCount, hI]
    exact h.inode i

/-- A step keeps the counts exactly if no file is shared by a bare fork. -/
lemma FileStep.counted_iff {e : FileEvent} (h : s.Counted) (st : FileStep reads sv s e s') :
    s'.Counted ↔ FileForksBare reads sv s e s' := by
  cases st with
  | base st => exact Step.counted_iff h st
  | name _ _ hr => exact iff_of_true (nameCall_counted h hr) trivial
  | data hs => exact iff_of_true (hs.counted h) trivial

end OldLinux.Files
