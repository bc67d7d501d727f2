import OldLinux.Files.Tables
import Mathlib.Data.List.FinRange
import Mathlib.Data.Nat.ModEq

/-!
# The inode table

Model of `get_empty_inode`, `get_pipe_inode`, `iget` and `iput` (`fs/inode.c`), `truncate`
(`fs/truncate.c`), `free_inode` and `new_inode` (`fs/bitmap.c`). The system calls run one at a time
here, so no inode is ever found locked and a loop that waits for `i_dirt` to clear goes around once.
`get_empty_inode` panics rather than return a null pointer, so the tests of its callers for one are
left out.

`HoldsMod m t R` says that the inodes have the counts `R` modulo `m` and that all other pointers are as
in `t`. The functions are specified by it: one that returns an inode adds a reference to it, and `iput`
takes one away. As `i_count` is an `unsigned short`, those that add to a count keep `Holds`, where the
modulus is 65536; the others keep it modulo any number, and so exactly, modulo 0.
-/

namespace OldLinux.Files
open Lib Fs Function

variable {κ : Type} (sv : Services κ)

/-- `S_IFMT`, and the types of `include/sys/stat.h`. -/
def sIfmt : BitVec 16 := 0o170000#16

def isReg (m : BitVec 16) : Bool := m &&& sIfmt == 0o100000#16

def isDir (m : BitVec 16) : Bool := m &&& sIfmt == 0o040000#16

def isChr (m : BitVec 16) : Bool := m &&& sIfmt == 0o020000#16

/-- `truncate(inode)`. -/
def truncate (i : Fin 32) : Prog (Tables κ) Unit := do
  let inode ← inodeAt i
  if isReg inode.iMode || isDir inode.iMode then
    service (sv.freeZones inode.iDev inode.iZone)
    let now ← currentTime
    setInode i fun inode =>
      { inode with iZone := fun _ => 0, iSize := 0, iDirt := true, iMtime := now, iCtime := now }
  else pure ()

/-- `free_inode(inode)`. -/
def freeInode (i : Fin 32) : Prog (Tables κ) Unit := do
  let inode ← inodeAt i
  if inode.iDev = 0 then setInode i fun _ => .zero
  else if inode.iCount > 1 then Prog.panic "free_inode"
  else if inode.iNlinks ≠ 0 then Prog.panic "trying to free inode with links"
  else do
    service (sv.freeInodeBit inode.iDev inode.iNum)
    setInode i fun _ => .zero

/-- `write_inode(inode)`. -/
def writeInode (i : Fin 32) : Prog (Tables κ) Unit := do
  let inode ← inodeAt i
  service (sv.writeInode inode.iDev inode.iNum inode.toDInode)
  setInode i fun inode => { inode with iDirt := false }

/-- `while (inode->i_dirt) write_inode(inode)`. -/
def writeIfDirty (i : Fin 32) : Prog (Tables κ) Unit := do
  let inode ← inodeAt i
  if inode.iDirt then writeInode sv i else pure ()

/-- `read_inode(inode)`. -/
def readInode (i : Fin 32) : Prog (Tables κ) Unit := do
  let inode ← inodeAt i
  let d ← service (sv.readInode inode.iDev inode.iNum)
  setInode i fun inode => { inode with toDInode := d }

/-- `inode->i_count--`. -/
def dropCount (i : Fin 32) : Prog (Tables κ) Unit :=
  setInode i fun inode => { inode with iCount := inode.iCount - 1 }

/-- `inode->i_count++`, of an `unsigned short`. -/
def addCount (i : Fin 32) : Prog (Tables κ) Unit :=
  setInode i fun inode => { inode with iCount := (inode.iCount + 1) % 65536 }

/-- `iput(inode)`. -/
def iput : Option (Fin 32) → Prog (Tables κ) Unit
  | none => pure ()
  | some i => do
    let inode ← inodeAt i
    if inode.iCount = 0 then Prog.panic "iput: trying to free free inode"
    else if inode.iPipe then
      if inode.iCount - 1 ≠ 0 then dropCount i
      else do
        service (sv.freePage inode.iSize)
        setInode i fun inode => { inode with iCount := 0, iDirt := false, iPipe := false }
    else if inode.iDev = 0 ∨ inode.iCount > 1 then dropCount i
    else if inode.iNlinks = 0 then do
      truncate sv i
      freeInode sv i
    else do
      writeIfDirty sv i
      dropCount i

/-- The first free slot from `last_allocated_inode` on, going around. -/
def emptySlot (s : Tables κ) : Option (Fin 32) :=
  ((List.finRange 32).map (s.lastAllocatedInode + ·)).find? fun i => (s.inodeTable i).iCount = 0

/-- `get_empty_inode()`. -/
def getEmptyInode : Prog (Tables κ) (Fin 32) := do
  let s ← Prog.get
  match emptySlot s with
  | none => Prog.panic "No free inodes in mem"
  | some i =>
    Prog.modify fun s => { s with lastAllocatedInode := i }
    writeIfDirty sv i
    setInode i fun _ => { MInode.zero with iCount := 1 }
    pure i

/-- `get_pipe_inode()`; `PIPE_HEAD` and `PIPE_TAIL` are zero already. -/
def getPipeInode : Prog (Tables κ) (Option (Fin 32)) := do
  let i ← getEmptyInode sv
  match ← service sv.getFreePage with
  | none =>
    setInode i fun inode => { inode with iCount := 0 }
    pure none
  | some page =>
    setInode i fun inode => { inode with iSize := page, iCount := 2, iPipe := true }
    pure (some i)

/-- `iget(dev, nr)`. -/
def iget (dev nr : Nat) : Prog (Tables κ) (Fin 32) := do
  if dev = 0 then Prog.panic "iget with dev==0"
  else
    let empty ← getEmptyInode sv
    let s ← Prog.get
    match (List.finRange 32).find? fun i =>
      (s.inodeTable i).iDev = dev ∧ (s.inodeTable i).iNum = nr with
    | some i =>
      addCount i
      iput sv (some empty)
      pure i
    | none =>
      setInode empty fun inode => { inode with iDev := dev, iNum := nr }
      readInode sv empty
      pure empty

/-- `new_inode(dev)`. -/
def newInode (dev : Nat) : Prog (Tables κ) (Option (Fin 32)) := do
  let i ← getEmptyInode sv
  match ← service (sv.newInodeBit dev) with
  | none =>
    iput sv (some i)
    pure none
  | some nr =>
    let now ← currentTime
    setInode i fun inode =>
      { inode with
        iCount := 1, iNlinks := 1, iDev := dev, iDirt := true, iNum := nr
        iMtime := now, iAtime := now, iCtime := now }
    pure (some i)

/-! ## References -/

/-- The inodes have the counts `R` modulo `m`, and the other tables are those of `t`. -/
structure HoldsMod (m : Nat) (t : Tables κ) (R : Fin 32 → Nat) (s : Tables κ) : Prop where
  task : s.task = t.task
  file : s.fileTable = t.fileTable
  isup : s.sIsup = t.sIsup
  imount : s.sImount = t.sImount
  count : ∀ i, Nat.ModEq m (s.inodeTable i).iCount (R i)
  small : m ≠ 0 → (∀ i, (t.inodeTable i).iCount < 65536) → ∀ i, (s.inodeTable i).iCount < 65536

/-- The inodes have the counts `R`, as far as an `unsigned short` goes. -/
abbrev Holds (t : Tables κ) (R : Fin 32 → Nat) (s : Tables κ) : Prop := HoldsMod 65536 t R s

variable {sv} {t s : Tables κ} {R : Fin 32 → Nat} {i : Fin 32} {m : Nat}

/-- Reading a slot of the inode table. -/
@[simp] lemma wp_inodeAt {Q : MInode → Tables κ → Prop} :
    Prog.wp (inodeAt i) Q s ↔ Q (s.inodeTable i) s := by
  simp [inodeAt]

/-- Reading the clock. -/
@[simp] lemma wp_currentTime {Q : Nat → Tables κ → Prop} :
    Prog.wp currentTime Q s ↔ Q s.currentTime s := by
  simp [currentTime]

/-- Any state as the one that its references are compared with. -/
lemma HoldsMod.start : HoldsMod m s (fun i => (s.inodeTable i).iCount) s :=
  ⟨rfl, rfl, rfl, rfl, fun _ => rfl, fun _ h => h⟩

/-- Modulo 0 the counts are exact. -/
lemma HoldsMod.exact (h : HoldsMod 0 t R s) (i : Fin 32) : (s.inodeTable i).iCount = R i :=
  Nat.modEq_zero_iff.1 (h.count i)

/-- The rest of the kernel does not touch the tables. -/
lemma service_spec {α : Type} {p : Prog κ α} (h : HoldsMod m t R s) :
    Prog.wp (service p) (fun _ => HoldsMod m t R) s :=
  Prog.wp_zoom.2 fun _ _ _ => ⟨h.task, h.file, h.isup, h.imount, h.count, h.small⟩

/-- Setting fields of an inode, in terms of its count. -/
lemma setInode_spec {f : MInode → MInode} {R' : Fin 32 → Nat} (h : HoldsMod m t R s)
    (hi : Nat.ModEq m (f (s.inodeTable i)).iCount (R' i))
    (hs : (s.inodeTable i).iCount < 65536 → (f (s.inodeTable i)).iCount < 65536)
    (hR : ∀ j, j ≠ i → R' j = R j) : Prog.wp (setInode i f) (fun _ => HoldsMod m t R') s := by
  rw [setInode, Prog.wp_modify]
  refine ⟨h.task, h.file, h.isup, h.imount, fun j => ?_, fun hm ht j => ?_⟩
  · show Nat.ModEq m (update s.inodeTable i (f (s.inodeTable i)) j).iCount (R' j)
    by_cases hj : j = i
    · subst hj
      rw [update_self]
      exact hi
    · rw [update_of_ne hj, hR j hj]
      exact h.count j
  · show (update s.inodeTable i (f (s.inodeTable i)) j).iCount < 65536
    by_cases hj : j = i
    · subst hj
      rw [update_self]
      exact hs (h.small hm ht j)
    · rw [update_of_ne hj]
      exact h.small hm ht j

/-- The fields other than the count. -/
lemma setInode_keep {f : MInode → MInode} (h : HoldsMod m t R s)
    (hf : ∀ inode : MInode, (f inode).iCount = inode.iCount) :
    Prog.wp (setInode i f) (fun _ => HoldsMod m t R) s := by
  refine setInode_spec h ?_ (fun hs => ?_) fun _ _ => rfl
  · rw [hf]
    exact h.count i
  · rw [hf]
    exact hs

/-- `truncate` keeps the references. -/
lemma truncate_spec (h : HoldsMod m t R s) : Prog.wp (truncate sv i) (fun _ => HoldsMod m t R) s := by
  rw [truncate, Prog.wp_bind, wp_inodeAt]
  split
  · rw [Prog.wp_bind]
    refine (service_spec h).mono ?_
    intro _ s₁ h₁
    rw [Prog.wp_bind, wp_currentTime]
    exact setInode_keep h₁ fun _ => rfl
  · rw [Prog.wp_pure]
    exact h

/-- `write_inode` keeps the references. -/
lemma writeInode_spec (h : HoldsMod m t R s) : Prog.wp (writeInode sv i) (fun _ => HoldsMod m t R) s := by
  rw [writeInode, Prog.wp_bind, wp_inodeAt, Prog.wp_bind]
  refine (service_spec h).mono ?_
  intro _ s₁ h₁
  exact setInode_keep h₁ fun _ => rfl

/-- `read_inode` keeps the references. -/
lemma readInode_spec (h : HoldsMod m t R s) : Prog.wp (readInode sv i) (fun _ => HoldsMod m t R) s := by
  rw [readInode, Prog.wp_bind, wp_inodeAt, Prog.wp_bind]
  refine (service_spec h).mono ?_
  intro d s₁ h₁
  exact setInode_keep h₁ fun _ => rfl

/-- Writing a dirty inode keeps the references. -/
lemma writeIfDirty_spec (h : HoldsMod m t R s) : Prog.wp (writeIfDirty sv i) (fun _ => HoldsMod m t R) s := by
  rw [writeIfDirty, Prog.wp_bind, wp_inodeAt]
  split
  · exact writeInode_spec h
  · rw [Prog.wp_pure]
    exact h

/-- The counts of two references to inodes do not depend on their order. -/
lemma HoldsMod.swap {r r' : Fin 32 → Nat} (h : HoldsMod m t (R + r + r') s) : HoldsMod m t (R + r' + r) s := by
  rwa [add_right_comm] at h

/-- One reference is among those counted. -/
lemma HoldsMod.one (h : HoldsMod m t (R + ref (some i)) s) : Nat.ModEq m (s.inodeTable i).iCount (R i + 1) := by
  have hc := h.count i
  rwa [Pi.add_apply, ref_self] at hc

/-- An inode that is cleared has no references left. -/
lemma setInode_drop {f : MInode → MInode} (h : HoldsMod m t (R + ref (some i)) s) (h0 : Nat.ModEq m 0 (R i))
    (hf : ∀ inode : MInode, (f inode).iCount = 0) : Prog.wp (setInode i f) (fun _ => HoldsMod m t R) s := by
  refine setInode_spec h ?_ (fun _ => ?_) fun j hj => ?_
  · rw [hf]
    exact h0
  · rw [hf]
    decide
  · rw [Pi.add_apply, ref_of_ne hj, add_zero]

/-- The count goes down with the reference. -/
lemma dropCount_spec (h : HoldsMod m t (R + ref (some i)) s) (h0 : (s.inodeTable i).iCount ≠ 0) :
    Prog.wp (dropCount i) (fun _ => HoldsMod m t R) s := by
  refine setInode_spec h ?_ (fun hs => ?_) fun j hj => ?_
  · have hone := h.one
    rw [← Nat.sub_add_cancel (Nat.pos_of_ne_zero h0)] at hone
    exact hone.add_right_cancel' 1
  · show (s.inodeTable i).iCount - 1 < 65536
    omega
  · rw [Pi.add_apply, ref_of_ne hj, add_zero]

/-- The only reference to an inode is given back. -/
lemma HoldsMod.last (h : HoldsMod m t (R + ref (some i)) s) (h1 : (s.inodeTable i).iCount = 1) :
    Nat.ModEq m 0 (R i) := by
  have hone := h.one
  rw [h1] at hone
  exact hone.add_right_cancel' 1

/-- `free_inode` takes the last reference. -/
lemma freeInode_spec (h : HoldsMod m t (R + ref (some i)) s) (h0 : Nat.ModEq m 0 (R i)) :
    Prog.wp (freeInode sv i) (fun _ => HoldsMod m t R) s := by
  rw [freeInode, Prog.wp_bind, wp_inodeAt]
  split
  · exact setInode_drop h h0 fun _ => rfl
  · split
    · exact Prog.wp_panic
    · split
      · exact Prog.wp_panic
      · rw [Prog.wp_bind]
        refine (service_spec h).mono ?_
        intro _ s₁ h₁
        exact setInode_drop h₁ h0 fun _ => rfl

/-- `iput` takes one reference away. -/
lemma iput_spec {r : Option (Fin 32)} (h : HoldsMod m t (R + ref r) s) :
    Prog.wp (iput sv r) (fun _ => HoldsMod m t R) s := by
  cases r with
  | none =>
    rw [iput, Prog.wp_pure]
    exact h
  | some i =>
    rw [iput, Prog.wp_bind, wp_inodeAt]
    split
    · exact Prog.wp_panic
    · next hc =>
      split
      · split
        · exact dropCount_spec h hc
        · next hlast =>
          rw [Prog.wp_bind]
          refine (service_spec h).mono ?_
          intro _ s₁ h₁
          exact setInode_drop h₁ (h.last (by omega)) fun _ => rfl
      · split
        · exact dropCount_spec h hc
        · next hone =>
          have hlast : (s.inodeTable i).iCount = 1 := by omega
          split
          · rw [Prog.wp_bind]
            refine (truncate_spec h).mono ?_
            intro _ s₁ h₁
            exact freeInode_spec h₁ (h.last hlast)
          · rw [Prog.wp_bind]
            intro _ s₁ hrun
            -- writing the inode leaves its count alone
            have hsame := (writeIfDirty_spec (HoldsMod.start (m := 0)) _ _ hrun).exact i
            have h₁ := writeIfDirty_spec h _ _ hrun
            exact dropCount_spec h₁ (by rw [hsame]; exact hc)

/-- The slot `get_empty_inode` finds is free. -/
lemma emptySlot_free (h : emptySlot s = some i) : (s.inodeTable i).iCount = 0 := by
  simpa using List.find?_some h

/-- The first reference to an inode. -/
lemma setFirst_spec {f : MInode → MInode} (h : HoldsMod m t R s) (h0 : Nat.ModEq m 0 (R i))
    (hf : ∀ inode : MInode, (f inode).iCount = 1) :
    Prog.wp (setInode i f) (fun _ => HoldsMod m t (R + ref (some i))) s := by
  refine setInode_spec h ?_ (fun _ => ?_) fun j hj => ?_
  · rw [hf, Pi.add_apply, ref_self]
    exact h0.add_right 1
  · rw [hf]
    decide
  · rw [Pi.add_apply, ref_of_ne hj, add_zero]

/-- `get_empty_inode` gives the first reference to a free inode. -/
lemma getEmptyInode_spec (h : HoldsMod m t R s) :
    Prog.wp (getEmptyInode sv) (fun i s' => HoldsMod m t (R + ref (some i)) s' ∧ Nat.ModEq m 0 (R i)) s := by
  rw [getEmptyInode, Prog.wp_bind, Prog.wp_get]
  cases he : emptySlot s with
  | none => exact Prog.wp_panic
  | some i =>
    have h0 : Nat.ModEq m 0 (R i) := by
      rw [← emptySlot_free he]
      exact h.count i
    have h₁ : HoldsMod m t R { s with lastAllocatedInode := i } :=
      ⟨h.task, h.file, h.isup, h.imount, h.count, h.small⟩
    show Prog.wp (_ >>= _) _ s
    rw [Prog.wp_bind, Prog.wp_modify, Prog.wp_bind]
    refine (writeIfDirty_spec h₁).mono ?_
    intro _ s₂ h₂
    rw [Prog.wp_bind]
    refine (setFirst_spec h₂ h0 fun _ => rfl).mono ?_
    intro _ s₄ h₄
    rw [Prog.wp_pure]
    exact ⟨h₄, h0⟩

/-- `get_pipe_inode` gives two references. -/
lemma getPipeInode_spec (h : HoldsMod m t R s) :
    Prog.wp (getPipeInode sv) (fun r => HoldsMod m t (R + ref r + ref r)) s := by
  rw [getPipeInode, Prog.wp_bind]
  refine (getEmptyInode_spec h).mono ?_
  rintro i s₁ ⟨h₁, h0⟩
  rw [Prog.wp_bind]
  refine (service_spec h₁).mono ?_
  intro page s₂ h₂
  cases page with
  | none =>
    rw [Prog.wp_bind]
    refine (setInode_drop h₂ h0 fun _ => rfl).mono ?_
    intro _ s₄ h₄
    rw [Prog.wp_pure]
    exact h₄
  | some page =>
    rw [Prog.wp_bind]
    have h₃ : Prog.wp (setInode i fun inode => { inode with iSize := page, iCount := 2, iPipe := true })
        (fun _ => HoldsMod m t (R + ref (some i) + ref (some i))) s₂ := by
      refine setInode_spec h₂ ?_ (fun _ => (by decide : 2 < 65536)) fun j hj => ?_
      · rw [Pi.add_apply, Pi.add_apply, ref_self]
        exact h0.add_right 2
      · rw [Pi.add_apply _ _ j, ref_of_ne hj, add_zero]
    refine h₃.mono ?_
    intro _ s₄ h₄
    rw [Prog.wp_pure]
    exact h₄

/-- Another reference to an inode. -/
lemma addCount_spec {i : Fin 32} (h : Holds t R s) :
    Prog.wp (addCount i) (fun _ => Holds t (R + ref (some i))) s := by
  refine setInode_spec h ?_ (fun _ => Nat.mod_lt _ (by decide)) fun j hj => ?_
  · rw [Pi.add_apply, ref_self]
    exact (Nat.mod_modEq _ _).trans ((h.count i).add_right 1)
  · rw [Pi.add_apply, ref_of_ne hj, add_zero]

/-- `iget` gives one reference. -/
lemma iget_spec {dev nr : Nat} (h : Holds t R s) :
    Prog.wp (iget sv dev nr) (fun i => Holds t (R + ref (some i))) s := by
  rw [iget]
  split
  · exact Prog.wp_panic
  · rw [Prog.wp_bind]
    refine (getEmptyInode_spec h).mono ?_
    rintro e s₁ ⟨h₁, _⟩
    rw [Prog.wp_bind, Prog.wp_get]
    split
    · next i _ =>
      rw [Prog.wp_bind]
      refine (addCount_spec h₁).mono ?_
      intro _ s₃ h₃
      rw [Prog.wp_bind]
      refine (iput_spec h₃.swap).mono ?_
      intro _ s₄ h₄
      rw [Prog.wp_pure]
      exact h₄
    · rw [Prog.wp_bind]
      have h₂ : Prog.wp (setInode e fun inode => { inode with iDev := dev, iNum := nr })
          (fun _ => Holds t (R + ref (some e))) s₁ := setInode_keep h₁ fun _ => rfl
      refine h₂.mono ?_
      intro _ s₃ h₃
      rw [Prog.wp_bind]
      refine (readInode_spec h₃).mono ?_
      intro _ s₄ h₄
      rw [Prog.wp_pure]
      exact h₄

/-- `new_inode` gives one reference if it finds an inode. -/
lemma newInode_spec {dev : Nat} (h : HoldsMod m t R s) :
    Prog.wp (newInode sv dev) (fun r => HoldsMod m t (R + ref r)) s := by
  rw [newInode, Prog.wp_bind]
  refine (getEmptyInode_spec h).mono ?_
  rintro i s₁ ⟨h₁, h0⟩
  rw [Prog.wp_bind]
  refine (service_spec h₁).mono ?_
  intro nr s₂ h₂
  cases nr with
  | none =>
    rw [Prog.wp_bind]
    refine (iput_spec h₂).mono ?_
    intro _ s₃ h₃
    rw [Prog.wp_pure]
    exact h₃
  | some nr =>
    rw [Prog.wp_bind, wp_currentTime, Prog.wp_bind]
    have h₃ : Prog.wp (setInode i fun inode =>
        { inode with
          iCount := 1, iNlinks := 1, iDev := dev, iDirt := true, iNum := nr
          iMtime := s₂.currentTime, iAtime := s₂.currentTime, iCtime := s₂.currentTime })
        (fun _ => HoldsMod m t (R + ref (some i))) s₂ := by
      refine setInode_spec h₂ ?_ (fun _ => (by decide : 1 < 65536)) fun _ _ => rfl
      rw [Pi.add_apply, ref_self]
      exact h0.add_right 1
    refine h₃.mono ?_
    intro _ s₄ h₄
    rw [Prog.wp_pure]
    exact h₄

end OldLinux.Files
