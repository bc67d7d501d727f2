import OldLinux.Access.Calls
import OldLinux.Fs.Touches

/-!
# What the system calls leave alone

`Guards x c n` is the invariant of the calls of a process that must not write to the regular file `x`: the
file has the contents `c` and the size `n`, `permission` denies the process to write to it, and the file
system is consistent. In a consistent file system the zones are in order and the entries of directories
name inodes that are allocated and have a link, so that an inode that is truncated and freed for want of
links is named by no entry.

Every function is shown to keep the invariant, apart from `iput` and `truncate` of `x` itself.
-/

namespace OldLinux.Access
open Lib Fs Function
open Files (Task isReg isDir isChr permission mayExec mayWrite accMode oAccmode oCreat oExcl oTrunc
  openFlag dirNames basename)
open FileSys (Same Touches Only Off)

variable {ρ : Type}

/-- What is asked of the rest of the kernel: `new_block` and `new_inode` give what was not in use, and
`free_block` and `free_inode` change nothing but the block and the inode they are called for. -/
structure Sound (sv : Services ρ) : Prop where
  newBlock : FileSys.Allocates sv.newBlock
  freeBlock : ∀ dev block d r, Prog.wp (sv.freeBlock dev block) (fun _ p =>
    ∀ a, a ≠ (dev, block) → p.1.blocks a = d.blocks a ∧ p.1.used a = d.used a) (d, r)
  newInode : ∀ dev map r, Prog.wp (sv.newInode dev) (fun nr p => match nr with
    | none => p.1 = map
    | some nr => nr < 65536 ∧ map (dev, nr) = false ∧ p.1 = update map (dev, nr) true) (map, r)
  freeInode : ∀ dev nr map r, Prog.wp (sv.freeInode dev nr) (fun _ p =>
    ∀ k, k ≠ (dev, nr) → p.1 k = map k) (map, r)

/-- An entry of a directory that has the inode number `nr`. -/
def Entry (fs : FileSys Ino) (dir : Ino) (nr : BitVec 16) : Prop :=
  ∃ i, (i + 1) * dirEntrySize ≤ (fs.inode dir).iSize.toNat ∧
    (dirEntry (fs.files.contents dir) i).inode = nr

/-- An inode that is allocated and has a link. -/
def Live (s : State ρ) (k : Ino) : Prop :=
  s.inodeMap k = true ∧ (s.fs.inode k).iDev ≠ 0 ∧ (s.fs.inode k).iNlinks ≠ 0

/-- A consistent file system. -/
structure Consistent (s : State ρ) : Prop where
  wf : s.fs.files.WF
  key : ∀ k, (s.fs.inode k).iDev ≠ 0 → ((s.fs.inode k).iDev, (s.fs.inode k).iNum) = k
  unallocated : ∀ k, s.inodeMap k = false → (s.fs.inode k).iMode = 0
  aligned : ∀ k, isDir (s.fs.inode k).iMode = true → dirEntrySize ∣ (s.fs.inode k).iSize.toNat
  dev : ∀ k, isDir (s.fs.inode k).iMode = true → (s.fs.inode k).iDev ≠ 0
  names : ∀ k, isDir (s.fs.inode k).iMode = true → ∀ nr, nr ≠ 0 → Entry s.fs k nr →
    Live s ((s.fs.inode k).iDev, nr.toNat)

/-- The regular file `x`, which the process may not write to, has the contents `c` and the size `n`. -/
structure Guards (x : Ino) (c : Bytes) (n : BitVec 64) (s : State ρ) : Prop extends Consistent s where
  reg : isReg (s.fs.inode x).iMode = true
  allocated : s.inodeMap x = true
  denied : permission s.task (s.fs.inode x) mayWrite = 0
  contents : s.fs.files.contents x = c
  size : (s.fs.inode x).iSize = n
  count : (s.fs.inode x).iCount < 65536

variable {sv : Services ρ} {x k dir : Ino} {c : Bytes} {n : BitVec 64} {s s' s'' s₀ : State ρ}

/-- A regular file is no directory. -/
lemma isDir_not_isReg {m : BitVec 16} (h : isReg m = true) : isDir m = false := by
  simp only [isReg, beq_iff_eq] at h
  simp [isDir, h]

/-- A directory has its contents in zones. -/
lemma isFile_of_isDir {m : MInode} (h : isDir m.iMode = true) : m.isFile = true := by
  rw [MInode.isFile, h, Bool.or_true]

/-- A regular file has its contents in zones. -/
lemma isFile_of_isReg {m : MInode} (h : isReg m.iMode = true) : m.isFile = true := by
  rw [MInode.isFile, h, Bool.true_or]

/-- A directory is not the file that is guarded. -/
lemma Guards.ne (h : Guards x c n s) (hd : isDir (s.fs.inode dir).iMode = true) : dir ≠ x := by
  rintro rfl
  rw [isDir_not_isReg h.reg] at hd
  cases hd

/-- `permission` looks at the head of an inode only. -/
lemma permission_head {t : Task} {m m' : MInode} {mask : BitVec 16} (h : m'.head = m.head) :
    permission t m' mask = permission t m mask := by
  have e : permission t m'.head mask = permission t m.head mask := by rw [h]
  exact e

/-! ## Changes -/

/-- The invariant after a change of one file that keeps its head; new entries name inodes that have a
link. -/
lemma Guards.of_only (h : Guards x c n s) (hwf : s'.fs.files.WF) (ho : Only s.fs s'.fs k)
    (hmap : s'.inodeMap = s.inodeMap) (htask : s'.task = s.task)
    (hdir : ∀ d, isDir (s.fs.inode d).iMode = true →
      (dirEntrySize ∣ (s.fs.inode d).iSize.toNat → dirEntrySize ∣ (s'.fs.inode d).iSize.toNat) ∧
        ∀ nr, nr ≠ 0 → Entry s'.fs d nr → Entry s.fs d nr ∨ Live s ((s.fs.inode d).iDev, nr.toNat))
    (hx : s'.fs.files.contents x = s.fs.files.contents x)
    (hsize : (s'.fs.inode x).iSize = (s.fs.inode x).iSize) (hcount : (s'.fs.inode x).iCount < 65536) :
    Guards x c n s' := by
  have hmode : ∀ d, (s'.fs.inode d).iMode = (s.fs.inode d).iMode := fun d =>
    MInode.head_iMode (ho.all_head d)
  have hdev : ∀ d, (s'.fs.inode d).iDev = (s.fs.inode d).iDev := fun d =>
    MInode.head_iDev (ho.all_head d)
  refine ⟨⟨hwf, ?_, ?_, ?_, ?_, ?_⟩, ?_, ?_, ?_, hx.trans h.contents, hsize.trans h.size,
    hcount⟩
  · intro d hd
    rw [hdev, MInode.head_iNum (ho.all_head d)]
    exact h.key d (hdev d ▸ hd)
  · intro d hd
    rw [hmode]
    exact h.unallocated d (hmap ▸ hd)
  · intro d hd
    rw [hmode] at hd
    exact (hdir d hd).1 (h.aligned d hd)
  · intro d hd
    rw [hmode] at hd
    rw [hdev]
    exact h.dev d hd
  · intro d hd nr h0 he
    rw [hmode] at hd
    obtain ⟨hm, hi, hl⟩ := ((hdir d hd).2 nr h0 he).elim (h.names d hd nr h0) id
    refine ⟨?_, ?_, ?_⟩
    · rw [hmap, hdev, hm]
    · rwa [hdev, hdev]
    · rwa [hdev, MInode.head_iNlinks (ho.all_head _)]
  · rw [hmode, h.reg]
  · rw [hmap, h.allocated]
  · rw [htask, permission_head (ho.all_head x), h.denied]

/-- A change of the file `k` that keeps its head and adds no entry to a directory. -/
structure Changes (s s' : State ρ) (k : Ino) : Prop where
  touches : Touches s.fs s'.fs k
  only : Only s.fs s'.fs k
  map : s'.inodeMap = s.inodeMap
  task : s'.task = s.task
  dir : isDir (s.fs.inode k).iMode = true →
    (dirEntrySize ∣ (s.fs.inode k).iSize.toNat → dirEntrySize ∣ (s'.fs.inode k).iSize.toNat) ∧
      ∀ nr, nr ≠ 0 → Entry s'.fs k nr → Entry s.fs k nr

/-- Nothing done changes nothing. -/
lemma Changes.refl (h : s.fs.files.WF) : Changes s s k :=
  ⟨⟨h, fun _ _ => rfl⟩, .refl, rfl, rfl, fun _ => ⟨id, fun _ _ => id⟩⟩

/-- Two changes of the same inode are one. -/
lemma Changes.trans (h : Changes s s' k) (h' : Changes s' s'' k) : Changes s s'' k where
  touches := h.touches.trans h'.touches
  only := h.only.trans h'.only
  map := h'.map.trans h.map
  task := h'.task.trans h.task
  dir hd := by
    obtain ⟨ha, he⟩ := h.dir hd
    obtain ⟨ha', he'⟩ := h'.dir (by rwa [MInode.head_iMode h.only.head])
    exact ⟨fun hs => ha' (ha hs), fun nr h0 hn => he nr h0 (he' nr h0 hn)⟩

/-- Directories whose contents and size are the same have the same entries. -/
lemma Entry.congr {fs fs' : FileSys Ino} {nr : BitVec 16} (hc : fs'.files.contents dir = fs.files.contents dir)
    (hs : (fs'.inode dir).iSize = (fs.inode dir).iSize) (h : Entry fs' dir nr) : Entry fs dir nr := by
  obtain ⟨i, hi, he⟩ := h
  exact ⟨i, hs ▸ hi, hc ▸ he⟩

/-- The file is safe from changes of another inode. -/
lemma Guards.changes (h : Guards x c n s) (hk : k ≠ x) (hc : Changes s s' k) : Guards x c n s' := by
  have hx := hc.only.others x hk.symm
  refine h.of_only hc.touches.wf hc.only hc.map hc.task (fun d hd => ?_) (hc.touches.contents x hk.symm)
    (by rw [hx]) (by rw [hx]; exact h.count)
  · obtain rfl | hdk := eq_or_ne d k
    · exact ⟨(hc.dir hd).1, fun nr h0 he => .inl ((hc.dir hd).2 nr h0 he)⟩
    · have e := hc.only.others d hdk
      refine ⟨fun ha => by rwa [e], fun nr _ he => .inl ?_⟩
      exact he.congr (hc.touches.contents d hdk) (by rw [e])

/-- No file changes its contents or its size. -/
lemma Guards.same (h : Guards x c n s) (hs : Same s.fs s'.fs) (ho : Only s.fs s'.fs k)
    (hsize : (s'.fs.inode k).iSize = (s.fs.inode k).iSize)
    (hcount : k = x → (s'.fs.inode k).iCount < 65536) (hmap : s'.inodeMap = s.inodeMap)
    (htask : s'.task = s.task) : Guards x c n s' := by
  have hall : ∀ d, (s'.fs.inode d).iSize = (s.fs.inode d).iSize := by
    intro d
    obtain rfl | hdk := eq_or_ne d k
    · exact hsize
    · rw [ho.others d hdk]
  refine h.of_only hs.wf ho hmap htask (fun d _ => ⟨fun ha => ?_, fun nr _ he => .inl ?_⟩) (hs.contents x)
    (hall x) ?_
  · rwa [hall d]
  · exact he.congr (hs.contents d) (hall d)
  · obtain rfl | hxk := eq_or_ne k x
    · exact hcount rfl
    · rw [ho.others x hxk.symm]
      exact h.count

/-- An entry of a directory names the inode. -/
def Named (fs : FileSys Ino) (k : Ino) : Prop :=
  ∃ dir nr, isDir (fs.inode dir).iMode = true ∧ nr ≠ 0 ∧ Entry fs dir nr ∧
    ((fs.inode dir).iDev, nr.toNat) = k

/-- An inode that an entry names is in use. -/
lemma Consistent.live_of_named (h : Consistent s) (hk : Named s.fs k) : Live s k := by
  obtain ⟨d, nr, hd, h0, he, rfl⟩ := hk
  exact h.names d hd nr h0 he

/-- Another inode in the place of one that no entry names. -/
lemma Guards.replace (h : Guards x c n s) (hk : k ≠ x) (hn : ¬ Named s.fs k)
    (ht : Touches s.fs s'.fs k) (ho : ∀ d, d ≠ k → s'.fs.inode d = s.fs.inode d)
    (hmap : ∀ d, d ≠ k → s'.inodeMap d = s.inodeMap d) (htask : s'.task = s.task)
    (hkey : (s'.fs.inode k).iDev ≠ 0 → ((s'.fs.inode k).iDev, (s'.fs.inode k).iNum) = k)
    (hmode : s'.inodeMap k = false → (s'.fs.inode k).iMode = 0)
    (hdir : isDir (s'.fs.inode k).iMode = false) : Guards x c n s' ∧ ¬ Named s'.fs k := by
  have hentry : ∀ {d nr}, d ≠ k → Entry s'.fs d nr → Entry s.fs d nr := fun hd =>
    Entry.congr (ht.contents _ hd) (by rw [ho _ hd])
  -- what is named has been named before
  have hnamed : ∀ {d}, Named s'.fs d → Named s.fs d := by
    rintro _ ⟨d, nr, hd, h0, he, rfl⟩
    have hdk : d ≠ k := by
      rintro rfl
      rw [hdir] at hd
      cases hd
    rw [ho d hdk] at hd ⊢
    exact ⟨d, nr, hd, h0, hentry hdk he, rfl⟩
  refine ⟨⟨⟨ht.wf, ?_, ?_, ?_, ?_, ?_⟩, ?_, ?_, ?_, ?_, ?_, ?_⟩, fun hc => hn (hnamed hc)⟩
  · intro d hd
    obtain rfl | hdk := eq_or_ne d k
    · exact hkey hd
    · rw [ho d hdk] at hd ⊢
      exact h.key d hd
  · intro d hd
    obtain rfl | hdk := eq_or_ne d k
    · exact hmode hd
    · rw [ho d hdk]
      exact h.unallocated d (hmap d hdk ▸ hd)
  · intro d hd
    obtain rfl | hdk := eq_or_ne d k
    · rw [hdir] at hd
      cases hd
    · rw [ho d hdk] at hd ⊢
      exact h.aligned d hd
  · intro d hd
    obtain rfl | hdk := eq_or_ne d k
    · rw [hdir] at hd
      cases hd
    · rw [ho d hdk] at hd ⊢
      exact h.dev d hd
  · intro d hd nr h0 he
    have hnm : Named s.fs ((s'.fs.inode d).iDev, nr.toNat) := hnamed ⟨d, nr, hd, h0, he, rfl⟩
    obtain ⟨hm, hi, hl⟩ := h.live_of_named hnm
    have hne : ((s'.fs.inode d).iDev, nr.toNat) ≠ k := fun e => hn (e ▸ hnm)
    refine ⟨(hmap _ hne).trans hm, ?_, ?_⟩
    · rwa [ho _ hne]
    · rwa [ho _ hne]
  · rw [ho x hk.symm, h.reg]
  · rw [hmap x hk.symm, h.allocated]
  · rw [htask, ho x hk.symm, h.denied]
  · rw [ht.contents x hk.symm, h.contents]
  · rw [ho x hk.symm, h.size]
  · rw [ho x hk.symm]
    exact h.count

/-- The identity of the process stays the same. -/
lemma Guards.task (h : Guards x c n s) (hfs : s'.fs = s.fs) (hmap : s'.inodeMap = s.inodeMap)
    (hp : ∀ m, permission s'.task m mayWrite = permission s.task m mayWrite) : Guards x c n s' where
  wf := hfs ▸ h.wf
  key := hfs ▸ h.key
  unallocated := by rw [hmap, hfs]; exact h.unallocated
  aligned := hfs ▸ h.aligned
  dev := hfs ▸ h.dev
  names := by
    intro k hk nr h0 he
    rw [Live, hfs, hmap]
    rw [hfs] at hk he
    exact h.names k hk nr h0 he
  reg := hfs ▸ h.reg
  allocated := hmap ▸ h.allocated
  denied := by rw [hp, hfs, h.denied]
  contents := hfs ▸ h.contents
  size := hfs ▸ h.size
  count := hfs ▸ h.count

/-! ## The inodes -/

/-- Reading an inode changes nothing. -/
@[simp] lemma wp_inodeAt {Q : MInode → State ρ → Prop} : Prog.wp (inodeAt k) Q s ↔ Q (s.fs.inode k) s := by
  simp [inodeAt]

/-- Nor does reading the clock. -/
@[simp] lemma wp_currentTime {Q : Nat → State ρ → Prop} : Prog.wp currentTime Q s ↔ Q s.now s := by
  simp [currentTime]

/-- The state with another inode `k`. -/
def State.withInode (s : State ρ) (k : Ino) (m : MInode) : State ρ :=
  { s with fs := { s.fs with inode := update s.fs.inode k m } }

/-- Changing an inode. -/
@[simp] lemma wp_setInode {f : MInode → MInode} {Q : Unit → State ρ → Prop} :
    Prog.wp (setInode k f) Q s ↔ Q () (s.withInode k (f (s.fs.inode k))) := Prog.wp_modify

/-- The inode that is changed is as it was changed to. -/
lemma withInode_self {m : MInode} : (s.withInode k m).fs.inode k = m := update_self _ _ _

/-- The other inodes are as they were. -/
lemma withInode_others {m : MInode} {d : Ino} (hd : d ≠ k) : (s.withInode k m).fs.inode d = s.fs.inode d :=
  update_of_ne hd _ _

/-- A change that leaves the mode, the device and the zones is of this inode only. -/
lemma withInode_only {m : MInode} (hm : m.head = (s.fs.inode k).head) :
    Only s.fs (s.withInode k m).fs k := FileSys.only_update hm

/-- Fields of an inode that are neither contents nor size. -/
lemma Guards.withInode (h : Guards x c n s) {m : MInode} (hm : m.head = (s.fs.inode k).head)
    (hz : m.iZone = (s.fs.inode k).iZone) (hs : m.iSize = (s.fs.inode k).iSize)
    (hc : k = x → m.iCount < 65536) : Guards x c n (s.withInode k m) := by
  refine h.same (FileSys.update_same h.wf (MInode.head_isFile hm) (MInode.head_iDev hm) hz) (withInode_only hm)
    ?_ ?_ rfl rfl
  · rw [withInode_self, hs]
  · rwa [withInode_self]

/-- The rest of the kernel does not touch the files. -/
lemma service_spec {α : Type} {m : Prog ρ α} (h : Guards x c n s) :
    Prog.wp (service m) (fun _ => Guards x c n) s :=
  Prog.wp_zoom.2 fun _ _ _ => h.task rfl rfl fun _ => rfl

/-! ## Giving up the zones -/

/-- The file `k` of `s₀` on the way through `truncate`: the zones in the slots `T` are given up, and
`i_zone` is `Z`. -/
structure Giving (s₀ : State ρ) (k : Ino) (Z : Nat → BitVec 16) (T : Slot → Prop) (s : State ρ) : Prop where
  off : Off s₀.fs k T s.fs.disk
  others : ∀ d, d ≠ k → s.fs.inode d = s₀.fs.inode d
  head : (s.fs.inode k).head = (s₀.fs.inode k).head
  zones : (s.fs.inode k).iZone = Z
  map : s.inodeMap = s₀.inodeMap
  task : s.task = s₀.task

variable {Z : Nat → BitVec 16} {T T' : Slot → Prop} {p : Slot} {dev z : Nat}

/-- A weaker condition on what is to be freed. -/
lemma Giving.mono (h : Giving s₀ k Z T s) (hT : ∀ p, T p → T' p) : Giving s₀ k Z T' s :=
  { h with off := h.off.mono hT }

/-- `free_block` of the zone in a slot. -/
lemma freeBlock_giving (hs : Sound sv) (h : Giving s₀ k Z T s) (hp : p.Valid)
    (ha : (dev, z) = s₀.fs.files.addr k p) (hz : z ≠ 0) {Q : State ρ → Prop}
    (hQ : ∀ s', s'.fs.inode = s.fs.inode → Giving s₀ k Z (fun p' => T p' ∨ p' = p) s' → Q s') :
    Prog.wp (freeBlock sv dev z) (fun _ => Q) s := by
  refine Prog.wp_zoom.2 ((hs.freeBlock dev z s.fs.disk s.rest).mono ?_)
  intro _ q hq
  refine hQ _ rfl ⟨h.off.free hp ?_ ?_, h.others, h.head, h.zones, h.map, h.task⟩
  · have e : z = s₀.fs.files.zone k p := congrArg Prod.snd ha
    exact e ▸ hz
  · rwa [← ha]

/-- `free_ind` of the index block in a slot that has not been given up. -/
lemma freeInd_giving (hs : Sound sv) (hwf : s₀.fs.files.WF) (h : Giving s₀ k Z T s) (hp : p.Index)
    (ha : (dev, z) = s₀.fs.files.addr k p) (hT : ¬ T p) :
    Prog.wp (freeInd sv dev z)
      (fun _ => Giving s₀ k Z fun p' => T p' ∨ p' = p ∨ ∃ e, p' = .sub p e) s := by
  have hdev : dev = s₀.fs.files.dev k := congrArg Prod.fst ha
  have hz : z = s₀.fs.files.zone k p := congrArg Prod.snd ha
  rw [freeInd]
  split
  · rw [Prog.wp_pure]
    exact h.mono fun _ => .inl
  rename_i h0
  -- the entries are given up one by one, and the block they are in stays
  have hsub : ∀ e, p ≠ .sub p e := by
    intro e he
    have hsize := congrArg sizeOf he
    simp only [Slot.sub.sizeOf_spec] at hsize
    omega
  have hT' : ¬ (k = k ∧ (T p ∨ ∃ e, p = .sub p e)) := by
    rintro ⟨-, h | ⟨e, he⟩⟩
    · exact hT h
    · exact hsub e he
  have hloop : Prog.wp (forEntries dev z (freeBlock sv dev))
      (fun _ => Giving s₀ k Z fun p' => T p' ∨ ∃ e, p' = .sub p e) s := by
    refine (Prog.wp_forM (I := fun l s => (∀ e ∈ l, e < 512) ∧
      Giving s₀ k Z (fun p' => T p' ∨ ∃ e, p' = .sub p e) s) ?_ ?_).mono fun _ _ h => h.2
    · rintro e l s₁ ⟨hl, h₁⟩
      have hl' : ∀ e' ∈ l, e' < 512 := fun e' he' => hl e' (List.mem_cons_of_mem _ he')
      have hzone : s₀.fs.files.zone k (.sub p e) = (entry (s₁.fs.disk.blocks (dev, z)) e).toNat := by
        have hblock := (h₁.off.keeps hwf hp.valid hT' (hz ▸ h0)).1
        rw [FileSys.zone_sub_of_ne (hz ▸ h0), ha, hblock]
        rfl
      rw [Prog.wp_bind, Prog.wp_get]
      show Prog.wp (if _ then _ else _) _ s₁
      split
      · rename_i he
        refine freeBlock_giving (p := .sub p e) hs h₁ ⟨hp, hl e List.mem_cons_self⟩ ?_ he ?_
        · rw [FileSys.addr, hzone, hdev]
        · rintro s₂ - h₂
          refine ⟨hl', h₂.mono ?_⟩
          rintro p' (hp' | rfl)
          · exact hp'
          · exact .inr ⟨e, rfl⟩
      · rw [Prog.wp_pure]
        exact ⟨hl', h₁⟩
    · exact ⟨fun e he => List.mem_range.1 he, h.mono fun _ => .inl⟩
  rw [Prog.wp_bind]
  refine hloop.mono ?_
  intro _ s₁ h₁
  refine freeBlock_giving hs h₁ hp.valid ha h0 ?_
  rintro s₂ - h₂
  refine h₂.mono ?_
  rintro p' ((hp' | he) | rfl)
  · exact .inl hp'
  · exact .inr (.inr he)
  · exact .inr (.inl rfl)

/-- `free_dind` of `i_zone[8]`. -/
lemma freeDind_giving (hs : Sound sv) (hwf : s₀.fs.files.WF) (h : Giving s₀ k Z T s)
    (ha : (dev, z) = s₀.fs.files.addr k (.top 8)) (hT : ¬ T (.top 8)) (hT' : ∀ e, ¬ T (.sub (.top 8) e)) :
    Prog.wp (freeDind sv dev z) (fun _ => Giving s₀ k Z fun p' => T p' ∨ p' = .top 8 ∨
      (∃ e, p' = .sub (.top 8) e) ∨ ∃ e e', p' = .sub (.sub (.top 8) e) e') s := by
  have hdev : dev = s₀.fs.files.dev k := congrArg Prod.fst ha
  have hz : z = s₀.fs.files.zone k (.top 8) := congrArg Prod.snd ha
  have h8 : (Slot.top 8).Valid := (by decide : 8 < 9)
  rw [freeDind]
  split
  · rw [Prog.wp_pure]
    exact h.mono fun _ => .inl
  rename_i h0
  -- the index blocks of the entries still to come stay
  let given (l : List Nat) (p' : Slot) : Prop :=
    T p' ∨ ∃ e, e ∉ l ∧ (p' = .sub (.top 8) e ∨ ∃ e', p' = .sub (.sub (.top 8) e) e')
  have hloop : Prog.wp (forEntries dev z (freeInd sv dev)) (fun _ => Giving s₀ k Z (given [])) s := by
    refine (Prog.wp_forM (I := fun l s => (l.Nodup ∧ ∀ e ∈ l, e < 512) ∧ Giving s₀ k Z (given l) s)
      ?_ ?_).mono fun _ _ h => h.2
    · rintro e l s₁ ⟨⟨hn, hl⟩, h₁⟩
      have hn' := List.nodup_cons.1 hn
      have hl' : l.Nodup ∧ ∀ e' ∈ l, e' < 512 := ⟨hn'.2, fun e' he' => hl e' (List.mem_cons_of_mem _ he')⟩
      have hmono : ∀ p', given (e :: l) p' → given l p' := by
        rintro p' (hp' | ⟨e', he', hp'⟩)
        · exact .inl hp'
        · exact .inr ⟨e', fun hm => he' (List.mem_cons_of_mem _ hm), hp'⟩
      have htop : ¬ (k = k ∧ given (e :: l) (.top 8)) := by
        rintro ⟨-, hp' | ⟨e', -, hp' | ⟨e'', hp'⟩⟩⟩
        · exact hT hp'
        · cases hp'
        · cases hp'
      have hthis : ¬ given (e :: l) (.sub (.top 8) e) := by
        rintro (hp' | ⟨e', he', hp' | ⟨e'', hp'⟩⟩)
        · exact hT' e hp'
        · cases hp'
          exact he' List.mem_cons_self
        · cases hp'
      have hzone : s₀.fs.files.zone k (.sub (.top 8) e) =
          (entry (s₁.fs.disk.blocks (dev, z)) e).toNat := by
        have hblock := (h₁.off.keeps hwf h8 htop (hz ▸ h0)).1
        rw [FileSys.zone_sub_of_ne (hz ▸ h0), ha, hblock]
        rfl
      rw [Prog.wp_bind, Prog.wp_get]
      show Prog.wp (if _ then _ else _) _ s₁
      split
      · refine (freeInd_giving (p := .sub (.top 8) e) hs hwf h₁ ⟨rfl, hl e List.mem_cons_self⟩ ?_ hthis).mono ?_
        · rw [FileSys.addr, hzone, hdev]
        · rintro _ s₂ h₂
          refine ⟨hl', h₂.mono ?_⟩
          rintro p' (hp' | rfl | ⟨e', rfl⟩)
          · exact hmono p' hp'
          · exact .inr ⟨e, hn'.1, .inl rfl⟩
          · exact .inr ⟨e, hn'.1, .inr ⟨e', rfl⟩⟩
      · rw [Prog.wp_pure]
        exact ⟨hl', h₁.mono hmono⟩
    · refine ⟨⟨List.nodup_range, fun e he => List.mem_range.1 he⟩, h.mono fun _ => .inl⟩
  rw [Prog.wp_bind]
  refine hloop.mono ?_
  intro _ s₁ h₁
  refine freeBlock_giving hs h₁ h8 ha h0 ?_
  rintro s₂ - h₂
  refine h₂.mono ?_
  rintro p' ((hp' | ⟨e, -, rfl | ⟨e', rfl⟩⟩) | rfl)
  · exact .inl hp'
  · exact .inr (.inr (.inl ⟨e, rfl⟩))
  · exact .inr (.inr (.inr ⟨e, e', rfl⟩))
  · exact .inr (.inl rfl)

/-- The loop of `truncate` over the first seven zones. -/
lemma truncateZones_giving (hs : Sound sv) (hf : (s.fs.inode k).isFile = true) :
    Prog.wp (forM (List.range 7) fun i => do
      let inode ← inodeAt k
      if inode.iZone i ≠ 0 then
        freeBlock sv inode.iDev (inode.iZone i).toNat
        setInode k fun inode => { inode with iZone := update inode.iZone i 0 }
      else pure ())
    (fun _ => Giving s k (fun i => if i < 7 then 0 else (s.fs.inode k).iZone i) fun p => ∃ i < 7, p = .top i)
    s := by
  -- the zones still to come are those of `s`
  let Z (l : List Nat) (i : Nat) : BitVec 16 := if i < 7 ∧ i ∉ l then 0 else (s.fs.inode k).iZone i
  refine (Prog.wp_forM (I := fun l s' => (l.Nodup ∧ ∀ i ∈ l, i < 7) ∧
    Giving s k (Z l) (fun p => ∃ i < 7, p = .top i) s') ?_ ?_).mono ?_
  · rintro i l s₁ ⟨⟨hn, hl⟩, h₁⟩
    have hi := hl i List.mem_cons_self
    have hn' := List.nodup_cons.1 hn
    have hl' : l.Nodup ∧ ∀ j ∈ l, j < 7 := ⟨hn'.2, fun j hj => hl j (List.mem_cons_of_mem _ hj)⟩
    have hz : (s₁.fs.inode k).iZone i = (s.fs.inode k).iZone i := by
      rw [h₁.zones]
      exact if_neg fun hc => hc.2 List.mem_cons_self
    -- this zone is 0 from here on
    have hZ : update (Z (i :: l)) i 0 = Z l := by
      funext j
      obtain rfl | hj := eq_or_ne j i
      · rw [update_self]
        exact (if_pos ⟨hi, hn'.1⟩).symm
      · rw [update_of_ne hj]
        simp only [Z, List.mem_cons, hj, false_or]
    rw [Prog.wp_bind, wp_inodeAt]
    split
    · rename_i h0
      rw [Prog.wp_bind]
      refine freeBlock_giving (p := .top i) hs h₁ (show i < 9 by omega) ?_ ?_ ?_
      · rw [FileSys.addr, FileSys.files_dev, FileSys.files_zone hf, MInode.head_iDev h₁.head, hz]
        rfl
      · intro hc
        exact h0 (BitVec.eq_of_toNat_eq hc)
      · intro s₂ hinode h₂
        rw [wp_setInode]
        refine ⟨hl', h₂.off.mono ?_, ?_, ?_, ?_, h₂.map, h₂.task⟩
        · rintro p (hp | rfl)
          · exact hp
          · exact ⟨i, hi, rfl⟩
        · intro d hd
          rw [withInode_others hd, h₂.others d hd]
        · rw [withInode_self]
          exact h₂.head
        · rw [withInode_self, ← hZ, ← h₂.zones]
    · rename_i h0
      have h0 : (s₁.fs.inode k).iZone i = 0 := not_not.1 h0
      rw [Prog.wp_pure]
      refine ⟨hl', { h₁ with zones := ?_ }⟩
      rw [← hZ, h₁.zones, update_eq_self_iff.2]
      rw [← h0, h₁.zones]
  · refine ⟨⟨List.nodup_range, fun i hi => List.mem_range.1 hi⟩, .refl, fun _ _ => rfl, rfl, ?_, rfl, rfl⟩
    funext i
    exact (if_neg fun hc => hc.2 (List.mem_range.2 hc.1)).symm
  · rintro - s₁ ⟨-, h₁⟩
    refine { h₁ with zones := h₁.zones.trans ?_ }
    funext i
    simp [Z]

/-- `truncate` leaves a file without zones, and the others as they are. -/
lemma truncate_changes (hs : Sound sv) (hwf : s.fs.files.WF) :
    Prog.wp (truncate sv k) (fun _ s' => Changes s s' k) s := by
  rw [truncate, Prog.wp_bind, wp_inodeAt]
  split
  swap
  · rw [Prog.wp_pure]
    exact .refl hwf
  rename_i hf
  have hf : (s.fs.inode k).isFile = true := hf
  have haddr : ∀ i, ((s.fs.inode k).iDev, ((s.fs.inode k).iZone i).toNat) = s.fs.files.addr k (.top i) := by
    intro i
    rw [FileSys.files_addr hf]
    rfl
  rw [Prog.wp_bind]
  refine (truncateZones_giving hs hf).mono ?_
  intro _ s₁ h₁
  rw [Prog.wp_bind]
  refine (freeInd_giving (p := .top 7) hs hwf h₁ (.inl rfl) (haddr 7) ?_).mono ?_
  · rintro ⟨i, hi, he⟩
    cases he
    exact absurd hi (by decide)
  intro _ s₂ h₂
  rw [Prog.wp_bind]
  refine (freeDind_giving hs hwf h₂ (haddr 8) ?_ ?_).mono ?_
  · rintro (⟨i, hi, he⟩ | he | ⟨e, he⟩)
    · cases he
      exact absurd hi (by decide)
    · cases he
    · cases he
  · rintro e (⟨i, -, he⟩ | he | ⟨e', he⟩)
    · cases he
    · cases he
    · cases he
  intro _ s₃ h₃
  rw [Prog.wp_bind, wp_currentTime, wp_setInode]
  have hfs : ∀ m, (s₃.withInode k m).fs = ⟨s₃.fs.disk, update s.fs.inode k m⟩ := by
    intro m
    refine congrArg (FileSys.mk s₃.fs.disk) (funext fun d => ?_)
    obtain rfl | hd := eq_or_ne d k
    · rw [update_self, update_self]
    · rw [update_of_ne hd, update_of_ne hd, h₃.others d hd]
  -- nothing has been freed but blocks of the file itself
  have hoff : Off s.fs k (fun _ => True) s₃.fs.disk := h₃.off.mono fun _ _ => trivial
  refine ⟨(hoff.touches hwf ?_ (hfs _)).1, ?_, h₃.map, h₃.task, fun _ => ⟨fun _ => ?_, fun nr _ hn => ?_⟩⟩
  · intro i hi
    have hmask : MInode.masked { s₃.fs.inode k with
        iZone := update (update (s₃.fs.inode k).iZone 8 0) 7 0, iSize := 0, iDirt := true
        iMtime := s₃.now, iCtime := s₃.now } = { s₃.fs.inode k with
        iZone := update (update (s₃.fs.inode k).iZone 8 0) 7 0, iSize := 0, iDirt := true
        iMtime := s₃.now, iCtime := s₃.now } :=
      MInode.masked_of_isFile ((MInode.head_isFile h₃.head).trans hf)
    rw [hmask]
    show update (update (s₃.fs.inode k).iZone 8 0) 7 0 i = 0
    obtain rfl | h7 := eq_or_ne i 7
    · rw [update_self]
    obtain rfl | h8 := eq_or_ne i 8
    · rw [update_of_ne h7, update_self]
    · rw [update_of_ne h7, update_of_ne h8, h₃.zones]
      exact if_pos (by omega)
  · refine ⟨fun d hd => ?_, ?_⟩
    · rw [withInode_others hd, h₃.others d hd]
    · rw [withInode_self]
      exact h₃.head
  · rw [withInode_self]
    exact dvd_zero _
  · obtain ⟨i, hi, -⟩ := hn
    rw [withInode_self] at hi
    have hi : (i + 1) * 16 ≤ 0 := hi
    omega

/-! ## References to inodes -/

/-- `free_inode` of an inode that has no links. -/
lemma freeInode_spec (hs : Sound sv) (h : Guards x c n s) (hk : k ≠ x) :
    Prog.wp (freeInode sv k) (fun _ s' => Guards x c n s' ∧ ∀ d, Live s d → Live s' d) s := by
  rw [freeInode, Prog.wp_bind, wp_inodeAt]
  -- what is left of an inode that no entry names
  have hzero : ¬ Live s k → ∀ {s' : State ρ}, s'.fs = (s.withInode k .zero).fs → s'.task = s.task →
      (∀ d, d ≠ k → s'.inodeMap d = s.inodeMap d) → Guards x c n s' ∧ ∀ d, Live s d → Live s' d := by
    intro hlive s' hfs htask hmap
    have hother : ∀ d, d ≠ k → s'.fs.inode d = s.fs.inode d := by
      intro d hd
      rw [hfs, withInode_others hd]
    have hself : s'.fs.inode k = .zero := by rw [hfs, withInode_self]
    refine ⟨(h.replace hk (fun hn => hlive (h.live_of_named hn)) ?_ hother hmap htask ?_ ?_ ?_).1, ?_⟩
    · exact (Off.refl.touches h.wf (fun _ _ => rfl) hfs).1
    · intro hd
      rw [hself] at hd
      exact absurd rfl hd
    · intro _
      rw [hself]
      rfl
    · rw [hself]
      rfl
    · intro d hd
      have hne : d ≠ k := fun e => hlive (e ▸ hd)
      rw [Live, hmap d hne, hother d hne]
      exact hd
  split
  · rename_i hdev
    rw [wp_setInode]
    exact hzero (fun hl => hl.2.1 hdev) rfl rfl fun _ _ => rfl
  split
  · exact Prog.wp_panic
  split
  · exact Prog.wp_panic
  rename_i hdev _ hl
  rw [Prog.wp_bind]
  refine Prog.wp_zoom.2 ((hs.freeInode _ _ s.inodeMap s.rest).mono ?_)
  intro _ p hp
  rw [wp_setInode]
  refine hzero (fun hc => hl hc.2.2) rfl rfl fun d hd => hp d ?_
  rwa [h.key k hdev]

/-- `iput`, which must not be that of the last reference to the file if it has no links. -/
lemma iput_spec (hs : Sound sv) (h : Guards x c n s)
    (hk : k = x → (s.fs.inode x).iNlinks ≠ 0 ∨ (s.fs.inode x).iCount ≠ 1) :
    Prog.wp (iput sv k) (fun _ s' => Guards x c n s' ∧ ∀ d, Live s d → Live s' d) s := by
  have hlive : ∀ m : MInode, m.head = (s.fs.inode k).head → ∀ d, Live s d → Live (s.withInode k m) d := by
    intro m hm d hd
    have ho : Only s.fs (s.withInode k m).fs k := withInode_only hm
    refine ⟨hd.1, ?_, ?_⟩
    · rw [MInode.head_iDev (ho.all_head d)]
      exact hd.2.1
    · rw [MInode.head_iNlinks (ho.all_head d)]
      exact hd.2.2
  have hless : k = x → (s.fs.inode k).iCount - 1 < 65536 := by
    rintro rfl
    exact (Nat.sub_le _ _).trans_lt h.count
  rw [iput, Prog.wp_bind, wp_inodeAt]
  split
  · exact Prog.wp_panic
  rename_i hcount
  split
  · rw [wp_setInode]
    exact ⟨h.withInode rfl rfl rfl hless, hlive _ rfl⟩
  rename_i hdev
  split
  · rename_i hl
    have hkx : k ≠ x := by
      rintro rfl
      obtain hx | hx := hk rfl
      · exact hx hl
      · exact hdev (.inr (by omega))
    rw [Prog.wp_bind]
    refine (truncate_changes hs h.wf).mono ?_
    intro _ s₁ h₁
    refine (freeInode_spec hs (h.changes hkx h₁) hkx).mono ?_
    rintro _ s₂ ⟨h₂, hl₂⟩
    refine ⟨h₂, fun d hd => hl₂ d ⟨h₁.map ▸ hd.1, ?_, ?_⟩⟩
    · rw [MInode.head_iDev (h₁.only.all_head d)]
      exact hd.2.1
    · rw [MInode.head_iNlinks (h₁.only.all_head d)]
      exact hd.2.2
  · rw [wp_setInode]
    exact ⟨h.withInode rfl rfl rfl hless, hlive _ rfl⟩

/-- `iget` of an inode that is named. -/
lemma iget_spec {nr : Nat} (h : Guards x c n s) (hl : Live s (dev, nr)) :
    Prog.wp (iget sv dev nr) (fun k s' => k = (dev, nr) ∧ Guards x c n s' ∧ Live s' k) s := by
  rw [iget]
  split
  · exact Prog.wp_panic
  rw [Prog.wp_bind, Prog.wp_get, hl.1]
  show Prog.wp (_ >>= _) _ s
  rw [Prog.wp_bind, addCount, wp_setInode, Prog.wp_pure]
  refine ⟨rfl, h.withInode rfl rfl rfl fun _ => Nat.mod_lt _ (by decide : 0 < 65536), hl.1, ?_, ?_⟩
  · rw [withInode_self]
    exact hl.2.1
  · rw [withInode_self]
    exact hl.2.2

end OldLinux.Access
