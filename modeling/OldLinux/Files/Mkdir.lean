import OldLinux.Files.GiveBack

/-!
# Making a directory

Model of `sys_mkdir` (`fs/namei.c`) on the mounted disk: the way to the new entry or to one of the exits
(`mkdirTo`), and what is done at each exit (`mkdirLeave`). Until `new_inode` has returned an inode, `sys_mkdir` has
nothing to undo. From there on every exit gives back an inode, and all but the first a zone, that have just been
taken, and ends in a panic. So a call that makes no directory leaves everything as it was, and returns, if and
only if it finds out in time (`mkdir_fails_cleanly_iff`).
-/

namespace OldLinux.Files
open Lib Fs Function Bitmap

/-- Where `sys_mkdir` gets to, with the slots of the directory and of the new inode: the exits with an error, in
    the order of the source, or the new entry. -/
inductive Stop where
  | denied
  | noDir
  | noName (dir : Fin 32)
  | noWrite (dir : Fin 32)
  | exists (dir : Fin 32)
  | noInode (dir : Fin 32)
  | noZone (dir inode : Fin 32)
  | noEntry (dir inode : Fin 32)
  | made (dir inode : Fin 32)

/-- Not the new entry. -/
def Stop.Failed : Stop → Prop
  | made _ _ => False
  | _ => True

/-- The entries `.` and `..` of a new directory, with their inode numbers. -/
def dots (nr up : Nat) (data : Bytes) : Bytes :=
  let data : Bytes := data.store (n := 2) 0 (BitVec.ofNat 16 nr)
  let data : Bytes := update (update data 2 46) 3 0
  let data : Bytes := data.store (n := 2) 16 (BitVec.ofNat 16 up)
  update (update (update data 18 46) 19 46) 20 0

variable {μ : Type}

/-- The stores in the buffer of a new directory. -/
def writeDots (dev zone nr up : Nat) : Prog (RootDisk μ) Unit :=
  Prog.modify fun k => { k with blocks := update k.blocks (dev, zone) (dots nr up (k.blocks (dev, zone))) }

section
variable (reads : Nat × Nat → Bool) (sv : Services μ) (c : Fin 64)

/-- The part of `sys_mkdir` that sets up the new inode and enters it in the directory. -/
def mkdirFill (mode : BitVec 16) (dir i : Fin 32) (name : List Char) : Prog (Tables (RootDisk μ)) Stop := do
  let now ← currentTime
  setInode i fun inode => { inode with iSize := 32, iDirt := true, iMtime := now, iAtime := now }
  let inode ← inodeAt i
  let zone ← service (RootDisk.newBlock inode.iDev)
  setInode i fun inode => { inode with iZone := update inode.iZone 0 (.ofInt 16 zone) }
  let inode ← inodeAt i
  if inode.iZone 0 = 0 then pure (.noZone dir i)
  else
    setInode i fun inode => { inode with iDirt := true }
    -- `new_block` has left the buffer of the zone up to date, so that `bread` returns it without a read, and
    -- the exit for a zone that cannot be read is not taken
    let up ← inodeAt dir
    service (writeDots inode.iDev (inode.iZone 0).toNat inode.iNum up.iNum)
    setInode i fun inode => { inode with iNlinks := 2 }
    let t ← current c
    setInode i fun inode =>
      { inode with iMode := 0o040000#16 ||| (mode &&& 0o777#16 &&& ~~~t.umask), iDirt := true }
    if ← addEntry (RootDisk.services reads sv) dir name inode.iNum then pure (.made dir i)
    else pure (.noEntry dir i)

/-- The part of `sys_mkdir` that has the directory and a name. -/
def mkdirIn (t : Task) (mode : BitVec 16) (dir : Fin 32) (basename : List Char) :
    Prog (Tables (RootDisk μ)) Stop := do
  let inode ← inodeAt dir
  if permission t inode mayWrite = 0 then pure (.noWrite dir)
  else
    match ← service ((RootDisk.services reads sv).findEntry inode.iDev inode.toDInode basename) with
    | some _ => pure (.exists dir)
    | none =>
      match ← newInode (RootDisk.services reads sv) inode.iDev with
      | none => pure (.noInode dir)
      | some i => mkdirFill reads sv c mode dir i basename

/-- `sys_mkdir(regs)` up to the new entry or to an exit; `pathname` is the string at `regs->a0`, and `mode` is
    `regs->a0` as well. -/
def mkdirTo (a0 : BitVec 64) (pathname : Path.CString) : Prog (Tables (RootDisk μ)) Stop := do
  let mode := a0.setWidth 16
  let t ← current c
  if t.euid ≠ 0 ∧ t.uid ≠ 0 then pure .denied
  else
    match ← Path.dirNamei (RootDisk.services reads sv) c pathname with
    | none => pure .noDir
    | some (dir, basename) =>
      if basename.length = 0 then pure (.noName dir)
      else mkdirIn reads sv c t mode dir basename

/-- `iput(dir)`, and the error. -/
def putBack (dir : Fin 32) (error : Int) : Prog (Tables (RootDisk μ)) Int := do
  iput (RootDisk.services reads sv) (some dir)
  pure (-error)

/-- `free_block(inode->i_dev,inode->i_zone[0])`. -/
def freeZone (i : Fin 32) : Prog (Tables (RootDisk μ)) Unit := do
  let inode ← inodeAt i
  service (RootDisk.freeBlock inode.iDev (inode.iZone 0).toNat)

/-- What `sys_mkdir` does there; `i_nlinks` is an `unsigned char`. -/
def mkdirLeave : Stop → Prog (Tables (RootDisk μ)) Int
  | .denied => pure (-eperm)
  | .noDir => pure (-enoent)
  | .noName dir => putBack reads sv dir enoent
  | .noWrite dir => putBack reads sv dir eperm
  | .exists dir => putBack reads sv dir eexist
  | .noInode dir => putBack reads sv dir enospc
  | .noZone dir i => do
    iput (RootDisk.services reads sv) (some dir)
    setInode i fun inode => { inode with iNlinks := inode.iNlinks - 1 }
    putBack reads sv i enospc
  | .noEntry dir i => do
    iput (RootDisk.services reads sv) (some dir)
    freeZone i
    setInode i fun inode => { inode with iNlinks := 0 }
    putBack reads sv i enospc
  | .made dir i => do
    setInode dir fun inode => { inode with iNlinks := (inode.iNlinks + 1) % 256, iDirt := true }
    iput (RootDisk.services reads sv) (some dir)
    iput (RootDisk.services reads sv) (some i)
    pure 0

/-- `sys_mkdir(regs)`. -/
def sysMkdir (a0 : BitVec 64) (pathname : Path.CString) : Prog (Tables (RootDisk μ)) Int :=
  mkdirTo reads sv c a0 pathname >>= mkdirLeave reads sv

end

/-- The bitmaps, the inodes with their links, and the entries of the directories are as before, and every zone that
    was taken has been given back once. -/
structure Undone (s s' : Tables (RootDisk μ)) : Prop where
  imap : ∀ n, MapBit s'.kernel.super.sImap n ↔ MapBit s.kernel.super.sImap n
  zmap : ∀ n, MapBit s'.kernel.super.sZmap n ↔ MapBit s.kernel.super.sZmap n
  inodes : ∀ nr, s'.node nr = s.node nr
  dirs : ∀ d, (s'.kernel.fileSys (s'.inodeOf d)).dir () = (s.kernel.fileSys (s.inodeOf d)).dir ()
  zones : ∃ l, s'.kernel.taken = l ++ s.kernel.taken ∧ s'.kernel.given.Perm (l ++ s.kernel.given)

/-- `sys_mkdir` comes to the new entry; or it returns an error, with everything undone. -/
def FailsCleanly (reads : Nat × Nat → Bool) (sv : Services μ) (c : Fin 64) (a0 : BitVec 64) (path : Path.CString)
    (s : Tables (RootDisk μ)) : Prop :=
  Prog.returns (mkdirTo reads sv c a0 path) (fun stop _ => ¬ stop.Failed) s ∨
    Prog.returns (sysMkdir reads sv c a0 path) (fun r s' => r < 0 ∧ Undone s s') s

/-! ## When it does -/

namespace Tables
variable (s : Tables (RootDisk μ)) (task : Task) (root pwd : Fin 32) (path : List Char)

/-- Where the path name begins. -/
def start : Nat := if path.head? = some '/' then (s.inodeTable root).iNum else (s.inodeTable pwd).iNum

/-- The directory in which the name is to be made. -/
def parent : Option Nat := if path = [] then none else (s.tree task).dirOf (dirNames path) (s.start root pwd path)

/-- A slot is free, or no inode has to be got on the way to the directory. -/
def Walkable : Prop :=
  (∃ i, (s.inodeTable i).iCount = 0) ∨ ∀ name names, path ≠ [] → dirNames path = name :: names →
    (s.tree task).pass (s.start root pwd path) = true →
      (s.tree task).entry (s.start root pwd path) name = none

/-- A slot is free that the directory `dir` does not need. -/
def HasSlot (dir : Nat) : Prop :=
  ∃ e, (s.inodeTable e).iCount = 0 ∧ ((∃ i, s.Caches i dir ∧ (s.inodeTable i).iCount ≠ 0) ∨
    ∃ e', e' ≠ e ∧ (s.inodeTable e').iCount = 0)

end Tables

/-- The disk with the inode `n` taken, and the inodes `D` written to it. -/
def RootDisk.withInode (k : RootDisk μ) (D : Nat → Option DInode) (n : Nat) : RootDisk μ :=
  { k with dinode := D, super := { k.super with sImap := setMap k.super.sImap n } }

/-- The disk with the zone of bit `m` taken, and in it the new directory, of inode `n`. -/
def RootDisk.withDir (k : RootDisk μ) (m n up : Nat) : RootDisk μ :=
  let k := k.withZone m
  let zone := (k.super.sDev.toNat, (bitZone k.super m).toNat)
  { k with blocks := update k.blocks zone (dots n up (k.blocks zone)) }

/-- The zone of bit `m` is the one that `new_block` returns. -/
structure ZoneFree (k : RootDisk μ) (m : Nat) : Prop where
  clear : FirstClear k.super.sZmap m
  word : m % 8192 < 64
  lt : bitZone k.super m < k.super.sNzones.toNat
  ne : bitZone k.super m ≠ 0

/-- There are an inode and a zone, each with its bit in the first word of its map, and the directory has room for an
    entry. -/
def CanMake (reads : Nat × Nat → Bool) (s : Tables (RootDisk μ)) (dir : Nat) (d : DInode) : Prop :=
  ∃ n m, FirstClear s.kernel.super.sImap n ∧ n ≤ s.kernel.super.sNinodes.toNat ∧ n % 8192 < 64 ∧
    ZoneFree s.kernel m ∧ RootDisk.HasRoom reads (s.kernel.withDir m n dir) (s.inodeOf d)

/-- In the directory `dir`, `sys_mkdir` finds a reason to fail while it has taken nothing, or there is all it
    needs. -/
def SafeIn (reads : Nat × Nat → Bool) (s : Tables (RootDisk μ)) (task : Task) (dir : Nat) (d : DInode)
    (name : List Char) : Prop :=
  permission task (s.inodeOf d) mayWrite = 0 ∨ (s.lookup d name).isSome ∨ s.HasSlot dir ∧
    ((∀ n, FirstClear s.kernel.super.sImap n → s.kernel.super.sNinodes.toNat < n) ∨ CanMake reads s dir d)

/-- `sys_mkdir` finds a reason to fail before, or the directory is safe. -/
def MkdirSafe (reads : Nat × Nat → Bool) (s : Tables (RootDisk μ)) (task : Task) (root pwd : Fin 32)
    (path : List Char) : Prop :=
  (task.euid ≠ 0 ∧ task.uid ≠ 0) ∨ s.Walkable task root pwd path ∧
    ∀ dir d, s.parent task root pwd path = some dir → s.node dir = some d →
      basename path = [] ∨ SafeIn reads s task dir d (basename path)

/-- The zones of directories are marked in the bitmap. -/
structure Tables.Marks (s : Tables (RootDisk μ)) : Prop where
  first : 0 < s.kernel.super.sFirstdatazone.toNat
  zones : ∀ nr d (p : Slot), s.node nr = some d → isDir d.iMode = true → d.iNlinks ≠ 0 → p.Valid →
    (s.kernel.fileSys (s.inodeOf d)).zone () p ≠ 0 →
      MapBit s.kernel.super.sZmap (zoneBit s.kernel.super ((s.kernel.fileSys (s.inodeOf d)).zone () p))

section
variable {reads : Nat × Nat → Bool} {sv : Services μ} {c : Fin 64} {s t : Tables (RootDisk μ)} {task : Task}
  {root pwd i e : Fin 32} {path : List Char} {names : List (List Char)} {nr dir n m : Nat} {d : DInode}
  {R : Fin 32 → Nat}

/-! ## The way to the directory -/

/-- Without a free slot there is no `iget`. -/
lemma getEmptyInode_full (hfull : ∀ i, (s.inodeTable i).iCount ≠ 0) {Q : Fin 32 → Tables (RootDisk μ) → Prop} :
    ¬ Prog.returns (getEmptyInode (RootDisk.services reads sv)) Q s := by
  have hnone : emptySlot s = none := by
    refine List.find?_eq_none.2 fun i _ hi => ?_
    exact hfull i (of_decide_eq_true hi)
  rintro ⟨e, s', hrun, -⟩
  rw [getEmptyInode, Prog.bind_of_ret (m := Prog.get) (a := s) (t := s) rfl, hnone] at hrun
  cases hrun

/-- The loop of `get_dir` gets no inode when it does not get to a second directory. -/
lemma getDirLoop_stays (hs : t.Sound reads) (hc : t.task c = some task) (h : Walk t (counts t + ref (some i)) s)
    (hi : s.Caches i nr) (hl : Linked t i nr)
    (hn : ∀ name rest, names = name :: rest → (t.tree task).pass nr = true → (t.tree task).entry nr name = none) :
    Prog.returns (getDirLoop (RootDisk.services reads sv) c names i)
      (Lands t ((t.tree task).dirOf names nr)) s := by
  have hget : inodeAt i s = .ret (s.inodeTable i, s) := rfl
  have hpass := @Tables.pass_slot _ s task i nr h.moved.coherent hi
  rw [h.moved.tree] at hpass
  cases names with
  | nil =>
    rw [getDirLoop, Prog.returns, Prog.bind_of_ret hget, Prog.bind_of_ret (current_eq hc h), Tree.dirOf]
    by_cases hp : (t.tree task).pass nr = true
    · rw [if_neg (hpass.1 hp), if_pos hp]
      exact ⟨_, _, rfl, .of_some h hi⟩
    · rw [if_pos (not_not.1 fun hn => hp (hpass.2 hn)), if_neg hp]
      exact iput_lands h hi hl
  | cons name rest =>
    rw [getDirLoop, Prog.returns, Prog.bind_of_ret hget, Prog.bind_of_ret (current_eq hc h), Tree.dirOf]
    by_cases hp : (t.tree task).pass nr = true
    · have hnone := hn name rest rfl hp
      rw [if_neg (hpass.1 hp), if_pos hp]
      dsimp only
      rw [Prog.bind_of_ret (findEntry_walk hs h hi hp), hnone]
      exact iput_lands h hi hl
    · rw [if_pos (not_not.1 fun hn => hp (hpass.2 hn)), if_neg hp]
      exact iput_lands h hi hl

/-- When it does get to one, and no slot is free, `iget` panics. -/
lemma getDirLoop_full (hs : t.Sound reads) (hc : t.task c = some task) (h : Walk t (counts t + ref (some i)) s)
    (hi : s.Caches i nr) (hfull : ∀ i, counts t i ≠ 0) {name : List Char} {rest : List (List Char)}
    (hp : (t.tree task).pass nr = true) (he : (t.tree task).entry nr name ≠ none)
    {Q : Option (Fin 32) → Tables (RootDisk μ) → Prop} :
    ¬ Prog.returns (getDirLoop (RootDisk.services reads sv) c (name :: rest) i) Q s := by
  have hget : inodeAt i s = .ret (s.inodeTable i, s) := rfl
  have hpass := @Tables.pass_slot _ s task i nr h.moved.coherent hi
  rw [h.moved.tree] at hpass
  obtain ⟨inr, he⟩ := Option.ne_none_iff_exists'.1 he
  rintro ⟨r, s', hrun, -⟩
  rw [getDirLoop, Prog.bind_of_ret hget, Prog.bind_of_ret (current_eq hc h), if_neg (hpass.1 hp)] at hrun
  dsimp only at hrun
  rw [Prog.bind_of_ret (findEntry_walk hs h hi hp), he] at hrun
  obtain ⟨_, s₁, hput, hrun⟩ := Prog.bind_ret_iff.1 hrun
  have hl : Linked t i nr := linked_of_pass hs hp
  have h₁ := (iput_walk h (fun _ => le_rfl) hi (hl.links h.moved hi)).elim hput
  obtain ⟨i', s₂, higet, -⟩ := Prog.bind_ret_iff.1 hrun
  rw [iget] at higet
  split at higet
  · cases higet
  · obtain ⟨e, s₃, hempty, -⟩ := Prog.bind_ret_iff.1 higet
    refine getEmptyInode_full (Q := fun _ _ => True) (fun i => ?_) ⟨e, s₃, hempty, trivial⟩
    rw [h₁.holds.exact]
    exact hfull i

/-- The reference that `get_dir` takes first. -/
lemma start_walk {i : Fin 32} (hs : t.Sound reads) (hdev : (t.inodeTable i).iDev = t.rootDev)
    (hr : ∀ i, counts t i + 1 < 65536) : Prog.returns (addCount i) (fun _ s =>
      Walk t (counts t + ref (some i)) s ∧ s.Caches i (t.inodeTable i).iNum) t :=
  (addCount_walk (.start hs.coherent) (hr i)).mono fun _ _ h => ⟨h.1, h.2.2 i _ ⟨hdev, rfl⟩⟩

/-- The slot at which the path name begins. -/
lemma Tables.Stands.startSlot (hst : t.Stands c task root pwd) (path : List Char) : ∃ i,
    (if path.head? = some '/' then root else pwd) = i ∧ (t.inodeTable i).iCount ≠ 0 ∧
      (t.inodeTable i).iDev = t.rootDev ∧ t.start root pwd path = (t.inodeTable i).iNum := by
  rw [Tables.start]
  split
  · exact ⟨root, rfl, hst.usedRoot, hst.devRoot, rfl⟩
  · exact ⟨pwd, rfl, hst.usedPwd, hst.devPwd, rfl⟩

/-- `get_dir` returns exactly when it need not get an inode, or has a slot for it. -/
lemma getDir_parent (hs : t.Sound reads) (hr : ∀ i, counts t i + 1 < 65536) (hst : t.Stands c task root pwd) :
    (t.Walkable task root pwd path → Prog.returns (getDir (RootDisk.services reads sv) c path)
      (Lands t (t.parent task root pwd path)) t) ∧
    (¬ t.Walkable task root pwd path → ∀ Q, ¬ Prog.returns (getDir (RootDisk.services reads sv) c path) Q t) := by
  have hrun := @getDir_run _ t task reads sv c root pwd path hst
  by_cases hp : path = []
  · refine ⟨fun _ => ?_, fun hw => absurd (.inr fun _ _ hne => absurd hp hne) hw⟩
    subst hp
    rw [Prog.returns, hrun, Tables.parent, if_pos rfl]
    exact ⟨none, t, rfl, .of_none (.start hs.coherent)⟩
  obtain ⟨i, hslot, hused, hdev, hstart⟩ := hst.startSlot path
  obtain ⟨u, s₁, hadd, hw₁, hc₁⟩ := start_walk (i := i) hs hdev hr
  have hmatch : (if path.head? = some '/' then some root else if path ≠ [] then some pwd else none) = some i := by
    rw [if_pos hp, ← hslot]
    split
    · rfl
    · rfl
  rw [hmatch] at hrun
  have hgo : getDir (RootDisk.services reads sv) c path t =
      getDirLoop (RootDisk.services reads sv) c (dirNames path) i s₁ := by
    rw [hrun]
    exact Prog.bind_of_ret hadd
  have hl : Linked t i (t.inodeTable i).iNum := fun h0 => absurd h0 hused
  rw [Tables.Walkable, hstart, Tables.parent, if_neg hp, hstart]
  by_cases hfree : ∃ i, (t.inodeTable i).iCount = 0
  · refine ⟨fun _ => ?_, fun hw => absurd (.inl hfree) hw⟩
    rw [Prog.returns, hgo]
    exact getDirLoop_walk hs hfree hr hst.current hw₁ hc₁ hl
  · constructor
    · intro hw
      rw [Prog.returns, hgo]
      exact getDirLoop_stays hs hst.current hw₁ hc₁ hl fun name rest hn => hw.resolve_left hfree name rest hp hn
    · intro hw Q
      rw [Prog.returns, hgo]
      obtain ⟨name, hw⟩ := not_forall.1 (not_or.1 hw).2
      obtain ⟨rest, hw⟩ := not_forall.1 hw
      obtain ⟨-, hw⟩ := not_forall.1 hw
      obtain ⟨hn, hw⟩ := not_forall.1 hw
      obtain ⟨hpass, he⟩ := not_forall.1 hw
      rw [hn]
      exact getDirLoop_full hs hst.current hw₁ hc₁ (fun i h0 => hfree ⟨i, h0⟩) hpass he

/-! ## The new inode -/

/-- The slots that are free when the directory has been got. -/
lemma hasSlot_iff (h : Walk t (counts t + ref (some i)) s) (hi : s.Caches i dir) :
    (∃ e, (counts t + ref (some i)) e = 0) ↔ t.HasSlot dir := by
  have hfree : ∀ e, (counts t + ref (some i)) e = 0 ↔ (t.inodeTable e).iCount = 0 ∧ e ≠ i := fun e => by
    rw [Pi.add_apply]
    obtain rfl | hne := eq_or_ne e i
    · rw [ref_self]
      exact ⟨nofun, fun h => absurd rfl h.2⟩
    · rw [ref_of_ne hne, Nat.add_zero]
      exact ⟨fun h0 => ⟨h0, hne⟩, fun h0 => h0.1⟩
  constructor
  · rintro ⟨e, he⟩
    obtain ⟨h0, hne⟩ := (hfree e).1 he
    refine ⟨e, h0, ?_⟩
    by_cases hused : (t.inodeTable i).iCount = 0
    · exact .inr ⟨i, Ne.symm hne, hused⟩
    · obtain ⟨hdev, hnum⟩ := h.held i hused
      exact .inl ⟨i, ⟨hdev.symm.trans (hi.1.trans h.moved.rootDev), hnum.symm.trans hi.2⟩, hused⟩
  · rintro ⟨e, h0, ⟨j, hj, hused⟩ | ⟨e', hne, h0'⟩⟩
    · obtain ⟨hdev, hnum⟩ := h.held j hused
      have hsj : s.Caches j dir := ⟨hdev.trans (hj.1.trans h.moved.rootDev.symm), hnum.trans hj.2⟩
      refine ⟨e, (hfree e).2 ⟨h0, ?_⟩⟩
      rintro rfl
      rw [h.moved.coherent.unique j e dir hsj hi] at hused
      exact hused h0
    · by_cases he : e = i
      · exact ⟨e', (hfree e').2 ⟨h0', fun e'i => hne (e'i.trans he.symm)⟩⟩
      · exact ⟨e, (hfree e).2 ⟨h0, he⟩⟩

/-- The tables while the inode `m` in slot `e` is made, for the directory `md` in slot `i`, on the disk `k`. -/
structure Making (c : Fin 64) (task : Task) (i e : Fin 32) (k : RootDisk μ) (md m : MInode)
    (s : Tables (RootDisk μ)) : Prop where
  task : s.task c = some task
  kernel : s.kernel = k
  dir : s.inodeTable i = md
  new : s.inodeTable e = m
  ne : e ≠ i

/-- The inode in a slot is the directory `d` of number `dir`. -/
structure IsDir (t : Tables (RootDisk μ)) (dir : Nat) (d : DInode) (md : MInode) : Prop where
  dev : md.iDev = t.rootDev
  num : md.iNum = dir
  pipe : md.iPipe = false
  attrs : attrs md.toDInode = d

/-- What `new_inode` returns. -/
def newInodeOf (dev n now : Nat) : MInode :=
  { MInode.zero with
    iCount := 1, iNlinks := 1, iDev := dev, iDirt := true, iNum := n
    iMtime := now, iAtime := now, iCtime := now }

/-- Without a free slot `new_inode` panics. -/
lemma newInode_full (h : Walk t R s) (hfull : ¬ ∃ e, R e = 0) {dev : Nat}
    {Q : Option (Fin 32) → Tables (RootDisk μ) → Prop} :
    ¬ Prog.returns (newInode (RootDisk.services reads sv) dev) Q s := by
  rintro ⟨r, s', hrun, -⟩
  obtain ⟨e, s₁, hempty, -⟩ := Prog.bind_ret_iff.1 hrun
  refine getEmptyInode_full (Q := fun _ _ => True) (fun i h0 => hfull ⟨i, ?_⟩) ⟨e, s₁, hempty, trivial⟩
  rw [← h.holds.exact]
  exact h0

/-- The kernel of a walk is that of its beginning, but for the inodes on the disk. -/
lemma Walk.cases_bit (h : Walk t R s) :
    RootDisk.NewInodeBit s.kernel (RootDisk.newInodeBit t.rootDev s.kernel) := by
  refine RootDisk.newInodeBit_cases ?_
  rw [h.moved.kernel]
  rfl

/-- `get_empty_inode` leaves an inode in use where it is. -/
lemma getEmptyInode_beside (h : Walk t R s) (hfree : ∃ e, R e = 0) (hi : s.Caches i dir) (hR : R i ≠ 0) :
    Prog.returns (getEmptyInode (RootDisk.services reads sv)) (fun e s' => Walk t (R + ref (some e)) s' ∧ e ≠ i ∧
      s'.inodeTable e = { MInode.zero with iCount := 1 } ∧ s'.Caches i dir) s := by
  have hcount : ∀ e, (s.inodeTable e).iCount = R e := h.holds.exact
  obtain ⟨e, s₁, hrun, h₁, h0, he⟩ := @getEmptyInode_walk _ reads sv s t R h hfree
  have hfree' : ∃ e, (s.inodeTable e).iCount = 0 := by
    obtain ⟨e, he⟩ := hfree
    exact ⟨e, (hcount e).trans he⟩
  obtain ⟨h₂, -, -⟩ := (getEmptyInode_walk (.start h.moved.coherent) hfree').elim hrun
  obtain ⟨hdev, hnum⟩ := h₂.held i (by rw [hcount]; exact hR)
  refine ⟨e, s₁, hrun, h₁, ?_, he, hdev.trans (hi.1.trans h₂.moved.rootDev.symm), hnum.trans hi.2⟩
  rintro rfl
  exact hR h0

/-- `new_inode` finds no inode. -/
lemma newInode_none (h : Walk t R s) (hb : ∀ i, (t.inodeTable i).iCount ≤ R i) (hfree : ∃ e, R e = 0)
    (hi : s.Caches i dir) (hR : R i ≠ 0)
    (hn : ∀ n, FirstClear t.kernel.super.sImap n → t.kernel.super.sNinodes.toNat < n) :
    Prog.returns (newInode (RootDisk.services reads sv) t.rootDev)
      (fun r s' => r = none ∧ Walk t R s' ∧ s'.Caches i dir) s := by
  refine Prog.returns_bind ((getEmptyInode_beside h hfree hi hR).mono ?_)
  rintro e s₁ ⟨h₁, -, he, hi₁⟩
  have hk : s₁.kernel.super = t.kernel.super := by rw [h₁.moved.kernel]
  have hbit := h₁.cases_bit
  rw [← hk] at hn
  have hrun : RootDisk.newInodeBit t.rootDev s₁.kernel = .ret (none, s₁.kernel) := by
    generalize hr : RootDisk.newInodeBit t.rootDev s₁.kernel = r at hbit
    cases hbit with
    | none => rfl
    | panic hf hle => exact absurd (hn _ hf) (Nat.not_lt.2 hle)
    | some hf hle => exact absurd (hn _ hf) (Nat.not_lt.2 hle)
  have hserv := service_of_ret (s := s₁) hrun
  rw [Prog.returns, Prog.bind_of_ret (m := service ((RootDisk.services reads sv).newInodeBit t.rootDev)) hserv]
  exact Prog.returns_bind ((iput_empty_walk h₁ hb he).mono fun _ s₂ h₂ =>
    Prog.returns_pure ⟨rfl, h₂.1, h₂.2 i dir hi₁⟩)

/-- The bit of the inode is beyond the first word. -/
lemma newInode_panics (h : Walk t R s) (hfree : ∃ e, R e = 0) (hf : FirstClear t.kernel.super.sImap n)
    (hle : n ≤ t.kernel.super.sNinodes.toNat) (h64 : 64 ≤ n % 8192)
    {Q : Option (Fin 32) → Tables (RootDisk μ) → Prop} :
    ¬ Prog.returns (newInode (RootDisk.services reads sv) t.rootDev) Q s := by
  rintro ⟨r, s', hrun, -⟩
  obtain ⟨e, s₁, hempty, hrun⟩ := Prog.bind_ret_iff.1 hrun
  obtain ⟨h₁, -, -⟩ := (@getEmptyInode_walk _ reads sv s t R h hfree).elim hempty
  have hk : s₁.kernel.super = t.kernel.super := by rw [h₁.moved.kernel]
  have hbit := h₁.cases_bit
  rw [← hk] at hf hle
  obtain ⟨a, s₂, hserv, -⟩ := Prog.bind_ret_iff.1 hrun
  have hserv : service (RootDisk.newInodeBit t.rootDev) s₁ = .ret (a, s₂) := hserv
  rw [service, Prog.zoom] at hserv
  generalize RootDisk.newInodeBit t.rootDev s₁.kernel = r at hbit hserv
  cases hbit with
  | none hn => exact absurd (hn n hf) (Nat.not_lt.2 hle)
  | panic => cases hserv
  | some hf' _ h64' =>
    rw [hf'.unique hf] at h64'
    omega

/-- `new_inode` returns the inode `n`. -/
lemma newInode_some (h : Walk t R s) (hfree : ∃ e, R e = 0) (hc : t.task c = some task) (hi : s.Caches i dir)
    (hd : t.node dir = some d) (hR : R i ≠ 0) (hf : FirstClear t.kernel.super.sImap n)
    (hle : n ≤ t.kernel.super.sNinodes.toNat) (h64 : n % 8192 < 64) :
    Prog.returns (newInode (RootDisk.services reads sv) t.rootDev) (fun r s' => ∃ e D now md, r = some e ∧
      IsDir t dir d md ∧ Making c task i e (t.kernel.withInode D n) md (newInodeOf t.rootDev n now) s') s := by
  refine Prog.returns_bind ((getEmptyInode_beside h hfree hi hR).mono ?_)
  rintro e s₁ ⟨h₁, hne, he, hi₁⟩
  have hm := h₁.moved
  have hk : s₁.kernel.super = t.kernel.super := by rw [hm.kernel]
  have hrun : RootDisk.newInodeBit t.rootDev s₁.kernel = .ret (some n, { s₁.kernel with
      super := { s₁.kernel.super with sImap := setMap s₁.kernel.super.sImap n } }) := by
    have hbit := h₁.cases_bit
    rw [← hk] at hf hle
    generalize RootDisk.newInodeBit t.rootDev s₁.kernel = r at hbit
    cases hbit with
    | none hn => exact absurd (hn n hf) (Nat.not_lt.2 hle)
    | panic hf' _ h64' =>
      rw [hf'.unique hf] at h64'
      omega
    | some hf' => rw [hf'.unique hf]
  have hserv := service_of_ret (s := s₁) hrun
  rw [Prog.returns, Prog.bind_of_ret (m := service ((RootDisk.services reads sv).newInodeBit t.rootDev)) hserv]
  refine Prog.returns_bind ⟨_, _, rfl, Prog.returns_bind (Prog.returns_modify (Prog.returns_pure ?_))⟩
  obtain ⟨D, hker⟩ : ∃ D, s₁.kernel = { t.kernel with dinode := D } := ⟨_, hm.kernel⟩
  refine ⟨e, D, s₁.currentTime, s₁.inodeTable i, rfl, ⟨?_, hi₁.2, ?_, ?_⟩, ⟨?_, ?_, ?_, ?_, hne⟩⟩
  · exact hi₁.1.trans hm.rootDev
  · exact hm.coherent.pipe i dir hi₁
  · rw [← hm.node, hm.coherent.node_cached hi₁] at hd
    exact Option.some.inj hd
  · exact (congrFun h₁.holds.task c).trans hc
  · show ({ s₁.kernel with super := { s₁.kernel.super with sImap := setMap s₁.kernel.super.sImap n } } :
      RootDisk μ) = _
    rw [hker]
    rfl
  · exact update_of_ne (Ne.symm hne) ..
  · show update s₁.inodeTable e _ e = _
    rw [update_self, he]
    rfl

/-! ## The new zone -/

section
variable {k k' : RootDisk μ} {md mi : MInode} {mode : BitVec 16} {name : List Char}

/-- The new inode is changed. -/
lemma Making.setNew (h : Making c task i e k md mi s) (f : MInode → MInode) :
    ∃ s', setInode e f s = .ret ((), s') ∧ Making c task i e k md (f mi) s' := by
  refine ⟨_, rfl, h.task, h.kernel, ?_, ?_, h.ne⟩
  · exact (update_of_ne (Ne.symm h.ne) ..).trans h.dir
  · show update s.inodeTable e _ e = _
    rw [update_self, h.new]

/-- The new inode is read. -/
lemma Making.atNew (h : Making c task i e k md mi s) : inodeAt e s = .ret (mi, s) := by
  rw [← h.new]
  rfl

/-- The directory is read. -/
lemma Making.atDir (h : Making c task i e k md mi s) : inodeAt i s = .ret (md, s) := by
  rw [← h.dir]
  rfl

/-- A service of the disk returns. -/
lemma Making.service {α : Type} {p : Prog (RootDisk μ) α} {a : α} (h : Making c task i e k md mi s)
    (hp : p k = .ret (a, k')) : ∃ s', Files.service p s = .ret (a, s') ∧ Making c task i e k' md mi s' := by
  rw [← h.kernel] at hp
  exact ⟨_, service_of_ret hp, h.task, rfl, h.dir, h.new, h.ne⟩

/-- A service of the disk panics. -/
lemma Making.service_panic {α : Type} {p : Prog (RootDisk μ) α} {msg : String} (h : Making c task i e k md mi s)
    (hp : p k = .panic msg) : Files.service p s = .panic msg := by
  rw [Files.service, Prog.zoom, h.kernel, hp]

/-- The task that makes the directory. -/
lemma Making.current (h : Making c task i e k md mi s) : Files.current c s = .ret (task, s) := by
  rw [Files.current, Prog.bind_of_ret (m := Prog.get) (a := s) (t := s) rfl]
  simp only [h.task]
  rfl

/-- The new inode, with its zone if it has one. -/
structure IsNew (dev n : Nat) (mi : MInode) : Prop where
  dev : mi.iDev = dev
  num : mi.iNum = n
  count : mi.iCount = 1
  links : mi.iNlinks = 1
  mode : mi.iMode = 0
  pipe : mi.iPipe = false

/-- `new_inode` makes a new inode. -/
lemma isNew_newInodeOf {dev now : Nat} : IsNew dev n (newInodeOf dev n now) := ⟨rfl, rfl, rfl, rfl, rfl, rfl⟩

/-- The zone fits into an `unsigned short` that is not 0. -/
lemma ZoneFree.toNat (hz : ZoneFree k m) (hf : 0 < k.super.sFirstdatazone.toNat) :
    (BitVec.ofInt 16 (bitZone k.super m)).toNat = (bitZone k.super m).toNat ∧ 0 < (bitZone k.super m).toNat := by
  have hlt := hz.lt
  have hne := hz.ne
  have hn := k.super.sNzones.isLt
  have hpos : 0 ≤ bitZone k.super m := by
    rw [bitZone]
    omega
  rw [BitVec.toNat_ofInt]
  omega

/-- How far `sys_mkdir` gets with the zone. -/
inductive Zoned (reads : Nat × Nat → Bool) (sv : Services μ) (c : Fin 64) (task : Task) (i e : Fin 32)
    (k : RootDisk μ) (md : MInode) (n : Nat) (name : List Char) : Result (Stop × Tables (RootDisk μ)) → Prop where
  | panic {msg : String} : (∀ m, ¬ ZoneFree k m) → Zoned reads sv c task i e k md n name (.panic msg)
  | noZone {k' : RootDisk μ} {mi : MInode} {s' : Tables (RootDisk μ)} : (∀ m, ¬ ZoneFree k m) →
    Making c task i e k' md mi s' → k'.super.sImap = k.super.sImap → IsNew k.super.sDev.toNat n mi →
    Zoned reads sv c task i e k md n name (.ret (.noZone i e, s'))
  | filled {mi : MInode} {m : Nat} {s' : Tables (RootDisk μ)} : ZoneFree k m →
    Making c task i e (k.withDir m n md.iNum) md mi s' →
    mi.iZone 0 = BitVec.ofInt 16 (bitZone k.super m) → Zoned reads sv c task i e k md n name
      ((addEntry (RootDisk.services reads sv) i name n >>= fun found =>
        if found then pure (.made i e) else pure (.noEntry i e)) s')

/-- There is one first free zone. -/
lemma ZoneFree.unique {m' : Nat} (h : ZoneFree k m) (hc : FirstClear k.super.sZmap m') : m = m' :=
  h.clear.unique hc

/-- `new_block` returns the free zone if there is one. If there is none, it may have set a bit. -/
lemma zoneFree_of_newBlock {r : Result (Int × RootDisk μ)} (h : RootDisk.NewBlock k r) :
    (∃ msg, r = .panic msg ∧ ∀ m, ¬ ZoneFree k m) ∨
    (∃ k', r = .ret (0, k') ∧ k'.super.sImap = k.super.sImap ∧ ∀ m, ¬ ZoneFree k m) ∨
    ∃ m, r = .ret (bitZone k.super m, k.withZone m) ∧ ZoneFree k m := by
  cases h with
  | none hno => exact .inr (.inl ⟨k, rfl, rfl, fun m hz => hno m hz.clear⟩)
  | panic hc h64 =>
    refine .inl ⟨_, rfl, fun m hz => ?_⟩
    have hlt := hz.word
    rw [hz.unique hc] at hlt
    omega
  | lost hc h64 hbad =>
    refine .inr (.inl ⟨_, rfl, rfl, fun m hz => ?_⟩)
    rw [← hz.unique hc] at hbad
    exact hbad.elim (Int.not_le.2 hz.lt) hz.ne
  | some hc h64 hlt hne => exact .inr (.inr ⟨_, rfl, hc, h64, hlt, hne⟩)

/-- The new directory gets the first free zone. -/
lemma mkdirFill_zoned (h : Making c task i e k md mi s) (hn : IsNew k.super.sDev.toNat n mi)
    (hf : 0 < k.super.sFirstdatazone.toNat) :
    Zoned reads sv c task i e k md n name (mkdirFill reads sv c mode i e name s) := by
  obtain ⟨s₁, e₁, h₁⟩ := h.setNew fun inode =>
    { inode with iSize := 32, iDirt := true, iMtime := s.currentTime, iAtime := s.currentTime }
  rw [mkdirFill, Prog.bind_of_ret (m := currentTime) (a := s.currentTime) (t := s) rfl, Prog.bind_of_ret e₁,
    Prog.bind_of_ret h₁.atNew]
  have hnew := @RootDisk.newBlock_cases _ k mi.iDev hn.dev.symm
  obtain ⟨msg, hrun, hno⟩ | ⟨k', hrun, himap, hno⟩ | ⟨m, hrun, hz⟩ := zoneFree_of_newBlock hnew
  · rw [Prog.bind_of_panic (h₁.service_panic hrun)]
    exact .panic hno
  · have hzero : BitVec.ofInt 16 (0 : Int) = 0 := rfl
    obtain ⟨s₂, e₂, h₂⟩ := h₁.service hrun
    obtain ⟨s₃, e₃, h₃⟩ := h₂.setNew fun inode => { inode with iZone := update inode.iZone 0 (.ofInt 16 0) }
    rw [Prog.bind_of_ret e₂, Prog.bind_of_ret e₃, Prog.bind_of_ret h₃.atNew]
    simp only [update_self, hzero, if_true]
    exact .noZone hno h₃ himap ⟨hn.dev, hn.num, hn.count, hn.links, hn.mode, hn.pipe⟩
  · obtain ⟨hnat, hpos⟩ := hz.toNat hf
    have hz0 : BitVec.ofInt 16 (bitZone k.super m) ≠ 0 := by
      intro h0
      rw [h0] at hnat
      exact hpos.ne hnat
    have hself : update mi.iZone 0 (BitVec.ofInt 16 (bitZone k.super m)) 0 = _ := update_self ..
    obtain ⟨s₂, e₂, h₂⟩ := h₁.service hrun
    obtain ⟨s₃, e₃, h₃⟩ := h₂.setNew fun inode =>
      { inode with iZone := update inode.iZone 0 (.ofInt 16 (bitZone k.super m)) }
    obtain ⟨s₄, e₄, h₄⟩ := h₃.setNew fun inode => { inode with iDirt := true }
    rw [Prog.bind_of_ret e₂, Prog.bind_of_ret e₃, Prog.bind_of_ret h₃.atNew]
    simp only [update_self, if_neg hz0, hnat, hn.dev, hn.num]
    rw [Prog.bind_of_ret e₄]
    have hdots : writeDots k.super.sDev.toNat (bitZone k.super m).toNat n md.iNum (k.withZone m) =
        .ret ((), k.withDir m n md.iNum) := rfl
    obtain ⟨s₅, e₅, h₅⟩ := h₄.service hdots
    obtain ⟨s₆, e₆, h₆⟩ := h₅.setNew fun inode => { inode with iNlinks := 2 }
    obtain ⟨s₇, e₇, h₇⟩ := h₆.setNew fun inode =>
      { inode with iMode := 0o040000#16 ||| (mode &&& 0o777#16 &&& ~~~task.umask), iDirt := true }
    rw [Prog.bind_of_ret h₄.atDir, Prog.bind_of_ret e₅, Prog.bind_of_ret e₆,
      Prog.bind_of_ret h₆.current, Prog.bind_of_ret e₇]
    exact .filled hz h₇ hself

end

end

end OldLinux.Files
