import OldLinux.Files.Coherent
import OldLinux.Files.Count
import OldLinux.Files.Path
import OldLinux.Fs.DirMap

/-!
# What a path name stands for

A directory tree says which inode each name in a directory is for, and which inodes one may go through; a path
name stands for the inode at its end (`Tree.resolve`). `namei` on the mounted disk returns a slot with that
inode, and one reference to it, or `NULL` and none (`namei_resolves`). It can only go on when there is a free slot
in `inode_table` for the inodes on its way, since `get_empty_inode` panics otherwise (`namei_table_full`).
-/

namespace OldLinux.Files
open Lib Fs Function

/-! ## Trees -/

/-- For each directory the inodes of the names in it, and whether an inode may be gone through. -/
structure Tree where
  entry : Nat → List Char → Option Nat
  pass : Nat → Bool

namespace Tree

/-- From the inode `nr` on along the names, of which the last may be empty. -/
def follow (T : Tree) : List (List Char) → Nat → Option Nat
  | [], nr => some nr
  | name :: names, nr =>
    if T.pass nr then
      if name = [] ∧ names = [] then some nr else (T.entry nr name).bind (follow T names)
    else none

/-- The inode that a path name stands for. -/
def resolve (T : Tree) (root pwd : Nat) : List Char → Option Nat
  | [] => none
  | c :: path =>
    if c = '/' then T.follow (path.splitOn '/') root else T.follow ((c :: path).splitOn '/') pwd

/-- The directory that the names lead to, and that may be gone through, too. -/
def dirOf (T : Tree) : List (List Char) → Nat → Option Nat
  | [], nr => if T.pass nr then some nr else none
  | name :: names, nr => if T.pass nr then (T.entry nr name).bind (dirOf T names) else none

variable {T : Tree} {names : List (List Char)} {last : List Char} {nr dir : Nat}

/-- The last component is looked up in the directory of the others. -/
lemma follow_concat : T.follow (names ++ [last]) nr =
    (T.dirOf names nr).bind fun dir => if last = [] then some dir else T.entry dir last := by
  induction names generalizing nr with
  | nil =>
    rw [List.nil_append, follow, dirOf]
    by_cases hp : T.pass nr = true
    · rw [if_pos hp, if_pos hp, Option.bind_some]
      by_cases hl : last = []
      · rw [if_pos ⟨hl, rfl⟩, if_pos hl]
      · rw [if_neg fun h => hl h.1, if_neg hl]
        exact Option.bind_fun_some _
    · rw [if_neg hp, if_neg hp]
      rfl
  | cons name names ih =>
    rw [List.cons_append, follow, dirOf]
    by_cases hp : T.pass nr = true
    · have hne : ¬ (name = [] ∧ names ++ [last] = []) := fun h =>
        List.append_ne_nil_of_right_ne_nil _ (List.cons_ne_nil _ _) h.2
      rw [if_pos hp, if_pos hp, if_neg hne, Option.bind_assoc]
      exact congrArg (Option.bind _) (funext fun nr => ih)
    · rw [if_neg hp, if_neg hp]
      rfl

/-- One may go through the directory. -/
lemma pass_of_dirOf (h : T.dirOf names nr = some dir) : T.pass dir = true := by
  induction names generalizing nr with
  | nil =>
    rw [dirOf] at h
    split at h
    · cases h
      assumption
    · cases h
  | cons name names ih =>
    rw [dirOf] at h
    split at h
    · obtain ⟨nr', -, h⟩ := Option.bind_eq_some_iff.1 h
      exact ih h
    · cases h

/-- The directories before the last slash, and the name behind it. -/
lemma resolve_eq {root pwd : Nat} {path : List Char} (h : path ≠ []) : T.resolve root pwd path =
    (T.dirOf (dirNames path) (if path.head? = some '/' then root else pwd)).bind fun dir =>
      if basename path = [] then some dir else T.entry dir (basename path) := by
  have hsplit : ∀ l : List Char, l.splitOn '/' = (l.splitOn '/').dropLast ++ [basename l] := fun l => by
    rw [basename, List.getLastD_eq_getLast?, List.getLast?_eq_getLast_of_ne_nil (List.splitOn_ne_nil _ _)]
    exact (List.dropLast_append_getLast _).symm
  cases path with
  | nil => exact absurd rfl h
  | cons c l =>
    rw [resolve, dirNames, List.head?_cons]
    by_cases hc : c = '/'
    · have hb : basename (c :: l) = basename l := by rw [Path.basename_cons, if_pos (.inl hc)]
      rw [if_pos hc, if_pos (congrArg some hc), if_pos (congrArg some hc), hb, List.tail_cons, hsplit l, follow_concat,
        ← hsplit l]
    · have hc' : ¬ some c = some '/' := fun e => hc (Option.some.inj e)
      rw [if_neg hc, if_neg hc', if_neg hc', hsplit (c :: l), follow_concat, ← hsplit (c :: l)]

end Tree

/-! ## The tree of the mounted disk -/

variable {μ : Type}

section
variable {k : RootDisk μ} {m m' : MInode} {reads : Nat × Nat → Bool}

/-- The blocks of a file depend on its zones alone. -/
lemma zone_same (hz : m.iZone = m'.iZone) (hd : m.iDev = m'.iDev) :
    ∀ s, (k.fileSys m).zone () s = (k.fileSys m').zone () s
  | .top i => congrArg (fun z => (z i).toNat) hz
  | .sub p e => by
    have hdev : (k.fileSys m).dev () = (k.fileSys m').dev () := hd
    rw [FileSys.zone, FileSys.zone, zone_same hz hd p, hdev]
    rfl

/-- The place of an index entry depends on the zones and the device only. -/
lemma addr_same (hz : m.iZone = m'.iZone) (hd : m.iDev = m'.iDev) (s : Slot) :
    (k.fileSys m).addr () s = (k.fileSys m').addr () s :=
  Prod.ext hd (zone_same hz hd s)

/-- What can be read of a slot depends on the zones and the device. -/
lemma readsTo_same (hz : m.iZone = m'.iZone) (hd : m.iDev = m'.iDev) :
    ∀ s, (k.fileSys m).ReadsTo reads () s ↔ (k.fileSys m').ReadsTo reads () s
  | .top _ => Iff.rfl
  | .sub p e => by rw [FileSys.ReadsTo, FileSys.ReadsTo, readsTo_same hz hd p, zone_same hz hd, addr_same hz hd]

/-- The entries of a directory depend on the zones, the device and the size. -/
lemma dir_same (hz : m.iZone = m'.iZone) (hd : m.iDev = m'.iDev) (hs : m.iSize = m'.iSize) :
    (k.fileSys m).dir () = (k.fileSys m').dir () := by
  have hc : (k.fileSys m).contents () = (k.fileSys m').contents () := funext fun off => by
    rw [FileSys.contents, FileSys.contents, zone_same hz hd, addr_same hz hd]
    rfl
  rw [FileSys.dir, FileSys.dir, hc, Dir.mk.injEq]
  exact ⟨congrArg BitVec.toNat hs, congrFun hz 0, rfl⟩

/-- The blocks of a directory depend on the zones, the device and the size. -/
lemma hasBlocks_same (hz : m.iZone = m'.iZone) (hd : m.iDev = m'.iDev) (hs : m.iSize = m'.iSize)
    (h : (k.fileSys m).HasBlocks reads ()) : (k.fileSys m').HasBlocks reads () := fun b hb => by
  have hbm : b * 1024 < m'.iSize.toNat := hb
  obtain ⟨hlt, hne, hpath, hread⟩ := h b (by rw [← hs] at hbm; exact hbm)
  rw [zone_same hz hd] at hne
  rw [readsTo_same hz hd] at hpath
  rw [addr_same hz hd] at hread
  exact ⟨hlt, hne, hpath, hread⟩

end

namespace Tables

/-- An inode of the mounted root. -/
def inodeOf (s : Tables (RootDisk μ)) (d : DInode) : MInode := { MInode.zero with toDInode := d, iDev := s.rootDev }

/-- The inode number of the entry with a name in a directory. -/
def lookup (s : Tables (RootDisk μ)) (d : DInode) (name : List Char) : Option Nat :=
  (nameOf name).bind fun name =>
    let dir := (s.kernel.fileSys (s.inodeOf d)).dir ()
    (dir.table.find name.key).map fun i => (dir.slot i).inode.toNat

/-- The tree for a task: it may go through directories with permission to execute. -/
def tree (s : Tables (RootDisk μ)) (task : Task) : Tree where
  entry nr name := (s.node nr).bind fun d => s.lookup d name
  pass nr := (s.node nr).any fun d => isDir d.iMode && permission task (s.inodeOf d) mayExec != 0

/-- The table agrees with the disk, directories have no holes, and their entries name inodes that there are and
    that have links. -/
structure Sound (s : Tables (RootDisk μ)) (reads : Nat × Nat → Bool) : Prop where
  coherent : s.Coherent
  blocks : ∀ nr d, s.node nr = some d → isDir d.iMode = true → d.iNlinks ≠ 0 →
    (s.kernel.fileSys (s.inodeOf d)).HasBlocks reads ()
  names : ∀ nr d name nr', s.node nr = some d → isDir d.iMode = true → d.iNlinks ≠ 0 →
    s.lookup d name = some nr' → ∃ d', s.node nr' = some d' ∧ d'.iNlinks ≠ 0

/-- The task `c` has a root and a working directory: inodes of the mounted root in use. -/
structure Stands (s : Tables (RootDisk μ)) (c : Fin 64) (task : Task) (root pwd : Fin 32) : Prop where
  current : s.task c = some task
  hasRoot : task.root = some root
  hasPwd : task.pwd = some pwd
  usedRoot : (s.inodeTable root).iCount ≠ 0
  usedPwd : (s.inodeTable pwd).iCount ≠ 0
  devRoot : (s.inodeTable root).iDev = s.rootDev
  devPwd : (s.inodeTable pwd).iDev = s.rootDev

variable {s t : Tables (RootDisk μ)} {task : Task} {reads : Nat × Nat → Bool} {sv : Services μ} {i : Fin 32}
  {nr : Nat} {d : DInode} {name : List Char} {c : Fin 64}

/-- `permission` does not look at the time. -/
lemma permission_slot (hi : s.Caches i nr) {mask : BitVec 16} : permission task (s.inodeTable i) mask =
    permission task (s.inodeOf (attrs (s.inodeTable i).toDInode)) mask := by
  rw [permission, permission, hi.1]
  rfl

/-- The test in the loop of `get_dir`. -/
lemma pass_slot (h : s.Coherent) (hi : s.Caches i nr) : (s.tree task).pass nr = true ↔
    ¬ (¬ isDir (s.inodeTable i).iMode = true ∨ permission task (s.inodeTable i) mayExec = 0) := by
  rw [permission_slot hi]
  show (s.node nr).any _ = true ↔ _
  rw [h.node_cached hi, Option.any_some, Bool.and_eq_true, bne_iff_ne, not_or, not_not]
  rfl

/-- An inode without links may not be gone through. -/
lemma links_of_pass (h : (s.tree task).pass nr = true) (hdev : s.rootDev ≠ 0) :
    ∃ d, s.node nr = some d ∧ isDir d.iMode = true ∧ d.iNlinks ≠ 0 := by
  obtain ⟨d, hd, hp⟩ := (Option.any_eq_true _ _).1 h
  rw [Bool.and_eq_true, bne_iff_ne] at hp
  refine ⟨d, hd, hp.1, fun h0 => hp.2 ?_⟩
  rw [permission, if_pos ⟨hdev, h0⟩]

/-- `find_entry` looks the name up. -/
lemma findEntry_eq (h : (s.kernel.fileSys (s.inodeOf d)).HasBlocks reads ()) :
    service ((RootDisk.services reads sv).findEntry s.rootDev d name) s = .ret (s.lookup d name, s) := by
  have hrun : RootDisk.findEntry reads s.rootDev d name s.kernel = .ret (s.lookup d name, s.kernel) := by
    rw [RootDisk.findEntry, Prog.bind_of_ret (m := Prog.get) (t := s.kernel) rfl, lookup]
    cases nameOf name with
    | none => rfl
    | some name =>
      have hfind := @FileSys.findEntry_eq_find _ _ (fun disk _ => (0, disk)) s.kernel.currentTime reads _ () name h
      have hdir : ({ MInode.zero with toDInode := d, iDev := s.rootDev } : MInode) = s.inodeOf d := rfl
      simp only [Option.bind_some, hdir, hfind]
      cases hi : ((s.kernel.fileSys (s.inodeOf d)).dir ()).table.find name.key with
      | none => rfl
      | some i =>
        have hb := h.of_find hi
        have hde := FileSys.deref_place hb.lt hb.ne
        exact congrArg (fun de : DirEntry => Result.ret (some de.inode.toNat, s.kernel)) hde
  exact service_of_ret hrun

/-- Looking a name up does not need the times. -/
lemma lookup_attrs : s.lookup (attrs d) name = s.lookup d name := by
  have hdir := @dir_same _ s.kernel (s.inodeOf (attrs d)) (s.inodeOf d) rfl rfl rfl
  rw [lookup, lookup, hdir]

/-- Moving inodes changes no look-up. -/
lemma Moved.lookup (h : t.Moved s) : s.lookup d name = t.lookup d name := by
  have hfs : ∀ m, (s.kernel.fileSys m).dir () = (t.kernel.fileSys m).dir () := fun m => by
    rw [h.kernel]
    rfl
  have hd : s.inodeOf d = t.inodeOf d := by rw [inodeOf, h.rootDev, inodeOf]
  rw [Tables.lookup, Tables.lookup, hd]
  simp only [hfs]

/-- The tree stays the same. -/
lemma Moved.tree (h : t.Moved s) : s.tree task = t.tree task := by
  have hd : ∀ d, s.inodeOf d = t.inodeOf d := fun d => by rw [inodeOf, h.rootDev, inodeOf]
  rw [Tables.tree, Tables.tree, Tree.mk.injEq]
  constructor
  · funext nr name
    rw [h.node]
    exact congrArg (Option.bind _) (funext fun d => h.lookup)
  · funext nr
    rw [h.node]
    simp only [hd]

/-- The blocks of the directories can still be read. -/
lemma Moved.sound (h : t.Moved s) (hs : t.Sound reads) : s.Sound reads where
  coherent := h.coherent
  blocks nr d hn hdir hl := by
    rw [h.node] at hn
    have hb := hs.blocks nr d hn hdir hl
    have hd : s.inodeOf d = t.inodeOf d := by rw [inodeOf, h.rootDev, inodeOf]
    rw [hd, h.kernel]
    exact hb
  names nr d name nr' hn hdir hl hlook := by
    rw [h.node] at hn ⊢
    rw [h.lookup] at hlook
    exact hs.names nr d name nr' hn hdir hl hlook

end Tables

/-! ## The walk -/

section
variable {s t : Tables (RootDisk μ)} {task : Task} {reads : Nat × Nat → Bool} {sv : Services μ} {i : Fin 32}
  {nr : Nat} {d : DInode} {name : List Char} {c : Fin 64} {names : List (List Char)} {R : Fin 32 → Nat}

/-- The counts before the call. -/
def counts (t : Tables (RootDisk μ)) (i : Fin 32) : Nat := (t.inodeTable i).iCount

/-- What is returned is a slot with the inode, with one more reference, or nothing. -/
structure Lands (t : Tables (RootDisk μ)) (o : Option Nat) (r : Option (Fin 32)) (s : Tables (RootDisk μ)) : Prop where
  walk : Walk t (counts t + ref r) s
  hit : ∀ nr, o = some nr → ∃ i, r = some i ∧ s.Caches i nr
  miss : o = none → r = none

/-- The walk has landed on an inode. -/
lemma Lands.of_some (h : Walk t (counts t + ref (some i)) s) (hi : s.Caches i nr) : Lands t (some nr) (some i) s :=
  ⟨h, fun _ e => ⟨i, rfl, Option.some.inj e ▸ hi⟩, nofun⟩

/-- It has landed nowhere. -/
lemma Lands.of_none (h : Walk t (counts t) s) : Lands t none none s := by
  refine ⟨?_, nofun, fun _ => rfl⟩
  rw [ref_none, add_zero]
  exact h

/-- An inode that may be given back: it has links, unless others use it. -/
def Linked (t : Tables (RootDisk μ)) (i : Fin 32) (nr : Nat) : Prop :=
  counts t i = 0 → ∃ d, t.node nr = some d ∧ d.iNlinks ≠ 0

/-- An inode that is linked has links. -/
lemma Linked.links (h : Linked t i nr) (hw : t.Moved s) (hi : s.Caches i nr) (h0 : counts t i = 0) :
    (s.inodeTable i).iNlinks ≠ 0 := by
  obtain ⟨d, hd, hl⟩ := h h0
  rw [← hw.node, hw.coherent.node_cached hi] at hd
  cases hd
  exact hl

/-- An inode is given back where there is nothing to find. -/
lemma iput_lands (h : Walk t (counts t + ref (some i)) s) (hi : s.Caches i nr) (hl : Linked t i nr) :
    Prog.returns (iput (RootDisk.services reads sv) (some i) >>= fun _ => pure none) (Lands t none) s :=
  Prog.returns_bind ((iput_walk h (fun _ => le_rfl) hi (hl.links h.moved hi)).mono fun _ _ h₁ =>
    Prog.returns_pure (.of_none h₁))

/-- `find_entry` finds what the tree says. -/
lemma findEntry_walk (hs : t.Sound reads) (h : Walk t R s) (hi : s.Caches i nr)
    (hp : (t.tree task).pass nr = true) :
    service ((RootDisk.services reads sv).findEntry (s.inodeTable i).iDev (s.inodeTable i).toDInode name) s =
      .ret ((t.tree task).entry nr name, s) := by
  obtain ⟨d, hd, hdir, hl⟩ := Tables.links_of_pass hp hs.coherent.dev
  have hnode := h.moved.coherent.node_cached hi
  have hd' : d = attrs (s.inodeTable i).toDInode := by
    rw [h.moved.node, hd] at hnode
    exact Option.some.inj hnode
  subst hd'
  have hb₀ := (h.moved.sound hs).blocks nr _ hnode hdir hl
  have hb : (s.kernel.fileSys (s.inodeOf (s.inodeTable i).toDInode)).HasBlocks reads () :=
    @hasBlocks_same _ _ (s.inodeOf (attrs (s.inodeTable i).toDInode)) _ reads rfl rfl rfl hb₀
  have hlook : (t.tree task).entry nr name = s.lookup (s.inodeTable i).toDInode name := by
    show (t.node nr).bind _ = _
    rw [hd, Option.bind_some, ← h.moved.lookup, Tables.lookup_attrs]
  rw [hlook, hi.1]
  exact Tables.findEntry_eq hb

/-- What a name in a directory is for has links. -/
lemma entry_links {nr' : Nat} (hs : t.Sound reads) (hp : (t.tree task).pass nr = true)
    (he : (t.tree task).entry nr name = some nr') : ∃ d, t.node nr' = some d ∧ d.iNlinks ≠ 0 := by
  obtain ⟨d, hd, hdir, hl⟩ := Tables.links_of_pass hp hs.coherent.dev
  have he : (t.node nr).bind _ = some nr' := he
  rw [hd, Option.bind_some] at he
  exact hs.names nr d name nr' hd hdir hl he

/-- A directory that one may go through may be given back. -/
lemma linked_of_pass (hs : t.Sound reads) (hp : (t.tree task).pass nr = true) : Linked t i nr := fun _ => by
  obtain ⟨d, hd, -, hl⟩ := Tables.links_of_pass hp hs.coherent.dev
  exact ⟨d, hd, hl⟩

/-- A name is looked up, the directory given back, and the inode of the entry got. -/
lemma enter_walk (hs : t.Sound reads) (hfree : ∃ i, counts t i = 0) (hr : ∀ i, counts t i + 1 < 65536)
    (h : Walk t (counts t + ref (some i)) s)
    (hi : s.Caches i nr) (hp : (t.tree task).pass nr = true) {o : Nat → Option Nat}
    {m : Fin 32 → Prog (Tables (RootDisk μ)) (Option (Fin 32))}
    (hm : ∀ i' nr' s', Walk t (counts t + ref (some i')) s' → s'.Caches i' nr' → Linked t i' nr' →
      Prog.returns (m i') (Lands t (o nr')) s') :
    Prog.returns (do
      match ← service ((RootDisk.services reads sv).findEntry (s.inodeTable i).iDev (s.inodeTable i).toDInode name) with
      | none =>
        iput (RootDisk.services reads sv) (some i)
        pure none
      | some inr =>
        iput (RootDisk.services reads sv) (some i)
        let i' ← iget (RootDisk.services reads sv) (s.inodeTable i).iDev inr
        m i') (Lands t (((t.tree task).entry nr name).bind o)) s := by
  have hlinked : Linked t i nr := linked_of_pass hs hp
  rw [Prog.returns, Prog.bind_of_ret (findEntry_walk hs h hi hp), hi.1]
  cases hn : (t.tree task).entry nr name with
  | none => exact iput_lands h hi hlinked
  | some inr =>
    obtain ⟨d', hd', hl'⟩ := entry_links hs hp hn
    refine Prog.returns_bind ((iput_walk h (fun _ => le_rfl) hi (hlinked.links h.moved hi)).mono ?_)
    rintro - s₁ h₁
    have hroot₁ : s.rootDev = s₁.rootDev := h.moved.rootDev.trans h₁.moved.rootDev.symm
    rw [hroot₁]
    refine Prog.returns_bind ((iget_walk h₁ ((h₁.moved.node inr).trans hd') hfree hr).mono ?_)
    rintro i' s₂ ⟨h₂, hi'⟩
    exact hm i' inr s₂ h₂ hi' fun _ => ⟨d', hd', hl'⟩

/-- `current` is the task of the call. -/
lemma current_eq (hc : t.task c = some task) (h : Walk t R s) : current c s = .ret (task, s) := by
  have htask : s.task c = some task := (congrFun h.holds.task c).trans hc
  rw [current, Prog.bind_of_ret (m := Prog.get) (t := s) rfl]
  simp only [htask]
  rfl

/-- The loop of `get_dir` ends where the names lead to. -/
lemma getDirLoop_walk (hs : t.Sound reads) (hfree : ∃ i, counts t i = 0) (hr : ∀ i, counts t i + 1 < 65536)
    (hc : t.task c = some task)
    (h : Walk t (counts t + ref (some i)) s) (hi : s.Caches i nr) (hl : Linked t i nr) :
    Prog.returns (getDirLoop (RootDisk.services reads sv) c names i) (Lands t ((t.tree task).dirOf names nr)) s := by
  have hget : ∀ {i s}, inodeAt i s = .ret ((s : Tables (RootDisk μ)).inodeTable i, s) := rfl
  induction names generalizing s i nr with
  | nil =>
    have hpass := @Tables.pass_slot _ s task i nr h.moved.coherent hi
    rw [h.moved.tree] at hpass
    rw [getDirLoop, Prog.returns, Prog.bind_of_ret hget, Prog.bind_of_ret (current_eq hc h), Tree.dirOf]
    by_cases hp : (t.tree task).pass nr = true
    · rw [if_neg (hpass.1 hp), if_pos hp]
      exact ⟨_, _, rfl, .of_some h hi⟩
    · rw [if_pos (not_not.1 fun hn => hp (hpass.2 hn)), if_neg hp]
      exact iput_lands h hi hl
  | cons name names ih =>
    have hpass := @Tables.pass_slot _ s task i nr h.moved.coherent hi
    rw [h.moved.tree] at hpass
    rw [getDirLoop, Prog.returns, Prog.bind_of_ret hget, Prog.bind_of_ret (current_eq hc h), Tree.dirOf]
    by_cases hp : (t.tree task).pass nr = true
    · rw [if_neg (hpass.1 hp), if_pos hp]
      exact enter_walk hs hfree hr h hi hp fun i' nr' s' h' hi' hl' => ih h' hi' hl'
    · rw [if_pos (not_not.1 fun hn => hp (hpass.2 hn)), if_neg hp]
      exact iput_lands h hi hl

/-- `get_dir`, when the task has a root and a working directory. -/
lemma getDir_run {root pwd : Fin 32} {path : List Char} (hst : t.Stands c task root pwd) :
    getDir (RootDisk.services reads sv) c path t =
      (match if path.head? = some '/' then some root else if path ≠ [] then some pwd else none with
        | none => pure none
        | some i => addCount i >>= fun _ => getDirLoop (RootDisk.services reads sv) c (dirNames path) i) t := by
  have hused : ∀ {i}, (t.inodeTable i).iCount ≠ 0 → unused (some i) t = .ret (false, t) := fun {i} hi => by
    have hb : ((t.inodeTable i).iCount == 0) = false := beq_false_of_ne hi
    rw [unused, Prog.bind_of_ret (m := inodeAt i) (t := t) (a := t.inodeTable i) rfl, hb]
    rfl
  have hcur : current c t = .ret (task, t) := by
    rw [current, Prog.bind_of_ret (m := Prog.get) (t := t) rfl]
    simp only [hst.current]
    rfl
  rw [getDir, Prog.bind_of_ret hcur, hst.hasRoot, hst.hasPwd, Prog.bind_of_ret (hused hst.usedRoot),
    if_neg Bool.false_ne_true, Prog.bind_of_ret (hused hst.usedPwd)]
  exact congrFun (if_neg Bool.false_ne_true) t

/-- `get_dir`, for a path name that is not empty. -/
lemma getDir_walk {root pwd : Fin 32} {path : List Char} (hs : t.Sound reads) (hfree : ∃ i, counts t i = 0)
    (hr : ∀ i, counts t i + 1 < 65536) (hst : t.Stands c task root pwd) (hp : path ≠ []) :
    Prog.returns (getDir (RootDisk.services reads sv) c path) (Lands t ((t.tree task).dirOf (dirNames path)
      (if path.head? = some '/' then (t.inodeTable root).iNum else (t.inodeTable pwd).iNum))) t := by
  have hgo : ∀ i, (t.inodeTable i).iCount ≠ 0 → (t.inodeTable i).iDev = t.rootDev →
      Prog.returns (addCount i >>= fun _ => getDirLoop (RootDisk.services reads sv) c (dirNames path) i)
        (Lands t ((t.tree task).dirOf (dirNames path) (t.inodeTable i).iNum)) t := fun i hi hdev => by
    refine Prog.returns_bind ((addCount_walk (.start hs.coherent) (hr i)).mono ?_)
    rintro - s ⟨h, -, hk⟩
    exact getDirLoop_walk hs hfree hr hst.current h (hk i _ ⟨hdev, rfl⟩) fun h0 => absurd h0 hi
  rw [Prog.returns, getDir_run hst]
  by_cases hslash : path.head? = some '/'
  · rw [if_pos hslash, if_pos hslash]
    exact hgo root hst.usedRoot hst.devRoot
  · rw [if_neg hslash, if_neg hslash, if_pos hp]
    exact hgo pwd hst.usedPwd hst.devPwd

/-- The inode that `namei` has found is accessed. -/
lemma access_walk (h : Walk t (counts t + ref (some i)) s) (hi : s.Caches i nr) :
    Prog.returns (do
      let now ← currentTime
      setInode i fun inode => { inode with iAtime := now, iDirt := true }
      pure (some i)) (Lands t (some nr) (μ := μ)) s := by
  have hnow : currentTime s = .ret (s.currentTime, s) := rfl
  rw [Prog.returns, Prog.bind_of_ret hnow]
  refine Prog.returns_bind (Prog.returns_modify (Prog.returns_pure (.of_some ?_ ?_)))
  · have hc := h.holds.exact i
    rw [Pi.add_apply, ref_self] at hc
    have h0 : (s.inodeTable i).iCount ≠ 0 := by omega
    exact h.update (D := s.kernel.dinode)
      (h.moved.coherent.set rfl rfl rfl rfl (fun hd => by cases hd) fun hz => absurd hz h0)
      (h.holds.exact i) (fun _ _ => rfl) (h.base i) fun _ => ⟨rfl, rfl⟩
  · rw [Tables.Caches]
    show (update s.inodeTable i _ i).iDev = _ ∧ (update s.inodeTable i _ i).iNum = _
    rw [update_self]
    exact hi

/-- `namei` returns the inode that the path name stands for. -/
lemma namei_walk {root pwd : Fin 32} {path : List Char} (hs : t.Sound reads) (hfree : ∃ i, counts t i = 0)
    (hr : ∀ i, counts t i + 1 < 65536) (hst : t.Stands c task root pwd) :
    Prog.returns (namei (RootDisk.services reads sv) c path)
      (Lands t ((t.tree task).resolve (t.inodeTable root).iNum (t.inodeTable pwd).iNum path)) t := by
  have hrun := @getDir_run _ t task reads sv c root pwd path hst
  by_cases hp : path = []
  · subst hp
    rw [namei, dirNamei, Prog.returns, Prog.bind_of_ret hrun]
    exact ⟨none, t, rfl, .of_none (.start hs.coherent)⟩
  rw [namei, Tree.resolve_eq hp, ← apply_ite fun i => (t.inodeTable i).iNum]
  refine Prog.returns_bind ((getDir_walk hs hfree hr hst hp).mono ?_)
  intro r s₁ hl
  rw [← apply_ite fun i => (t.inodeTable i).iNum] at hl
  cases hdir : (t.tree task).dirOf (dirNames path)
      (t.inodeTable (if path.head? = some '/' then root else pwd)).iNum with
  | none =>
    rw [hdir] at hl
    obtain rfl := hl.miss rfl
    exact Prog.returns_pure hl
  | some dir =>
    rw [hdir] at hl
    obtain ⟨i, rfl, hi⟩ := hl.hit dir rfl
    show Prog.returns (if basename path = [] then pure (some i) else _) _ s₁
    rw [Option.bind_some]
    by_cases hb : basename path = []
    · rw [if_pos hb, if_pos hb]
      exact Prog.returns_pure hl
    · rw [if_neg hb, if_neg hb]
      have hget : inodeAt i s₁ = .ret (s₁.inodeTable i, s₁) := rfl
      rw [Prog.returns, Prog.bind_of_ret hget, ← Option.bind_fun_some ((t.tree task).entry dir _)]
      exact enter_walk hs hfree hr hl.walk hi (Tree.pass_of_dirOf hdir) fun i' nr' s' h' hi' _ => access_walk h' hi'

/-- On success, `namei` returns the inode that the path name stands for, with one more reference; else it returns
    `NULL`, and all counts are as before. -/
structure Resolves (s : Tables (RootDisk μ)) (o : Option Nat) (r : Option (Fin 32)) (s' : Tables (RootDisk μ)) :
    Prop where
  result : r.map (fun i => ((s'.inodeTable i).iDev, (s'.inodeTable i).iNum)) = o.map fun nr => (s.rootDev, nr)
  count : ∀ i, (s'.inodeTable i).iCount = (s.inodeTable i).iCount + if r = some i then 1 else 0
  held : ∀ i, (s.inodeTable i).iCount ≠ 0 →
    (s'.inodeTable i).iDev = (s.inodeTable i).iDev ∧ (s'.inodeTable i).iNum = (s.inodeTable i).iNum

/-- `namei` follows the components of the path name one by one. -/
theorem namei_resolves (reads : Nat × Nat → Bool) (sv : Services μ) {s : Tables (RootDisk μ)} {c : Fin 64}
    {task : Task} {root pwd : Fin 32} (hs : s.Sound reads) (hst : s.Stands c task root pwd)
    (hfree : ∃ i, (s.inodeTable i).iCount = 0) (hr : ∀ i, (s.inodeTable i).iCount + 1 < 65536)
    (path : Path.CString) :
    ∃ r s', Path.namei (RootDisk.services reads sv) c path s = .ret (r, s') ∧
      Resolves s ((s.tree task).resolve (s.inodeTable root).iNum (s.inodeTable pwd).iNum path.chars) r s' := by
  rw [Path.namei_eq]
  obtain ⟨r, s', e, hl⟩ := @namei_walk _ s task reads sv c root pwd path.chars hs hfree hr hst
  refine ⟨r, s', e, ?_, fun i => hl.walk.holds.exact i, hl.walk.held⟩
  cases ho : (s.tree task).resolve (s.inodeTable root).iNum (s.inodeTable pwd).iNum path.chars with
  | none => rw [hl.miss ho]; rfl
  | some nr =>
    obtain ⟨i, rfl, hi⟩ := hl.hit nr ho
    rw [Option.map_some, Option.map_some, hi.1, hi.2, hl.walk.moved.rootDev]

end

/-! ## A disk with one name -/

/-- A directory with one entry. -/
def homeDir : DInode :=
  { MInode.zero.toDInode with iMode := 0o40755, iSize := 16, iNlinks := 2, iZone := fun i => if i = 0 then 10 else 0 }

/-- An empty file. -/
def homeFile : DInode := { MInode.zero.toDInode with iMode := 0o100644, iNlinks := 1 }

/-- The name `a` is for the inode 2. -/
def homeDisk : RootDisk Unit where
  super := ⟨0x301, 2, 11, 10, fun _ => none, fun _ => none⟩
  dinode nr := if nr = 1 then some homeDir else if nr = 2 then some homeFile else none
  blocks _ off := if off = 0 then 2 else if off = 2 then 97 else 0
  currentTime := 0
  taken := []
  given := []
  memory := ()

/-- The root in slot 0; the other slots are free, or have pipes. -/
def home (full : Bool) : Tables (RootDisk Unit) where
  task := update (fun _ => none) 0 (some initTask)
  fileTable := fun _ => ⟨0, 0, 0, none, 0⟩
  inodeTable i :=
    if i = 0 then { MInode.zero with toDInode := homeDir, iDev := 0x301, iNum := 1, iCount := 4 }
    else if full then { MInode.zero with iCount := 2, iPipe := true } else .zero
  lastAllocatedInode := 0
  sIsup := some 0
  sImount := some 0
  ttyPgrp := fun _ => 0
  lastPid := 0
  currentTime := 0
  kernel := homeDisk

/-- The character of the name is an ASCII one. -/
lemma nameA_char : ∀ c ∈ ['a'], 0 < c.toNat ∧ c.toNat < 256 := fun c hc => by
  rw [List.mem_singleton.1 hc]
  decide

/-- The path name `a`. -/
def nameA : Path.CString := ⟨['a'], nameA_char⟩

section
variable {full : Bool} {i : Fin 32} {nr : Nat} {d : DInode}

/-- The root device of the sample. -/
lemma home_rootDev : (home full).rootDev = 0x301 := rfl

/-- It caches its root directory. -/
lemma home_caches : (home full).Caches i nr ↔ i = 0 ∧ nr = 1 := by
  rw [Tables.Caches, home_rootDev]
  by_cases hi : i = 0
  · subst hi
    exact ⟨fun h => ⟨rfl, h.2.symm⟩, fun h => ⟨rfl, h.2.symm⟩⟩
  · have hdev : ((home full).inodeTable i).iDev = 0 := by
      show (if i = 0 then _ else if full then _ else _ : MInode).iDev = 0
      rw [if_neg hi]
      cases full <;> rfl
    rw [hdev]
    exact ⟨fun h => absurd h.1 (by decide), fun h => absurd h.1 hi⟩

/-- It is coherent. -/
lemma home_coherent : (home full).Coherent := by
  refine ⟨by decide +revert, fun i j nr hi hj => ?_, fun i nr hi => ?_, fun i nr hi => ?_, fun i hz hd => ?_⟩
  · rw [home_caches] at hi hj
    rw [hi.1, hj.1]
  · obtain ⟨rfl, rfl⟩ := home_caches.1 hi
    rfl
  · obtain ⟨rfl, rfl⟩ := home_caches.1 hi
    exact ⟨homeDir, rfl, fun _ => rfl⟩
  · revert hz hd
    cases full <;> revert i <;> decide

/-- It has a directory and a file. -/
lemma home_node (h : (home full).node nr = some d) :
    nr = 1 ∧ d = attrs homeDir ∨ nr = 2 ∧ d = attrs homeFile := by
  by_cases h1 : nr = 1
  · subst h1
    rw [home_coherent.node_cached (home_caches.2 ⟨rfl, rfl⟩)] at h
    exact .inl ⟨rfl, (Option.some.inj h).symm⟩
  rw [Tables.node_uncached fun i hi => h1 (home_caches.1 hi).2] at h
  by_cases h2 : nr = 2
  · subst h2
    exact .inr ⟨rfl, (Option.some.inj h).symm⟩
  · have hnone : (home full).kernel.dinode nr = none := by
      show (if nr = 1 then _ else if nr = 2 then _ else none) = none
      rw [if_neg h1, if_neg h2]
    rw [hnone] at h
    cases h

/-- Inode 2 is the file. -/
lemma home_two : (home full).node 2 = some (attrs homeFile) :=
  Tables.node_uncached fun _ hi => absurd (home_caches.1 hi).2 (by decide)

/-- The only directory is the root. -/
lemma home_dir (h : (home full).node nr = some d) (hdir : isDir d.iMode = true) : d = attrs homeDir := by
  obtain ⟨-, rfl⟩ | ⟨-, rfl⟩ := home_node h
  · rfl
  · cases hdir

/-- It is sound. -/
lemma home_sound : (home full).Sound fun _ => true := by
  refine ⟨home_coherent, fun nr d hn hdir _ b hb => ?_, fun nr d name nr' hn hdir _ h => ?_⟩
  · rw [home_dir hn hdir] at hb ⊢
    have hb : b * 1024 < 16 := hb
    obtain rfl : b = 0 := by omega
    exact ⟨by decide, by cases full <;> decide, trivial, rfl⟩
  · rw [home_dir hn hdir] at h
    obtain ⟨name, -, h⟩ := Option.bind_eq_some_iff.1 h
    obtain ⟨i, hi, rfl⟩ := Option.map_eq_some_iff.1 h
    have hlt : i < 16 / 16 := (SlotTable.find_eq_some.1 hi).1.1
    obtain rfl : i = 0 := by omega
    have hinode : ((((home full).kernel.fileSys ((home full).inodeOf (attrs homeDir))).dir ()).slot 0).inode = 2 := by
      cases full <;> rfl
    rw [hinode]
    exact ⟨attrs homeFile, home_two, by decide⟩

/-- No count is near its end. -/
lemma home_counts (i : Fin 32) : ((home full).inodeTable i).iCount + 1 < 65536 := by
  cases full <;> revert i <;> decide

/-- Task 0 stands in the root. -/
lemma home_stands : (home full).Stands 0 initTask 0 0 :=
  ⟨rfl, rfl, rfl, by cases full <;> decide, by cases full <;> decide, rfl, rfl⟩

end

/-- With a free slot, `a` is found. -/
theorem namei_resolves_a : ∃ r s', Path.namei (RootDisk.services (fun _ => true) emptyDisk) 0 nameA (home false) =
    .ret (r, s') ∧ Resolves (home false) (some 2) r s' :=
  namei_resolves (fun _ => true) emptyDisk home_sound home_stands ⟨1, rfl⟩ home_counts
    nameA

/-- Without one, `iget` of the inode 2 panics. -/
theorem namei_table_full : (home true).Sound (fun _ => true) ∧ (home true).Stands 0 initTask 0 0 ∧
    ((home true).tree initTask).resolve 1 1 nameA.chars = some 2 ∧
    Path.namei (RootDisk.services (fun _ => true) emptyDisk) 0 nameA (home true) =
      .panic "No free inodes in mem" :=
  ⟨home_sound, home_stands, rfl, rfl⟩

end OldLinux.Files
