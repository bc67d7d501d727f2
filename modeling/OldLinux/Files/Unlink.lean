import OldLinux.Files.Entries
import OldLinux.Files.Mkdir
import OldLinux.Files.Modify

/-!
# Taking a name away

What `sys_unlink` on the mounted disk does to the directory tree. The directories are files with blocks of their
own (`Tables.dirs`), so clearing an entry changes one of them in one place (`Namespace.cleared`). A path name stands
afterwards for what it stood for, unless it ends with the name that is gone (`Tree.Removed.resolve`).
-/

namespace OldLinux.Files
open Lib Fs Function

/-! ## Trees without a name -/

/-- Names that `find_entry` does not tell apart. -/
def SameName (a b : List Char) : Prop := (nameOf a).map Name.key = (nameOf b).map Name.key

namespace Tree

/-- From `T`, the name `name` in the directory `dir` is taken away. -/
structure Removed (T : Tree) (dir : Nat) (name : List Char) (T' : Tree) : Prop where
  pass : ∀ nr, T'.pass nr = T.pass nr
  gone : T.pass dir = true → ∀ name', SameName name' name → T'.entry dir name' = none
  rest : ∀ nr name', T.pass nr = true → ¬ (nr = dir ∧ SameName name' name) → T'.entry nr name' = T.entry nr name'

/-- The path name leads to the name `name` in the directory `dir`. -/
def LeadsTo (T : Tree) (root pwd : Nat) (path : List Char) (dir : Nat) (name : List Char) : Prop :=
  T.dirOf (dirNames path) (if path.head? = some '/' then root else pwd) = some dir ∧ SameName (basename path) name

variable {T T' : Tree} {dir nr : Nat} {name : List Char} {names : List (List Char)}

/-- One does not get through a name that is for no directory. -/
lemma Removed.dirOf (h : T.Removed dir name T')
    (hx : ∀ name' nr, SameName name' name → T.entry dir name' = some nr → T.pass nr ≠ true) :
    T'.dirOf names nr = T.dirOf names nr := by
  have hstop : ∀ {names nr}, T.pass nr ≠ true → T.dirOf names nr = none := fun {names nr} hp => by
    cases names with
    | nil => exact if_neg hp
    | cons name names => exact if_neg hp
  induction names generalizing nr with
  | nil => rw [Tree.dirOf, Tree.dirOf, h.pass]
  | cons name' names ih =>
    rw [Tree.dirOf, Tree.dirOf, h.pass]
    by_cases hp : T.pass nr = true
    · rw [if_pos hp, if_pos hp]
      by_cases hn : nr = dir ∧ SameName name' name
      · obtain ⟨rfl, hn⟩ := hn
        rw [h.gone hp name' hn, Option.bind_none]
        cases he : T.entry nr name' with
        | none => rfl
        | some nr' => exact (hstop (hx name' nr' hn he)).symm
      · rw [h.rest nr name' hp hn]
        exact congrArg (Option.bind _) (funext fun nr => ih)
    · rw [if_neg hp, if_neg hp]

/-- The path names that lead to the name stand for nothing; the others stand for what they stood for. -/
lemma Removed.resolve (h : T.Removed dir name T') (hname : nameOf name ≠ none)
    (hx : ∀ name' nr, SameName name' name → T.entry dir name' = some nr → T.pass nr ≠ true)
    {root pwd : Nat} {path : List Char} (hp : path ≠ []) :
    (T.LeadsTo root pwd path dir name → T'.resolve root pwd path = none) ∧
      (¬ T.LeadsTo root pwd path dir name → T'.resolve root pwd path = T.resolve root pwd path) := by
  rw [resolve_eq hp, resolve_eq hp, h.dirOf hx, LeadsTo]
  constructor
  · rintro ⟨hdir, hn⟩
    have hb : basename path ≠ [] := fun hb => by
      rw [SameName, hb] at hn
      exact hname (Option.map_eq_none_iff.1 hn.symm)
    rw [hdir, Option.bind_some, if_neg hb]
    exact h.gone (pass_of_dirOf hdir) _ hn
  · intro hn
    cases hdir : T.dirOf (dirNames path) (if path.head? = some '/' then root else pwd) with
    | none => rfl
    | some nr =>
      rw [Option.bind_some, Option.bind_some]
      by_cases hb : basename path = []
      · rw [if_pos hb, if_pos hb]
      · rw [if_neg hb, if_neg hb]
        refine h.rest nr _ (pass_of_dirOf hdir) ?_
        rintro ⟨rfl, hsame⟩
        exact hn ⟨hdir, hsame⟩

end Tree

/-! ## The directories -/

variable {μ : Type} {reads : Nat × Nat → Bool} {sv : EntryServices μ} {c : Fin 64} {task : Task} {root pwd : Fin 32}

namespace Tables

/-- The directories that have links, as files; the other inodes have no zones here. -/
def dirs (s : Tables (RootDisk μ)) : FileSys Nat where
  disk := ⟨s.kernel.blocks, fun _ => true⟩
  inode nr := match s.node nr with
    | some d => if isDir d.iMode = true ∧ d.iNlinks ≠ 0 then s.inodeOf d else .zero
    | none => .zero

/-- Besides, no block belongs to two places in directories, and the names in each are different. -/
structure Namespace (s : Tables (RootDisk μ)) (reads : Nat × Nat → Bool) : Prop extends s.Sound reads where
  distinct : s.dirs.WF
  unique : ∀ nr, (s.dirs.dir nr).UniqueNames

variable {s s' : Tables (RootDisk μ)} {nr nr' : Nat} {d : DInode} {name : List Char}

/-- The inode of a directory in use. -/
lemma dirs_inode (hn : s.node nr = some d) (hdir : isDir d.iMode = true) (hl : d.iNlinks ≠ 0) :
    s.dirs.inode nr = s.inodeOf d := by
  simp only [dirs, hn]
  exact if_pos ⟨hdir, hl⟩

section
variable (hn : s.node nr = some d) (hdir : isDir d.iMode = true) (hl : d.iNlinks ≠ 0)
include hn hdir hl

/-- The zones of a directory in use. -/
lemma dirs_zone : ∀ p, s.dirs.zone nr p = (s.kernel.fileSys (s.inodeOf d)).zone () p
  | .top i => by
    rw [FileSys.zone, dirs_inode hn hdir hl]
    rfl
  | .sub p e => by
    have hdev : s.dirs.dev nr = (s.kernel.fileSys (s.inodeOf d)).dev () :=
      congrArg MInode.iDev (dirs_inode hn hdir hl)
    rw [FileSys.zone, FileSys.zone, dirs_zone p, hdev]
    rfl

/-- The places of its slots. -/
lemma dirs_addr (p : Slot) : s.dirs.addr nr p = (s.kernel.fileSys (s.inodeOf d)).addr () p :=
  Prod.ext (congrArg MInode.iDev (dirs_inode hn hdir hl)) (dirs_zone hn hdir hl p)

/-- The entries of a directory in use. -/
lemma dirs_dir : s.dirs.dir nr = (s.kernel.fileSys (s.inodeOf d)).dir () := by
  have hc : s.dirs.contents nr = (s.kernel.fileSys (s.inodeOf d)).contents () := funext fun off => by
    rw [FileSys.contents, FileSys.contents, dirs_zone hn hdir hl, dirs_addr hn hdir hl]
    rfl
  rw [FileSys.dir, FileSys.dir, hc, dirs_inode hn hdir hl]
  rfl

/-- What can be read of a directory in use. -/
lemma dirs_readsTo : ∀ p, s.dirs.ReadsTo reads nr p ↔ (s.kernel.fileSys (s.inodeOf d)).ReadsTo reads () p
  | .top _ => Iff.rfl
  | .sub p e => by
    rw [FileSys.ReadsTo, FileSys.ReadsTo, dirs_readsTo p, dirs_zone hn hdir hl, dirs_addr hn hdir hl]

/-- The blocks of a directory in use. -/
lemma dirs_hasBlocks : s.dirs.HasBlocks reads nr ↔ (s.kernel.fileSys (s.inodeOf d)).HasBlocks reads () := by
  have hb : ∀ b, s.dirs.HasBlock reads nr b ↔ (s.kernel.fileSys (s.inodeOf d)).HasBlock reads () b := fun b => by
    constructor
    · rintro ⟨hlt, hne, hpath, hread⟩
      rw [dirs_zone hn hdir hl] at hne
      rw [dirs_readsTo hn hdir hl] at hpath
      rw [dirs_addr hn hdir hl] at hread
      exact ⟨hlt, hne, hpath, hread⟩
    · rintro ⟨hlt, hne, hpath, hread⟩
      rw [← dirs_zone hn hdir hl] at hne
      rw [← dirs_readsTo hn hdir hl] at hpath
      rw [← dirs_addr hn hdir hl] at hread
      exact ⟨hlt, hne, hpath, hread⟩
  rw [FileSys.HasBlocks, FileSys.HasBlocks, dirs_inode hn hdir hl]
  exact forall_congr' fun b => imp_congr_right fun _ => hb b

/-- A name in a directory is looked up in its table. -/
lemma lookup_dirs : s.lookup d name = (nameOf name).bind fun n =>
    ((s.dirs.dir nr).table.find n.key).map fun i => ((s.dirs.dir nr).slot i).inode.toNat := by
  rw [lookup, dirs_dir hn hdir hl]

end

/-- Names that are cut to the same 14 characters are the same. -/
lemma lookup_same {name' : List Char} (h : SameName name name') : s.lookup d name = s.lookup d name' := by
  rw [SameName] at h
  rw [lookup, lookup]
  cases hn : nameOf name with
  | none =>
    rw [hn] at h
    rw [Option.map_eq_none_iff.1 h.symm]
  | some n =>
    rw [hn] at h
    obtain ⟨n', hn', hk⟩ := Option.map_eq_some_iff.1 h.symm
    rw [hn', Option.bind_some, Option.bind_some, hk]

end Tables

/-! ## Clearing an entry -/

/-- Entries of other files stay. -/
lemma setEntryInode_beside {ι : Type*} [DecidableEq ι] {fs : FileSys ι} {k k' : ι} {i : Nat} {inode : BitVec 16}
    (h : fs.WF) (hb : i / dirEntriesPerBlock < maxBlocks)
    (hz : fs.zone k (slotOf (i / dirEntriesPerBlock)) ≠ 0) (hne : k' ≠ k) :
    (fs.setEntryInode (fs.place k i) inode).dir k' = fs.dir k' := by
  obtain ⟨-, hcon⟩ := FileSys.putBlock_spec h hb hz ((fs.disk.blocks (fs.place k i).block).store (n := 2)
    (dirEntrySize * (fs.place k i).index) inode)
  have hc : (fs.setEntryInode (fs.place k i) inode).contents k' = fs.contents k' := funext fun off =>
    (hcon k' off).trans (if_neg fun h => hne h.1)
  rw [FileSys.dir, hc, FileSys.dir]
  rfl

/-- The disk with an entry cleared. -/
def RootDisk.cleared (k : RootDisk μ) (de : EntryPtr) : RootDisk μ :=
  { k with blocks := update k.blocks de.block ((k.blocks de.block).store (n := 2) (dirEntrySize * de.index) 0) }

namespace Tables

/-- Entry `i` of the directory `dir` is cleared, and the inode `nr` becomes `d`. -/
structure Cleared (s : Tables (RootDisk μ)) (dir i nr : Nat) (d : DInode) (s' : Tables (RootDisk μ)) : Prop where
  coherent : s'.Coherent
  blocks : s'.kernel.blocks = (s.kernel.cleared (s.dirs.place dir i)).blocks
  dev : s'.rootDev = s.rootDev
  node : s'.node nr = some d
  rest : ∀ nr', nr' ≠ nr → s'.node nr' = s.node nr'

section
variable {s s' : Tables (RootDisk μ)} {dir i nr nr' : Nat} {d d₀ d₁ : DInode} {name : List Char} {n : Name}

/-- Clearing an entry leaves the inodes. -/
lemma Cleared.inodeOf (h : s.Cleared dir i nr d s') : s'.inodeOf d₁ = s.inodeOf d₁ := by
  rw [Tables.inodeOf, Tables.inodeOf, h.dev]

section
variable (hs : s.Namespace reads) (h : s.Cleared dir i nr d s') (h₀ : s.node nr = some d₀)
  (hreg₀ : isDir d₀.iMode ≠ true) (hreg : isDir d.iMode ≠ true)
include h h₀ hreg₀ hreg

/-- A directory is another inode. -/
lemma Cleared.node_dir (hdir : isDir d₁.iMode = true) : s'.node nr' = some d₁ ↔ s.node nr' = some d₁ := by
  by_cases hnr : nr' = nr
  · rw [hnr, h.node, h₀]
    refine ⟨fun e => ?_, fun e => ?_⟩
    · exact absurd (Option.some.inj e ▸ hdir) hreg
    · exact absurd (Option.some.inj e ▸ hdir) hreg₀
  · rw [h.rest nr' hnr]

/-- The directories, as files. -/
lemma Cleared.dirs : s'.dirs = s.dirs.setEntryInode (s.dirs.place dir i) 0 := by
  have hinode : s'.dirs.inode = s.dirs.inode := funext fun nr' => by
    simp only [Tables.dirs]
    by_cases hnr : nr' = nr
    · rw [hnr, h.node, h₀]
      exact (if_neg fun e => hreg e.1).trans (if_neg fun e => hreg₀ e.1).symm
    · rw [h.rest nr' hnr]
      cases s.node nr' with
      | none => rfl
      | some d₁ => exact congrArg (fun m => if isDir d₁.iMode = true ∧ d₁.iNlinks ≠ 0 then m else .zero) h.inodeOf
  have hdisk : s'.dirs.disk = (s.dirs.setEntryInode (s.dirs.place dir i) 0).disk := by
    rw [Tables.dirs, h.blocks]
    rfl
  calc s'.dirs = ⟨s'.dirs.disk, s'.dirs.inode⟩ := rfl
    _ = ⟨(s.dirs.setEntryInode (s.dirs.place dir i) 0).disk, s.dirs.inode⟩ := by rw [hdisk, hinode]
    _ = _ := rfl

include hs

/-- The other directories are as they were. -/
lemma Cleared.dirs_dir (hf : (s.dirs.dir dir).table.find n.key = some i) (hb : s.dirs.HasBlocks reads dir) :
    s'.dirs.dir nr' = if nr' = dir then (s.dirs.dir dir).clear i else s.dirs.dir nr' := by
  have hi := hb.of_find hf
  rw [h.dirs h₀ hreg₀ hreg]
  split
  · next hnr =>
    subst hnr
    exact (FileSys.setEntryInode_edits 0 hs.distinct hi.lt hi.ne).dir
  · next hnr => exact setEntryInode_beside hs.distinct hi.lt hi.ne hnr

/-- The other directories have the blocks they had. -/
lemma Cleared.hasBlocks (hf : (s.dirs.dir dir).table.find n.key = some i) (hb : s.dirs.HasBlocks reads dir)
    (hb' : s.dirs.HasBlocks reads nr') : s'.dirs.HasBlocks reads nr' := by
  have hi := hb.of_find hf
  rw [h.dirs h₀ hreg₀ hreg]
  intro b hlt
  have hblock := hb' b hlt
  have hz : ∀ p : Slot, p.Valid → (s.dirs.setEntryInode (s.dirs.place dir i) 0).zone nr' p = s.dirs.zone nr' p :=
    fun p hp => FileSys.zone_putBlock hs.distinct hi.lt hp
  have hv := slotOf_valid hblock.lt
  have hd : (s.dirs.setEntryInode (s.dirs.place dir i) 0).dev nr' = s.dirs.dev nr' := rfl
  refine ⟨hblock.lt, ?_, hblock.path.of_grows (fun p hp _ => hz p hp) hd hv hblock.ne, ?_⟩
  · rw [hz _ hv]
    exact hblock.ne
  · rw [FileSys.addr, hd, hz _ hv]
    exact hblock.read

variable (hf : (s.dirs.dir dir).table.find n.key = some i) (hb : s.dirs.HasBlocks reads dir)
  (hname : nameOf name = some n)
include hf hb

/-- What the names in a directory are for afterwards. -/
lemma Cleared.lookup_rest {name' : List Char} (hn : s.node nr' = some d₁) (hdir : isDir d₁.iMode = true)
    (hl : d₁.iNlinks ≠ 0) (hne : nr' ≠ dir) : s'.lookup d₁ name' = s.lookup d₁ name' := by
  have hn' : s'.node nr' = some d₁ := (h.node_dir h₀ hreg₀ hreg hdir).2 hn
  rw [lookup_dirs hn' hdir hl, lookup_dirs hn hdir hl, h.dirs_dir hs h₀ hreg₀ hreg hf hb, if_neg hne]

include hname

/-- The name is gone from the directory, and no other one. -/
lemma Cleared.lookup_dir (name' : List Char) (hn : s.node dir = some d₁) (hdir : isDir d₁.iMode = true)
    (hl : d₁.iNlinks ≠ 0) : (SameName name' name → s'.lookup d₁ name' = none) ∧
      (¬ SameName name' name → s'.lookup d₁ name' = s.lookup d₁ name') := by
  have hn' : s'.node dir = some d₁ := (h.node_dir h₀ hreg₀ hreg hdir).2 hn
  have hu : (s.dirs.dir dir).table.Unique := Dir.unique_table.2 (hs.unique dir)
  rw [lookup_dirs hn' hdir hl, lookup_dirs hn hdir hl, h.dirs_dir hs h₀ hreg₀ hreg hf hb, if_pos rfl, SameName,
    hname, Dir.table_clear]
  cases nameOf name' with
  | none => exact ⟨nofun, fun _ => rfl⟩
  | some n' =>
    rw [Option.map_some, Option.map_some, Option.some_inj, Option.bind_some, Option.bind_some]
    constructor
    · intro hk
      rw [hk, SlotTable.find_erase_self hu hf]
      rfl
    · intro hk
      rw [SlotTable.find_erase_of_ne hf hk]
      cases hj : (s.dirs.dir dir).table.find n'.key with
      | none => rfl
      | some j =>
        have hji : j ≠ i := by
          rintro rfl
          exact hk ((SlotTable.find_eq_some.1 hj).1.inj (SlotTable.find_eq_some.1 hf).1).symm
        rw [Option.map_some, Option.map_some, Dir.slot_clear hji]

/-- A file that keeps a link leaves the directories in order. -/
lemma Cleared.namespace (hlinks : d.iNlinks ≠ 0) : s'.Namespace reads where
  coherent := h.coherent
  blocks nr' d₂ hn' hdir₂ hl₂ := by
    have hn := (h.node_dir h₀ hreg₀ hreg hdir₂).1 hn'
    have hb₂ := (dirs_hasBlocks hn hdir₂ hl₂).2 (hs.blocks nr' d₂ hn hdir₂ hl₂)
    exact (dirs_hasBlocks hn' hdir₂ hl₂).1 (h.hasBlocks hs h₀ hreg₀ hreg hf hb hb₂)
  names nr' d₂ name' x hn' hdir₂ hl₂ hlook := by
    have hn := (h.node_dir h₀ hreg₀ hreg hdir₂).1 hn'
    have hlook₀ : s.lookup d₂ name' = some x := by
      by_cases hnr : nr' = dir
      · subst hnr
        obtain ⟨hgone, hrest⟩ := h.lookup_dir hs h₀ hreg₀ hreg hf hb hname name' hn hdir₂ hl₂
        by_cases hsame : SameName name' name
        · rw [hgone hsame] at hlook
          cases hlook
        · rwa [← hrest hsame]
      · rwa [← h.lookup_rest hs h₀ hreg₀ hreg hf hb hn hdir₂ hl₂ hnr]
    obtain ⟨d', hd', hl'⟩ := hs.names nr' d₂ name' x hn hdir₂ hl₂ hlook₀
    by_cases hx : x = nr
    · rw [hx, h.node]
      exact ⟨d, rfl, hlinks⟩
    · rw [h.rest x hx]
      exact ⟨d', hd', hl'⟩
  distinct := by
    have hi := hb.of_find hf
    rw [h.dirs h₀ hreg₀ hreg]
    exact (FileSys.setEntryInode_edits 0 hs.distinct hi.lt hi.ne).wf
  unique nr' := by
    rw [h.dirs_dir hs h₀ hreg₀ hreg hf hb]
    split
    · rw [← Dir.unique_table, Dir.table_clear]
      exact (Dir.unique_table.2 (hs.unique dir)).erase
    · exact hs.unique nr'

variable (hd : s.node dir = some d₁) (hdir : isDir d₁.iMode = true) (hl : d₁.iNlinks ≠ 0)
include hd hdir hl

/-- The tree loses the name. -/
lemma Cleared.removed (task : Task) : (s.tree task).Removed dir name (s'.tree task) := by
  have hpass : ∀ nr', (s'.tree task).pass nr' = (s.tree task).pass nr' := fun nr' => by
    show (s'.node nr').any _ = (s.node nr').any _
    by_cases hnr : nr' = nr
    · rw [hnr, h.node, h₀, Option.any_some, Option.any_some, Bool.eq_false_iff.2 hreg, Bool.eq_false_iff.2 hreg₀]
      rfl
    · rw [h.rest nr' hnr]
      cases s.node nr' with
      | none => rfl
      | some d₂ => rw [Option.any_some, Option.any_some, h.inodeOf]
  refine ⟨hpass, fun _ name' hsame => ?_, fun nr' name' hp hne => ?_⟩
  · have hd' : s'.node dir = some d₁ := (h.node_dir h₀ hreg₀ hreg hdir).2 hd
    show (s'.node dir).bind _ = none
    rw [hd', Option.bind_some]
    exact (h.lookup_dir hs h₀ hreg₀ hreg hf hb hname _ hd hdir hl).1 hsame
  · obtain ⟨d₂, hd₂, hdir₂, hl₂⟩ := links_of_pass hp hs.coherent.dev
    have hd₂' : s'.node nr' = some d₂ := (h.node_dir h₀ hreg₀ hreg hdir₂).2 hd₂
    show (s'.node nr').bind _ = (s.node nr').bind _
    rw [hd₂', hd₂, Option.bind_some, Option.bind_some]
    by_cases hnr : nr' = dir
    · subst hnr
      exact (h.lookup_dir hs h₀ hreg₀ hreg hf hb hname _ hd₂ hdir₂ hl₂).2 fun hsame => hne ⟨rfl, hsame⟩
    · exact h.lookup_rest hs h₀ hreg₀ hreg hf hb hd₂ hdir₂ hl₂ hnr

end

end

/-! ## Finding the entry -/

/-- The entry with a name in a directory. -/
def place (s : Tables (RootDisk μ)) (dir : Nat) (name : List Char) : Option Nat :=
  (nameOf name).bind fun n => (s.dirs.dir dir).table.find n.key

section
variable {s t : Tables (RootDisk μ)} {dir : Nat} {name : List Char}

/-- The inode in the entry is what the name is for. -/
lemma entry_place (hs : s.Coherent) (hp : (s.tree task).pass dir = true) : (s.tree task).entry dir name =
    (s.place dir name).map fun i => ((s.dirs.dir dir).slot i).inode.toNat := by
  obtain ⟨d, hd, hdir, hl⟩ := links_of_pass hp hs.dev
  show (s.node dir).bind _ = _
  rw [hd, Option.bind_some, lookup_dirs hd hdir hl, place, Option.map_bind]
  rfl

end

end Tables

section
variable {s t : Tables (RootDisk μ)} {R : Fin 32 → Nat} {i j : Fin 32} {dir nr : Nat} {name : List Char} {d : DInode}

/-- `find_entry` finds the entry. -/
lemma findSlot_walk (hs : t.Sound reads) (h : Walk t R s) (hj : s.Caches j dir)
    (hp : (t.tree task).pass dir = true) :
    service ((RootDisk.entryServices reads sv).findSlot (s.inodeTable j).iDev (s.inodeTable j).toDInode name) s =
      .ret ((t.place dir name).map fun i => (t.dirs.place dir i, ((t.dirs.dir dir).slot i).inode.toNat), s) := by
  obtain ⟨d, hd, hdir, hl⟩ := Tables.links_of_pass hp hs.coherent.dev
  let m : MInode := { MInode.zero with toDInode := (s.inodeTable j).toDInode, iDev := (s.inodeTable j).iDev }
  have hnode := h.moved.coherent.node_cached hj
  rw [h.moved.node, hd, Option.some_inj] at hnode
  have hk : ∀ m, s.kernel.fileSys m = t.kernel.fileSys m := fun m => by
    rw [h.moved.kernel]
    rfl
  have hdev : (t.inodeOf d).iDev = m.iDev := (hj.1.trans h.moved.rootDev).symm
  have hzone : (t.inodeOf d).iZone = m.iZone := by
    rw [hnode]
    rfl
  have hsize : (t.inodeOf d).iSize = m.iSize := by
    rw [hnode]
    rfl
  have hdirs : (t.kernel.fileSys m).dir () = t.dirs.dir dir :=
    (dir_same hzone hdev hsize).symm.trans (Tables.dirs_dir hd hdir hl).symm
  have hplace : ∀ i, (t.kernel.fileSys m).place () i = t.dirs.place dir i := fun i => by
    rw [FileSys.place, FileSys.place, ← addr_same hzone hdev, Tables.dirs_addr hd hdir hl]
  have hb : (t.kernel.fileSys m).HasBlocks reads () := hasBlocks_same hzone hdev hsize (hs.blocks dir d hd hdir hl)
  have hrun : RootDisk.findSlot reads (s.inodeTable j).iDev (s.inodeTable j).toDInode name s.kernel =
      .ret ((t.place dir name).map fun i => (t.dirs.place dir i, ((t.dirs.dir dir).slot i).inode.toNat),
        s.kernel) := by
    rw [RootDisk.findSlot, Prog.bind_of_ret (m := Prog.get) (t := s.kernel) rfl, Tables.place]
    cases nameOf name with
    | none => rfl
    | some n =>
      have hfind := @FileSys.findEntry_eq_find _ _ (fun disk _ => (0, disk)) s.kernel.currentTime reads _ () n hb
      simp only [Option.bind_some, hk]
      rw [hfind, hdirs]
      cases hi : (t.dirs.dir dir).table.find n.key with
      | none => rfl
      | some i =>
        have hi' : ((t.kernel.fileSys m).dir ()).table.find n.key = some i := hdirs ▸ hi
        have hbi := hb.of_find hi'
        have hde := FileSys.deref_place hbi.lt hbi.ne
        simp only [Option.map_some]
        rw [hde, hplace, hdirs]
        rfl
  exact service_of_ret hrun

/-! ## The call -/

/-- The tasks and files are as before, and so are the counts of the inodes, those in use being in the same slots. On
    the disk, inodes and blocks may have changed. -/
structure Tables.Kept (s s' : Tables (RootDisk μ)) : Prop where
  task : s'.task = s.task
  file : s'.fileTable = s.fileTable
  count : ∀ i, (s'.inodeTable i).iCount = (s.inodeTable i).iCount
  held : ∀ i, (s.inodeTable i).iCount ≠ 0 →
    (s'.inodeTable i).iDev = (s.inodeTable i).iDev ∧ (s'.inodeTable i).iNum = (s.inodeTable i).iNum
  disk : s'.kernel = { s.kernel with dinode := s'.kernel.dinode, blocks := s'.kernel.blocks }

/-- A walk that holds nothing has kept everything. -/
lemma Walk.kept (h : Walk t (counts t) s) : t.Kept s where
  task := h.holds.task
  file := h.holds.file
  count := h.holds.exact
  held := h.held
  disk := by rw [h.moved.kernel]

/-- Entry `k` of the directory `dir` is cleared, and the file `nr` has one link less. -/
structure Taken (t : Tables (RootDisk μ)) (dir k nr : Nat) (d : DInode) (s : Tables (RootDisk μ)) : Prop where
  kept : t.Kept s
  cleared : t.Cleared dir k nr { d with iNlinks := d.iNlinks - 1 } s

/-- The stores of `sys_unlink` with links left: the entry is cleared, a link taken away, and both inodes are put
    away. -/
lemma unlinkEntry_run {de : EntryPtr} (hl : (s.inodeTable i).iNlinks ≠ 0) :
    unlinkEntry (RootDisk.entryServices reads sv) de j i s =
      (iput (RootDisk.services reads sv.toServices) (some i) >>= fun _ =>
        iput (RootDisk.services reads sv.toServices) (some j) >>= fun _ => pure 0)
      { s with
        kernel := s.kernel.cleared de
        inodeTable := update s.inodeTable i { s.inodeTable i with
          iNlinks := (s.inodeTable i).iNlinks - 1, iDirt := true, iCtime := s.currentTime } } := by
  have hset : setInode i (fun inode => { inode with
      iNlinks := if inode.iNlinks = 0 then 1 else inode.iNlinks }) s = .ret ((), s) := by
    rw [setInode, Prog.modify, if_neg hl, update_eq_self]
  rw [unlinkEntry, Prog.bind_of_ret hset]
  rfl

/-- The stores of `sys_unlink`. -/
lemma unlinkEntry_walk {k : Nat} (h : Walk t (counts t + ref (some j) + ref (some i)) s) (hi : s.Caches i nr)
    (hj : s.Caches j dir) (hd : t.node nr = some d) (hl : d.iNlinks ≠ 0) (hlj : Linked t j dir) (hne : dir ≠ nr)
    (hspare : counts t i = 0 → d.iNlinks - 1 ≠ 0) :
    Prog.returns (unlinkEntry (RootDisk.entryServices reads sv) (t.dirs.place dir k) j i)
      (fun r s' => r = 0 ∧ Taken t dir k nr d s') s := by
  have hnode := h.moved.coherent.node_cached hi
  rw [h.moved.node, hd, Option.some_inj] at hnode
  have hl' : (s.inodeTable i).iNlinks ≠ 0 := by
    rw [hnode] at hl
    exact hl
  let m : MInode := { s.inodeTable i with
    iNlinks := (s.inodeTable i).iNlinks - 1, iDirt := true, iCtime := s.currentTime }
  have hm : attrs m.toDInode = { d with iNlinks := d.iNlinks - 1 } := by
    rw [hnode]
    rfl
  generalize hs₂ : ({ s with kernel := s.kernel.cleared (t.dirs.place dir k) } : Tables (RootDisk μ)) = s₂
  generalize hs₃ : ({ s₂ with inodeTable := update s₂.inodeTable i m } : Tables (RootDisk μ)) = s₃
  have hrun : unlinkEntry (RootDisk.entryServices reads sv) (t.dirs.place dir k) j i s =
      (iput (RootDisk.services reads sv.toServices) (some i) >>= fun _ =>
        iput (RootDisk.services reads sv.toServices) (some j) >>= fun _ => pure 0) s₃ := by
    rw [unlinkEntry_run hl', ← hs₃, ← hs₂]
  have hin₂ : s₂.inodeTable = s.inodeTable := by rw [← hs₂]
  have hin₃ : s₃.inodeTable = update s.inodeTable i m := by rw [← hs₃, hin₂]
  obtain ⟨hco₂, hnode₂⟩ := h.moved.coherent.kernel (k := s.kernel.cleared (t.dirs.place dir k)) rfl rfl
  rw [hs₂] at hco₂
  simp only [hs₂] at hnode₂
  have hcache₂ : ∀ x nr, s₂.Caches x nr ↔ s.Caches x nr := fun x nr => by
    rw [← hs₂]
    exact Iff.rfl
  have hdev : m.iDev = (s₂.inodeTable i).iDev := by rw [hin₂]
  have hnum : m.iNum = (s₂.inodeTable i).iNum := by rw [hin₂]
  have hpipe : m.iPipe = (s₂.inodeTable i).iPipe := by rw [hin₂]
  obtain ⟨hco₃, hcache₃, hnode₃⟩ := hco₂.modify ((hcache₂ i nr).2 hi) hdev hnum hpipe rfl
  rw [hs₃] at hco₃
  simp only [hs₃] at hcache₃ hnode₃
  have hcount : ∀ x, (s₃.inodeTable x).iCount = (counts t + ref (some j) + ref (some i)) x := fun x => by
    rw [← h.holds.exact, hin₃]
    obtain rfl | hx := eq_or_ne x i
    · rw [update_self]
    · rw [update_of_ne hx]
  have hi₃ : s₃.Caches i nr := (hcache₃ i nr).2 ((hcache₂ i nr).2 hi)
  have hj₃ : s₃.Caches j dir := (hcache₃ j dir).2 ((hcache₂ j dir).2 hj)
  have hli : counts t i = 0 → ∃ d, s₃.node nr = some d ∧ d.iNlinks ≠ 0 := fun h0 => by
    rw [hnode₃, if_pos rfl, hm]
    exact ⟨_, rfl, hspare h0⟩
  have hlj₃ : counts t j = 0 → ∃ d, s₃.node dir = some d ∧ d.iNlinks ≠ 0 := fun h0 => by
    rw [hnode₃, if_neg hne, hnode₂, h.moved.node]
    exact hlj h0
  rw [Prog.returns, hrun]
  refine (putTwo hco₃ hi₃ hj₃ hcount hli hlj₃).mono ?_
  rintro r s' ⟨rfl, hput⟩
  have hker : s₃.kernel = s.kernel.cleared (t.dirs.place dir k) := by rw [← hs₃, ← hs₂]
  have hroot : s'.rootDev = t.rootDev := hput.moved.rootDev.trans (by
    rw [Tables.rootDev, hker]
    exact h.moved.rootDev)
  refine ⟨rfl, ⟨?_, ?_, hput.count, fun x hx => ?_, ?_⟩, ⟨hput.moved.coherent, ?_, hroot, ?_, fun nr' hnr' => ?_⟩⟩
  · rw [hput.task, ← hs₃, ← hs₂]
    exact h.holds.task
  · rw [hput.file, ← hs₃, ← hs₂]
    exact h.holds.file
  · obtain ⟨hdev', hnum'⟩ := hput.held x hx
    have hsame : (s₃.inodeTable x).iDev = (s.inodeTable x).iDev ∧ (s₃.inodeTable x).iNum = (s.inodeTable x).iNum := by
      rw [hin₃]
      obtain rfl | hx := eq_or_ne x i
      · rw [update_self]
        exact ⟨rfl, rfl⟩
      · rw [update_of_ne hx]
        exact ⟨rfl, rfl⟩
    rw [hdev', hnum', hsame.1, hsame.2]
    exact h.held x hx
  · rw [hput.moved.kernel, hker, h.moved.kernel]
    rfl
  · rw [hput.moved.kernel, hker, h.moved.kernel]
    rfl
  · rw [hput.moved.node, hnode₃, if_pos rfl, hm]
  · rw [hput.moved.node, hnode₃, if_neg hnr', hnode₂, h.moved.node]

/-- `iget` leaves another inode in use where it is. -/
lemma iget_beside {sv : Services μ} {nr' : Nat} (h : Walk t R s) (hn : s.node nr = some d) (hfree : ∃ i, R i = 0)
    (hr : ∀ i, R i + 1 < 65536) (hj : s.Caches j nr') (hR : R j ≠ 0) :
    Prog.returns (iget (RootDisk.services reads sv) s.rootDev nr)
      (fun i s' => Walk t (R + ref (some i)) s' ∧ s'.Caches i nr ∧ s'.Caches j nr') s := by
  have hcount : counts s = R := funext h.holds.exact
  have hfree' : ∃ i, counts s i = 0 := hcount ▸ hfree
  have hr' : ∀ i, counts s i + 1 < 65536 := hcount ▸ hr
  obtain ⟨i, s', hrun, hs', hi⟩ := @iget_walk _ reads sv s t nr d R h hn hfree hr
  obtain ⟨h₂, -⟩ := (iget_walk (.start h.moved.coherent) hn hfree' hr').elim hrun
  obtain ⟨hdev, hnum⟩ := h₂.held j (by
    rw [← hcount] at hR
    exact hR)
  exact ⟨i, s', hrun, hs', hi, hdev.trans (hj.1.trans h₂.moved.rootDev.symm), hnum.trans hj.2⟩

/-- An exit with the directory alone. -/
lemma exitWith_one {bh : Option EntryPtr} {e : Int} : exitWith (RootDisk.entryServices reads sv) [j] bh e =
    iput (RootDisk.services reads sv.toServices) (some j) >>= fun _ => pure (-e) := by
  rw [exitWith, List.forM_cons, List.forM_nil, bind_assoc]
  cases bh with
  | none => rfl
  | some de => rfl

/-- An exit that gives back two inodes. -/
lemma exitWith_two {bh : Option EntryPtr} {e : Int} : exitWith (RootDisk.entryServices reads sv) [i, j] bh e =
    iput (RootDisk.services reads sv.toServices) (some i) >>= fun _ =>
      iput (RootDisk.services reads sv.toServices) (some j) >>= fun _ => pure (-e) := by
  rw [exitWith, List.forM_cons, List.forM_cons, List.forM_nil, bind_assoc]
  simp only [bind_assoc]
  cases bh with
  | none => rfl
  | some de => rfl

/-- A walk that ends with giving back the references. -/
lemma Walk.put {s' : Tables (RootDisk μ)} (h : Walk t R s) (hp : Put s (counts t) s') :
    t.Kept s' ∧ t.Moved s' := by
  have hm := h.moved.trans hp.moved
  refine ⟨⟨hp.task.trans h.holds.task, hp.file.trans h.holds.file, hp.count, fun i hi => ?_, ?_⟩, hm⟩
  · obtain ⟨hdev, hnum⟩ := hp.held i hi
    obtain ⟨hdev', hnum'⟩ := h.held i hi
    exact ⟨hdev.trans hdev', hnum.trans hnum'⟩
  · rw [hm.kernel]

end

namespace Tables
variable (s : Tables (RootDisk μ))

/-- The directory and the file of the name that `sys_unlink` takes away, or its error. -/
def unlinks (task : Task) (root pwd : Fin 32) (path : List Char) : Except Int (Nat × Nat) :=
  match s.parent task root pwd path with
  | none => .error enoent
  | some dir =>
    if basename path = [] then .error enoent
    else if (s.node dir).any fun d => permission task (s.inodeOf d) mayWrite != 0 then
      match (s.tree task).entry dir (basename path) with
      | none => .error enoent
      | some nr => if (s.node nr).any fun d => isReg d.iMode then .ok (dir, nr) else .error eperm
    else .error eperm

/-- Another link is left to the inode, or somebody has it. -/
def Spare (nr : Nat) : Prop :=
  ∀ d, s.node nr = some d → d.iNlinks = 1 → ∃ i, s.Caches i nr ∧ (s.inodeTable i).iCount ≠ 0

end Tables

/-- The name is gone from the directory for every task, and from nowhere else; the file has one link less; what other
    blocks there are than those of the directory stay, and all is in order as long as a link is left. -/
structure Unlinked (reads : Nat × Nat → Bool) (s : Tables (RootDisk μ)) (dir nr : Nat) (name : List Char)
    (s' : Tables (RootDisk μ)) : Prop where
  tree : ∀ task, (s.tree task).Removed dir name (s'.tree task)
  gone : ∀ task root pwd path, path ≠ [] → (s.tree task).LeadsTo root pwd path dir name →
    (s'.tree task).resolve root pwd path = none
  rest : ∀ task root pwd path, path ≠ [] → ¬ (s.tree task).LeadsTo root pwd path dir name →
    (s'.tree task).resolve root pwd path = (s.tree task).resolve root pwd path
  link : s'.node nr = (s.node nr).map fun d => { d with iNlinks := d.iNlinks - 1 }
  node : ∀ nr', nr' ≠ nr → s'.node nr' = s.node nr'
  blocks : ∀ a, (∀ p : Slot, p.Valid → s.dirs.addr dir p ≠ a) → s'.kernel.blocks a = s.kernel.blocks a
  inOrder : (∀ d, s.node nr = some d → d.iNlinks ≠ 1) → s'.Namespace reads

/-- How `sys_unlink` ends. -/
def UnlinkEnds (reads : Nat × Nat → Bool) (s : Tables (RootDisk μ)) (name : List Char) :
    Except Int (Nat × Nat) → Int → Tables (RootDisk μ) → Prop
  | .error e, r, s' => r = -e ∧ s.Kept s' ∧ s.Moved s'
  | .ok (dir, nr), r, s' => r = 0 ∧ s.Kept s' ∧ Unlinked reads s dir nr name s'

section
variable {s t : Tables (RootDisk μ)} {R : Fin 32 → Nat} {i j : Fin 32} {dir nr k : Nat} {name : List Char}
  {d : DInode}

/-- A regular file is no directory. -/
lemma not_isDir_of_isReg {m : BitVec 16} (h : isReg m = true) : isDir m ≠ true := fun hd => by
  have hr := (eq_of_beq h).symm.trans (eq_of_beq hd)
  exact absurd hr (by decide)

/-- What the stores of `sys_unlink` come to. -/
lemma Taken.unlinked (hs : t.Namespace reads) (h : Taken t dir k nr d s) (hp : (t.tree task).pass dir = true)
    (hk : t.place dir name = some k) (hd : t.node nr = some d) (hreg : isReg d.iMode = true)
    (he : (t.tree task).entry dir name = some nr) (hl : d.iNlinks ≠ 0) : Unlinked reads t dir nr name s := by
  obtain ⟨n, hname, hf⟩ := Option.bind_eq_some_iff.1 hk
  obtain ⟨dd, hdd, hdir, hdl⟩ := Tables.links_of_pass hp hs.coherent.dev
  have hb := (Tables.dirs_hasBlocks hdd hdir hdl).2 (hs.blocks dir dd hdd hdir hdl)
  have hnd := not_isDir_of_isReg hreg
  have hrem := h.cleared.removed hs hd hnd hnd hf hb hname hdd hdir hdl
  have hlook : t.lookup dd name = some nr := by
    have he : (t.node dir).bind _ = some nr := he
    rwa [hdd, Option.bind_some] at he
  -- the name is for no directory
  have hx : ∀ task name' nr', SameName name' name → (t.tree task).entry dir name' = some nr' →
      (t.tree task).pass nr' ≠ true := fun task name' nr' hsame he' hp' => by
    have he' : (t.node dir).bind _ = some nr' := he'
    rw [hdd, Option.bind_some, Tables.lookup_same hsame, hlook, Option.some_inj] at he'
    obtain ⟨d', hd', hdir', -⟩ := Tables.links_of_pass hp' hs.coherent.dev
    rw [← he', hd, Option.some_inj] at hd'
    exact hnd (hd' ▸ hdir')
  have hn0 : nameOf name ≠ none := by
    rw [hname]
    exact Option.some_ne_none n
  refine ⟨hrem, fun task root pwd path hne => ((hrem task).resolve hn0 (hx task) hne).1,
    fun task root pwd path hne => ((hrem task).resolve hn0 (hx task) hne).2, ?_, h.cleared.rest, fun a ha => ?_,
    fun hone => ?_⟩
  · rw [h.cleared.node, hd]
    rfl
  · rw [h.cleared.blocks]
    exact update_of_ne (fun e => ha _ (slotOf_valid (hb.of_find hf).lt) e.symm) _ _
  · have hleft : d.iNlinks - 1 ≠ 0 := by
      have := hone d hd
      omega
    exact h.cleared.namespace hs hd hnd hnd hf hb hname hleft

/-- What `sys_unlink` gets to with a directory. -/
lemma Tables.unlinks_eq {path : List Char} (hpar : t.parent task root pwd path = some dir)
    (hb : basename path ≠ []) (hd : t.node dir = some d) : t.unlinks task root pwd path =
      if permission task (t.inodeOf d) mayWrite = 0 then .error eperm
      else match (t.tree task).entry dir (basename path) with
        | none => .error enoent
        | some nr => if (t.node nr).any fun d => isReg d.iMode then .ok (dir, nr) else .error eperm := by
  simp only [unlinks, hpar, hd, if_neg hb, Option.any_some]
  by_cases hw : permission task (t.inodeOf d) mayWrite = 0
  · rw [if_pos hw, hw]
    rfl
  · rw [if_neg hw, if_pos (bne_iff_ne.2 hw)]

/-- The exits at which only the directory has been got. -/
lemma exit_one {bh : Option EntryPtr} {e : Int} (h : Walk t (counts t + ref (some j)) s) (hj : s.Caches j dir)
    (hlj : Linked t j dir) : Prog.returns (exitWith (RootDisk.entryServices reads sv) [j] bh e)
      (fun r s' => r = -e ∧ t.Kept s' ∧ t.Moved s') s := by
  rw [exitWith_one]
  rw [Linked, ← h.moved.node] at hlj
  exact (putOne h.moved.coherent hj h.holds.exact hlj).mono fun r s' hp => ⟨hp.1, h.put hp.2⟩

/-- The exit with the file, too. -/
lemma exit_two {bh : Option EntryPtr} {e : Int} (h : Walk t (counts t + ref (some j) + ref (some i)) s)
    (hi : s.Caches i nr) (hj : s.Caches j dir) (hli : Linked t i nr) (hlj : Linked t j dir) :
    Prog.returns (exitWith (RootDisk.entryServices reads sv) [i, j] bh e)
      (fun r s' => r = -e ∧ t.Kept s' ∧ t.Moved s') s := by
  rw [exitWith_two]
  rw [Linked, ← h.moved.node] at hli hlj
  exact (putTwo h.moved.coherent hi hj h.holds.exact hli hlj).mono fun r s' hp => ⟨hp.1, h.put hp.2⟩

/-- `sys_unlink` with the directory and a name. -/
def unlinkIn {κ : Type} (sv : EntryServices κ) (c : Fin 64) (dir : Fin 32) (basename : List Char) :
    Prog (Tables κ) Int := do
  let d ← inodeAt dir
  let t ← current c
  if permission t d mayWrite = 0 then exitWith sv [dir] none eperm
  else
    match ← service (sv.findSlot d.iDev d.toDInode basename) with
    | none => exitWith sv [dir] none enoent
    | some (de, inr) =>
      let i ← iget sv.toServices d.iDev inr
      let inode ← inodeAt i
      if ¬ isReg inode.iMode then exitWith sv [i, dir] (some de) eperm
      else unlinkEntry sv de dir i

/-- `sys_unlink` is a look-up of the directory and the rest. -/
lemma sysUnlink_eq {κ : Type} {sv : EntryServices κ} {name : Path.CString} : sysUnlink sv c name =
    Path.dirNamei sv.toServices c name >>= fun r => match r with
      | none => pure (-enoent)
      | some (dir, basename) =>
        if basename.length = 0 then exitWith sv [dir] none enoent else unlinkIn sv c dir basename := rfl

/-- A file that somebody has, or that has another link, can lose one. -/
lemma spare_left (h : Walk t R s) (hi : s.Caches i nr) (hd : t.node nr = some d) (hl : d.iNlinks ≠ 0)
    (hspare : t.Spare nr) (h0 : counts t i = 0) : d.iNlinks - 1 ≠ 0 := by
  have hone : d.iNlinks ≠ 1 := fun hone => by
    obtain ⟨i', hi', hused⟩ := hspare d hd hone
    obtain ⟨hdev, hnum⟩ := h.held i' hused
    have hs' : s.Caches i' nr := ⟨hdev.trans (hi'.1.trans h.moved.rootDev.symm), hnum.trans hi'.2⟩
    rw [h.moved.coherent.unique i' i nr hs' hi] at hused
    exact hused h0
  omega

/-- The part of `sys_unlink` in the directory ends. -/
lemma unlinkIn_ends {path : List Char} (hs : t.Namespace reads) (hc : t.task c = some task)
    (hpar : t.parent task root pwd path = some dir) (hb : basename path ≠ [])
    (hslot : t.place dir (basename path) ≠ none → t.HasSlot dir) (hr : ∀ i, counts t i + 2 < 65536)
    (hspare : ∀ nr, t.unlinks task root pwd path = .ok (dir, nr) → t.Spare nr)
    (h : Walk t (counts t + ref (some j)) s) (hj : s.Caches j dir) (hp : (t.tree task).pass dir = true) :
    Prog.returns (unlinkIn (RootDisk.entryServices reads sv) c j (basename path))
      (UnlinkEnds reads t (basename path) (t.unlinks task root pwd path)) s := by
  have hget : ∀ {i s}, inodeAt i s = .ret ((s : Tables (RootDisk μ)).inodeTable i, s) := rfl
  have hlj : Linked t j dir := linked_of_pass hs.toSound hp
  obtain ⟨dd, hdd, hdir, hdl⟩ := Tables.links_of_pass hp hs.coherent.dev
  have hnode := h.moved.coherent.node_cached hj
  rw [h.moved.node, hdd, Option.some_inj] at hnode
  have hperm : permission task (s.inodeTable j) mayWrite = permission task (t.inodeOf dd) mayWrite := by
    rw [Tables.permission_slot hj, hnode, Tables.inodeOf, h.moved.rootDev]
    rfl
  have hun := Tables.unlinks_eq hpar hb hdd
  rw [unlinkIn, Prog.returns, Prog.bind_of_ret hget, Prog.bind_of_ret (current_eq hc h), hperm]
  by_cases hwr : permission task (t.inodeOf dd) mayWrite = 0
  · rw [if_pos hwr] at hun ⊢
    rw [hun]
    exact exit_one h hj hlj
  rw [if_neg hwr] at hun ⊢
  rw [Tables.entry_place hs.coherent hp] at hun
  rw [Prog.bind_of_ret (findSlot_walk hs.toSound h hj hp)]
  cases hk : t.place dir (basename path) with
  | none =>
    rw [hk, Option.map_none] at hun
    rw [hun]
    exact exit_one h hj hlj
  | some k =>
    rw [hk] at hun hslot
    have he : (t.tree task).entry dir (basename path) = some ((t.dirs.dir dir).slot k).inode.toNat := by
      rw [Tables.entry_place hs.coherent hp, hk]
      rfl
    generalize hnr : ((t.dirs.dir dir).slot k).inode.toNat = nr at he hun
    rw [Option.map_some, hnr] at hun ⊢
    obtain ⟨d, hd, hl⟩ := entry_links hs.toSound hp he
    have hfree : ∃ e, (counts t + ref (some j)) e = 0 :=
      (hasSlot_iff h hj).2 (hslot (Option.some_ne_none k))
    have hroom : ∀ i, (counts t + ref (some j)) i + 1 < 65536 := fun i => by
      have hle : ref (some j) i ≤ 1 := ref_le_one
      have hri := hr i
      rw [Pi.add_apply]
      omega
    have hused : (counts t + ref (some j)) j ≠ 0 := by
      rw [Pi.add_apply, ref_self]
      omega
    have hroot : (s.inodeTable j).iDev = s.rootDev := hj.1
    rw [hroot]
    refine Prog.returns_bind ((iget_beside h ((h.moved.node nr).trans hd) hfree hroom hj hused).mono ?_)
    rintro i s₂ ⟨h₂, hi, hj₂⟩
    have hnode₂ := h₂.moved.coherent.node_cached hi
    rw [h₂.moved.node, hd, Option.some_inj] at hnode₂
    have hmode : (s₂.inodeTable i).iMode = d.iMode := by
      rw [hnode₂]
      rfl
    rw [Prog.returns, Prog.bind_of_ret hget, hmode]
    dsimp only at hun
    rw [hd, Option.any_some] at hun
    by_cases hreg : isReg d.iMode = true
    · rw [if_pos hreg] at hun
      rw [if_neg (not_not.2 hreg), hun]
      have hne : dir ≠ nr := by
        rintro rfl
        rw [hdd, Option.some_inj] at hd
        exact not_isDir_of_isReg hreg (hd ▸ hdir)
      refine (unlinkEntry_walk h₂ hi hj₂ hd hl hlj hne fun h0 => ?_).mono fun r s' ht => ?_
      · exact spare_left h₂ hi hd hl (hspare nr hun) h0
      · exact ⟨ht.1, ht.2.kept, ht.2.unlinked hs hp hk hd hreg he hl⟩
    · rw [if_neg hreg] at hun
      rw [if_pos hreg, hun]
      exact exit_two h₂ hi hj₂ (fun _ => ⟨d, hd, hl⟩) hlj

/-- `sys_unlink` on the mounted disk takes one name from the tree, or fails and leaves it alone. -/
theorem sys_unlink_removes (reads : Nat × Nat → Bool) (sv : EntryServices μ) {s : Tables (RootDisk μ)} {c : Fin 64}
    {task : Task} {root pwd : Fin 32} (path : Path.CString) (hs : s.Namespace reads)
    (hst : s.Stands c task root pwd) (hw : s.Walkable task root pwd path.chars)
    (hslot : ∀ dir, s.parent task root pwd path.chars = some dir → s.place dir (basename path.chars) ≠ none →
      s.HasSlot dir)
    (hr : ∀ i, (s.inodeTable i).iCount + 2 < 65536)
    (hspare : ∀ dir nr, s.unlinks task root pwd path.chars = .ok (dir, nr) → s.Spare nr) :
    ∃ r s', sysUnlink (RootDisk.entryServices reads sv) c path s = .ret (r, s') ∧
      UnlinkEnds reads s (basename path.chars) (s.unlinks task root pwd path.chars) r s' := by
  show Prog.returns (sysUnlink (RootDisk.entryServices reads sv) c path)
    (UnlinkEnds reads s (basename path.chars) (s.unlinks task root pwd path.chars)) s
  have hgo := (@getDir_parent _ reads sv.toServices c s task root pwd path.chars hs.toSound
    (fun i => Nat.lt_of_succ_lt (hr i)) hst).1 hw
  rw [sysUnlink_eq, Path.dirNamei_eq, bind_assoc]
  refine Prog.returns_bind (hgo.mono ?_)
  intro r s₁ hl
  rw [pure_bind]
  cases hpar : s.parent task root pwd path.chars with
  | none =>
    rw [hpar] at hl
    obtain rfl := hl.miss rfl
    have hw₁ := hl.walk
    rw [ref_none, add_zero] at hw₁
    have hun : s.unlinks task root pwd path.chars = .error enoent := by simp only [Tables.unlinks, hpar]
    rw [hun]
    exact Prog.returns_pure ⟨rfl, hw₁.kept, hw₁.moved⟩
  | some dir =>
    rw [hpar] at hl
    obtain ⟨j, rfl, hj⟩ := hl.hit dir rfl
    have hp : (s.tree task).pass dir = true := by
      rw [Tables.parent] at hpar
      split at hpar
      · cases hpar
      · exact Tree.pass_of_dirOf hpar
    show Prog.returns (if (basename path.chars).length = 0 then _ else _) _ s₁
    by_cases hb : basename path.chars = []
    · have hun : s.unlinks task root pwd path.chars = .error enoent := by
        simp only [Tables.unlinks, hpar, if_pos hb]
      rw [if_pos (List.length_eq_zero_iff.2 hb), hun]
      exact exit_one hl.walk hj (linked_of_pass hs.toSound hp)
    · rw [if_neg fun h => hb (List.length_eq_zero_iff.1 h)]
      exact unlinkIn_ends hs hst.current hpar hb (hslot dir hpar) hr (fun nr => hspare dir nr) hl.walk hj hp

end

/-! ## A file with two names -/

def twoDir : DInode := { homeDir with iSize := 32 }

def twoFile : DInode := { homeFile with iNlinks := 2 }

/-- The names `a` and `b` are for the inode 2. -/
def twoNames : Tables (RootDisk Unit) where
  task := (home false).task
  fileTable := (home false).fileTable
  inodeTable i := if i = 0 then { (home false).inodeTable 0 with toDInode := twoDir } else .zero
  lastAllocatedInode := 0
  sIsup := some 0
  sImount := some 0
  ttyPgrp := fun _ => 0
  lastPid := 0
  currentTime := 0
  kernel := { homeDisk with
    dinode := fun nr => if nr = 1 then some twoDir else if nr = 2 then some twoFile else none
    blocks := fun _ off => if off = 0 ∨ off = 16 then 2 else if off = 2 then 97 else if off = 18 then 98 else 0 }

section
variable {i : Fin 32} {nr : Nat} {d : DInode}

/-- The sample caches its root directory. -/
lemma twoNames_caches : twoNames.Caches i nr ↔ i = 0 ∧ nr = 1 := by
  by_cases hi : i = 0
  · subst hi
    exact ⟨fun h => ⟨rfl, h.2.symm⟩, fun h => ⟨rfl, h.2.symm⟩⟩
  · have hdev : (twoNames.inodeTable i).iDev = 0 := by
      show (if i = 0 then _ else _ : MInode).iDev = 0
      rw [if_neg hi]
      rfl
    exact ⟨fun h => absurd (hdev.symm.trans h.1) (by decide), fun h => absurd h.1 hi⟩

/-- It is coherent. -/
lemma twoNames_coherent : twoNames.Coherent := by
  refine ⟨by decide, fun i j nr hi hj => ?_, fun i nr hi => ?_, fun i nr hi => ?_, by decide⟩
  · rw [twoNames_caches] at hi hj
    rw [hi.1, hj.1]
  · obtain ⟨rfl, rfl⟩ := twoNames_caches.1 hi
    rfl
  · obtain ⟨rfl, rfl⟩ := twoNames_caches.1 hi
    exact ⟨twoDir, rfl, fun _ => rfl⟩

/-- Inode 1 is the directory. -/
lemma twoNames_one : twoNames.node 1 = some (attrs twoDir) :=
  twoNames_coherent.node_cached (i := 0) (twoNames_caches.2 ⟨rfl, rfl⟩)

/-- Inode 2 is the file. -/
lemma twoNames_two : twoNames.node 2 = some (attrs twoFile) :=
  Tables.node_uncached fun _ hi => absurd (twoNames_caches.1 hi).2 (by decide)

/-- There is no other inode. -/
lemma twoNames_none (h1 : nr ≠ 1) (h2 : nr ≠ 2) : twoNames.node nr = none := by
  rw [Tables.node_uncached fun i hi => h1 (twoNames_caches.1 hi).2]
  show Option.map attrs (if nr = 1 then _ else if nr = 2 then _ else none) = none
  rw [if_neg h1, if_neg h2]
  rfl

/-- The only directory is the root. -/
lemma twoNames_dir (h : twoNames.node nr = some d) (hdir : isDir d.iMode = true) : nr = 1 ∧ d = attrs twoDir := by
  by_cases h1 : nr = 1
  · rw [h1, twoNames_one, Option.some_inj] at h
    exact ⟨h1, h.symm⟩
  by_cases h2 : nr = 2
  · rw [h2, twoNames_two, Option.some_inj] at h
    rw [← h] at hdir
    cases hdir
  · rw [twoNames_none h1 h2] at h
    cases h

/-- No other one is a directory. -/
lemma twoNames_inode (h : nr ≠ 1) : twoNames.dirs.inode nr = .zero := by
  simp only [Tables.dirs]
  cases hn : twoNames.node nr with
  | none => rfl
  | some d => exact if_neg fun hd => h (twoNames_dir hn hd.1).1

/-- The directory has one zone. -/
lemma twoNames_zone {p : Slot} (hp : p.Valid) (hz : twoNames.dirs.zone nr p ≠ 0) : nr = 1 ∧ p = .top 0 := by
  have htop : ∀ i, twoNames.dirs.zone nr (.top i) ≠ 0 → nr = 1 ∧ Slot.top i = .top 0 := fun i hz => by
    by_cases hnr : nr = 1
    · subst hnr
      by_cases hi : i = 0
      · exact ⟨rfl, congrArg Slot.top hi⟩
      · have hinode := Tables.dirs_inode twoNames_one (by decide) (by decide)
        rw [FileSys.zone, hinode] at hz
        exact absurd (congrArg BitVec.toNat (if_neg hi)) hz
    · rw [FileSys.zone, twoNames_inode hnr] at hz
      exact absurd rfl hz
  induction p with
  | top i => exact htop i hz
  | sub p e ih =>
    obtain ⟨-, rfl⟩ := ih hp.1.valid fun h0 => hz (FileSys.zone_sub_of_zero h0)
    cases hp.1 with
    | inl h => cases h
    | inr h => cases h

/-- It is a name space. -/
lemma twoNames_namespace : twoNames.Namespace fun _ => true := by
  refine ⟨⟨twoNames_coherent, fun nr d hn hdir _ b hb => ?_, fun nr d name nr' hn hdir _ h => ?_⟩,
    ⟨fun _ _ => rfl, fun hp hp' hz ha => ?_⟩, fun nr k k' hk hk' he => ?_⟩
  · obtain ⟨rfl, rfl⟩ := twoNames_dir hn hdir
    have hb : b * 1024 < 32 := hb
    obtain rfl : b = 0 := by omega
    exact ⟨by decide, by decide, trivial, rfl⟩
  · obtain ⟨rfl, rfl⟩ := twoNames_dir hn hdir
    obtain ⟨n, -, h⟩ := Option.bind_eq_some_iff.1 h
    obtain ⟨i, hi, rfl⟩ := Option.map_eq_some_iff.1 h
    have hlt : i < 32 / 16 := (SlotTable.find_eq_some.1 hi).1.1
    obtain rfl | rfl : i = 0 ∨ i = 1 := by omega
    · exact ⟨attrs twoFile, twoNames_two, by decide⟩
    · exact ⟨attrs twoFile, twoNames_two, by decide⟩
  · obtain ⟨rfl, rfl⟩ := twoNames_zone hp hz
    have hz' := fun h0 => hz ((congrArg Prod.snd ha).trans h0)
    obtain ⟨rfl, rfl⟩ := twoNames_zone hp' hz'
    exact ⟨rfl, rfl⟩
  · by_cases hnr : nr = 1
    · subst hnr
      rw [Tables.dirs_dir twoNames_one (by decide) (by decide)] at hk hk' he
      have hlt : k < 32 / 16 := hk.1
      have hlt' : k' < 32 / 16 := hk'.1
      have hstr : ∀ j < 2, (((twoNames.kernel.fileSys (twoNames.inodeOf (attrs twoDir))).dir ()).slot j).str =
          [if j = 0 then 97 else 98] := by decide
      rw [hstr k hlt, hstr k' hlt'] at he
      obtain rfl | rfl : k = 0 ∨ k = 1 := by omega
      · obtain rfl | rfl : k' = 0 ∨ k' = 1 := by omega
        · rfl
        · cases he
      · obtain rfl | rfl : k' = 0 ∨ k' = 1 := by omega
        · cases he
        · rfl
    · have h0 : (twoNames.dirs.dir nr).iSize = 0 := by
        rw [FileSys.dir, twoNames_inode hnr]
        rfl
      have hlt := hk.1
      rw [Dir.entries, h0] at hlt
      exact absurd hlt (Nat.not_lt_zero _)

/-- The name is that of the file. -/
lemma twoNames_unlinks : twoNames.unlinks initTask 0 0 nameA.chars = .ok (1, 2) := rfl

/-- Task 0 stands in the root. -/
lemma twoNames_stands : twoNames.Stands 0 initTask 0 0 := ⟨rfl, rfl, rfl, by decide, by decide, rfl, rfl⟩

/-- The directory has the entry. -/
lemma twoNames_slot (h : twoNames.parent initTask 0 0 nameA.chars = some nr) : twoNames.HasSlot nr := by
  have hpar : twoNames.parent initTask 0 0 nameA.chars = some 1 := rfl
  rw [hpar, Option.some_inj] at h
  exact ⟨1, rfl, .inl ⟨0, twoNames_caches.2 ⟨rfl, h.symm⟩, by decide⟩⟩

/-- No count is near its end. -/
lemma twoNames_counts (i : Fin 32) : (twoNames.inodeTable i).iCount + 2 < 65536 := by
  revert i
  decide

/-- The file has a name to spare. -/
lemma twoNames_spare {dir : Nat} (h : twoNames.unlinks initTask 0 0 nameA.chars = .ok (dir, nr)) :
    twoNames.Spare nr := fun d hd hone => by
  rw [twoNames_unlinks] at h
  cases h
  rw [twoNames_two, Option.some_inj] at hd
  rw [← hd] at hone
  cases hone

end

/-- The name `a` goes; the file keeps the name `b`. -/
theorem sys_unlink_removes_a : ∃ r s',
    sysUnlink (RootDisk.entryServices (fun _ => true) idleMemory) 0 nameA twoNames = .ret (r, s') ∧
      UnlinkEnds (fun _ => true) twoNames ['a'] (.ok (1, 2)) r s' :=
  sys_unlink_removes (fun _ => true) idleMemory nameA twoNames_namespace twoNames_stands (.inl ⟨1, rfl⟩)
    (fun _ h _ => twoNames_slot h) twoNames_counts fun _ _ => twoNames_spare

end OldLinux.Files
