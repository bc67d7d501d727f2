import OldLinux.Files.Unlink

/-!
# Changing the owner and the mode

What `sys_chmod` and `sys_chown` on the mounted disk do to the inodes: they set fields of the one that the path name
stands for, and nothing else. What kind of a file it is stays, so no name is lost; only who may go through may
change.
-/

namespace OldLinux.Files
open Lib Fs Function

/-- Neither the user nor the effective user is the superuser. -/
def Task.Ordinary (t : Task) : Prop := t.uid ≠ 0 ∧ t.euid ≠ 0

instance (t : Task) : Decidable t.Ordinary := inferInstanceAs (Decidable (_ ∧ _))

/-- A call that sets attributes. -/
inductive AttrCall where
  | chmod (mode : BitVec 16)
  | chown (uid : BitVec 16) (gid : BitVec 8)

namespace AttrCall

/-- The call on a path name. -/
def call {κ : Type} (sv : EntryServices κ) (c : Fin 64) (filename : Path.CString) : AttrCall → Prog (Tables κ) Int
  | chmod mode => sysChmod sv c filename mode
  | chown uid gid => sysChown sv c filename uid gid

/-- What it does with the inode. -/
def body {κ : Type} (c : Fin 64) (i : Fin 32) : AttrCall → Prog (Tables κ) Int
  | chmod mode => do
    let inode ← inodeAt i
    let t ← current c
    if (t.uid ≠ 0 ∧ t.euid ≠ 0) ∧ t.uid ≠ inode.iUid ∧ t.euid ≠ inode.iUid then pure (-eacces)
    else
      setInode i fun inode => { inode with iMode := chmodMode t inode mode, iDirt := true }
      pure 0
  | chown uid gid => do
    let t ← current c
    if t.uid ≠ 0 ∧ t.euid ≠ 0 then pure (-eacces)
    else
      setInode i fun inode => { inode with iUid := uid, iGid := gid, iDirt := true }
      pure 0

/-- It is not allowed for the inode. -/
def Denied (t : Task) (d : DInode) : AttrCall → Prop
  | chmod _ => t.Ordinary ∧ t.uid ≠ d.iUid ∧ t.euid ≠ d.iUid
  | chown _ _ => t.Ordinary

/-- The inode afterwards. -/
def apply (t : Task) (d : DInode) : AttrCall → DInode
  | chmod mode => { d with iMode := chmodMode t { MInode.zero with toDInode := d } mode }
  | chown uid gid => { d with iUid := uid, iGid := gid }

/-- The inode in its slot. -/
def set (t : Task) (m : MInode) : AttrCall → MInode
  | chmod mode => { m with iMode := chmodMode t m mode, iDirt := true }
  | chown uid gid => { m with iUid := uid, iGid := gid, iDirt := true }

variable {κ : Type} {sv : EntryServices κ} {s : Tables κ} {c : Fin 64} {i : Fin 32} {t : Task} {m : MInode}
  {d : DInode} {e : AttrCall} {filename : Path.CString}

/-- The call is its body at the inode of the path. -/
lemma call_eq : e.call sv c filename = onInode sv c filename (e.body c) := by
  cases e with
  | chmod mode => rfl
  | chown uid gid => rfl

/-- Who may not change the attribute gets `EACCES`. -/
lemma body_denied (hc : current c s = .ret (t, s)) (h : e.Denied t (s.inodeTable i).toDInode) :
    e.body c i s = .ret (-eacces, s) := by
  have hget : inodeAt i s = .ret (s.inodeTable i, s) := rfl
  cases e with
  | chmod mode =>
    rw [body, Prog.bind_of_ret hget, Prog.bind_of_ret hc]
    exact congrFun (if_pos h) s
  | chown uid gid =>
    rw [body, Prog.bind_of_ret hc]
    exact congrFun (if_pos h) s

/-- Who may sets it. -/
lemma body_sets (hc : current c s = .ret (t, s)) (h : ¬ e.Denied t (s.inodeTable i).toDInode) : e.body c i s =
    .ret (0, { s with inodeTable := update s.inodeTable i (e.set t (s.inodeTable i)) }) := by
  have hget : inodeAt i s = .ret (s.inodeTable i, s) := rfl
  cases e with
  | chmod mode =>
    rw [body, Prog.bind_of_ret hget, Prog.bind_of_ret hc]
    exact congrFun (if_neg h) s
  | chown uid gid =>
    rw [body, Prog.bind_of_ret hc]
    exact congrFun (if_neg h) s

/-- The bits of the mode that say what kind of a file it is. -/
lemma chmodMode_kind {mode : BitVec 16} {m : MInode} : chmodMode t m mode &&& sIfmt = m.iMode &&& sIfmt := by
  have hlow : (0o7777#16) &&& sIfmt = 0#16 := by decide
  have hhigh : ~~~(0o7777#16) &&& sIfmt = sIfmt := by decide
  rw [chmodMode, BitVec.and_comm, BitVec.and_or_distrib_left, BitVec.and_comm, BitVec.and_assoc, hlow, BitVec.and_zero,
    BitVec.zero_or, BitVec.and_comm, BitVec.and_assoc, hhigh]

/-- A directory stays one. -/
lemma isDir_apply : isDir (e.apply t d).iMode = isDir d.iMode := by
  cases e with
  | chmod mode => rw [isDir, isDir, apply, chmodMode_kind]
  | chown uid gid => rfl

end AttrCall

variable {μ : Type} {reads : Nat × Nat → Bool} {sv : EntryServices μ} {c : Fin 64} {task : Task} {root pwd : Fin 32}
  {s s' t : Tables (RootDisk μ)} {i : Fin 32} {nr : Nat} {d : DInode} {R : Fin 32 → Nat} {e : AttrCall}

/-- The inode `nr` has become `d`; the other inodes and all blocks are as they were, and so are the names in the
    directories. Who may go through may have changed for the inode `nr` alone. -/
structure Changed (reads : Nat × Nat → Bool) (s : Tables (RootDisk μ)) (nr : Nat) (d : DInode)
    (s' : Tables (RootDisk μ)) : Prop where
  node : s'.node nr = some d
  rest : ∀ nr', nr' ≠ nr → s'.node nr' = s.node nr'
  disk : s'.kernel = { s.kernel with dinode := s'.kernel.dinode }
  names : ∀ task, (s'.tree task).entry = (s.tree task).entry
  pass : ∀ task nr', nr' ≠ nr → (s'.tree task).pass nr' = (s.tree task).pass nr'
  sound : s'.Sound reads

/-- How a call that sets attributes ends, on a path name that stands for `o`. -/
def AttrEnds (reads : Nat × Nat → Bool) (s : Tables (RootDisk μ)) (t : Task) (e : AttrCall) (o : Option Nat) (r : Int)
    (s' : Tables (RootDisk μ)) : Prop :=
  match o with
  | none => r = -enoent ∧ s.Moved s'
  | some nr => ∃ d, s.node nr = some d ∧
    (e.Denied t d ∧ r = -eacces ∧ s.Moved s' ∨ ¬ e.Denied t d ∧ r = 0 ∧ Changed reads s nr (e.apply t d) s')

/-- What a path name stands for has links. -/
lemma resolve_links {path : List Char} {root pwd : Nat} (hs : t.Sound reads) (hp : path ≠ [])
    (h : (t.tree task).resolve root pwd path = some nr) : ∃ d, t.node nr = some d ∧ d.iNlinks ≠ 0 := by
  rw [Tree.resolve_eq hp] at h
  obtain ⟨dir, hdir, h⟩ := Option.bind_eq_some_iff.1 h
  have hpass := Tree.pass_of_dirOf hdir
  split at h
  · cases h
    obtain ⟨d, hd, -, hl⟩ := Tables.links_of_pass hpass hs.coherent.dev
    exact ⟨d, hd, hl⟩
  · exact entry_links hs hpass h

/-- An inode with the same zones, size, kind and links. -/
lemma changed_of_node {d' : DInode} (hs : s.Sound reads) (hco : s'.Coherent)
    (hk : s'.kernel = { s.kernel with dinode := s'.kernel.dinode }) (hd : s.node nr = some d)
    (hn : s'.node nr = some d') (hrest : ∀ nr', nr' ≠ nr → s'.node nr' = s.node nr') (hz : d'.iZone = d.iZone)
    (hsize : d'.iSize = d.iSize) (hdir : isDir d'.iMode = isDir d.iMode) (hl : d'.iNlinks = d.iNlinks) :
    Changed reads s nr d' s' := by
  have hdev : s'.rootDev = s.rootDev := by
    rw [Tables.rootDev, hk]
    rfl
  have hof : ∀ d, s'.inodeOf d = s.inodeOf d := fun d => by rw [Tables.inodeOf, Tables.inodeOf, hdev]
  have hfs : ∀ m, s'.kernel.fileSys m = s.kernel.fileSys m := fun m => by
    rw [hk]
    rfl
  have hlook : ∀ d₁ d₂ name, d₁.iZone = d₂.iZone → d₁.iSize = d₂.iSize → s'.lookup d₁ name = s.lookup d₂ name :=
    fun d₁ d₂ name h₁ h₂ => by
      rw [Tables.lookup, Tables.lookup, hof, hfs, @dir_same _ s.kernel (s.inodeOf d₁) (s.inodeOf d₂) h₁ rfl h₂]
  -- each inode, and what it was
  have hback : ∀ nr' d₁, s'.node nr' = some d₁ → ∃ d₂, s.node nr' = some d₂ ∧ d₁.iZone = d₂.iZone ∧
      d₁.iSize = d₂.iSize ∧ isDir d₁.iMode = isDir d₂.iMode ∧ d₁.iNlinks = d₂.iNlinks := fun nr' d₁ h₁ => by
    by_cases hnr : nr' = nr
    · rw [hnr, hn, Option.some_inj] at h₁
      rw [hnr, ← h₁]
      exact ⟨d, hd, hz, hsize, hdir, hl⟩
    · rw [hrest nr' hnr] at h₁
      exact ⟨d₁, h₁, rfl, rfl, rfl, rfl⟩
  refine ⟨hn, hrest, hk, fun task => funext fun nr' => funext fun name => ?_, fun task nr' hnr => ?_,
    ⟨hco, fun nr' d₁ h₁ hdir₁ hl₁ => ?_, fun nr' d₁ name x h₁ hdir₁ hl₁ hx => ?_⟩⟩
  · show (s'.node nr').bind _ = (s.node nr').bind _
    by_cases hnr : nr' = nr
    · rw [hnr, hn, hd]
      exact hlook d' d name hz hsize
    · rw [hrest nr' hnr]
      exact congrArg (Option.bind _) (funext fun d₁ => hlook d₁ d₁ name rfl rfl)
  · show (s'.node nr').any _ = (s.node nr').any _
    rw [hrest nr' hnr]
    simp only [hof]
  · obtain ⟨d₂, h₂, hz₂, hsize₂, hdir₂, hl₂⟩ := hback nr' d₁ h₁
    have hb := hs.blocks nr' d₂ h₂ (hdir₂ ▸ hdir₁) (hl₂ ▸ hl₁)
    rw [hof, hfs]
    exact @hasBlocks_same _ s.kernel (s.inodeOf d₂) (s.inodeOf d₁) reads hz₂.symm rfl hsize₂.symm hb
  · obtain ⟨d₂, h₂, hz₂, hsize₂, hdir₂, hl₂⟩ := hback nr' d₁ h₁
    rw [hlook d₁ d₂ name hz₂ hsize₂] at hx
    obtain ⟨dx, hdx, hlx⟩ := hs.names nr' d₂ name x h₂ (hdir₂ ▸ hdir₁) (hl₂ ▸ hl₁) hx
    by_cases hxnr : x = nr
    · rw [hxnr, hd, Option.some_inj] at hdx
      rw [hxnr, hn]
      exact ⟨d', rfl, hl.trans_ne (hdx ▸ hlx)⟩
    · rw [hrest x hxnr]
      exact ⟨dx, hdx, hlx⟩

/-- The end of a call that has changed the inode. -/
lemma set_ends {m : MInode} {d' : DInode} (hs : t.Sound reads) (h : Walk t (counts t + ref (some i)) s)
    (hi : s.Caches i nr) (hd : t.node nr = some d) (hl : d.iNlinks ≠ 0) (hdev : m.iDev = (s.inodeTable i).iDev)
    (hnum : m.iNum = (s.inodeTable i).iNum) (hpipe : m.iPipe = (s.inodeTable i).iPipe) (hdirt : m.iDirt = true)
    (hcount : m.iCount = (s.inodeTable i).iCount) (hm : attrs m.toDInode = d') (hz : d'.iZone = d.iZone)
    (hsize : d'.iSize = d.iSize) (hdir : isDir d'.iMode = isDir d.iMode) (hlinks : d'.iNlinks = d.iNlinks) :
    Prog.returns (iput (RootDisk.services reads sv.toServices) (some i) >>= fun _ => pure 0)
      (fun r s' => r = (0 : Int) ∧ t.Kept s' ∧ Changed reads t nr d' s')
      { s with inodeTable := update s.inodeTable i m } := by
  obtain ⟨hco₂, hcache₂, hnode₂⟩ := h.moved.coherent.modify hi hdev hnum hpipe hdirt
  generalize hs₂ : ({ s with inodeTable := update s.inodeTable i m } : Tables (RootDisk μ)) = s₂ at *
  have hcount₂ : ∀ x, (s₂.inodeTable x).iCount = (counts t + ref (some i)) x := fun x => by
    rw [← h.holds.exact, ← hs₂]
    show (update s.inodeTable i m x).iCount = _
    obtain rfl | hx := eq_or_ne x i
    · rw [update_self, hcount]
    · rw [update_of_ne hx]
  have hself : s₂.node nr = some d' := by rw [hnode₂, if_pos rfl, hm]
  have hleft : counts t i = 0 → ∃ d, s₂.node nr = some d ∧ d.iNlinks ≠ 0 := fun _ =>
    ⟨d', hself, hlinks.trans_ne hl⟩
  refine (putOne hco₂ ((hcache₂ i nr).2 hi) hcount₂ hleft).mono ?_
  rintro r s' ⟨rfl, hput⟩
  have hk₂ : s₂.kernel = s.kernel := by rw [← hs₂]
  have hk : s'.kernel = { t.kernel with dinode := s'.kernel.dinode } := by
    rw [hput.moved.kernel, hk₂, h.moved.kernel]
  refine ⟨rfl, ⟨?_, ?_, hput.count, fun x hx => ?_, ?_⟩, changed_of_node hs hput.moved.coherent hk hd ?_ ?_ hz hsize
    hdir hlinks⟩
  · rw [hput.task, ← hs₂]
    exact h.holds.task
  · rw [hput.file, ← hs₂]
    exact h.holds.file
  · obtain ⟨hdev', hnum'⟩ := hput.held x hx
    have hsame : (s₂.inodeTable x).iDev = (s.inodeTable x).iDev ∧ (s₂.inodeTable x).iNum = (s.inodeTable x).iNum := by
      rw [← hs₂]
      show (update s.inodeTable i m x).iDev = _ ∧ (update s.inodeTable i m x).iNum = _
      obtain rfl | hx := eq_or_ne x i
      · rw [update_self]
        exact ⟨hdev, hnum⟩
      · rw [update_of_ne hx]
        exact ⟨rfl, rfl⟩
    rw [hdev', hnum', hsame.1, hsame.2]
    exact h.held x hx
  · rw [hk]
  · rw [hput.moved.node, hself]
  · intro nr' hnr'
    rw [hput.moved.node, hnode₂, if_neg hnr', h.moved.node]

/-- A call that is not allowed gives the inode back. -/
lemma denied_ends {a : Int} (h : Walk t (counts t + ref (some i)) s) (hi : s.Caches i nr) (hd : t.node nr = some d)
    (hl : d.iNlinks ≠ 0) : Prog.returns (iput (RootDisk.services reads sv.toServices) (some i) >>= fun _ => pure a)
      (fun r s' => r = a ∧ t.Kept s' ∧ t.Moved s') s := by
  have hleft : counts t i = 0 → ∃ d, s.node nr = some d ∧ d.iNlinks ≠ 0 := fun _ => by
    rw [h.moved.node]
    exact ⟨d, hd, hl⟩
  exact (putOne h.moved.coherent hi h.holds.exact hleft).mono fun r s' hp => ⟨hp.1, h.put hp.2⟩

/-- `sys_chmod` and `sys_chown` on the mounted disk set fields of the inode that the path name stands for, and nothing
    else. -/
theorem sys_chmod_chown_set (reads : Nat × Nat → Bool) (sv : EntryServices μ) {s : Tables (RootDisk μ)} {c : Fin 64}
    {task : Task} {root pwd : Fin 32} (path : Path.CString) (e : AttrCall) (hs : s.Sound reads)
    (hst : s.Stands c task root pwd) (hfree : ∃ i, (s.inodeTable i).iCount = 0)
    (hr : ∀ i, (s.inodeTable i).iCount + 1 < 65536) :
    ∃ r s', e.call (RootDisk.entryServices reads sv) c path s = .ret (r, s') ∧ s.Kept s' ∧
      AttrEnds reads s task e
        ((s.tree task).resolve (s.inodeTable root).iNum (s.inodeTable pwd).iNum path.chars) r s' := by
  show Prog.returns (e.call (RootDisk.entryServices reads sv) c path) (fun r s' => s.Kept s' ∧ _) s
  rw [AttrCall.call_eq, onInode, Path.namei_eq]
  refine Prog.returns_bind ((namei_walk hs hfree hr hst).mono ?_)
  intro r s₁ hl
  cases ho : (s.tree task).resolve (s.inodeTable root).iNum (s.inodeTable pwd).iNum path.chars with
  | none =>
    rw [ho] at hl
    obtain rfl := hl.miss rfl
    have hw := hl.walk
    rw [ref_none, add_zero] at hw
    exact Prog.returns_pure ⟨hw.kept, rfl, hw.moved⟩
  | some nr =>
    rw [ho] at hl
    obtain ⟨i, rfl, hi⟩ := hl.hit nr rfl
    have hp : path.chars ≠ [] := fun hp => by
      rw [hp] at ho
      cases ho
    obtain ⟨d, hd, hlinks⟩ := resolve_links hs hp ho
    have hnode := hl.walk.moved.coherent.node_cached hi
    rw [hl.walk.moved.node, hd, Option.some_inj] at hnode
    have hcur := current_eq hst.current hl.walk
    have hden : e.Denied task (s₁.inodeTable i).toDInode ↔ e.Denied task d := by
      rw [hnode]
      cases e with
      | chmod mode => exact Iff.rfl
      | chown uid gid => exact Iff.rfl
    show Prog.returns (e.body c i >>= fun r => iput _ (some i) >>= fun _ => pure r) _ s₁
    by_cases hno : e.Denied task d
    · rw [Prog.returns, Prog.bind_of_ret (e.body_denied hcur (hden.2 hno))]
      exact (denied_ends hl.walk hi hd hlinks).mono fun r s' h => ⟨h.2.1, d, hd, .inl ⟨hno, h.1, h.2.2⟩⟩
    · rw [Prog.returns, Prog.bind_of_ret (e.body_sets hcur fun h => hno (hden.1 h))]
      have hset : attrs (e.set task (s₁.inodeTable i)).toDInode = e.apply task d := by
        rw [hnode]
        cases e with
        | chmod mode => rfl
        | chown uid gid => rfl
      refine (set_ends hs hl.walk hi hd hlinks ?_ ?_ ?_ ?_ ?_ hset ?_ ?_ e.isDir_apply ?_).mono fun r s' h =>
        ⟨h.2.1, d, hd, .inr ⟨hno, h.1, h.2.2⟩⟩
      all_goals cases e <;> rfl

/-- The mode of `a`. -/
theorem sys_chmod_chown_set_a : ∃ r s',
    (AttrCall.chmod 0o600).call (RootDisk.entryServices (fun _ => true) idleMemory) 0 nameA twoNames = .ret (r, s') ∧
      twoNames.Kept s' ∧ AttrEnds (fun _ => true) twoNames initTask (.chmod 0o600) (some 2) r s' :=
  sys_chmod_chown_set (fun _ => true) idleMemory nameA (.chmod 0o600) twoNames_namespace.toSound twoNames_stands
    ⟨1, rfl⟩ fun i => Nat.lt_of_succ_lt (twoNames_counts i)

end OldLinux.Files
