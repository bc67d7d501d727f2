import OldLinux.Files.Descriptors
import OldLinux.Files.Path

/-!
# Access

`sys_access` (`fs/open.c`) against `permission` (`fs/namei.c`), the check of `open_namei`. `sys_access` picks
the bits of the owner, the group and the others on its own, and goes on to read the inode after it has given
it back. The inode is still there (`iput_keeps`), but for a caller in the group of the file the bits of the
owner are tested: `sysAccess_iff` says when the two agree.
-/

namespace OldLinux.Files
open Lib Fs Function

variable {κ : Type}

/-- The bits that `sys_access` compares with what is asked for; `res` has been read before `iput`, the rest of
    the inode after it. -/
def accessBits (t : Task) (res : BitVec 16) (inode : MInode) : BitVec 16 :=
  let res :=
    if ¬ (t.euid ≠ 0 ∧ t.uid ≠ 0) then (if res &&& 0o111#16 ≠ 0 then 0o777#16 else 0o666#16) else res
  if t.euid = inode.iUid then res >>> 6
  else if t.egid = inode.iGid.setWidth 16 then res >>> 6
  else res

/-- What `sys_access` answers. -/
def accessAnswer (t : Task) (res : BitVec 16) (inode : MInode) (mode : BitVec 16) : Int :=
  if accessBits t res inode &&& 7 &&& mode = mode then 0 else -eacces

/-- `sys_access(filename, mode)`. -/
def sysAccess (sv : Services κ) (c : Fin 64) (filename : Path.CString) (mode : BitVec 16) :
    Prog (Tables κ) Int := do
  let mode := mode &&& 7
  match ← Path.namei sv c filename with
  | none => pure (-eacces)
  | some i =>
    let inode ← inodeAt i
    let res := inode.iMode &&& 0o777#16
    iput sv (some i)
    let t ← current c
    let inode ← inodeAt i
    pure (accessAnswer t res inode mode)

/-- `sys_access` answers from the fields of the inode `m`, and gives the answer of `permission`. -/
def AccessAgrees (sv : Services κ) (c : Fin 64) (filename : Path.CString) (mode : BitVec 16) (t : Task)
    (m : MInode) (s : Tables κ) : Prop :=
  Prog.returns (sysAccess sv c filename mode) (fun r _ =>
    r = accessAnswer t (m.iMode &&& 0o777#16) m mode ∧ (r = 0 ↔ permission t m mode = mode)) s

/-- The owner asks, or someone who is not in the group; or the owner and the group may do the same. -/
def SameClass (t : Task) (m : MInode) (mode : BitVec 16) : Prop :=
  t.uid = m.iUid ∨ t.gid ≠ m.iGid.setWidth 16 ∨
    (m.iMode >>> 6 &&& mode = mode ↔ m.iMode >>> 3 &&& mode = mode)

variable {sv : Services κ} {s s₁ : Tables κ} {i : Fin 32} {c : Fin 64}

/-! ## The inode that is given back -/

/-- `iput` of an inode that has links, when it can be written, keeps the inode in its slot. -/
lemma iput_keeps (hc : (s.inodeTable i).iCount ≠ 0) (hp : (s.inodeTable i).iPipe = false)
    (hl : (s.inodeTable i).iNlinks ≠ 0)
    (hw : Prog.halts (sv.writeInode (s.inodeTable i).iDev (s.inodeTable i).iNum (s.inodeTable i).toDInode)
      s.kernel = true) :
    Prog.returns (iput sv (some i)) (fun _ s' => s'.task = s.task ∧
      (s'.inodeTable i).toDInode = (s.inodeTable i).toDInode) s := by
  have hdrop : ∀ s₁ : Tables κ, s₁.task = s.task →
      (s₁.inodeTable i).toDInode = (s.inodeTable i).toDInode →
      Prog.returns (dropCount i) (fun _ s' => s'.task = s.task ∧
        (s'.inodeTable i).toDInode = (s.inodeTable i).toDInode) s₁ := by
    intro s₁ ht hd
    refine Prog.returns_modify ⟨ht, ?_⟩
    show (update s₁.inodeTable i _ i).toDInode = _
    rw [update_self]
    exact hd
  have hget : inodeAt i s = .ret (s.inodeTable i, s) := rfl
  rw [iput, Prog.returns, Prog.bind_of_ret hget, if_neg hc, if_neg (by rw [hp]; exact Bool.false_ne_true)]
  split
  · exact hdrop s rfl rfl
  · refine Prog.returns_bind ?_
    rw [writeIfDirty, Prog.returns, Prog.bind_of_ret hget]
    split
    · -- the dirty inode is written first
      obtain ⟨a, hw⟩ := Prog.ret_after hw
      rw [writeInode, Prog.bind_of_ret hget, service]
      refine Prog.returns_bind (Prog.returns_zoom ⟨a, _, hw, ?_⟩)
      refine Prog.returns_modify (hdrop _ rfl ?_)
      show (update s.inodeTable i _ i).toDInode = _
      rw [update_self]
    · exact ⟨(), s, rfl, hdrop s rfl rfl⟩

/-- `namei` counts one more reference, as far as an `unsigned short` goes. -/
lemma namei_count {filename : Path.CString} (hs : ∀ j, (s.inodeTable j).iCount < 65536)
    (hn : Path.namei sv c filename s = .ret (some i, s₁)) :
    (s₁.inodeTable i).iCount = ((s.inodeTable i).iCount + 1) % 65536 := by
  rw [Path.namei_eq] at hn
  have h := namei_spec .start _ _ hn
  have hone : (s₁.inodeTable i).iCount % 65536 = ((s.inodeTable i).iCount + 1) % 65536 := h.one
  rwa [Nat.mod_eq_of_lt (h.small (by decide) hs i)] at hone

/-- An inode whose count has wrapped cannot be given back. -/
lemma sysAccess_wrapped {filename : Path.CString} {mode : BitVec 16} {Q : Int → Tables κ → Prop}
    (hn : Path.namei sv c filename s = .ret (some i, s₁)) (hc : (s₁.inodeTable i).iCount = 0) :
    ¬ Prog.returns (sysAccess sv c filename mode) Q s := by
  have hget : inodeAt i s₁ = .ret (s₁.inodeTable i, s₁) := rfl
  have hput : iput sv (some i) s₁ = .panic "iput: trying to free free inode" := by
    rw [iput, Prog.bind_of_ret hget, if_pos hc]
    rfl
  rintro ⟨r, s', hrun, -⟩
  rw [sysAccess, Prog.bind_of_ret hn] at hrun
  dsimp only at hrun
  rw [Prog.bind_of_ret hget, Prog.bind_of_panic hput] at hrun
  cases hrun

/-- `sys_access` answers from the inode that the path name stands for. -/
lemma sysAccess_answer {filename : Path.CString} {t : Task} (mode : BitVec 16) (ht : s.task c = some t)
    (hn : Path.namei sv c filename s = .ret (some i, s₁)) (hc : (s₁.inodeTable i).iCount ≠ 0)
    (hp : (s₁.inodeTable i).iPipe = false) (hl : (s₁.inodeTable i).iNlinks ≠ 0)
    (hw : Prog.halts (sv.writeInode (s₁.inodeTable i).iDev (s₁.inodeTable i).iNum
      (s₁.inodeTable i).toDInode) s₁.kernel = true) :
    Prog.returns (sysAccess sv c filename mode) (fun r _ =>
      r = accessAnswer t ((s₁.inodeTable i).iMode &&& 0o777#16) (s₁.inodeTable i) (mode &&& 7)) s := by
  have hholds : Holds s ((fun j => (s.inodeTable j).iCount) + ref (some i)) s₁ := by
    rw [Path.namei_eq] at hn
    exact namei_spec .start _ _ hn
  rw [sysAccess, Prog.returns, Prog.bind_of_ret hn]
  refine Prog.returns_bind ⟨_, _, rfl, ?_⟩
  refine Prog.returns_bind ((iput_keeps hc hp hl hw).mono ?_)
  rintro _ s₂ ⟨htask, hkeep⟩
  have hcur : current c s₂ = .ret (t, s₂) := by
    rw [current, Prog.bind_of_ret (a := s₂) (t := s₂) rfl, htask, hholds.task, ht]
    rfl
  rw [Prog.returns, Prog.bind_of_ret hcur]
  refine Prog.returns_bind ⟨_, _, rfl, Prog.returns_pure ?_⟩
  have hu : (s₂.inodeTable i).iUid = (s₁.inodeTable i).iUid := congrArg DInode.iUid hkeep
  have hg : (s₂.inodeTable i).iGid = (s₁.inodeTable i).iGid := congrArg DInode.iGid hkeep
  rw [accessAnswer, accessAnswer, accessBits, accessBits, hu, hg]

/-! ## The bits -/

/-- The owner's bits among the permission bits. -/
lemma owner_bits {m : BitVec 16} : (m &&& 0o777#16) >>> 6 &&& (7 : BitVec 16) = m >>> 6 &&& (7 : BitVec 16) := by
  ext j hj
  rw [BitVec.ushiftRight_and_distrib]
  simp

/-- The others' bits among the permission bits. -/
lemma other_bits {m : BitVec 16} : m &&& 0o777#16 &&& 7 = m &&& 7 := by
  rw [BitVec.and_assoc]
  rfl

/-- What is asked for has no more than the last three bits. -/
lemma and_mode {x mode : BitVec 16} (hm : mode &&& 7 = mode) : x &&& 7 &&& mode = x &&& mode := by
  rw [BitVec.and_assoc, BitVec.and_comm _ mode, hm]

/-- An answer of 0. -/
lemma accessAnswer_zero {t : Task} {res mode : BitVec 16} {inode : MInode} :
    accessAnswer t res inode mode = 0 ↔ accessBits t res inode &&& 7 &&& mode = mode := by
  rw [accessAnswer]
  split
  · next h => exact ⟨fun _ => h, fun _ => rfl⟩
  · next h => exact ⟨fun e => absurd e (by decide), fun e => absurd e h⟩

section
variable {t : Task} {m : MInode} {mode : BitVec 16}

/-- What `sys_access` tests for a caller that is not the super user: the owner's bits, also for the group. -/
lemma access_iff (hu : t.euid = t.uid) (hg : t.egid = t.gid) (h0 : t.uid ≠ 0) (hm : mode &&& 7 = mode) :
    accessAnswer t (m.iMode &&& 0o777#16) m mode = 0 ↔
      if t.uid = m.iUid ∨ t.gid = m.iGid.setWidth 16 then m.iMode >>> 6 &&& mode = mode
      else m.iMode &&& mode = mode := by
  have hs : ¬ ¬ (t.euid ≠ 0 ∧ t.uid ≠ 0) := not_not.2 ⟨hu ▸ h0, h0⟩
  rw [accessAnswer_zero, accessBits, if_neg hs, hu, hg]
  by_cases h₁ : t.uid = m.iUid
  · rw [if_pos h₁, if_pos (.inl h₁), owner_bits, and_mode hm]
  · rw [if_neg h₁]
    by_cases h₂ : t.gid = m.iGid.setWidth 16
    · rw [if_pos h₂, if_pos (.inr h₂), owner_bits, and_mode hm]
    · rw [if_neg h₂, if_neg (not_or.2 ⟨h₁, h₂⟩), other_bits, and_mode hm]

/-- What `permission` tests for a caller that is not the super user. -/
lemma permission_iff (hu : t.euid = t.uid) (hg : t.egid = t.gid) (h0 : t.uid ≠ 0) (hm : mode &&& 7 = mode)
    (hl : m.iNlinks ≠ 0) : permission t m mode = mode ↔
      if t.uid = m.iUid then m.iMode >>> 6 &&& mode = mode
      else if t.gid = m.iGid.setWidth 16 then m.iMode >>> 3 &&& mode = mode
      else m.iMode &&& mode = mode := by
  have hs : ¬ ¬ (t.uid ≠ 0 ∧ t.euid ≠ 0) := not_not.2 ⟨h0, hu ▸ h0⟩
  have hmask : ∀ y : BitVec 16, y &&& mode &&& 7 = y &&& mode := fun y => by rw [BitVec.and_assoc, hm]
  rw [permission, if_neg fun h => hl h.2]
  show (if _ then _ else _) &&& mode &&& 7 = mode ↔ _
  rw [hmask, if_neg hs, hu, hg]
  by_cases h₁ : t.uid = m.iUid
  · rw [if_pos (.inl h₁), if_pos h₁]
  · rw [if_neg (not_or.2 ⟨h₁, h₁⟩), if_neg h₁]
    by_cases h₂ : t.gid = m.iGid.setWidth 16
    · rw [if_pos (.inl h₂), if_pos h₂]
    · rw [if_neg (not_or.2 ⟨h₂, h₂⟩), if_neg h₂]

/-- The two tests agree exactly where the same bits are meant. -/
lemma access_permission_iff (hu : t.euid = t.uid) (hg : t.egid = t.gid) (h0 : t.uid ≠ 0)
    (hm : mode &&& 7 = mode) (hl : m.iNlinks ≠ 0) :
    (accessAnswer t (m.iMode &&& 0o777#16) m mode = 0 ↔ permission t m mode = mode) ↔
      SameClass t m mode := by
  rw [access_iff hu hg h0 hm, permission_iff hu hg h0 hm hl, SameClass]
  by_cases h₁ : t.uid = m.iUid
  · rw [if_pos (.inl h₁), if_pos h₁]
    exact ⟨fun _ => .inl h₁, fun _ => Iff.rfl⟩
  · rw [if_neg h₁]
    by_cases h₂ : t.gid = m.iGid.setWidth 16
    · rw [if_pos (.inr h₂), if_pos h₂]
      exact ⟨fun h => .inr (.inr h), fun h => (h.resolve_left h₁).resolve_left (absurd h₂)⟩
    · rw [if_neg (not_or.2 ⟨h₁, h₂⟩), if_neg h₂]
      exact ⟨fun _ => .inr (.inl h₂), fun _ => Iff.rfl⟩

end

/-- `sys_access` answers from the inode that the path name stands for, and gives the answer of `permission`
    exactly when the bits of the owner and of the group need not be told apart, and the inode can be counted once
    more. -/
theorem sysAccess_iff (sv : Services κ) {c : Fin 64} {s s₁ : Tables κ} {i : Fin 32} {t : Task}
    {filename : Path.CString} {mode : BitVec 16} (ht : s.task c = some t)
    (hs : ∀ j, (s.inodeTable j).iCount < 65536)
    (hn : Path.namei sv c filename s = .ret (some i, s₁)) (hp : (s₁.inodeTable i).iPipe = false)
    (hl : (s₁.inodeTable i).iNlinks ≠ 0)
    (hw : Prog.halts (sv.writeInode (s₁.inodeTable i).iDev (s₁.inodeTable i).iNum
      (s₁.inodeTable i).toDInode) s₁.kernel = true)
    (hu : t.euid = t.uid) (hg : t.egid = t.gid) (h0 : t.uid ≠ 0) (hm : mode &&& 7 = mode) :
    AccessAgrees sv c filename mode t (s₁.inodeTable i) s ↔
      SameClass t (s₁.inodeTable i) mode ∧ (s.inodeTable i).iCount ≠ 65535 := by
  have hcount := namei_count hs hn
  have hlt := hs i
  rw [← access_permission_iff hu hg h0 hm hl]
  constructor
  · intro hagrees
    refine ⟨?_, fun hfull => sysAccess_wrapped hn (by omega) hagrees⟩
    obtain ⟨r, s', hrun, rfl, h⟩ := hagrees
    exact h
  · rintro ⟨h, hroom⟩
    have hanswer := sysAccess_answer mode ht hn (by omega) hp hl hw
    rw [hm] at hanswer
    refine hanswer.mono ?_
    rintro r s' rfl
    exact ⟨rfl, h⟩

/-- A file of user 3 that its group may read, but not write. -/
def groupFile : DInode :=
  { MInode.zero.toDInode with iMode := 0o100640, iUid := 3, iGid := 1, iNlinks := 1 }

/-- A disk on which every name leads to the file. -/
def groupDisk : Services Unit :=
  { emptyDisk with readInode := fun _ _ => pure groupFile, findEntry := fun _ _ _ => pure (some 2) }

/-- User 5, of the group of the file. -/
def groupTask : Task := { initTask with uid := 5, euid := 5, gid := 1, egid := 1 }

def groupTables : Tables Unit := { mounted with task := update (fun _ => none) 0 (some groupTask) }

/-- The path name `a`. -/
def pathA : Path.CString :=
  ⟨['a'], fun c hc => by rw [List.mem_singleton.1 hc]; decide⟩

/-- The slot that `namei` returns, with the file. -/
lemma namei_groupFile : ∃ s₁, Path.namei groupDisk 0 pathA groupTables = .ret (some 1, s₁) ∧
    (s₁.inodeTable 1).toDInode = groupFile ∧ (s₁.inodeTable 1).iPipe = false :=
  ⟨_, rfl, rfl, rfl⟩

/-- Reading is answered alike. -/
theorem sysAccess_read : ∃ s₁ : Tables Unit,
    AccessAgrees groupDisk 0 pathA 4 groupTask (s₁.inodeTable 1) groupTables := by
  obtain ⟨s₁, hn, hd, hp⟩ := namei_groupFile
  have hl : (s₁.inodeTable 1).iNlinks ≠ 0 := by rw [hd]; decide
  refine ⟨s₁, (sysAccess_iff groupDisk (t := groupTask) rfl (by decide) hn hp hl rfl rfl rfl (by decide)
    (by decide)).2 ⟨?_, by decide⟩⟩
  rw [SameClass, hd]
  decide

/-- The group may not write, but `sys_access` says that it may. -/
theorem sysAccess_group_write : ∃ s₁, Path.namei groupDisk 0 pathA groupTables = .ret (some 1, s₁) ∧
    (s₁.inodeTable 1).toDInode = groupFile ∧
      ¬ AccessAgrees groupDisk 0 pathA 2 groupTask (s₁.inodeTable 1) groupTables := by
  obtain ⟨s₁, hn, hd, hp⟩ := namei_groupFile
  refine ⟨s₁, hn, hd, ?_⟩
  rintro ⟨r, s', -, rfl, h⟩
  have hl : (s₁.inodeTable 1).iNlinks ≠ 0 := by rw [hd]; decide
  rw [access_permission_iff rfl rfl (by decide) (by decide) hl, SameClass, hd] at h
  revert h
  decide

end OldLinux.Files
