import OldLinux.Access.Entries

/-!
# Write permission

The runs in which a process opens, duplicates, reads and writes files. `open_namei` compares what
`permission` allows with the mode of access that is asked for, so no file is truncated that may not be
written to. But `sys_write` does not look at the mode of access with which the descriptor was opened, as it
does for pipes: a file that may be read is written to through a descriptor that was opened for reading.

`write_permission` is what holds: the file stays as it is in every run that does not write through a
descriptor of the file itself.
-/

namespace OldLinux.Access
open Lib Fs Function
open Files (Task isReg isDir isChr permission mayExec mayWrite accMode oAccmode oCreat oExcl oTrunc oWronly
  openFlag dirNames basename)
open FileSys (Same Touches Only Off)

variable {ρ : Type} {sv : Services ρ} {breads : Nat → Nat × Nat → Bool} {x k dir : Ino}
  {c : Bytes} {n : BitVec 64} {s s' s'' s₀ : State ρ}

/-! ## Permission -/

/-- `permission` takes some bits out of the mask. -/
lemma permission_eq (t : Task) (m : MInode) :
    ∃ b : BitVec 16, ∀ mask, permission t m mask = b &&& mask &&& 7 := by
  obtain hc | hc := em (m.iDev ≠ 0 ∧ m.iNlinks = 0)
  · refine ⟨0, fun mask => ?_⟩
    rw [permission, if_pos hc]
    simp
  · exact ⟨_, fun mask => if_neg hc⟩

/-- Without write permission no access that includes writing is allowed. -/
lemma permission_denied {t : Task} {m : MInode} {mask : BitVec 16} (h : permission t m mayWrite = 0)
    (hm : mask.getLsbD 1 = true) : permission t m mask ≠ mask := by
  obtain ⟨b, hb⟩ := permission_eq t m
  rw [hb] at h ⊢
  intro e
  have h1 : (b &&& mayWrite &&& 7).getLsbD 1 = b.getLsbD 1 := by
    simp [mayWrite]
  have h2 : (b &&& mask &&& 7).getLsbD 1 = b.getLsbD 1 := by
    simp [hm]
  rw [h] at h1
  rw [e, hm, ← h1] at h2
  cases h2

/-- The accesses other than reading include writing. -/
lemma accMode_bit {flag : BitVec 32} (h : flag &&& oAccmode ≠ 0) : (accMode flag).getLsbD 1 = true := by
  rw [accMode, if_neg h]
  split
  · rfl
  · split <;> rfl

/-- `O_TRUNC` is an access that includes writing. -/
lemma openFlag_accmode {flag : BitVec 32} (h : openFlag flag &&& oTrunc ≠ 0) :
    openFlag flag &&& oAccmode ≠ 0 := by
  intro h0
  have hbit : (flag &&& oTrunc ≠ 0 ∧ flag &&& oAccmode = 0) → False := by
    intro hc
    rw [openFlag, if_pos hc] at h0
    have e : ((flag ||| oWronly) &&& oAccmode).getLsbD 0 = true := by
      simp [oWronly, oAccmode]
    rw [h0] at e
    cases e
  rw [openFlag, if_neg hbit] at h h0
  exact hbit ⟨h, h0⟩

/-! ## Path names -/

/-- `iput` of an inode that is not the file. -/
lemma iput_other (hs : Sound sv) (h : Guards x c n s) (hk : k ≠ x) :
    Prog.wp (iput sv k) (fun _ => Guards x c n) s :=
  (iput_spec hs h fun e => absurd e hk).mono fun _ _ h' => h'.1

/-- `iput`, and then a value. -/
lemma iput_pure (hs : Sound sv) {α : Type} {a : α} {Q : α → State ρ → Prop} (h : Guards x c n s)
    (hk : k = x → (s.fs.inode x).iNlinks ≠ 0 ∨ (s.fs.inode x).iCount ≠ 1)
    (hQ : ∀ s', Guards x c n s' → Q a s') :
    Prog.wp (iput sv k >>= fun _ => pure a) Q s := by
  rw [Prog.wp_bind]
  refine (iput_spec hs h hk).mono ?_
  rintro _ s' ⟨h', -⟩
  rw [Prog.wp_pure]
  exact hQ s' h'

/-- The loop of `get_dir` keeps the file and ends in a directory. -/
lemma getDirLoop_spec (hs : Sound sv) {names : List (List Char)} (h : Guards x c n s)
    (hk : k = x → (s.fs.inode x).iNlinks ≠ 0 ∨ (s.fs.inode x).iCount ≠ 1) :
    Prog.wp (getDirLoop sv names k)
      (fun r s' => Guards x c n s' ∧ ∀ d, r = some d → isDir (s'.fs.inode d).iMode = true) s := by
  induction names generalizing s k with
  | nil =>
    rw [getDirLoop, Prog.wp_bind, wp_inodeAt, Prog.wp_bind, Prog.wp_get]
    split
    · exact iput_pure hs h hk fun _ h' => ⟨h', nofun⟩
    · rename_i hc
      rw [Prog.wp_pure]
      refine ⟨h, fun d e => ?_⟩
      cases e
      exact not_not.1 (not_or.1 hc).1
  | cons name names ih =>
    rw [getDirLoop, Prog.wp_bind, wp_inodeAt, Prog.wp_bind, Prog.wp_get]
    split
    · exact iput_pure hs h hk fun _ h' => ⟨h', nofun⟩
    rename_i hc
    have hd : isDir (s.fs.inode k).iMode = true := not_not.1 (not_or.1 hc).1
    rw [Prog.wp_bind]
    refine (findEntry_live h hd).mono ?_
    rintro inr s₁ ⟨rfl, hl⟩
    cases inr with
    | none => exact iput_pure hs h hk fun _ h' => ⟨h', nofun⟩
    | some inr =>
      show Prog.wp (_ >>= _) _ s₁
      rw [Prog.wp_bind]
      refine (iput_spec hs h hk).mono ?_
      rintro _ s₂ ⟨h₂, hlive⟩
      rw [Prog.wp_bind]
      refine (iget_spec h₂ (hlive _ (hl inr rfl))).mono ?_
      rintro k' s₃ ⟨-, h₃, hl₃⟩
      exact ih h₃ fun e => .inl (e ▸ hl₃.2.2)

/-- `i_count` is looked at and nothing is changed. -/
lemma unused_spec {p : Option Ino} : Prog.wp (unused p)
    (fun b s' => s' = s ∧ ∀ k, p = some k → b = false → (s.fs.inode k).iCount ≠ 0) s := by
  cases p with
  | none =>
    rw [unused, Prog.wp_pure]
    exact ⟨rfl, nofun⟩
  | some k =>
    rw [unused, Prog.wp_bind, wp_inodeAt, Prog.wp_pure]
    refine ⟨rfl, ?_⟩
    rintro _ ⟨⟩ hb
    exact ne_of_beq_false hb

/-- `get_dir` keeps the file and gives a directory. -/
lemma getDir_spec (hs : Sound sv) {pathname : List Char} (h : Guards x c n s) :
    Prog.wp (getDir sv pathname)
      (fun r s' => Guards x c n s' ∧ ∀ d, r = some d → isDir (s'.fs.inode d).iMode = true) s := by
  rw [getDir, Prog.wp_bind, Prog.wp_get, Prog.wp_bind]
  refine unused_spec.mono ?_
  rintro noRoot s₁ ⟨rfl, hroot⟩
  split
  · exact Prog.wp_panic
  rename_i hr
  rw [Prog.wp_bind]
  refine unused_spec.mono ?_
  rintro noPwd s₂ ⟨rfl, hpwd⟩
  split
  · exact Prog.wp_panic
  rename_i hp
  -- the directory it starts from is in use
  have hstart : ∀ k, (if pathname.head? = some '/' then s₂.root else if pathname ≠ [] then s₂.pwd else none) =
      some k → (s₂.fs.inode k).iCount ≠ 0 := by
    intro k e
    split at e
    · exact hroot k e (Bool.eq_false_iff.2 hr)
    split at e
    · exact hpwd k e (Bool.eq_false_iff.2 hp)
    · cases e
  generalize (if pathname.head? = some '/' then s₂.root else if pathname ≠ [] then s₂.pwd else none) = start
    at hstart
  cases start with
  | none =>
    rw [Prog.wp_pure]
    exact ⟨h, nofun⟩
  | some k =>
    show Prog.wp (_ >>= _) _ s₂
    rw [Prog.wp_bind, addCount, wp_setInode]
    refine getDirLoop_spec hs (h.withInode rfl rfl rfl fun _ => Nat.mod_lt _ (by decide : 0 < 65536)) ?_
    rintro rfl
    right
    rw [withInode_self]
    have hpos := hstart k rfl
    have hlt := h.count
    show ((s₂.fs.inode k).iCount + 1) % 65536 ≠ 1
    omega

/-! ## `open_namei` -/

/-- The inode `k` that `new_inode` has made since the state `s₀`, named by no entry yet. -/
structure New (s₀ s : State ρ) (x k : Ino) : Prop where
  ne : k ≠ x
  unnamed : ¬ Named s.fs k
  fresh : s₀.inodeMap k = false
  allocated : s.inodeMap k = true
  dev : (s.fs.inode k).iDev = k.1
  dev_ne : k.1 ≠ 0
  num : (s.fs.inode k).iNum = k.2
  lt : k.2 < 65536
  zones : (s.fs.inode k).iZone = fun _ => 0
  mode : isDir (s.fs.inode k).iMode = false

/-- `new_inode` keeps the file and gives an inode that no entry names. -/
lemma newInode_spec (hs : Sound sv) {dev : Nat} (h : Guards x c n s) (hdev : dev ≠ 0) :
    Prog.wp (newInode sv dev) (fun r s' => Guards x c n s' ∧ ∀ k, r = some k → New s s' x k ∧ k.1 = dev ∧
      (s'.fs.inode k).iNlinks = 1 ∧ ∀ d, d ≠ k → s'.fs.inode d = s.fs.inode d) s := by
  rw [newInode, Prog.wp_bind]
  refine Prog.wp_zoom.2 ((hs.newInode dev s.inodeMap s.rest).mono ?_)
  rintro (_ | nr) ⟨map, rest⟩ hp
  · obtain rfl : map = s.inodeMap := hp
    rw [Prog.wp_pure]
    exact ⟨h.task rfl rfl fun _ => rfl, nofun⟩
  obtain ⟨hlt, hfree, rfl⟩ := hp
  show Prog.wp (_ >>= _) _ _
  rw [Prog.wp_bind, wp_currentTime, Prog.wp_bind, wp_setInode, Prog.wp_pure]
  have hne : (dev, nr) ≠ x := by
    rintro rfl
    rw [h.allocated] at hfree
    cases hfree
  have hn : ¬ Named s.fs (dev, nr) := by
    intro hn
    rw [(h.live_of_named hn).1] at hfree
    cases hfree
  generalize hm : ({ MInode.zero with
    iCount := 1, iNlinks := 1, iDev := dev, iDirt := true, iNum := nr
    iMtime := s.now, iAtime := s.now, iCtime := s.now } : MInode) = m
  generalize hs₁ : ({ s with inodeMap := update s.inodeMap (dev, nr) true, rest := rest } : State ρ) = s₁
  have hfs : (s₁.withInode (dev, nr) m).fs = ⟨s.fs.disk, update s.fs.inode (dev, nr) m⟩ := by rw [← hs₁]; rfl
  have hself : (s₁.withInode (dev, nr) m).fs.inode (dev, nr) = m := withInode_self
  have hmap : (s₁.withInode (dev, nr) m).inodeMap = update s.inodeMap (dev, nr) true := by rw [← hs₁]; rfl
  have htask : (s₁.withInode (dev, nr) m).task = s.task := by rw [← hs₁]; rfl
  have hothers : ∀ d, d ≠ (dev, nr) → (s₁.withInode (dev, nr) m).fs.inode d = s.fs.inode d := by
    intro d hd
    rw [withInode_others hd, ← hs₁]
  have hmask : ∀ i < 9, m.masked.iZone i = 0 := fun i _ =>
    congrFun (MInode.masked_of_zero (by rw [← hm]; rfl)) i
  have hmode : isDir m.iMode = false := by
    rw [← hm]
    show isDir 0 = false
    decide
  obtain ⟨hg, hun⟩ : Guards x c n (s₁.withInode (dev, nr) m) ∧
      ¬ Named (s₁.withInode (dev, nr) m).fs (dev, nr) := h.replace hne hn (Off.refl.touches h.wf hmask hfs).1
    hothers (fun d hd => by rw [hmap, update_of_ne hd]) htask (fun _ => by rw [hself, ← hm])
    (fun hc => by rw [hmap, update_self] at hc; cases hc) (by rw [hself, hmode])
  refine ⟨hg, ?_⟩
  rintro _ ⟨⟩
  refine ⟨⟨hne, hun, hfree, ?_, ?_, hdev, ?_, hlt, ?_, by rw [hself, hmode]⟩, rfl, ?_, hothers⟩
  · rw [hmap, update_self]
  · rw [hself, ← hm]
  · rw [hself, ← hm]
  · rw [hself, ← hm]
    rfl
  · rw [hself, ← hm]

/-- Fields of a new inode are set. -/
lemma New.set (h : Guards x c n s) (hk : New s₀ s x k) {m : MInode} (hd : m.iDev = (s.fs.inode k).iDev)
    (hn : m.iNum = (s.fs.inode k).iNum) (hz : m.iZone = (s.fs.inode k).iZone)
    (hm : isDir m.iMode = false) : Guards x c n (s.withInode k m) ∧ New s₀ (s.withInode k m) x k := by
  have hmask : ∀ i < 9, m.masked.iZone i = 0 := fun i _ =>
    congrFun (MInode.masked_of_zero (hz.trans hk.zones)) i
  have hkey : ((s.withInode k m).fs.inode k).iDev ≠ 0 →
      (((s.withInode k m).fs.inode k).iDev, ((s.withInode k m).fs.inode k).iNum) = k := by
    intro _
    rw [withInode_self, hd, hn, hk.dev, hk.num]
  obtain ⟨hg, hun⟩ : Guards x c n (s.withInode k m) ∧ ¬ Named (s.withInode k m).fs k := h.replace hk.ne hk.unnamed
    (Off.refl.touches h.wf hmask rfl).1 (fun d hd => withInode_others hd) (fun _ _ => rfl) rfl hkey
    (fun hc => absurd (hk.allocated.symm.trans hc) nofun) (by rw [withInode_self, hm])
  refine ⟨hg, hk.ne, hun, hk.fresh, hk.allocated, ?_, hk.dev_ne, ?_, hk.lt, ?_, by rw [withInode_self, hm]⟩
  · rw [withInode_self, hd, hk.dev]
  · rw [withInode_self, hn, hk.num]
  · rw [withInode_self, hz, hk.zones]

/-- An inode that an entry names after a change was named before. -/
lemma Changes.named (h : Changes s s' dir) (hn : Named s'.fs k) : Named s.fs k := by
  obtain ⟨d, nr, hd, h0, he, rfl⟩ := hn
  have hhead := h.only.all_head d
  rw [MInode.head_iMode hhead] at hd
  refine ⟨d, nr, hd, h0, ?_, by rw [MInode.head_iDev hhead]⟩
  obtain rfl | hne := eq_or_ne d dir
  · exact (h.dir hd).2 nr h0 he
  · exact he.congr (h.touches.contents d hne) (by rw [h.only.others d hne])

/-- A new inode stays one while entries are looked for in a directory. -/
lemma New.changes (hk : New s₀ s x k) (h : Changes s s' dir) (hne : k ≠ dir) : New s₀ s' x k := by
  have e := h.only.others k hne
  exact ⟨hk.ne, fun hn => hk.unnamed (h.named hn), hk.fresh, by rw [h.map, hk.allocated],
    by rw [e, hk.dev], hk.dev_ne, by rw [e, hk.num], hk.lt, by rw [e, hk.zones], by rw [e, hk.mode]⟩

/-- The mode of a new file is that of a regular file. -/
lemma newMode_not_isDir (a b : BitVec 16) : isDir ((a &&& b) ||| 0o100000#16) = false := by
  rw [isDir, beq_eq_false_iff_ne]
  intro e
  have h := congrArg (fun v => BitVec.getLsbD v 15) e
  simp [Files.sIfmt] at h

/-- The creating part of `open_namei` keeps the file. -/
lemma openCreate_spec (hs : Sound sv) {name : List Char} {flag : BitVec 32} {mode : BitVec 16}
    (h : Guards x c n s) (hd : isDir (s.fs.inode dir).iMode = true) (hmode : isDir mode = false) :
    Prog.wp (openCreate sv dir name flag mode) (fun _ => Guards x c n) s := by
  have hdx := h.ne hd
  rw [openCreate, Prog.wp_bind, wp_inodeAt, Prog.wp_bind, Prog.wp_get]
  split
  · exact iput_pure hs h (fun e => absurd e hdx) fun _ => id
  split
  · exact iput_pure hs h (fun e => absurd e hdx) fun _ => id
  rw [Prog.wp_bind]
  refine (newInode_spec hs h (h.dev dir hd)).mono ?_
  rintro (_ | k) s₁ ⟨h₁, hnew⟩
  · exact iput_pure hs h₁ (fun e => absurd e hdx) fun _ => id
  obtain ⟨hk, hdev, hl, hothers⟩ := hnew k rfl
  have hne : dir ≠ k := by
    rintro rfl
    rw [h.unallocated dir hk.fresh] at hd
    cases hd
  show Prog.wp (_ >>= _) _ s₁
  rw [Prog.wp_bind, wp_setInode]
  generalize hm : ({ s₁.fs.inode k with iMode := mode, iDirt := true } : MInode) = m
  obtain ⟨h₂, hk₂⟩ := hk.set (m := m) h₁ (by rw [← hm]) (by rw [← hm]) (by rw [← hm]) (by rw [← hm]; exact hmode)
  have hl₂ : ((s₁.withInode k m).fs.inode k).iNlinks = 1 := by rw [withInode_self, ← hm, ← hl]
  have hdir₂ : (s₁.withInode k m).fs.inode dir = s.fs.inode dir := by
    rw [withInode_others hne, hothers dir hne]
  generalize s₁.withInode k m = s₂ at h₂ hk₂ hl₂ hdir₂
  have hd₂ : isDir (s₂.fs.inode dir).iMode = true := by rwa [hdir₂]
  rw [Prog.wp_bind]
  refine (addEntry_spec hs h₂.toConsistent hd₂).mono ?_
  rintro r s₃ ⟨h₂₃, hplace⟩
  have h₃ := h₂.changes hdx h₂₃
  have hk₃ := hk₂.changes h₂₃ hne.symm
  cases r with
  | none =>
    -- no entry names the inode, so that it can be freed
    show Prog.wp (_ >>= _) _ s₃
    rw [Prog.wp_bind, wp_setInode]
    obtain ⟨h₄, -⟩ := hk₃.set (m := { s₃.fs.inode k with iNlinks := (s₃.fs.inode k).iNlinks - 1 }) h₃
      rfl rfl rfl hk₃.mode
    rw [Prog.wp_bind]
    refine (iput_other hs h₄ hk.ne).mono ?_
    intro _ s₅ h₅
    exact iput_pure hs h₅ (fun e => absurd e hdx) fun _ => id
  | some place =>
    obtain ⟨block, e⟩ := place
    show Prog.wp (_ >>= _) _ s₃
    rw [Prog.wp_bind, wp_inodeAt, Prog.wp_bind, wp_inodeAt, Prog.wp_bind, wp_bread, Prog.wp_bind, hk₃.num]
    have hdev₃ : (s₃.fs.inode dir).iDev = k.1 := by
      rw [MInode.head_iDev h₂₃.only.head, hdir₂, hdev]
    have hl₃ : (s₃.fs.inode k).iNlinks = 1 := by rw [h₂₃.only.others k hne.symm, hl₂]
    refine (bwriteInode_guards h₃ (h₂₃.isDir hd₂) hplace hk₃.lt ?_).mono ?_
    · have hdev₃' : (s₃.fs.inode k).iDev ≠ 0 := by
        rw [hk₃.dev]
        exact hk₃.dev_ne
      rw [hdev₃]
      exact ⟨hk₃.allocated, hdev₃', hl₃ ▸ one_ne_zero⟩
    · rintro _ s₄ ⟨h₄, -⟩
      exact iput_pure hs h₄ (fun e => absurd e hdx) fun _ => id

/-- The part of `open_namei` with an entry keeps the file. -/
lemma openFound_spec (hs : Sound sv) {dev inr : Nat} {flag : BitVec 32} (h : Guards x c n s)
    (hl : Live s (dev, inr)) :
    Prog.wp (openFound sv dev inr (openFlag flag)) (fun _ => Guards x c n) s := by
  rw [openFound]
  split
  · rw [Prog.wp_pure]
    exact h
  rw [Prog.wp_bind]
  refine (iget_spec h hl).mono ?_
  rintro k s₁ ⟨-, h₁, hl₁⟩
  rw [Prog.wp_bind, wp_inodeAt, Prog.wp_bind, Prog.wp_get]
  split
  · exact iput_pure hs h₁ (fun e => .inl (e ▸ hl₁.2.2)) fun _ => id
  rename_i hc
  obtain ⟨-, hp⟩ := not_or.1 hc
  rw [Prog.wp_bind, wp_currentTime, Prog.wp_bind, wp_setInode]
  have h₂ : Guards x c n (s₁.withInode k { s₁.fs.inode k with iAtime := s₁.now }) :=
    h₁.withInode rfl rfl rfl fun e => by subst e; exact h₁.count
  split
  swap
  · rw [Prog.wp_pure]
    exact h₂
  -- the file is one that the process may write to
  rename_i ht
  have hkx : k ≠ x := by
    rintro rfl
    exact hp fun e => permission_denied h₁.denied (accMode_bit (openFlag_accmode ht)) e
  rw [Prog.wp_bind]
  refine (truncate_changes hs h₂.wf).mono ?_
  intro _ s₃ h₃
  rw [Prog.wp_pure]
  exact h₂.changes hkx h₃

/-- `open_namei` keeps the file. -/
lemma openNamei_spec (hs : Sound sv) {pathname : List Char} {flag : BitVec 32} {mode : BitVec 16}
    (h : Guards x c n s) :
    Prog.wp (openNamei sv pathname flag mode) (fun _ => Guards x c n) s := by
  rw [openNamei, Prog.wp_bind, Prog.wp_get]
  show Prog.wp (_ >>= _) _ s
  rw [Prog.wp_bind]
  refine (getDir_spec hs h).mono ?_
  rintro (_ | dir) s₁ ⟨h₁, hdir⟩
  · rw [Prog.wp_pure]
    exact h₁
  have hd := hdir dir rfl
  have hdx := h₁.ne hd
  show Prog.wp (if _ then _ else _) _ s₁
  split
  · split
    · rw [Prog.wp_pure]
      exact h₁
    · exact iput_pure hs h₁ (fun e => absurd e hdx) fun _ => id
  rw [Prog.wp_bind, wp_inodeAt, Prog.wp_bind]
  refine (findEntry_live h₁ hd).mono ?_
  rintro (_ | inr) s₂ ⟨rfl, hl⟩
  · exact openCreate_spec hs h₁ hd (newMode_not_isDir _ _)
  show Prog.wp (_ >>= _) _ s₂
  rw [Prog.wp_bind]
  refine (iput_spec hs h₁ fun e => absurd e hdx).mono ?_
  rintro _ s₃ ⟨h₃, hlive⟩
  exact openFound_spec hs h₃ (hlive _ (hl inr rfl))

/-! ## The system calls -/

/-- Changing the task. -/
@[simp] lemma wp_setCurrent {f : Task → Task} {Q : Unit → State ρ → Prop} :
    Prog.wp (setCurrent f) Q s ↔ Q () { s with task := f s.task } := Prog.wp_modify

/-- Binding a descriptor leaves the inodes. -/
@[simp] lemma wp_setFd {fd : Fin 20} {f : Option (Fin 64)} {Q : Unit → State ρ → Prop} :
    Prog.wp (setFd fd f) Q s ↔ Q () { s with task := { s.task with filp := update s.task.filp fd f } } :=
  Prog.wp_modify

/-- Reading an entry of the file table. -/
@[simp] lemma wp_fileAt {f : Fin 64} {Q : File Node → State ρ → Prop} :
    Prog.wp (fileAt f) Q s ↔ Q (s.fileTable f) s := by
  simp [fileAt]

/-- Changing an entry of the file table. -/
@[simp] lemma wp_setFile {f : Fin 64} {g : File Node → File Node} {Q : Unit → State ρ → Prop} :
    Prog.wp (setFile f g) Q s ↔
      Q () { s with fileTable := update s.fileTable f (g (s.fileTable f)) } := Prog.wp_modify

/-- What a program on the descriptors leaves alone. -/
def Calm (s s' : State ρ) : Prop :=
  s'.fs = s.fs ∧ s'.inodeMap = s.inodeMap ∧ ∀ m mask, permission s'.task m mask = permission s.task m mask

/-- The file is safe from what changes neither files nor the table. -/
lemma Guards.calm (h : Guards x c n s) (hc : Calm s s') : Guards x c n s' :=
  h.task hc.1 hc.2.1 fun m => hc.2.2 m mayWrite

/-- Nothing done is calm. -/
lemma calm_rfl : Calm s s := ⟨rfl, rfl, fun _ _ => rfl⟩

/-- Two calm steps are one. -/
lemma Calm.trans (h : Calm s s') (h' : Calm s' s'') : Calm s s'' :=
  ⟨h'.1.trans h.1, h'.2.1.trans h.2.1, fun m mask => (h'.2.2 m mask).trans (h.2.2 m mask)⟩

/-- The part of `sys_open` for terminals is calm, and refuses character devices only. -/
lemma openTty_spec {inode : MInode} :
    Prog.wp (openTty sv inode) (fun r s' => Calm s s' ∧ (r = false → isChr inode.iMode = true)) s := by
  rw [openTty, Prog.wp_bind, Prog.wp_get]
  show Prog.wp (if _ then _ else _) _ s
  split
  · split
    · rw [Prog.wp_bind, wp_setCurrent, Prog.wp_bind, Prog.wp_modify, Prog.wp_pure]
      exact ⟨⟨rfl, rfl, fun _ _ => rfl⟩, nofun⟩
    · rw [Prog.wp_pure]
      exact ⟨calm_rfl, nofun⟩
  · rw [Prog.wp_pure]
    refine ⟨calm_rfl, fun hr => ?_⟩
    simp only [Bool.not_eq_false', decide_eq_true_eq] at hr
    exact hr.1

/-- `sys_open` keeps the file. -/
lemma doOpen_spec (hs : Sound sv) {filename : List Char} {flag : BitVec 32} {mode : BitVec 16}
    (h : Guards x c n s) : Prog.wp (doOpen sv filename flag mode) (fun _ => Guards x c n) s := by
  rw [doOpen, Prog.wp_bind, Prog.wp_get]
  dsimp only
  split
  · rw [Prog.wp_pure]
    exact h
  rename_i fd _
  rw [Prog.wp_bind, clearCloseOnExec, wp_setCurrent]
  split
  · rw [Prog.wp_pure]
    exact h.calm ⟨rfl, rfl, fun _ _ => rfl⟩
  rw [Prog.wp_bind, wp_setFd, Prog.wp_bind, addFCount, wp_setFile, Prog.wp_bind]
  refine Prog.wp.mono (Q := fun _ => Guards x c n)
    (openNamei_spec hs (h.calm ⟨rfl, rfl, fun _ _ => rfl⟩)) ?_
  -- the descriptor and the entry of the file table are given back
  have hback : ∀ {s₁ : State ρ} {f : Fin 64} {e : Int}, Guards x c n s₁ →
      Prog.wp (do
        setFd fd none
        setFCount f 0
        pure e) (fun _ => Guards x c n) s₁ := by
    intro s₁ f e h₁
    rw [Prog.wp_bind, wp_setFd, Prog.wp_bind, setFCount, wp_setFile, Prog.wp_pure]
    exact h₁.calm ⟨rfl, rfl, fun _ _ => rfl⟩
  rintro (e | k) s₁ h₁
  · exact hback h₁
  show Prog.wp (_ >>= _) _ s₁
  rw [Prog.wp_bind, wp_inodeAt, Prog.wp_bind]
  refine openTty_spec.mono ?_
  rintro tty s₂ ⟨hcalm, htty⟩
  have h₂ := h₁.calm hcalm
  split
  · rw [Prog.wp_bind, wp_setFile, Prog.wp_pure]
    exact h₂.calm ⟨rfl, rfl, fun _ _ => rfl⟩
  rename_i hf
  have hkx : k ≠ x := by
    rintro rfl
    have hchr := htty (Bool.eq_false_iff.2 hf)
    have hreg := h₁.reg
    simp only [isChr, isReg, beq_iff_eq] at hchr hreg
    rw [hreg] at hchr
    cases hchr
  rw [Prog.wp_bind]
  refine (iput_other hs h₂ hkx).mono ?_
  intro _ s₃ h₃
  exact hback h₃

/-- Closing the descriptor gives up the last reference to the file, and the file has no links. -/
def Drops (s : State ρ) (x : Ino) (fd : Nat) : Prop :=
  ∃ f, filp s.task fd = some f ∧ (s.fileTable f).fCount = 1 ∧ (s.fileTable f).fInode = some (.file x) ∧
    (s.fs.inode x).iNlinks = 0 ∧ (s.fs.inode x).iCount = 1

/-- `sys_close` keeps the file, unless it drops the last reference to an inode without links. -/
lemma doClose_spec (hs : Sound sv) {fd : Nat} (h : Guards x c n s) (hd : ¬ Drops s x fd) :
    Prog.wp (doClose sv fd) (fun _ => Guards x c n) s := by
  rw [doClose]
  split
  swap
  · rw [Prog.wp_pure]
    exact h
  rename_i hfd
  rw [Prog.wp_bind, clearCloseOnExec, wp_setCurrent, Prog.wp_bind, Prog.wp_get]
  split
  · rw [Prog.wp_pure]
    exact h.calm ⟨rfl, rfl, fun _ _ => rfl⟩
  rename_i f hf
  rw [Prog.wp_bind, wp_setFd, Prog.wp_bind, wp_fileAt]
  split
  · exact Prog.wp_panic
  rename_i hc0
  rw [Prog.wp_bind, setFCount, wp_setFile]
  split
  · rw [Prog.wp_pure]
    exact h.calm ⟨rfl, rfl, fun _ _ => rfl⟩
  rename_i hc1
  have hcount : (s.fileTable f).fCount = 1 := by
    have h0 : (s.fileTable f).fCount ≠ 0 := hc0
    have h1 : (s.fileTable f).fCount - 1 = 0 := not_not.1 hc1
    omega
  have hfilp : filp s.task fd = some f := by
    rw [filp, dif_pos hfd]
    exact hf
  have hnode : ∀ k, (s.fileTable f).fInode = some (.file k) → k = x →
      (s.fs.inode x).iNlinks ≠ 0 ∨ (s.fs.inode x).iCount ≠ 1 := by
    rintro _ hk rfl
    by_contra hc
    obtain ⟨hl, hcn⟩ := not_or.1 hc
    exact hd ⟨f, hfilp, hcount, hk, not_not.1 hl, not_not.1 hcn⟩
  rw [Prog.wp_bind]
  have hgoal : ∀ {s₁ : State ρ}, Guards x c n s₁ → s₁.fs = s.fs →
      Prog.wp (iputNode sv (s.fileTable f).fInode) (fun _ => Guards x c n) s₁ := by
    intro s₁ h₁ hfs
    cases hn : (s.fileTable f).fInode with
    | none =>
      rw [iputNode, Prog.wp_pure]
      exact h₁
    | some node =>
      cases node with
      | file k =>
        refine (iput_spec hs h₁ fun e => ?_).mono fun _ _ h' => h'.1
        rw [hfs]
        exact hnode k hn e
      | pipe p => exact service_spec h₁
  refine Prog.wp.mono (Q := fun _ => Guards x c n)
    (hgoal (h.calm ⟨rfl, rfl, fun _ _ => rfl⟩) rfl) ?_
  intro _ s₂ h₂
  rw [Prog.wp_pure]
  exact h₂

/-- `dupfd` keeps the file. -/
lemma dupfd_spec {fd arg : Nat} (h : Guards x c n s) :
    Prog.wp (dupfd fd arg) (fun _ => Guards x c n) s := by
  rw [dupfd, Prog.wp_bind, Prog.wp_get]
  split
  swap
  · rw [Prog.wp_pure]
    exact h
  split
  · rw [Prog.wp_pure]
    exact h
  split
  · rw [Prog.wp_pure]
    exact h
  split
  · rw [Prog.wp_pure]
    exact h
  · rw [Prog.wp_bind, clearCloseOnExec, wp_setCurrent, Prog.wp_bind, wp_setFd, Prog.wp_bind, addFCount,
      wp_setFile, Prog.wp_pure]
    exact h.calm ⟨rfl, rfl, fun _ _ => rfl⟩

/-- `sys_fcntl` keeps the file. -/
lemma sysFcntl_spec {fd cmd : Nat} {arg : BitVec 64} (h : Guards x c n s) :
    Prog.wp (sysFcntl fd cmd arg) (fun _ => Guards x c n) s := by
  rw [sysFcntl, Prog.wp_bind, Prog.wp_get]
  split
  swap
  · rw [Prog.wp_pure]
    exact h
  split
  · rw [Prog.wp_pure]
    exact h
  split
  · exact dupfd_spec h
  · rw [Prog.wp_pure]
    exact h
  · rw [Prog.wp_bind, wp_setCurrent, Prog.wp_pure]
    exact h.calm ⟨rfl, rfl, fun _ _ => rfl⟩
  · rw [Prog.wp_bind, wp_fileAt, Prog.wp_pure]
    exact h
  · show Prog.wp (_ >>= _) _ s
    rw [Prog.wp_bind, wp_setFile, Prog.wp_pure]
    exact h.calm ⟨rfl, rfl, fun _ _ => rfl⟩
  · rw [Prog.wp_pure]
    exact h

/-- The end of `sys_lseek` keeps the file. -/
lemma seekTo_spec {f : Fin 64} {pos : BitVec 64} (h : Guards x c n s) :
    Prog.wp (seekTo f pos) (fun _ => Guards x c n) s := by
  rw [seekTo]
  split
  · rw [Prog.wp_pure]
    exact h
  · rw [Prog.wp_bind, wp_setFile, Prog.wp_pure]
    exact h.calm ⟨rfl, rfl, fun _ _ => rfl⟩

/-- `sys_lseek` keeps the file. -/
lemma sysLseek_spec {fd : Nat} {offset : BitVec 64} {origin : BitVec 32} (h : Guards x c n s) :
    Prog.wp (sysLseek fd offset origin) (fun _ => Guards x c n) s := by
  have hret : ∀ {v : Int}, Prog.wp (pure v) (fun _ => Guards x c n) s := fun {v} => by
    rw [Prog.wp_pure]
    exact h
  rw [sysLseek, Prog.wp_bind, Prog.wp_get]
  split
  · exact hret
  rw [Prog.wp_bind, wp_fileAt]
  split
  · exact hret
  · exact hret
  rw [Prog.wp_bind, wp_inodeAt]
  split
  · exact hret
  split
  · exact hret
  split
  · exact seekTo_spec h
  split
  · exact seekTo_spec h
  split
  · exact seekTo_spec h
  · exact hret

/-! ## Reading and writing -/

/-- `file_read` keeps the file. -/
lemma fileRead_spec {f : Fin 64} {buf : Bytes} {count : Int} (h : Guards x c n s) :
    Prog.wp (fileRead sv breads k f buf count) (fun _ => Guards x c n) s := by
  rw [fileRead, Prog.wp_bind, wp_currentTime, Prog.wp_bind, wp_fileAt, Prog.wp_bind, wp_onFs]
  rintro ⟨v, buf', pos⟩ fs' e
  cases hr : s.fs.fileReadInt sv.newBlock s.now breads k (File.on (s.fileTable f) k) buf count with
  | panic msg => rw [hr] at e; cases e
  | fault => rw [hr] at e; cases e
  | ret r =>
    obtain ⟨v', buf'', file, fs₁⟩ := r
    rw [hr] at e
    cases e
    obtain ⟨hs, ho, hsize, hcount⟩ := FileSys.fileReadInt_same h.wf hr
    show Prog.wp (_ >>= _) _ _
    rw [Prog.wp_bind, wp_setFile, Prog.wp_pure]
    have h' : Guards x c n { s with fs := fs' } := h.same hs ho hsize
      (fun e => by subst e; exact hcount.trans_lt h.count) rfl rfl
    exact h'.calm ⟨rfl, rfl, fun _ _ => rfl⟩

/-- `file_write` to another file keeps the file. -/
lemma fileWrite_spec (hs : Sound sv) {f : Fin 64} {buf : Bytes} {count : Int} (h : Guards x c n s)
    (hk : k ≠ x) (hreg : isReg (s.fs.inode k).iMode = true) :
    Prog.wp (fileWrite sv breads k f buf count) (fun _ => Guards x c n) s := by
  rw [fileWrite, Prog.wp_bind, wp_currentTime, Prog.wp_bind, wp_fileAt, Prog.wp_bind, wp_onFs]
  rintro ⟨v, pos⟩ fs' e
  cases hr : s.fs.fileWriteInt sv.newBlock s.now breads k (File.on (s.fileTable f) k) buf count with
  | panic msg => rw [hr] at e; cases e
  | fault => rw [hr] at e; cases e
  | ret r =>
    obtain ⟨v', file, fs₁⟩ := r
    rw [hr] at e
    cases e
    obtain ⟨ht, ho⟩ := FileSys.fileWriteInt_touches hs.newBlock h.wf (isFile_of_isReg hreg) hr
    have hc : Changes s { s with fs := fs' } k :=
      ⟨ht, ho, rfl, rfl, fun hd => absurd (hd.symm.trans (isDir_not_isReg hreg)) nofun⟩
    show Prog.wp (_ >>= _) _ _
    rw [Prog.wp_bind, wp_setFile, Prog.wp_pure]
    exact (h.changes hk hc).calm ⟨rfl, rfl, fun _ _ => rfl⟩

/-- The descriptor is open on the file `k`. -/
def HasOpen (s : State ρ) (fd : Nat) (k : Ino) : Prop :=
  ∃ f, filp s.task fd = some f ∧ (s.fileTable f).fInode = some (.file k)

/-- The descriptor is open on a block special file: `block_write` may run over into the buffer of another
block, `block_read` marks the buffers dirty that it reads, and both may bring a block into the cache a second
time that has a buffer of another device, as `0x300` holds the blocks of `0x301`. -/
def Raw (s : State ρ) (fd : Nat) : Prop := ∃ k, HasOpen s fd k ∧ isBlk (s.fs.inode k).iMode = true

/-- What the check of `open_namei` does not cover: a write through a descriptor of the file `x`, the transfer
to or from a block device, and the close of the last descriptor of `x` after its last link has gone. -/
def Unchecked (x : Ino) (s : State ρ) : Call → Prop
  | .read fd _ count => 0 < count ∧ Raw s fd
  | .write fd _ count => 0 < count ∧ (HasOpen s fd x ∨ Raw s fd)
  | .dup2 _ newfd => Drops s x newfd
  | _ => False

/-- `sys_read` keeps the file, unless it reads a block device. -/
lemma sysRead_spec {fd : Nat} {buf : Bytes} {count : Int} (h : Guards x c n s)
    (hu : ¬ Unchecked x s (.read fd buf count)) :
    Prog.wp (sysRead sv breads fd buf count) (fun _ => Guards x c n) s := by
  have hret : ∀ {v : Int × Bytes}, Prog.wp (pure v) (fun _ => Guards x c n) s := fun {v} => by
    rw [Prog.wp_pure]
    exact h
  rw [sysRead, sysReadWith, Prog.wp_bind, Prog.wp_get]
  split
  · exact hret
  rename_i f hf
  split
  · exact hret
  split
  · exact hret
  rename_i hneg hzero
  have hpos : 0 < count := by omega
  rw [Prog.wp_bind, wp_fileAt]
  split
  · exact Prog.wp_fault
  · split
    · exact service_spec h
    · exact hret
  rename_i k hk
  rw [Prog.wp_bind, wp_inodeAt]
  split
  · exact service_spec h
  split
  · rename_i hblk
    exact absurd ⟨hpos, k, ⟨f, hf, hk⟩, hblk⟩ hu
  split
  · dsimp only
    generalize (if count + _ > _ then _ else count) = left
    split
    · exact hret
    · exact fileRead_spec h
  · exact hret

/-- `sys_write` keeps the file, unless it is one that nothing checks. -/
lemma sysWrite_spec (hs : Sound sv) {fd : Nat} {buf : Bytes} {count : Int} (h : Guards x c n s)
    (hu : ¬ Unchecked x s (.write fd buf count)) :
    Prog.wp (sysWrite sv breads fd buf count) (fun _ => Guards x c n) s := by
  have hret : ∀ {v : Int}, Prog.wp (pure v) (fun _ => Guards x c n) s := fun {v} => by
    rw [Prog.wp_pure]
    exact h
  rw [sysWrite, sysWriteWith, Prog.wp_bind, Prog.wp_get]
  split
  · exact hret
  rename_i f hf
  split
  · exact hret
  split
  · exact hret
  rename_i hneg hzero
  have hpos : 0 < count := by omega
  rw [Prog.wp_bind, wp_fileAt]
  split
  · exact Prog.wp_fault
  · split
    · exact service_spec h
    · exact hret
  rename_i k hk
  have hkx : k ≠ x := by
    rintro rfl
    exact hu ⟨hpos, .inl ⟨f, hf, hk⟩⟩
  rw [Prog.wp_bind, wp_inodeAt]
  split
  · rw [Prog.wp_bind]
    refine (service_spec h).mono ?_
    rintro ⟨v, -⟩ s₁ h₁
    rw [Prog.wp_pure]
    exact h₁
  split
  · rename_i hblk
    exact absurd ⟨hpos, .inr ⟨k, ⟨f, hf, hk⟩, hblk⟩⟩ hu
  split
  · rename_i hreg
    exact fileWrite_spec hs h hkx hreg
  · exact hret

/-! ## Runs -/

/-- The calls of the process. -/
def calls (sv : Services ρ) : System (State ρ) Call where
  init := Consistent
  step s call s' := ∃ v, systemCall sv call s = .ret (v, s')

/-- A regular file that the process, which is not the super-user, may not write to; its `i_count` is an
unsigned short. -/
structure ReadOnly (s : State ρ) (x : Ino) : Prop where
  uid : s.task.uid ≠ 0
  euid : s.task.euid ≠ 0
  reg : isReg (s.fs.inode x).iMode = true
  allocated : s.inodeMap x = true
  denied : permission s.task (s.fs.inode x) mayWrite = 0
  count : (s.fs.inode x).iCount < 65536

/-- The file has the contents and the size that it has in `s`. -/
def SameFile (s : State ρ) (x : Ino) (s' : State ρ) : Prop :=
  (∀ off, s'.fs.contents x off = s.fs.contents x off) ∧ (s'.fs.inode x).iSize = (s.fs.inode x).iSize

/-- A step that the check covers keeps the invariant. -/
lemma step_guards (hs : Sound sv) {call : Call} (h : Guards x c n s) (hu : ¬ Unchecked x s call)
    (st : (calls sv).step s call s') : Guards x c n s' := by
  obtain ⟨v, hv⟩ := st
  have hwp : Prog.wp (systemCall sv call) (fun _ => Guards x c n) s := by
    cases call with
    | «open» filename flag mode => exact doOpen_spec hs h
    | creat pathname mode => exact doOpen_spec hs h
    | dup fildes => exact dupfd_spec h
    | dup2 oldfd newfd =>
      show Prog.wp (_ >>= _) _ s
      rw [Prog.wp_bind]
      refine (doClose_spec hs h hu).mono ?_
      intro _ s₁ h₁
      exact dupfd_spec h₁
    | fcntl fd cmd arg => exact sysFcntl_spec h
    | lseek fd offset origin => exact sysLseek_spec h
    | read fd buf count =>
      show Prog.wp (_ >>= _) _ s
      rw [Prog.wp_bind]
      refine (sysRead_spec h hu).mono ?_
      rintro ⟨v, buf'⟩ s₁ h₁
      rw [Prog.wp_pure]
      exact h₁
    | write fd buf count => exact sysWrite_spec hs h hu
  exact hwp v s' hv

/-- What is guarded is the same file with the same contents. -/
lemma Guards.sameFile (h : Guards x (s.fs.files.contents x) (s.fs.inode x).iSize s')
    (hreg : isReg (s.fs.inode x).iMode = true) : SameFile s x s' := by
  refine ⟨fun off => ?_, h.size⟩
  have e := congrFun h.contents off
  rwa [FileSys.files_contents (isFile_of_isReg hreg), FileSys.files_contents (isFile_of_isReg h.reg)] at e

/-- In a run that does not write through a descriptor of the file and works on no block device, a file that
the process may not write to keeps its contents and its size. -/
theorem write_permission {tr : List (Call × State ρ)} (hs : Sound sv) (hc : Consistent s)
    (hx : ReadOnly s x) (ex : (calls sv).Exec s tr) (hu : Along (fun s call _ => ¬ Unchecked x s call) s tr) :
    Always (SameFile s x) s tr := by
  have h : Guards x (s.fs.files.contents x) (s.fs.inode x).iSize s :=
    ⟨hc, hx.reg, hx.allocated, hx.denied, rfl, rfl, hx.count⟩
  obtain ⟨ha, -⟩ := ex.along_of_inv (Q := fun _ _ _ => True)
    (fun _ _ _ h st hn => ⟨step_guards hs h hn st, trivial⟩) h hu
  exact ha.mono fun _ h => h.sameFile hx.reg

/-! ## A file of the super-user -/

/-- A kernel without free zones and inodes. -/
def fullDisk : Services Unit where
  newBlock d _ := (0, d)
  freeBlock _ _ := pure ()
  newInode _ := pure none
  freeInode _ _ := pure ()
  stale _ := .zero
  setPgrp _ _ r := r
  rwChar _ _ buf _ := pure (0, buf)
  readPipe _ buf _ := pure (0, buf)
  writePipe _ _ _ := pure 0
  iputPipe _ := pure ()
  blockRead _ pos buf _ := pure (0, buf, pos)
  blockWrite _ pos _ _ := pure (0, pos)

/-- The services of a full disk are sound. -/
lemma fullDisk_sound : Sound fullDisk where
  newBlock := ⟨fun _ _ => Nat.zero_lt_succ _, fun _ _ _ => ⟨rfl, fun _ => id⟩, fun _ _ h => absurd rfl h⟩
  freeBlock _ _ _ _ := Prog.wp_pure.2 fun _ _ => ⟨rfl, rfl⟩
  newInode _ _ _ := Prog.wp_pure.2 rfl
  freeInode _ _ _ _ := Prog.wp_pure.2 fun _ _ => rfl

/-- The root directory, with the entries `.`, `..` and `f`. -/
def rootData : Bytes := fun a =>
  if a = 0 ∨ a = 16 then 1
  else if a = 2 ∨ a = 18 ∨ a = 19 then 46
  else if a = 32 then 2
  else if a = 34 then 102
  else 0

def rootInode : MInode :=
  { MInode.zero with
    iMode := 0o040755, iSize := 48, iNlinks := 2, iZone := update (fun _ => 0) 0 5
    iDev := 0x301, iNum := 1, iCount := 2 }

/-- A file of one byte that everyone may read and nobody may write to. -/
def fileInode : MInode :=
  { MInode.zero with
    iMode := 0o100444, iSize := 1, iNlinks := 1, iZone := update (fun _ => 0) 0 6
    iDev := 0x301, iNum := 2 }

def sampleDisk : FileSys Ino where
  disk.blocks a := if a = (0x301, 5) then rootData else fun _ => 0
  disk.used a := a = (0x301, 5) ∨ a = (0x301, 6)
  inode k := if k = (0x301, 1) then rootInode else if k = (0x301, 2) then fileInode else .zero

/-- A process of the user 7 in the root directory. -/
def sample : State Unit where
  fs := sampleDisk
  inodeMap k := k = (0x301, 1) ∨ k = (0x301, 2)
  task :=
    { state := .running, signal := 0, exitCode := 0, pid := 3, father := 1, pgrp := 3, leader := false
      uid := 7, euid := 7, gid := 7, egid := 7, tty := 0, umask := 0o022, pwd := none, root := none
      closeOnExec := 0, filp := fun _ => none }
  pwd := some (0x301, 1)
  root := some (0x301, 1)
  fileTable _ := ⟨0, 0, 0, none, 0⟩
  now := 0
  rest := ()

/-- The inodes of the sample. -/
lemma sample_cases (k : Ino) : k = (0x301, 1) ∧ sampleDisk.inode k = rootInode ∨
    k = (0x301, 2) ∧ sampleDisk.inode k = fileInode ∨
    sample.inodeMap k = false ∧ sampleDisk.inode k = .zero := by
  obtain rfl | h₁ := eq_or_ne k (0x301, 1)
  · exact .inl ⟨rfl, rfl⟩
  obtain rfl | h₂ := eq_or_ne k (0x301, 2)
  · exact .inr (.inl ⟨rfl, rfl⟩)
  · refine .inr (.inr ⟨?_, ?_⟩)
    · simp [sample, h₁, h₂]
    · simp [sampleDisk, h₁, h₂]

/-- The directory has the zone 5, and the file the zone 6. -/
lemma sample_zone {s : Slot} (hs : s.Valid) (h : sampleDisk.files.zone k s ≠ 0) : s = .top 0 ∧
    (k = (0x301, 1) ∧ sampleDisk.files.addr k s = (0x301, 5) ∨
      k = (0x301, 2) ∧ sampleDisk.files.addr k s = (0x301, 6)) := by
  have htop : ∀ z i, i ≠ 0 → (update (fun _ => (0 : BitVec 16)) 0 z i).toNat = 0 := by
    intro z i hi
    rw [update_of_ne hi]
    rfl
  induction s with
  | top i =>
    obtain rfl | hi := eq_or_ne i 0
    · refine ⟨rfl, ?_⟩
      obtain ⟨rfl, -⟩ | ⟨rfl, -⟩ | ⟨-, e⟩ := sample_cases k
      · exact .inl ⟨rfl, rfl⟩
      · exact .inr ⟨rfl, rfl⟩
      · refine absurd ?_ h
        show ((sampleDisk.inode k).masked.iZone 0).toNat = 0
        rw [e]
        rfl
    · refine absurd ?_ h
      show ((sampleDisk.inode k).masked.iZone i).toNat = 0
      obtain ⟨-, e⟩ | ⟨-, e⟩ | ⟨-, e⟩ := sample_cases k
      · rw [e]
        exact htop 5 i hi
      · rw [e]
        exact htop 6 i hi
      · rw [e]
        rfl
  | sub p e ih =>
    -- there are no index blocks
    have hp : sampleDisk.files.zone k p ≠ 0 := fun hz => h (FileSys.zone_sub_of_zero hz)
    obtain ⟨rfl, -⟩ := ih hs.1.valid hp
    obtain hc | hc := hs.1
    · cases hc
    · cases hc

/-- The sample state is consistent. -/
lemma sample_consistent : Consistent sample where
  wf := by
    refine ⟨fun {k s} hs hz => ?_, fun {k s k' s'} hs hs' hz ha => ?_⟩
    · obtain ⟨-, ⟨-, e⟩ | ⟨-, e⟩⟩ := sample_zone hs hz
      · rw [show sample.fs.files.addr k s = _ from e]
        rfl
      · rw [show sample.fs.files.addr k s = _ from e]
        rfl
    · have hz' : sampleDisk.files.zone k' s' ≠ 0 := by
        have e : sampleDisk.files.zone k s = sampleDisk.files.zone k' s' := congrArg Prod.snd ha
        rwa [← e]
      have ha : sampleDisk.files.addr k s = sampleDisk.files.addr k' s' := ha
      obtain ⟨rfl, h⟩ := sample_zone hs hz
      obtain ⟨rfl, h'⟩ := sample_zone hs' hz'
      refine ⟨?_, rfl⟩
      obtain ⟨rfl, e⟩ | ⟨rfl, e⟩ := h <;> obtain ⟨rfl, e'⟩ | ⟨rfl, e'⟩ := h'
      · rfl
      · rw [e, e'] at ha
        cases ha
      · rw [e, e'] at ha
        cases ha
      · rfl
  key k hk := by
    obtain ⟨rfl, -⟩ | ⟨rfl, -⟩ | ⟨-, e⟩ := sample_cases k
    · rfl
    · rfl
    · exact absurd (congrArg MInode.iDev e) hk
  unallocated k hk := by
    obtain ⟨rfl, -⟩ | ⟨rfl, -⟩ | ⟨-, e⟩ := sample_cases k
    · cases hk
    · cases hk
    · rw [show sample.fs.inode k = _ from e]
      rfl
  aligned k hk := by
    obtain ⟨rfl, -⟩ | ⟨rfl, -⟩ | ⟨-, e⟩ := sample_cases k
    · exact ⟨3, rfl⟩
    · cases hk
    · rw [show sample.fs.inode k = _ from e] at hk
      cases hk
  dev k hk := by
    obtain ⟨rfl, -⟩ | ⟨rfl, -⟩ | ⟨-, e⟩ := sample_cases k
    · exact nofun
    · cases hk
    · rw [show sample.fs.inode k = _ from e] at hk
      cases hk
  names k hk nr h0 hn := by
    obtain ⟨rfl, -⟩ | ⟨rfl, -⟩ | ⟨-, e⟩ := sample_cases k
    · obtain ⟨i, hi, hnr⟩ := hn
      have hi : (i + 1) * 16 ≤ 48 := hi
      obtain rfl | rfl | rfl : i = 0 ∨ i = 1 ∨ i = 2 := by omega
      · subst hnr
        exact ⟨by decide, by decide, by decide⟩
      · subst hnr
        exact ⟨by decide, by decide, by decide⟩
      · subst hnr
        exact ⟨by decide, by decide, by decide⟩
    · cases hk
    · rw [show sample.fs.inode k = _ from e] at hk
      cases hk

/-- The second inode is open for reading only. -/
lemma sample_readOnly : ReadOnly sample (0x301, 2) :=
  ⟨by decide, by decide, by decide, by decide, by decide, by decide⟩

/-- `open("f", O_RDONLY)`. -/
def openF : Call := .open ['f'] 0 0

/-- The states after the calls of a process, one after another. -/
def runCalls (sv : Services ρ) : State ρ → List Call → List (Call × State ρ)
  | _, [] => []
  | s, call :: cs =>
    let s' := Prog.after (systemCall sv call) s
    (call, s') :: runCalls sv s' cs

/-- All calls return. -/
def runs (sv : Services ρ) : State ρ → List Call → Bool
  | _, [] => true
  | s, call :: cs =>
    Prog.halts (systemCall sv call) s && runs sv (Prog.after (systemCall sv call) s) cs

/-- Calls that return are a run. -/
lemma exec_runCalls {cs : List Call} (h : runs sv s cs = true) :
    (calls sv).Exec s (runCalls sv s cs) := by
  induction cs generalizing s with
  | nil => exact .nil
  | cons call cs ih =>
    obtain ⟨hh, hr⟩ := Bool.and_eq_true_iff.1 h
    exact .cons (Prog.ret_after hh) (ih hr)

/-- `openF` opens a file that is no block special file. -/
lemma openF_not_raw : ¬ Raw (Prog.after (systemCall fullDisk openF) sample) 0 := by
  rintro ⟨k, ⟨f, hf, hk⟩, hb⟩
  have ef : filp (Prog.after (systemCall fullDisk openF) sample).task 0 = some 0 := by decide
  cases Option.some.inj (ef.symm.trans hf)
  have ek : ((Prog.after (systemCall fullDisk openF) sample).fileTable 0).fInode =
      some (.file (0x301, 2)) := by decide
  cases ek.symm.trans hk
  exact absurd hb (by decide)

/-- The process opens the file for reading, reads it and makes its descriptor append. -/
theorem write_permission_read :
    Always (SameFile sample (0x301, 2)) sample
      (runCalls fullDisk sample [openF, .read 0 (fun _ => 0) 1, .fcntl 0 4 0o2000]) :=
  write_permission fullDisk_sound sample_consistent sample_readOnly
    (exec_runCalls (by decide)) ⟨id, fun h => openF_not_raw h.2, id, trivial⟩

/-- The process opens the file for reading, and writes an `X` to it. -/
theorem write_through_reader : ∃ s tr, Consistent s ∧ ReadOnly s (0x301, 2) ∧
    (calls fullDisk).Exec s tr ∧ s.fs.contents (0x301, 2) 0 = 0 ∧
    (last s tr).fs.contents (0x301, 2) 0 = 88 ∧ ¬ Always (SameFile s (0x301, 2)) s tr := by
  have hrun : runs fullDisk sample [openF, .write 0 (fun _ => 88) 1] = true := by decide
  have h0 : sample.fs.contents (0x301, 2) 0 = 0 := by decide
  have h1 : (last sample (runCalls fullDisk sample [openF, .write 0 (fun _ => 88) 1])).fs.contents
      (0x301, 2) 0 = 88 := by decide
  refine ⟨sample, _, sample_consistent, sample_readOnly, exec_runCalls hrun, h0, h1, fun h => ?_⟩
  have e := h.at_last.1 0
  rw [h1, h0] at e
  cases e

end OldLinux.Access
