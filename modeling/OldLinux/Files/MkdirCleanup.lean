import OldLinux.Files.Mkdir

/-!
# A failing `sys_mkdir`

At an exit before `new_inode` only the reference to the directory has to be given back. Behind it every exit
gives back a bit that has just been set, and so ends in a panic: `sys_mkdir` fails cleanly if and only if it does
not come to such an exit (`mkdir_fails_cleanly_iff`).
-/

namespace OldLinux.Files
open Lib Fs Function Bitmap

variable {μ : Type} {reads : Nat × Nat → Bool} {sv : Services μ} {c : Fin 64} {s t : Tables (RootDisk μ)}
  {task : Task} {root pwd i e : Fin 32} {path : List Char} {names : List (List Char)} {nr dir n m : Nat} {d : DInode}
  {R : Fin 32 → Nat} {k k' : RootDisk μ} {md mi : MInode} {mode : BitVec 16} {name : List Char}

/-- If this is an exit, an error is returned from there, with everything as it was in `s`. -/
def LeavesCleanly (reads : Nat × Nat → Bool) (sv : Services μ) (s : Tables (RootDisk μ)) (stop : Stop)
    (s₁ : Tables (RootDisk μ)) : Prop :=
  stop.Failed → Prog.returns (mkdirLeave reads sv stop) (fun r s' => r < 0 ∧ Undone s s') s₁

/-- It is the exit that matters. -/
lemma failsCleanly_iff {a0 : BitVec 64} {pathname : Path.CString} : FailsCleanly reads sv c a0 pathname s ↔
    Prog.returns (mkdirTo reads sv c a0 pathname) (LeavesCleanly reads sv s) s := by
  constructor
  · rintro (⟨stop, s₁, hrun, hmade⟩ | ⟨r, s', hrun, hr⟩)
    · exact ⟨stop, s₁, hrun, fun hfailed => absurd hfailed hmade⟩
    · obtain ⟨stop, s₁, hto, hleave⟩ := Prog.bind_ret_iff.1 hrun
      exact ⟨stop, s₁, hto, fun _ => ⟨r, s', hleave, hr⟩⟩
  · rintro ⟨stop, s₁, hrun, hleave⟩
    by_cases hfailed : stop.Failed
    · exact .inr (Prog.returns_bind ⟨stop, s₁, hrun, hleave hfailed⟩)
    · exact .inl ⟨stop, s₁, hrun, hfailed⟩

/-! ## The exits after `new_inode` -/

/-- The directory is written, or its count set: the new inode and the bitmaps are as they were. -/
def PutAway (c : Fin 64) (task : Task) (i e : Fin 32) (k : RootDisk μ) (mi : MInode) (s : Tables (RootDisk μ)) :
    Prop :=
  ∃ k' md, k'.super = k.super ∧ Making c task i e k' md mi s

/-- The directory is changed after the new inode has been put away. -/
lemma Making.setDir (h : Making c task i e k' md mi s) (hk : k'.super = k.super) {f : MInode → MInode} :
    Prog.wp (setInode i f) (fun _ => PutAway c task i e k mi) s := by
  rw [setInode, Prog.wp_modify]
  exact ⟨k', f md, hk, h.task, h.kernel, (update_self ..).trans (congrArg f h.dir),
    (update_of_ne h.ne ..).trans h.new, h.ne⟩

/-- The directory is written after the new inode has been put away. -/
lemma Making.writeDir (h : Making c task i e k md mi s) :
    Prog.wp (writeIfDirty (RootDisk.services reads sv) i) (fun _ => PutAway c task i e k mi) s := by
  rw [writeIfDirty, Prog.wp_bind, wp_inodeAt]
  split
  · rw [writeInode, Prog.wp_bind, wp_inodeAt, Prog.wp_bind, Files.service, Prog.wp_zoom, h.kernel]
    show Prog.wp (RootDisk.writeInode _ _ _) _ k
    rw [RootDisk.writeInode, Prog.wp_bind, Prog.wp_get]
    split
    · exact Prog.wp_fault
    · exact Prog.wp_panic
    · rw [Prog.wp_modify]
      let k₁ : RootDisk μ := { k with
        dinode := update k.dinode (s.inodeTable i).iNum (some (s.inodeTable i).toDInode) }
      have h₁ : Making c task i e k₁ md mi { s with kernel := k₁ } := ⟨h.task, rfl, h.dir, h.new, h.ne⟩
      exact h₁.setDir rfl
  · rw [Prog.wp_pure]
    exact ⟨k, md, rfl, h⟩

/-- `iput` of the directory, which has links. -/
lemma Making.putDir (h : Making c task i e k md mi s) (hp : md.iPipe = false)
    (hl : md.iNlinks ≠ 0) :
    Prog.wp (iput (RootDisk.services reads sv) (some i)) (fun _ => PutAway c task i e k mi) s := by
  rw [iput, Prog.wp_bind, wp_inodeAt, h.dir]
  split
  · exact Prog.wp_panic
  rw [if_neg (by rw [hp]; exact Bool.false_ne_true)]
  split
  · exact h.setDir rfl
  · rw [Prog.wp_bind]
    refine h.writeDir.mono ?_
    rintro - s₁ ⟨k₁, md₁, hk, h₁⟩
    exact h₁.setDir hk

/-- The new inode cannot be given back. -/
lemma Making.putNew_stops (h : Making c task i e k md mi s) (hn : IsNew nr n { mi with iNlinks := 1 })
    (h0 : mi.iNlinks = 0) (hdev : nr ≠ 0) (hb : MapBit k.super.sImap n) (h64 : n % 8192 < 64) {error : Int} :
    Prog.wp (putBack reads sv e error) (fun _ _ => False) s := by
  have hcount : mi.iCount = 1 := hn.count
  have hmode : mi.iMode = 0 := hn.mode
  have hpipe : mi.iPipe = false := hn.pipe
  have hd : mi.iDev = nr := hn.dev
  have hnum : mi.iNum = n := hn.num
  have htruncate : truncate (RootDisk.services reads sv) e s = .ret ((), s) := by
    rw [truncate, Prog.bind_of_ret h.atNew, hmode]
    rfl
  have hone : ¬ (mi.iDev = 0 ∨ mi.iCount > 1) := by omega
  rw [putBack, Prog.wp_bind, iput, Prog.wp_bind, wp_inodeAt, h.new, if_neg (by omega),
    if_neg (by rw [hpipe]; exact Bool.false_ne_true), if_neg hone, if_pos h0, Prog.wp_bind]
  intro _ s₁ e₁
  rw [htruncate] at e₁
  cases e₁
  rw [freeInode, Prog.wp_bind, wp_inodeAt, h.new, if_neg (hd ▸ hdev), if_neg (by omega), if_neg (not_not.2 h0),
    Prog.wp_bind, Files.service, Prog.wp_zoom, h.kernel, hd, hnum]
  exact (RootDisk.freeInodeBit_stops hdev hb h64).mono fun _ _ hf => hf.elim

/-- The new zone cannot be given back. -/
lemma Making.freeZone_stops (h : Making c task i e k md mi s)
    (hz : ((mi.iZone 0).toNat : Int) = bitZone k.super m) (hb : MapBit k.super.sZmap m) (h64 : m % 8192 < 64) :
    Prog.wp (freeZone e) (fun _ _ => False) s := by
  rw [freeZone, Prog.wp_bind, wp_inodeAt, Files.service, Prog.wp_zoom, h.new, h.kernel]
  exact (RootDisk.freeBlock_stops hz hb h64).mono fun _ _ hf => hf.elim

/-- The exit without a zone. -/
lemma Making.leave_noZone (h : Making c task i e k md mi s) (hn : IsNew nr n mi) (hdev : nr ≠ 0)
    (hb : MapBit k.super.sImap n) (h64 : n % 8192 < 64) (hp : md.iPipe = false) (hl : md.iNlinks ≠ 0) :
    Prog.wp (mkdirLeave reads sv (.noZone i e)) (fun _ _ => False) s := by
  rw [mkdirLeave, Prog.wp_bind]
  refine (h.putDir hp hl).mono ?_
  rintro - s₁ ⟨k₁, md₁, hk, h₁⟩
  obtain ⟨s₂, e₂, h₂⟩ := h₁.setNew fun inode => { inode with iNlinks := inode.iNlinks - 1 }
  have h0 : mi.iNlinks - 1 = 0 := by rw [hn.links]
  rw [Prog.wp_bind]
  intro _ s' hrun
  rw [e₂] at hrun
  cases hrun
  rw [← hk] at hb
  exact h₂.putNew_stops ⟨hn.dev, hn.num, hn.count, rfl, hn.mode, hn.pipe⟩ h0 hdev hb h64

/-- The exits with a zone. -/
lemma Making.leave_zone (h : Making c task i e k md mi s) (hz : ((mi.iZone 0).toNat : Int) = bitZone k.super m)
    (hb : MapBit k.super.sZmap m) (h64 : m % 8192 < 64) (hp : md.iPipe = false) (hl : md.iNlinks ≠ 0)
    {f : Unit → Prog (Tables (RootDisk μ)) Int} :
    Prog.wp (iput (RootDisk.services reads sv) (some i) >>= fun _ => freeZone e >>= f) (fun _ _ => False) s := by
  rw [Prog.wp_bind]
  refine (h.putDir hp hl).mono ?_
  rintro - s₁ ⟨k₁, md₁, hk, h₁⟩
  rw [← hk] at hz hb
  rw [Prog.wp_bind]
  exact (h₁.freeZone_stops hz hb h64).mono fun _ _ hf => hf.elim

/-- `add_entry` with the directory in its slot. -/
lemma Making.addEntry (h : Making c task i e k md mi s) :
    Prog.wp (Files.addEntry (RootDisk.services reads sv) i name n) (fun _ s' => ∃ k' md', RootDisk.Keeps k k' ∧
      md'.iPipe = md.iPipe ∧ md'.iNlinks = md.iNlinks ∧ Making c task i e k' md' mi s') s := by
  rw [Files.addEntry, Prog.wp_bind, wp_inodeAt, Prog.wp_bind, Files.service, Prog.wp_zoom, h.kernel, h.dir]
  refine RootDisk.addEntry_keeps.mono ?_
  rintro ⟨found, upd⟩ k₁ ⟨hk, hl⟩
  rw [Prog.wp_bind, setInode, Prog.wp_modify, Prog.wp_pure]
  refine ⟨k₁, _, hk, ?_, ?_, h.task, rfl, update_self .., (update_of_ne h.ne ..).trans h.new, h.ne⟩
  · show (s.inodeTable i).iPipe = md.iPipe
    rw [h.dir]
  · exact hl

/-- It finds a place when the function on the disk does. -/
lemma Making.addEntry_returns (h : Making c task i e k md mi s) :
    Prog.returns (Files.addEntry (RootDisk.services reads sv) i name n) (fun found _ => found = true) s ↔
      Prog.returns (RootDisk.addEntry reads md.iDev ⟨md.toDInode, md.iCtime, md.iDirt⟩ name n)
        (fun r _ => r.1 = true) k := by
  rw [Files.addEntry, Prog.returns, Prog.bind_of_ret h.atDir]
  constructor
  · rintro ⟨found, s', hrun, hf⟩
    obtain ⟨⟨found', upd⟩, s₁, hserv, hrun⟩ := Prog.bind_ret_iff.1 hrun
    have hserv : Files.service (RootDisk.addEntry reads md.iDev ⟨md.toDInode, md.iCtime, md.iDirt⟩ name n) s =
      .ret ((found', upd), s₁) := hserv
    rw [Files.service, Prog.zoom, h.kernel] at hserv
    cases hrun
    cases hadd : RootDisk.addEntry reads md.iDev ⟨md.toDInode, md.iCtime, md.iDirt⟩ name n k with
    | ret r =>
      obtain ⟨r, k₁⟩ := r
      rw [hadd] at hserv
      obtain ⟨rfl, -⟩ := Prod.mk.inj (Result.ret.inj hserv)
      exact ⟨_, k₁, hadd, hf⟩
    | panic =>
      rw [hadd] at hserv
      cases hserv
    | fault =>
      rw [hadd] at hserv
      cases hserv
  · rintro ⟨⟨found, upd⟩, k₁, hadd, hf⟩
    obtain ⟨s₁, hserv, -⟩ := h.service hadd
    have hserv : Files.service
        ((RootDisk.services reads sv).addEntry md.iDev ⟨md.toDInode, md.iCtime, md.iDirt⟩ name n) s =
      .ret ((found, upd), s₁) := hserv
    rw [Prog.bind_of_ret hserv]
    exact ⟨_, _, rfl, hf⟩

/-! ## The directory on the new disk -/

/-- A directory with links. -/
structure Tables.LiveDir (t : Tables (RootDisk μ)) (dir : Nat) (d : DInode) : Prop where
  node : t.node dir = some d
  isDir : isDir d.iMode = true
  links : d.iNlinks ≠ 0

/-- The new zone is none of the zones of the directory. -/
lemma Tables.Marks.apart (hm : t.Marks) (hd : t.LiveDir dir d) (hz : FirstClear t.kernel.super.sZmap m) :
    RootDisk.Apart t.kernel (t.kernel.withDir m n dir) (t.inodeOf d)
      (t.rootDev, (bitZone t.kernel.super m).toNat) := by
  refine ⟨fun b hb => ?_, fun p hv hne heq => ?_⟩
  · exact (update_of_ne hb ..).trans (update_of_ne hb ..)
  · have hzone : (t.kernel.fileSys (t.inodeOf d)).zone () p = (bitZone t.kernel.super m).toNat :=
      congrArg Prod.snd heq
    have hint : ((t.kernel.fileSys (t.inodeOf d)).zone () p : Int) = bitZone t.kernel.super m := by
      rw [hzone] at hne ⊢
      omega
    have hbit := hm.zones dir d p hd.node hd.isDir hd.links hv hne
    rw [hint, zoneBit_bitZone] at hbit
    exact hz.2.2.1 hbit

/-- What `add_entry` is given of the directory. -/
def IsDir.inode (md : MInode) : MInode := RootDisk.dirInode md.iDev ⟨md.toDInode, md.iCtime, md.iDirt⟩

/-- The directory is like that of the name space. -/
lemma IsDir.like (h : IsDir t dir d md) : RootDisk.LikeInode (t.inodeOf d) (IsDir.inode md) := by
  refine ⟨?_, h.dev⟩
  rw [← h.attrs]
  rfl

/-- The directory has the size of that of the name space. -/
lemma IsDir.size (h : IsDir t dir d md) : (IsDir.inode md).iSize = (t.inodeOf d).iSize := by
  rw [← h.attrs]
  rfl

variable {D : Nat → Option DInode} {now up : Nat}

/-- `add_entry` does not see that an inode is taken. -/
lemma IsDir.room_iff (h : IsDir t dir d md) :
    RootDisk.HasRoom reads ((t.kernel.withInode D n).withDir m n up) (IsDir.inode md) ↔
      RootDisk.HasRoom reads (t.kernel.withDir m n up) (t.inodeOf d) := by
  have hl := h.like
  constructor
  · exact fun hr => hr.like ⟨rfl, rfl⟩ ⟨hl.zone.symm, hl.dev.symm⟩ h.size.symm
  · exact fun hr => hr.like ⟨rfl, rfl⟩ hl h.size

/-- `add_entry` of the new directory finds a place when there is room. -/
lemma IsDir.addEntry_iff {chars : List Char} {nm : Name} (h : IsDir t dir d md) (hs : t.Sound reads)
    (hm : t.Marks) (hd : t.LiveDir dir d) (hn : nameOf chars = some nm)
    (hz : FirstClear t.kernel.super.sZmap m) :
    Prog.returns (RootDisk.addEntry reads md.iDev ⟨md.toDInode, md.iCtime, md.iDirt⟩ chars n)
      (fun r _ => r.1 = true) ((t.kernel.withInode D n).withDir m n dir) ↔
        RootDisk.HasRoom reads (t.kernel.withDir m n dir) (t.inodeOf d) := by
  have hb := (hm.apart (n := n) hd hz).hasBlocks (hs.blocks dir d hd.node hd.isDir hd.links)
  have hb₁ := hasBlocks_same h.like.zone.symm h.like.dev.symm h.size.symm hb
  have hb₂ : (((t.kernel.withInode D n).withDir m n dir).fileSys (IsDir.inode md)).HasBlocks reads () := hb₁
  rw [RootDisk.addEntry_iff hn hb₂]
  exact h.room_iff

/-! ## With an inode taken -/

/-- The zone that was taken cannot be given back. -/
lemma Making.leave_taken (h : Making c task i e k' md mi s) (hz : ZoneFree k m)
    (hf : 0 < k.super.sFirstdatazone.toNat) (hzone : mi.iZone 0 = BitVec.ofInt 16 (bitZone k.super m))
    (hk : RootDisk.Keeps (k.withZone m) k') (hp : md.iPipe = false) (hl : md.iNlinks ≠ 0)
    {p : Unit → Prog (Tables (RootDisk μ)) Int} :
    Prog.wp (iput (RootDisk.services reads sv) (some i) >>= fun _ => freeZone e >>= p) (fun _ _ => False) s := by
  obtain ⟨hnat, hpos⟩ := hz.toNat hf
  have hfirst : bitZone k'.super m = bitZone k.super m := by
    rw [bitZone, hk.first]
    rfl
  have hback : ((mi.iZone 0).toNat : Int) = bitZone k'.super m := by
    rw [hzone, hnat, hfirst]
    omega
  have hmarked := hk.bits m ((mapBit_setMap hz.clear.2.1 hz.word).2 (.inl rfl))
  exact h.leave_zone hback hmarked hz.word hp hl

/-- Behind `new_inode`, `sys_mkdir` fails cleanly exactly when it does not fail. -/
lemma mkdirFill_iff {nm : Name} (hs : t.Sound reads) (hm : t.Marks) (hd : t.LiveDir dir d) (hmd : IsDir t dir d md)
    (hname : nameOf name = some nm) (hf : FirstClear t.kernel.super.sImap n)
    (hle : n ≤ t.kernel.super.sNinodes.toNat) (h64 : n % 8192 < 64)
    (h : Making c task i e (t.kernel.withInode D n) md (newInodeOf t.rootDev n now) s) :
    Prog.returns (mkdirFill reads sv c mode i e name) (LeavesCleanly reads sv t) s ↔ CanMake reads t dir d := by
  have hlinks : md.iNlinks ≠ 0 := by
    have hl := hd.links
    rw [← hmd.attrs] at hl
    exact hl
  have hno : (∀ m, ¬ ZoneFree (t.kernel.withInode D n) m) → ¬ CanMake reads t dir d := by
    rintro hno ⟨n', m, -, -, -, hz, -⟩
    exact hno m ⟨hz.clear, hz.word, hz.lt, hz.ne⟩
  have hzoned := @mkdirFill_zoned _ reads sv c s task i e n _ md _ mode name h isNew_newInodeOf hm.first
  rw [Prog.returns]
  generalize mkdirFill reads sv c mode i e name s = r at hzoned
  cases hzoned with
  | panic hz =>
    refine iff_of_false ?_ (hno hz)
    rintro ⟨stop, s', hrun, -⟩
    cases hrun
  | noZone hz h₁ hk hn =>
    refine iff_of_false ?_ (hno hz)
    rintro ⟨stop, s', hrun, hleave⟩
    cases hrun
    have hb := (mapBit_setMap hf.2.1 h64).2 (.inl rfl)
    have hb₁ : MapBit (t.kernel.withInode D n).super.sImap n := hb
    rw [← hk] at hb₁
    exact (h₁.leave_noZone hn hs.coherent.dev hb₁ h64 hmd.pipe hlinks).not_returns (hleave trivial)
  | @filled mi m s₁ hz h₁ hzone =>
    rw [hmd.num] at h₁
    have hadd := (@Making.addEntry_returns _ reads sv c s₁ task i e n _ md mi name h₁).trans
      (hmd.addEntry_iff hs hm hd hname hz.clear)
    constructor
    · rintro ⟨stop, s', hrun, hleave⟩
      obtain ⟨found, s₂, hfound, hrun⟩ := Prog.bind_ret_iff.1 hrun
      cases found with
      | true => exact ⟨n, m, hf, hle, h64, ⟨hz.clear, hz.word, hz.lt, hz.ne⟩, hadd.1 ⟨_, _, hfound, rfl⟩⟩
      | false =>
        cases hrun
        obtain ⟨k₂, md₂, hk, hp, hl, h₂⟩ := h₁.addEntry _ _ hfound
        refine absurd (hleave trivial) (h₂.leave_taken hz hm.first hzone ⟨hk.first, hk.bits⟩ ?_ ?_).not_returns
        · rw [hp]
          exact hmd.pipe
        · rw [hl]
          exact hlinks
    · rintro ⟨n', m', hf', -, -, hz', hroom⟩
      obtain rfl := hf.unique hf'
      obtain rfl := hz.unique hz'.clear
      obtain ⟨found, s₂, hfound, rfl⟩ := hadd.2 hroom
      rw [Prog.bind_of_ret hfound]
      exact ⟨.made i e, s₂, rfl, False.elim⟩

/-! ## With nothing taken -/

/-- Nothing but slots has changed. -/
lemma Walk.undone (h : Walk t R s) : Undone t s := by
  have hsuper : s.kernel.super = t.kernel.super := by rw [h.moved.kernel]
  refine ⟨fun n => ?_, fun n => ?_, h.moved.node, fun d => ?_, [], ?_, ?_⟩
  · rw [hsuper]
  · rw [hsuper]
  · have hd : s.inodeOf d = t.inodeOf d := by rw [Tables.inodeOf, h.moved.rootDev, Tables.inodeOf]
    rw [hd, h.moved.kernel]
    rfl
  · rw [h.moved.kernel]
    rfl
  · rw [h.moved.kernel]
    exact .refl _

/-- The exits with the directory alone. -/
lemma putBack_walk (h : Walk t (counts t + ref (some i)) s) (hi : s.Caches i dir) (hl : Linked t i dir)
    {error : Int} (he : 0 < error) :
    Prog.returns (putBack reads sv i error) (fun r s' => r < 0 ∧ Undone t s') s :=
  Prog.returns_bind ((iput_walk h (fun _ => le_rfl) hi (hl.links h.moved hi)).mono fun _ _ h₁ =>
    Prog.returns_pure ⟨Int.neg_neg_of_pos he, h₁.undone⟩)

/-- With a name that is not there. -/
lemma mkdirNew_iff {nm : Name} (hs : t.Sound reads) (hm : t.Marks) (hc : t.task c = some task)
    (h : Walk t (counts t + ref (some i)) s) (hi : s.Caches i dir) (hl : Linked t i dir) (hd : t.LiveDir dir d)
    (hname : nameOf name = some nm) :
    Prog.returns (newInode (RootDisk.services reads sv) t.rootDev >>= fun r => match r with
      | none => pure (.noInode i)
      | some e => mkdirFill reads sv c mode i e name) (LeavesCleanly reads sv t) s ↔
    (∃ e, (counts t + ref (some i)) e = 0) ∧
      ((∀ n, FirstClear t.kernel.super.sImap n → t.kernel.super.sNinodes.toNat < n) ∨ CanMake reads t dir d) := by
  have hused : (counts t + ref (some i)) i ≠ 0 := by
    rw [Pi.add_apply, ref_self]
    exact Nat.succ_ne_zero _
  by_cases hfree : ∃ e, (counts t + ref (some i)) e = 0
  swap
  · refine iff_of_false ?_ fun h => hfree h.1
    rintro ⟨stop, s', hrun, -⟩
    obtain ⟨r, s₁, hnew, -⟩ := Prog.bind_ret_iff.1 hrun
    exact newInode_full h hfree (Q := fun _ _ => True) ⟨r, s₁, hnew, trivial⟩
  rw [and_iff_right hfree, Prog.returns]
  by_cases hno : ∀ n, FirstClear t.kernel.super.sImap n → t.kernel.super.sNinodes.toNat < n
  · refine iff_of_true ?_ (.inl hno)
    obtain ⟨r, s₁, hnew, rfl, h₁, hi₁⟩ := @newInode_none _ reads sv s t i dir _ h
      (fun e => Nat.le_add_right _ _) hfree hi hused hno
    rw [Prog.bind_of_ret hnew]
    exact ⟨_, s₁, rfl, fun _ => putBack_walk h₁ hi₁ hl (by decide)⟩
  rw [or_iff_right hno]
  obtain ⟨n, hn⟩ := not_forall.1 hno
  obtain ⟨hf, hn⟩ := Classical.not_imp.1 hn
  have hle := Nat.le_of_not_lt hn
  -- the bit of the inode may be behind the first word
  by_cases h64 : 64 ≤ n % 8192
  · refine iff_of_false ?_ ?_
    · rintro ⟨stop, s', hrun, -⟩
      obtain ⟨r, s₁, hnew, -⟩ := Prog.bind_ret_iff.1 hrun
      exact newInode_panics h hfree hf hle h64 (Q := fun _ _ => True) ⟨r, s₁, hnew, trivial⟩
    · rintro ⟨n', m, hf', -, hword, -⟩
      rw [hf'.unique hf] at hword
      omega
  have hword := Nat.lt_of_not_le h64
  obtain ⟨r, s₁, hnew, e, D, now, md, rfl, hmd, h₁⟩ :=
    @newInode_some _ reads sv c s t task i dir n d _ h hfree hc hi hd.node hused hf hle hword
  rw [Prog.bind_of_ret hnew]
  exact mkdirFill_iff hs hm hd hmd hname hf hle hword h₁

/-- With the directory and a name. -/
lemma mkdirIn_iff {nm : Name} (hs : t.Sound reads) (hm : t.Marks) (hc : t.task c = some task)
    (h : Walk t (counts t + ref (some i)) s) (hi : s.Caches i dir) (hp : (t.tree task).pass dir = true)
    (hd : t.LiveDir dir d) (hname : nameOf name = some nm) :
    Prog.returns (mkdirIn reads sv c task mode i name) (LeavesCleanly reads sv t) s ↔
      SafeIn reads t task dir d name := by
  have hl : Linked t i dir := linked_of_pass hs hp
  have hnode : attrs (s.inodeTable i).toDInode = d := by
    have hn := hd.node
    rw [← h.moved.node, h.moved.coherent.node_cached hi] at hn
    exact Option.some.inj hn
  have hperm : permission task (s.inodeTable i) mayWrite = permission task (t.inodeOf d) mayWrite := by
    rw [Tables.permission_slot hi, hnode, Tables.inodeOf, h.moved.rootDev, Tables.inodeOf]
  have hentry : (t.tree task).entry dir name = t.lookup d name := by
    show (t.node dir).bind _ = _
    rw [hd.node, Option.bind_some]
  have hfind := @findEntry_walk _ s t task reads sv i dir name _ hs h hi hp
  rw [hentry] at hfind
  have hget : inodeAt i s = .ret (s.inodeTable i, s) := rfl
  rw [mkdirIn, Prog.returns, Prog.bind_of_ret hget, hperm, SafeIn]
  by_cases hw : permission task (t.inodeOf d) mayWrite = 0
  · refine iff_of_true ?_ (.inl hw)
    rw [if_pos hw]
    exact ⟨_, s, rfl, fun _ => putBack_walk h hi hl (by decide)⟩
  rw [if_neg hw, or_iff_right hw, Prog.bind_of_ret hfind]
  cases hlook : t.lookup d name with
  | some nr => exact iff_of_true ⟨_, s, rfl, fun _ => putBack_walk h hi hl (by decide)⟩ (.inl rfl)
  | none =>
    have hnew : ¬ (none : Option Nat).isSome = true := Bool.false_ne_true
    rw [or_iff_right hnew, ← hasSlot_iff h hi]
    have hdev : (s.inodeTable i).iDev = t.rootDev := hi.1.trans h.moved.rootDev
    dsimp only
    rw [hdev]
    exact mkdirNew_iff hs hm hc h hi hl hd hname

/-! ## The call -/

/-- The base name is of characters of the path. -/
lemma mem_basename {ch : Char} {l : List Char} (h : ch ∈ basename l) : ch ∈ l := by
  induction l with
  | nil => exact h
  | cons x l ih =>
    rw [Path.basename_cons] at h
    split at h
    · exact List.mem_cons_of_mem x (ih h)
    · exact h

/-- What is behind the last slash is a name. -/
lemma nameOf_basename (path : Path.CString) (h : basename path.chars ≠ []) :
    ∃ name, nameOf (basename path.chars) = some name := by
  have h0 : 0 ∉ (basename path.chars).map fun ch => BitVec.ofNat 8 ch.toNat := by
    intro hmem
    obtain ⟨ch, hch, heq⟩ := List.mem_map.1 hmem
    obtain ⟨hpos, hlt⟩ := path.char ch (mem_basename hch)
    have hnat := congrArg BitVec.toNat heq
    rw [BitVec.toNat_ofNat, Nat.mod_eq_of_lt hlt] at hnat
    exact hpos.ne' hnat
  exact ⟨_, dif_pos ⟨fun e => h (List.map_eq_nil_iff.1 e), h0⟩⟩

/-- With the directory; there may be no name. -/
lemma mkdirNamed_iff (hs : t.Sound reads) (hm : t.Marks) (hc : t.task c = some task)
    (h : Walk t (counts t + ref (some i)) s) (hi : s.Caches i dir) (hp : (t.tree task).pass dir = true)
    (hd : t.LiveDir dir d) (path : Path.CString) :
    Prog.returns (if (basename path.chars).length = 0 then pure (.noName i)
      else mkdirIn reads sv c task mode i (basename path.chars)) (LeavesCleanly reads sv t) s ↔
    basename path.chars = [] ∨ SafeIn reads t task dir d (basename path.chars) := by
  by_cases hb : basename path.chars = []
  · rw [if_pos (List.length_eq_zero_iff.2 hb)]
    refine iff_of_true ⟨.noName i, s, rfl, fun _ => ?_⟩ (.inl hb)
    exact putBack_walk h hi (linked_of_pass hs hp) (by decide)
  · obtain ⟨name, hname⟩ := nameOf_basename path hb
    rw [or_iff_right hb, if_neg fun h => hb (List.length_eq_zero_iff.1 h)]
    exact mkdirIn_iff hs hm hc h hi hp hd hname

/-- A failing `sys_mkdir` leaves everything as it was, and returns, exactly when it is safe. -/
theorem mkdir_fails_cleanly_iff (reads : Nat × Nat → Bool) (sv : Services μ) {s : Tables (RootDisk μ)}
    {c : Fin 64} {task : Task} {root pwd : Fin 32} (hs : s.Sound reads) (hm : s.Marks) (hst : s.Stands c task root pwd)
    (hr : ∀ i, (s.inodeTable i).iCount + 1 < 65536)
    (a0 : BitVec 64) (path : Path.CString) :
    FailsCleanly reads sv c a0 path s ↔ MkdirSafe reads s task root pwd path.chars := by
  have hstart := Walk.start hs.coherent
  rw [failsCleanly_iff, mkdirTo, MkdirSafe, Prog.returns, Prog.bind_of_ret (current_eq hst.current hstart)]
  by_cases hdenied : task.euid ≠ 0 ∧ task.uid ≠ 0
  · refine iff_of_true ?_ (.inl hdenied)
    rw [if_pos hdenied]
    exact ⟨_, s, rfl, fun _ => Prog.returns_pure ⟨by decide, hstart.undone⟩⟩
  rw [if_neg hdenied, or_iff_right hdenied, Path.dirNamei_eq]
  obtain ⟨hret, hstuck⟩ := @getDir_parent _ reads sv c s task root pwd path.chars hs hr hst
  by_cases hw : s.Walkable task root pwd path.chars
  swap
  · refine iff_of_false ?_ fun h => hw h.1
    rintro ⟨stop, s', hrun, -⟩
    obtain ⟨r, s₁, hdir, -⟩ := Prog.bind_ret_iff.1 hrun
    obtain ⟨dir, s₂, hget, -⟩ := Prog.bind_ret_iff.1 hdir
    exact hstuck hw (fun _ _ => True) ⟨dir, s₂, hget, trivial⟩
  obtain ⟨r, s₁, hget, hland⟩ := hret hw
  have hdir : (dirNamei (RootDisk.services reads sv) c path.chars >>= fun r =>
      pure (r.map fun dir => (dir, basename path.chars))) s =
        .ret (r.map fun dir => (dir, basename path.chars), s₁) := Prog.bind_of_ret hget
  rw [and_iff_right hw, Prog.bind_of_ret hdir]
  cases hpar : s.parent task root pwd path.chars with
  | none =>
    rw [hpar] at hland
    obtain rfl := hland.miss rfl
    refine iff_of_true ⟨_, s₁, rfl, fun _ => Prog.returns_pure ⟨by decide, hland.walk.undone⟩⟩ ?_
    rintro dir d ⟨⟩
  | some dir =>
    rw [hpar] at hland
    obtain ⟨i, rfl, hi⟩ := hland.hit dir rfl
    have hpass : (s.tree task).pass dir = true := by
      rw [Tables.parent] at hpar
      split at hpar
      · cases hpar
      · exact Tree.pass_of_dirOf hpar
    obtain ⟨d, hnode, hisdir, hlinks⟩ := Tables.links_of_pass hpass hs.coherent.dev
    have hd : s.LiveDir dir d := ⟨hnode, hisdir, hlinks⟩
    have hone : (∀ dir' d', some dir = some dir' → s.node dir' = some d' → basename path.chars = [] ∨
        SafeIn reads s task dir' d' (basename path.chars)) ↔
          basename path.chars = [] ∨ SafeIn reads s task dir d (basename path.chars) := by
      constructor
      · exact fun h => h dir d rfl hnode
      · intro h dir' d' hdir' hd'
        obtain rfl := Option.some.inj hdir'
        rw [hnode] at hd'
        cases hd'
        exact h
    rw [hone]
    exact mkdirNamed_iff hs hm hst.current hland.walk hi hpass hd path

/-! ## A disk with an inode and a zone to take -/

/-- The maps that have one block, with this first byte and no clear bit behind it. -/
def oneMap (byte : BitVec 8) (nr : Nat) : Option MapBuffer :=
  if nr = 0 then some ⟨fun off => if off = 0 then byte else 0xFF, false⟩ else none

/-- The inode 3 is free. Of the zones 10 and 11, 10 belongs to the root, and `byte` has the bits. -/
def yard (byte : BitVec 8) : Tables (RootDisk Unit) where
  __ := home false
  kernel :=
    { homeDisk with
      super := ⟨0x301, 3, 12, 10, oneMap 0xF7, oneMap byte⟩
      dinode := update homeDisk.dinode 3 (some MInode.zero.toDInode) }

section
variable {nr : Nat} {d : DInode} {byte : BitVec 8}

/-- The sample tables are coherent. -/
lemma yard_coherent : (yard byte).Coherent := by
  have h := @home_coherent false
  refine ⟨h.dev, h.unique, h.pipe, fun i nr hi => ?_, h.dirty⟩
  obtain ⟨rfl, rfl⟩ := home_caches.1 hi
  exact ⟨homeDir, rfl, fun _ => rfl⟩

/-- They have the inodes of `home`, but for inode 3. -/
lemma yard_node (h3 : nr ≠ 3) : (yard byte).node nr = (home false).node nr := by
  by_cases hc : ∃ i, (home false).Caches i nr
  · obtain ⟨i, hi⟩ := hc
    rw [home_coherent.node_cached hi, yard_coherent.node_cached hi]
    rfl
  · have hn : ∀ i, ¬ (home false).Caches i nr := fun i hi => hc ⟨i, hi⟩
    rw [Tables.node_uncached hn, @Tables.node_uncached _ (yard byte) _ hn]
    exact congrArg (Option.map attrs) (update_of_ne h3 ..)

/-- The only directory is the root. -/
lemma yard_dir (h : (yard byte).node nr = some d) (hdir : isDir d.iMode = true) : d = attrs homeDir := by
  by_cases h3 : nr = 3
  · subst h3
    have hzero : (yard byte).node 3 = some (attrs MInode.zero.toDInode) :=
      Tables.node_uncached fun i hi => absurd (home_caches.1 hi).2 (by decide)
    rw [hzero] at h
    cases h
    cases hdir
  · rw [yard_node h3] at h
    exact home_dir h hdir

/-- They are sound. -/
lemma yard_sound {reads : Nat × Nat → Bool} (hr : reads (0x301, 10) = true) : (yard byte).Sound reads := by
  refine ⟨yard_coherent, fun nr d hn hdir _ b hb => ?_, fun nr d name nr' hn hdir hl h => ?_⟩
  · rw [yard_dir hn hdir] at hb ⊢
    have hb : b * 1024 < 16 := hb
    obtain rfl : b = 0 := by omega
    exact ⟨by decide, (by decide : (10 : Nat) ≠ 0), trivial, hr⟩
  · rw [yard_dir hn hdir] at h
    have hroot : (home false).node 1 = some (attrs homeDir) :=
      home_coherent.node_cached (home_caches.2 ⟨rfl, rfl⟩)
    obtain ⟨d', hd', hlinks⟩ := (@home_sound false).names 1 _ name nr' hroot (by decide) (by decide) h
    refine ⟨d', (yard_node ?_).trans hd', hlinks⟩
    rintro rfl
    obtain ⟨h1, -⟩ | ⟨h2, -⟩ := home_node hd'
    · cases h1
    · cases h2

/-- It has one zone. -/
lemma yard_zone {p : Slot} (hp : p.Valid)
    (hz : ((yard byte).kernel.fileSys ((yard byte).inodeOf (attrs homeDir))).zone () p ≠ 0) : p = .top 0 := by
  have htop : ∀ i, i ≠ 0 →
      ((yard byte).kernel.fileSys ((yard byte).inodeOf (attrs homeDir))).zone () (.top i) = 0 := fun i hi => by
      show ((if i = 0 then 10 else 0 : BitVec 16)).toNat = 0
      rw [if_neg hi]
      rfl
  cases p with
  | top i =>
    by_contra hne
    exact hz (htop i fun h0 => hne (congrArg Slot.top h0))
  | sub p e =>
    refine absurd (if_pos ?_) hz
    cases p with
    | top i =>
      refine htop i ?_
      rintro rfl
      obtain h7 | h8 := hp.1
      · cases h7
      · cases h8
    | sub p e' =>
      cases p with
      | top i =>
        refine if_pos (htop i ?_)
        rintro rfl
        cases hp.1.1
      | sub p e => exact hp.1.elim

/-- The maps mark what is in use. -/
lemma yard_marks (hbit : byte.getLsbD 1 = true) : (yard byte).Marks := by
  refine ⟨(by decide : 0 < 10), fun nr d p hn hdir _ hp hz => ?_⟩
  rw [yard_dir hn hdir] at hz ⊢
  rw [yard_zone hp hz]
  have hmap : MapBit (oneMap byte) 1 := ⟨_, rfl, hbit⟩
  exact hmap

/-- No count is near its end. -/
lemma yard_counts (i : Fin 32) : ((yard byte).inodeTable i).iCount + 1 < 65536 := @home_counts false i

/-- Task 0 stands in the root. -/
lemma yard_stands : (yard byte).Stands 0 initTask 0 0 :=
  ⟨rfl, rfl, rfl, (by decide : 4 ≠ 0), (by decide : 4 ≠ 0), rfl, rfl⟩

end

/-- The path name `b`. -/
def nameB : Path.CString := ⟨['b'], fun c hc => by rw [List.mem_singleton.1 hc]; decide⟩

/-- The name `a` is there already. -/
theorem mkdir_fails_cleanly_exists : FailsCleanly (fun _ => true) emptyDisk 0 0o755 nameA (yard 0xFB) :=
  (mkdir_fails_cleanly_iff (fun _ => true) emptyDisk (yard_sound rfl) (yard_marks rfl) yard_stands yard_counts
    0o755 nameA).2
    (.inr ⟨.inl ⟨1, rfl⟩, fun dir d hdir hd => .inr (.inr (.inl (by
      cases hdir
      cases hd
      rfl)))⟩)

set_option maxRecDepth 20000 in
/-- For `b` the inode 3 is taken, but no zone is left: giving the inode back panics. -/
theorem mkdir_no_zone_panics : (yard 0xFF).Sound (fun _ => true) ∧ (yard 0xFF).Marks ∧
    (yard 0xFF).Stands 0 initTask 0 0 ∧ (∀ i, ((yard 0xFF).inodeTable i).iCount + 1 < 65536) ∧
    sysMkdir (fun _ => true) emptyDisk 0 0o755 nameB (yard 0xFF) = .panic "free_inode: bit already cleared" ∧
    ¬ FailsCleanly (fun _ => true) emptyDisk 0 0o755 nameB (yard 0xFF) := by
  have hpanic : sysMkdir (fun _ => true) emptyDisk 0 0o755 nameB (yard 0xFF) =
      .panic "free_inode: bit already cleared" := rfl
  have hstop : ∃ dir i s', mkdirTo (fun _ => true) emptyDisk 0 0o755 nameB (yard 0xFF) =
      .ret (.noZone dir i, s') := ⟨_, _, _, rfl⟩
  refine ⟨yard_sound rfl, yard_marks rfl, yard_stands, yard_counts, hpanic, ?_⟩
  rintro (⟨stop, s', hrun, hmade⟩ | ⟨r, s', hrun, -⟩)
  · obtain ⟨dir, i, s₁, hto⟩ := hstop
    rw [hto] at hrun
    cases hrun
    exact hmade trivial
  · rw [hpanic] at hrun
    cases hrun

end OldLinux.Files
