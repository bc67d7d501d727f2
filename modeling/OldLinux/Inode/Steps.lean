import OldLinux.Inode.References

/-!
# The steps of the inode cache

One lemma about each function, which says what it does as a `Change`. That `new_inode` only sets bits,
and `free_inode` clears none, is all that is used of the bitmap.
-/

namespace OldLinux.Inode
open Lib Fs Bitmap Function Finset

/-! ## The bitmap -/

/-- `new_inode` takes a clear bit and sets it. -/
lemma newInode_some {sb sb' : SuperBlock} {dev now : Nat} {e x : MInode}
    (h : Bitmap.newInode sb dev (some e) now = .ret (some x, sb')) :
    x.iDev = dev ∧ x.iCount = 1 ∧ sb.sDev.toNat = dev ∧ Grows sb sb' ∧
      ¬ MapBit sb.sImap x.iNum ∧ MapBit sb'.sImap x.iNum := by
  by_cases hd : sb.sDev.toNat = dev
  swap
  · simp [Bitmap.newInode, getSuper, hd] at h
  obtain ⟨hs, _⟩ | ⟨k, bh, j, hs, hm, hj, hc, hset⟩ := @searchMaps_firstClear sb.sImap
  · simp [Bitmap.newInode, getSuper, hd, hs] at h
  have hk : k < 8 := by
    have hlt := hc.1
    omega
  have hres := setBit_fst_of_firstClear hm hj hc hset
  rw [setBit_fst] at hres
  simp only [Bitmap.newInode, getSuper, hd, if_true, hs] at h
  split at h
  · cases h
  split at h
  · cases h
  · have h64 : j < 64 := by
      by_contra hge
      have hbit : bh.bData.bit (j % 64) = true := by
        rw [hres]
        simpa using hge
      exact absurd (by rwa [setBit_fst]) ‹¬ (setBit j bh.bData).1 = true›
    have hsets := setsBit_setBit hm h64 hc.2.2.1
    cases h
    have hnum : j + k * 8192 = 8192 * k + j := by omega
    have hgrow : ∀ n < 65536, MapBit sb.sImap n →
        MapBit (update sb.sImap k (some ⟨(setBit j bh.bData).2, true⟩)) n :=
      fun n hn hb => (hsets.2 n hn).2 (.inr hb)
    refine ⟨rfl, rfl, hd, ⟨rfl, fun hmaps i hi => ?_, hgrow⟩, ?_, ?_⟩
    · show update sb.sImap k _ i = none
      rw [update_of_ne (by omega)]
      exact hmaps i hi
    · show ¬ MapBit sb.sImap (j + k * 8192)
      rw [hnum]
      exact hsets.1
    · show MapBit _ (j + k * 8192)
      rw [hnum]
      exact (hsets.2 _ hc.1).2 (.inl rfl)

/-- A search without result leaves the maps. -/
lemma newInode_none {sb sb' : SuperBlock} {dev now : Nat} {e : MInode}
    (h : Bitmap.newInode sb dev (some e) now = .ret (none, sb')) : sb' = sb := by
  simp only [Bitmap.newInode] at h
  split at h
  · cases h
  have hsuper : ∀ {sb'' : SuperBlock}, getSuper sb dev = some sb'' → sb'' = sb := by
    intro sb'' hs
    rw [getSuper] at hs
    split at hs
    · exact (Option.some.inj hs).symm
    · cases hs
  obtain rfl := hsuper ‹_›
  split at h
  · cases h
    rfl
  split at h
  · cases h
    rfl
  split at h
  · cases h
  · cases h

/-- `free_inode`, when it returns, has changed no bit; the inode had no other user. -/
lemma freeInode_ret {sb sb' : SuperBlock} {x : MInode} {r : Option MInode} (hd : x.iDev ≠ 0)
    (h : Bitmap.freeInode sb (some x) = .ret (r, sb')) : x.iCount ≤ 1 ∧ Grows sb sb' := by
  simp only [Bitmap.freeInode, if_neg hd] at h
  split at h
  · cases h
  split at h
  · cases h
  split at h
  · cases h
  rename_i hcount _ _ sb'' hs
  have hsb : sb'' = sb := by
    rw [getSuper] at hs
    split at hs
    · exact (Option.some.inj hs).symm
    · cases hs
  subst hsb
  split at h
  · cases h
  split at h
  · cases h
  rename_i map hm
  split at h
  · cases h
  · rename_i hres
    cases h
    have hsame := mapBit_clearBit hm (Bool.not_eq_true _ ▸ hres)
    refine ⟨by omega, rfl, fun hmaps i hi => ?_, fun n _ hb => (hsame n).2 hb⟩
    show update sb''.sImap _ _ i = none
    rcases eq_or_ne i (x.iNum / 8192) with rfl | hne
    · rw [hmaps _ hi] at hm
      cases hm
    · rw [update_of_ne hne]
      exact hmaps i hi

/-! ## What the functions do -/

variable {π : Type*} [Fintype π] [DecidableEq π] {s s' : State π} {p : π}

omit [Fintype π] [DecidableEq π] in
/-- A reply stays right as long as the slots carry what they did. -/
lemma Reply.Ok.carried {a : Reply} (ha : a.Ok s)
    (h : ∀ i dev nr, s.Carries i dev nr → s'.Carries i dev nr) : a.Ok s' := by
  cases a with
  | iget dev nr i => exact ⟨ha.1, h i dev nr ha.2⟩
  | newInode | pipe | iput | sync => trivial

/-- Steps that change no inode and no reference. -/
lemma Change.quiet {ph ph' : Phase} (hp : s.users p = ph) (hu : s'.users = update s.users p ph')
    (hrefs : ph'.refs = ph.refs) (hi : ph'.IsIget → ph.IsIget) (hok : ph'.Ok s)
    (ht : s'.inodeTable = s.inodeTable) (hh : s'.held = s.held) (hr : s'.raised = s.raised)
    (hs : s'.super = s.super) : Change s p 0 (s.inodeTable 0) ph' s' where
  table := ht.trans (update_eq_self 0 s.inodeTable).symm
  users := hu
  held := hh
  raised := hr
  grows := hs ▸ .refl _
  count := by rw [hp, hrefs]
  others i _ := by rw [hp, hrefs]
  identity := .inl ⟨rfl, rfl⟩
  acquired := .inl (by rw [hp, hrefs])
  iget := by rwa [hp]
  ok := by
    refine hok.calm ⟨fun i _ => by rw [ht]; exact ⟨rfl, rfl⟩, fun i _ hf => ?_, fun dev nr ha => ?_⟩
    · have htot := State.total_update (i := i) hu hh
      rw [hp, hrefs] at htot
      have hone := hf.2
      omega
    · rwa [State.Allocated, hs]

/-- Steps that leave an inode its identity. -/
lemma Change.keep {e : Fin 32} {x : MInode} {ph ph' : Phase} (hp : s.users p = ph)
    (hu : s'.users = update s.users p ph') (ht : s'.inodeTable = update s.inodeTable e x)
    (hid : x.iDev = (s.inodeTable e).iDev ∧ x.iNum = (s.inodeTable e).iNum)
    (hcount : x.iCount + ph.refs e = (s.inodeTable e).iCount + ph'.refs e)
    (hothers : ∀ i ≠ e, ph'.refs i = ph.refs i)
    (hacq : ph'.refs e ≤ ph.refs e ∨ (s.inodeTable e).iDev ≠ 0) (hi : ph'.IsIget → ph.IsIget)
    (hok : (∀ i dev nr, s.Carries i dev nr → s'.Carries i dev nr) → ph'.Ok s')
    (hh : s'.held = s.held) (hr : s'.raised = s.raised) (hs : s'.super = s.super) :
    Change s p e x ph' s' where
  table := ht
  users := hu
  held := hh
  raised := hr
  grows := hs ▸ .refl _
  count := by rwa [hp]
  others := by rwa [hp]
  identity := .inl hid
  acquired := by
    rw [hp]
    exact hacq.imp_right .inr
  iget := by rwa [hp]
  ok := by
    refine hok fun i dev nr hc => ?_
    rw [State.Carries, ht]
    rcases eq_or_ne i e with rfl | hne
    · rw [update_self]
      exact ⟨hid.1.trans hc.1, hid.2.trans hc.2⟩
    · rwa [update_of_ne hne]

/-- A step of `p` is a change of one slot. -/
def Steps (s : State π) (p : π) (s' : State π) : Prop := ∃ e x ph, Change s p e x ph s'

section
variable {i e : Fin 32} {c : Caller} {r : Reply}

omit [DecidableEq π] in
/-- What the call of `p` relies on. -/
lemma State.Inv.ok {ph : Phase} (hs : s.Inv) (hp : s.users p = ph) : ph.Ok s :=
  hp ▸ hs.phases p

/-- `get_empty_inode` picks a slot. -/
lemma pickEmpty_change (hs : s.Inv) (hp : s.users p = .getEmptyInode c)
    (h : s.pickEmpty p c = some s') : Steps s p s' := by
  have hok : c.Ok s := hs.ok hp
  rw [State.pickEmpty] at h
  split at h
  · cases h
  · cases h
    exact ⟨_, _, _, .quiet hp rfl rfl id hok rfl rfl rfl rfl⟩

/-- `get_empty_inode` takes a slot nobody refers to. -/
lemma takeEmpty_change (hs : s.Inv) (hp : s.users p = .emptyWait c i) :
    Steps s p (s.takeEmpty p c i) := by
  have hok : c.Ok s := hs.ok hp
  rw [State.takeEmpty]
  split
  · exact ⟨_, _, _, .quiet hp rfl rfl id hok rfl rfl rfl rfl⟩
  split
  · exact ⟨_, _, _, .quiet hp rfl rfl id hok rfl rfl rfl rfl⟩
  · have hzero : (s.inodeTable i).iCount = 0 := not_not.1 ‹_›
    have hrefs : (s.users p).refs i = 0 := by
      rw [hp]
      rfl
    have htotal : s.total i = 0 := (hs.counts i).symm.trans hzero
    have htot : (((s.clear i).setInode i { MInode.zero with iCount := 1 }).setUser p
        (.gotEmpty c i)).total i + (s.users p).refs i = s.total i + (Phase.gotEmpty c i).refs i :=
      State.total_update rfl rfl
    rw [show (Phase.gotEmpty c i).refs i = 1 from ref_self i, hrefs, htotal] at htot
    refine ⟨i, { MInode.zero with iCount := 1 }, .gotEmpty c i, ?_⟩
    constructor
    · exact update_idem ..
    · rfl
    · rfl
    · rfl
    · exact .refl _
    · show 1 + _ = _ + ref (some i) i
      rw [hrefs, hzero, ref_self]
    · intro j hj
      rw [hp]
      exact ref_of_ne hj
    · exact .inr ⟨htotal.trans hrefs.symm, .inl rfl⟩
    · exact .inr (.inl (htotal.trans hrefs.symm))
    · rw [hp]
      exact id
    · refine ⟨?_, ?_, htot⟩
      · exact hok.calm (r := 0) ⟨fun _ h => absurd rfl h, fun _ h => absurd rfl h, fun _ _ => id⟩
      · show (update (s.clear i).inodeTable i _ i).iDev = 0
        rw [update_self]
        rfl

/-- The slot that `iget` claims, or that `new_inode` fills, gets an identity that no slot has. -/
lemma Change.claim {e : Fin 32} {x : MInode} {ph ph' : Phase} (hs : s.Inv) (hp : s.users p = ph)
    (hu : s'.users = update s.users p ph') (ht : s'.inodeTable = update s.inodeTable e x)
    (hf : s.Fresh e) (hrefs : ph.refs = ref (some e)) (hrefs' : ph'.refs = ref (some e))
    (hcount : x.iCount = 1) (hal : s'.Allocated x.iDev x.iNum)
    (hfree : ∀ i, ¬ s.Carries i x.iDev x.iNum) (hi : ph'.IsIget → ph.IsIget) (hok : ph'.Ok s')
    (hg : Grows s.super s'.super) (hh : s'.held = s.held) (hr : s'.raised = s.raised) :
    Change s p e x ph' s' where
  table := ht
  users := hu
  held := hh
  raised := hr
  grows := hg
  count := by rw [hp, hrefs, hrefs', hcount, hs.counts e, hf.2]
  others i _ := by rw [hp, hrefs, hrefs']
  identity := .inr ⟨by rw [hp, hrefs, hf.2, ref_self], .inr ⟨hal, fun i _ => hfree i⟩⟩
  acquired := .inl (by rw [hp, hrefs, hrefs'])
  iget := by rwa [hp]
  ok := hok

omit [Fintype π] [DecidableEq π] in
/-- What the scan does not find is in no slot. -/
lemma not_carries_of_scan {dev nr} (h : s.scan dev nr = none) (i : Fin 32) : ¬ s.Carries i dev nr :=
  fun hc => by simpa [hc] using List.find?_eq_none.1 h i (List.mem_finRange i)

/-- `iget` sleeps on the slot it has found, or claims its own when no slot has the inode: there is
    nothing between the scan and the claim. -/
lemma scanTable_change {dev nr} (hs : s.Inv) (hp : s.users p = .gotEmpty (.iget dev nr) e) :
    Steps s p (s.scanTable p dev nr e) := by
  obtain ⟨⟨hd, hal⟩, hf⟩ := hs.ok hp
  rw [State.scanTable]
  split
  · exact ⟨_, _, _, .quiet hp rfl rfl id ⟨⟨hd, hal⟩, hf⟩ rfl rfl rfl rfl⟩
  · rename_i hscan
    obtain ⟨hdev, hnr⟩ := hal.lt hs.maps
    rw [Nat.mod_eq_of_lt hdev, Nat.mod_eq_of_lt hnr]
    refine ⟨e, _, _, .claim hs hp rfl rfl hf rfl rfl ?_ hal (not_carries_of_scan hscan) (fun _ => trivial)
      ⟨hd, ?_⟩ (.refl _) rfl rfl⟩
    · exact (hs.counts e).trans hf.2
    · show (update s.inodeTable e _ e).iDev = _ ∧ (update s.inodeTable e _ e).iNum = _
      rw [update_self]
      exact ⟨rfl, rfl⟩

/-- `new_inode` fills its slot with a number whose bit was clear, so that no slot has it. -/
lemma newInode_change {dev now} (hs : s.Inv) (hp : s.users p = .gotEmpty (.newInode dev now) e)
    (h : s.newInode p dev now e = some s') : Steps s p s' := by
  obtain ⟨_, hf⟩ := hs.ok hp
  rw [State.newInode] at h
  split at h
  · rename_i x sb hnew
    obtain ⟨hxd, hxc, hdev, hgrows, hclear, hset⟩ := newInode_some hnew
    cases h
    by_cases hd : dev = 0
    · refine ⟨e, x, .done (.newInode (some e)), ?_⟩
      constructor
      · rfl
      · rfl
      · rfl
      · rfl
      · exact hgrows
      · rw [hp, hxc, hs.counts e, hf.2]
        rfl
      · intro i _
        rw [hp]
        rfl
      · refine .inr ⟨?_, .inl (hxd.trans hd)⟩
        rw [hp, hf.2]
        exact (ref_self e).symm
      · rw [hp]
        exact .inl le_rfl
      · exact False.elim
      · trivial
    · refine ⟨e, x, _, .claim hs hp rfl rfl hf rfl rfl hxc ?_ ?_ False.elim trivial hgrows rfl rfl⟩
      · exact ⟨(congrArg BitVec.toNat hgrows.dev).trans (hdev.trans hxd.symm), hset⟩
      · intro i hc
        exact hclear (hs.bits i _ _ (hxd.symm ▸ hd) hc).2
  · rename_i sb hnew
    obtain rfl := newInode_none hnew
    cases h
    refine ⟨_, _, _, .quiet hp rfl ?_ False.elim trivial rfl rfl rfl rfl⟩
    exact add_zero _
  · cases h

/-- `get_pipe_inode` gives its slot two users, or none. -/
lemma pipeInode_change {page} (hs : s.Inv) (hp : s.users p = .gotEmpty (.pipe page) e) :
    Steps s p (s.pipeInode p page e) := by
  obtain ⟨_, hf⟩ := hs.ok hp
  have hone : (s.inodeTable e).iCount = 1 := (hs.counts e).trans hf.2
  have hsole : s.total e = (s.users p).refs e := by
    rw [hp, hf.2]
    exact (ref_self e).symm
  cases page with
  | none =>
    refine ⟨e, _, _, .keep hp rfl rfl ⟨rfl, rfl⟩ ?_ ?_ (.inl (Nat.zero_le _)) False.elim
      (fun _ => trivial) rfl rfl rfl⟩
    · show 0 + ref (some e) e = _ + 0
      rw [hone, ref_self]
    · intro i hi
      exact (ref_of_ne hi).symm
  | some a =>
    refine ⟨e, { s.inodeTable e with iSize := a, iCount := 2, iPipe := true },
      .done (.pipe (some e)), ?_⟩
    constructor
    · rfl
    · rfl
    · rfl
    · rfl
    · exact .refl _
    · rw [hp, hone]
      show 2 + ref (some e) e = 1 + 2 * ref (some e) e
      rw [ref_self]
    · intro i hi
      rw [hp]
      show 2 * ref (some e) i = ref (some e) i
      rw [ref_of_ne hi]
    · exact .inl ⟨rfl, rfl⟩
    · exact .inr (.inl hsole)
    · exact False.elim
    · trivial

/-! `iput` and the transfers. -/

/-- A reference that is given back is one less. -/
lemma refs_release (i : Fin 32) (r : Reply) (k : Nat) (hk : k ≠ 0) :
    k - 1 + (Phase.putWait i r).refs i = k + (Phase.done r).refs i := by
  show k - 1 + (ref (some i) i + r.refs i) = k + r.refs i
  rw [ref_self]
  omega

/-- A reference that is given back leaves the others. -/
lemma refs_others (i : Fin 32) (r : Reply) {j : Fin 32} (hj : j ≠ i) :
    (Phase.done r).refs j = (Phase.putWait i r).refs j := by
  show r.refs j = ref (some i) j + r.refs j
  rw [ref_of_ne hj, zero_add]

/-- A reference is put back: `x` is the inode with one user less. -/
lemma release_change {ph : Phase} {x : MInode} (hs : s.Inv) (hp : s.users p = ph)
    (hrefs : ph.refs = (Phase.putWait i r).refs) (higet : r.IsIget → ph.IsIget) (hr : r.Ok s)
    (hid : x.iDev = (s.inodeTable i).iDev ∧ x.iNum = (s.inodeTable i).iNum)
    (hcount : x.iCount = (s.inodeTable i).iCount - 1) :
    Steps s p ((s.setInode i x).setUser p (.done r)) := by
  have hpos : (s.inodeTable i).iCount ≠ 0 := by
    have hle := State.refs_le_total (s := s) (p := p) (i := i)
    have hself : ph.refs i = 1 + r.refs i := by
      rw [hrefs, ← ref_self i]
      rfl
    rw [hp, hself, ← hs.counts i] at hle
    omega
  refine ⟨i, x, _, .keep hp rfl rfl hid ?_ ?_ ?_ higet hr.carried rfl rfl rfl⟩
  · rw [hcount, hrefs]
    exact refs_release i r _ hpos
  · intro j hj
    rw [hrefs]
    exact refs_others i r hj
  · rw [hrefs]
    exact .inl (Nat.le_add_left _ _)

/-- `iput` begins once more. -/
lemma putRepeat_change {ph : Phase} (hs : s.Inv) (hp : s.users p = ph)
    (hrefs : ph.refs = (Phase.putWait i r).refs) (higet : r.IsIget → ph.IsIget) (hr : r.Ok s)
    (hd : (s.inodeTable i).iDev ≠ 0) : Steps s p (s.putRepeat p i r) := by
  rw [State.putRepeat]
  split
  · exact ⟨_, _, _, .quiet hp rfl hrefs.symm higet ⟨hd, hr⟩ rfl rfl rfl rfl⟩
  split
  · exact ⟨_, _, _, .quiet hp rfl hrefs.symm higet ⟨hd, hr⟩ rfl rfl rfl rfl⟩
  · exact release_change hs hp hrefs higet hr ⟨rfl, rfl⟩ rfl

/-- `iput` comes to its end. -/
lemma put_change (hs : s.Inv) (hp : s.users p = .putWait i r) (h : s.put p i r = some s') :
    Steps s p s' := by
  have hr : r.Ok s := hs.ok hp
  simp only [State.put] at h
  split at h
  · cases h
  split at h
  · split at h
    · cases h
      exact release_change hs hp rfl id hr ⟨rfl, rfl⟩ rfl
    · rename_i hlast
      cases h
      exact release_change hs hp rfl id hr ⟨rfl, rfl⟩ (not_not.1 hlast).symm
  split at h
  · cases h
    exact release_change hs hp rfl id hr ⟨rfl, rfl⟩ rfl
  · rename_i hd
    cases h
    exact putRepeat_change hs hp rfl id hr fun e => hd (.inl e)

/-- `free_inode` clears the slot of an inode that nobody else refers to. -/
lemma free_change (hs : s.Inv) (hp : s.users p = .truncate i r) (h : s.free p i r = some s') :
    Steps s p s' := by
  obtain ⟨hd, hr⟩ := hs.ok hp
  have hle := State.refs_le_total (s := s) (p := p) (i := i)
  have hself : (s.users p).refs i = 1 + r.refs i := by
    rw [hp, ← ref_self i]
    rfl
  rw [State.free] at h
  split at h
  · rename_i x sb hfree
    obtain ⟨hcount, hgrows⟩ := freeInode_ret hd hfree
    rw [hs.counts i] at hcount
    have hsole : s.total i = (s.users p).refs i := by omega
    have hnone : r.refs i = 0 := by omega
    cases h
    refine ⟨i, .zero, .done r, ?_⟩
    constructor
    · rfl
    · rfl
    · rfl
    · rfl
    · exact hgrows
    · show 0 + _ = _ + r.refs i
      rw [hs.counts i, hsole]
      omega
    · intro j hj
      rw [hp]
      exact refs_others i r hj
    · exact .inr ⟨hsole, .inl rfl⟩
    · exact .inr (.inl hsole)
    · rw [hp]
      exact id
    · cases r with
      | iget dev nr j =>
        have hne : j ≠ i := by
          rintro rfl
          exact absurd hnone (ref_self_ne j)
        refine ⟨hr.1, ?_⟩
        show (update s.inodeTable i .zero j).iDev = dev ∧ (update s.inodeTable i .zero j).iNum = nr
        rw [update_of_ne hne]
        exact hr.2
      | newInode | pipe | iput | sync => trivial
  · cases h

/-- `iget` counts itself on the slot it has found. -/
lemma retain_change {dev nr} (hs : s.Inv) (hp : s.users p = .igetWait dev nr e i)
    (hc : s.Carries i dev nr) (hlt : s.total i + 1 < 65536) :
    Steps s p ((s.incCount i).setUser p (.putWait e (.iget dev nr i))) := by
  obtain ⟨⟨hd, _⟩, _⟩ := hs.ok hp
  have hmod : ((s.inodeTable i).iCount + 1) % 65536 = (s.inodeTable i).iCount + 1 :=
    Nat.mod_eq_of_lt (hs.counts i ▸ hlt)
  refine ⟨i, _, _, .keep hp rfl rfl ⟨rfl, rfl⟩ ?_ ?_ (.inr (hc.1 ▸ hd)) id ?_ rfl rfl rfl⟩
  · show ((s.inodeTable i).iCount + 1) % 65536 + ref (some e) i = _ + (ref (some e) i + ref (some i) i)
    rw [hmod, ref_self]
    omega
  · intro j hj
    show ref (some e) j + ref (some i) j = ref (some e) j
    rw [ref_of_ne hj, add_zero]
  · exact fun hcar => ⟨hd, hcar i dev nr hc⟩

/-- The record is read or written. -/
lemma transfer_change {j : Job} {dev block} (hs : s.Inv) (hp : s.users p = .bread j i dev block) :
    Steps s p ((s.transfer j i dev block).setUser p (.brelse j i)) := by
  have hok : j.Ok s i := hs.ok hp
  cases j with
  | read d nr =>
    exact ⟨i, _, _, .keep hp rfl rfl ⟨rfl, rfl⟩ rfl (fun _ _ => rfl) (.inl le_rfl) id
      (fun hcar => ⟨hok.1, hcar i d nr hok.2⟩) rfl rfl rfl⟩
  | empty c =>
    exact ⟨i, _, _, .keep hp rfl rfl ⟨rfl, rfl⟩ rfl (fun _ _ => rfl) (.inl le_rfl) id
      (fun _ => Caller.Ok.calm (r := 0) hok
        ⟨fun _ h => absurd rfl h, fun _ h => absurd rfl h, fun _ _ => id⟩) rfl rfl rfl⟩
  | put a =>
    exact ⟨i, _, _, .keep hp rfl rfl ⟨rfl, rfl⟩ rfl (fun _ _ => rfl) (.inl le_rfl) id
      (fun hcar => ⟨fun e => hok.1 (by rw [← e]; exact (hcar i _ _ ⟨rfl, rfl⟩).1.symm),
        hok.2.carried hcar⟩) rfl rfl rfl⟩
  | sync =>
    exact ⟨i, _, _, .keep hp rfl rfl ⟨rfl, rfl⟩ rfl (fun _ _ => rfl) (.inl le_rfl) id
      (fun _ => trivial) rfl rfl rfl⟩

/-- The job is done. -/
lemma afterJob_change {j : Job} (hs : s.Inv) (hp : s.users p = .brelse j i) :
    Steps s p ((s.setLock i false).setUser p (State.afterJob j i)) := by
  have hok : j.Ok s i := hs.ok hp
  cases j with
  | read | empty | put | sync => exact ⟨_, _, _, .quiet hp rfl rfl id hok rfl rfl rfl rfl⟩

/-- Every step of a call is such a change. -/
lemma advance_change (hs : s.Inv) (hb : s'.Bounded) (h : s.advance p = some s') : Steps s p s' := by
  rw [State.advance] at h
  split at h
  -- the phases in the order of `State.advance`; idle processes and those that are done do not move
  case h_1 | h_2 => cases h
  case h_3 hp => exact pickEmpty_change hs hp h
  case h_4 hp =>
    split at h
    · cases h
    · cases h
      exact takeEmpty_change hs hp
  case h_5 hp =>
    cases h
    exact scanTable_change hs hp
  case h_6 hp => exact newInode_change hs hp h
  case h_7 hp =>
    cases h
    exact pipeInode_change hs hp
  case h_8 dev nr e i hp =>
    split at h
    · cases h
    split at h
    · rename_i hc
      cases h
      -- the count cannot wrap around, as the reference is counted in the total
      refine retain_change hs hp hc ?_
      have htot : ((s.incCount i).setUser p (.putWait e (.iget dev nr i))).total i +
          (s.users p).refs i = s.total i + (Phase.putWait e (.iget dev nr i)).refs i :=
        State.total_update rfl rfl
      have hlt := hb i
      rw [hp, show (Phase.putWait e (.iget dev nr i)).refs i = ref (some e) i + ref (some i) i from rfl,
        show (Phase.igetWait dev nr e i).refs i = ref (some e) i from rfl, ref_self] at htot
      omega
    · -- the slot has changed in the meantime, and the scan begins again
      obtain ⟨hc, hf⟩ := hs.ok hp
      cases h
      exact ⟨_, _, _, .quiet hp rfl rfl (fun _ => trivial) ⟨hc, hf⟩ rfl rfl rfl rfl⟩
  case h_9 hp =>
    split at h
    · cases h
    · exact put_change hs hp h
  case h_10 hp =>
    obtain ⟨hd, hr⟩ := hs.ok hp
    split at h
    · cases h
    · cases h
      exact putRepeat_change hs hp rfl id hr hd
  case h_11 hp => exact free_change hs hp h
  case h_12 hp =>
    split at h
    · cases h
    split at h
    · cases h
      exact ⟨_, _, _, .quiet hp rfl rfl id trivial rfl rfl rfl rfl⟩
    · cases h
      exact ⟨_, _, _, .quiet hp rfl rfl id trivial rfl rfl rfl rfl⟩
  case h_13 hp =>
    have hok := hs.ok hp
    split at h
    · cases h
    · cases h
      exact ⟨_, _, _, .quiet hp rfl rfl id hok rfl rfl rfl rfl⟩
  case h_14 hp =>
    split at h
    · cases h
    · cases h
      exact transfer_change hs hp
  case h_15 hp =>
    cases h
    exact afterJob_change hs hp

end

end OldLinux.Inode
