import OldLinux.Inode.Steps

/-!
# Uniqueness in the inode cache

No interleaving of the calls puts one inode into two slots, `iget` returns the inode it was asked for
with one more reference, and `get_empty_inode` hands out no slot in use, as long as no inode gets 65536
references. With as many `i_count`, which is an `unsigned short`, is zero again (`iget_wraps`).
-/

namespace OldLinux.Inode
open Lib Fs Bitmap Function Finset

variable {π : Type*} [Fintype π] [DecidableEq π] {s s' : State π} {p : π}

/-! ## Every run -/

namespace State

/-- A finished `iget` has returned the inode it was asked for, and has raised its count by one and no
    other. -/
def IgetReturns (s : State π) : Prop :=
  ∀ p dev nr i, s.users p = .done (.iget dev nr i) →
    s.Carries i dev nr ∧ ∀ j, s.raised p j = if j = i then 1 else 0

end State

/-- The call is in `get_empty_inode`. -/
def Phase.InGetEmptyInode : Phase → Prop
  | .getEmptyInode _ | .emptyWait _ _ => True
  | .lockInode (.empty _) _ | .bread (.empty _) _ _ _ | .brelse (.empty _) _ => True
  | _ => False

/-- A slot that `get_empty_inode` returns in this step was not in use. -/
def HandsOutFree (s : State π) (_ : Event π) (s' : State π) : Prop :=
  ∀ p c e, (s.users p).InGetEmptyInode → s'.users p = .gotEmpty c e → (s.inodeTable e).iCount = 0

/-- `iget` is called for numbers whose bit is set. -/
def IgetAllocated (s : State π) (l : Event π) (_ : State π) : Prop :=
  ∀ p dev nr, l = .iget p dev nr → s.Allocated dev nr

omit [DecidableEq π] in
/-- Steps that leave the inodes their identities. -/
lemma State.Inv.of_same (hs : s.Inv) (hsuper : s'.super = s.super)
    (hid : ∀ i, (s'.inodeTable i).iDev = (s.inodeTable i).iDev ∧
      (s'.inodeTable i).iNum = (s.inodeTable i).iNum)
    (hcounts : ∀ i, (s'.inodeTable i).iCount = s'.total i) (hphases : ∀ p, (s'.users p).Ok s')
    (hledger : ∀ p, (s'.users p).IsIget → ∀ i, s'.raised p i = (s'.users p).refs i) : s'.Inv := by
  have back : ∀ {i dev nr}, s'.Carries i dev nr → s.Carries i dev nr := by
    intro i dev nr hc
    exact ⟨(hid i).1.symm.trans hc.1, (hid i).2.symm.trans hc.2⟩
  constructor
  · rw [hsuper]
    exact hs.maps
  · exact hcounts
  · exact fun i j dev nr hd hi hj => hs.unique i j dev nr hd (back hi) (back hj)
  · intro i dev nr hd hi
    have hal := hs.bits i dev nr hd (back hi)
    rwa [State.Allocated, hsuper]
  · exact hphases
  · exact hledger

/-- A process moves references between itself and the callers. -/
lemma State.Inv.hand {f : Phase} {held : Fin 32 → Nat} {ledger : π → Fin 32 → Int} (hs : s.Inv)
    (htotal : ∀ i, held i + f.refs i = s.held i + (s.users p).refs i)
    (hok : f.Ok s) (hledger : ∀ q ≠ p, ledger q = s.raised q)
    (hp : f.IsIget → ∀ i, ledger p i = f.refs i) :
    State.Inv { s.setUser p f with held := held, raised := ledger } := by
  have hsame : ∀ i, State.total { s.setUser p f with held := held, raised := ledger } i = s.total i := by
    intro i
    have hsum := Lib.total_update s.users (fun ph => ph.refs i) p f
    have hi := htotal i
    show held i + ∑ q, (update s.users p f q).refs i = s.held i + ∑ q, (s.users q).refs i
    omega
  have hcalm : ∀ r, Calm s { s.setUser p f with held := held, raised := ledger } r := fun r =>
    ⟨fun _ _ => ⟨rfl, rfl⟩, fun i _ hf => (hsame i).trans hf.2, fun _ _ => id⟩
  refine hs.of_same rfl (fun _ => ⟨rfl, rfl⟩) (fun i => (hs.counts i).trans (hsame i).symm)
    (fun q => ?_) fun q hq => ?_
  · show (update s.users p f q).Ok _
    rcases eq_or_ne q p with rfl | hne
    · rw [update_self]
      exact hok.calm (hcalm _)
    · rw [update_of_ne hne]
      exact (hs.phases q).calm (hcalm _)
  · intro i
    show ledger q i = (update s.users p f q).refs i
    have hq' : (update s.users p f q).IsIget := hq
    rcases eq_or_ne q p with rfl | hne
    · rw [update_self] at hq' ⊢
      exact hp hq' i
    · rw [update_of_ne hne] at hq' ⊢
      rw [hledger q hne]
      exact hs.ledger q hq' i

omit [Fintype π] in
/-- A call that begins only changes its user. -/
lemma State.call_eq {ph : Phase} (h : s.call p ph = some s') :
    s.users p = .idle ∧ s' = { s.setUser p ph with raised := update s.raised p 0 } := by
  rw [State.call] at h
  split at h
  · exact ⟨‹_›, (Option.some.inj h).symm⟩
  · cases h

/-- A call begins without references. -/
lemma State.Inv.call {ph : Phase} (hs : s.Inv) (h : s.call p ph = some s') (hrefs : ph.refs = 0)
    (hok : ph.Ok s) : s'.Inv := by
  obtain ⟨hidle, rfl⟩ := State.call_eq h
  refine hs.hand (p := p) (f := ph) (fun i => ?_) hok (fun q hq => update_of_ne hq _ _) fun _ i => ?_
  · rw [hrefs, hidle]
    rfl
  · rw [update_self, hrefs]
    rfl

omit [DecidableEq π] in
/-- Fields change that no call relies on. -/
lemma State.Inv.modify {i : Fin 32} {x : MInode} (hs : s.Inv) (hd : x.iDev = (s.inodeTable i).iDev)
    (hn : x.iNum = (s.inodeTable i).iNum) (hc : x.iCount = (s.inodeTable i).iCount) :
    (s.setInode i x).Inv := by
  have hid : ∀ j, ((s.setInode i x).inodeTable j).iDev = (s.inodeTable j).iDev ∧
      ((s.setInode i x).inodeTable j).iNum = (s.inodeTable j).iNum ∧
      ((s.setInode i x).inodeTable j).iCount = (s.inodeTable j).iCount := by
    intro j
    rw [State.setInode_inodeTable]
    rcases eq_or_ne j i with rfl | hne
    · rw [update_self]
      exact ⟨hd, hn, hc⟩
    · rw [update_of_ne hne]
      exact ⟨rfl, rfl, rfl⟩
  refine hs.of_same rfl (fun j => ⟨(hid j).1, (hid j).2.1⟩) (fun j => (hid j).2.2.trans (hs.counts j))
    (fun q => ?_) fun q hq => hs.ledger q hq
  exact (hs.phases q).calm ⟨fun j _ => ⟨(hid j).1, (hid j).2.1⟩, fun j _ hf => hf.2, fun _ _ => id⟩

omit [DecidableEq π] in
/-- A holder counts its reference twice. -/
lemma State.Inv.share {i : Fin 32} (hs : s.Inv) (hpos : s.held i ≠ 0)
    (hlt : State.total { s.incCount i with held := update s.held i (s.held i + 1) } i < 65536) :
    State.Inv { s.incCount i with held := update s.held i (s.held i + 1) } := by
  have hself : State.total { s.incCount i with held := update s.held i (s.held i + 1) } i =
      s.total i + 1 := by
    show update s.held i (s.held i + 1) i + ∑ q, (s.users q).refs i = s.held i + ∑ q, (s.users q).refs i + 1
    rw [update_self]
    omega
  have hother : ∀ j ≠ i, State.total { s.incCount i with held := update s.held i (s.held i + 1) } j =
      s.total j := by
    intro j hj
    show update s.held i (s.held i + 1) j + ∑ q, (s.users q).refs j = _
    rw [update_of_ne hj]
    rfl
  have hid : ∀ j, ((s.incCount i).inodeTable j).iDev = (s.inodeTable j).iDev ∧
      ((s.incCount i).inodeTable j).iNum = (s.inodeTable j).iNum := by
    intro j
    rw [State.incCount, State.setInode_inodeTable]
    rcases eq_or_ne j i with rfl | hne
    · rw [update_self]
      exact ⟨rfl, rfl⟩
    · rw [update_of_ne hne]
      exact ⟨rfl, rfl⟩
  refine hs.of_same rfl hid (fun j => ?_) (fun q => ?_) fun q hq => hs.ledger q hq
  · rcases eq_or_ne j i with rfl | hne
    · rw [hself] at hlt ⊢
      show (update s.inodeTable j _ j).iCount = _
      rw [update_self]
      show ((s.inodeTable j).iCount + 1) % 65536 = _
      rw [hs.counts j, Nat.mod_eq_of_lt hlt]
    · rw [hother j hne]
      show (update s.inodeTable i _ j).iCount = _
      rw [update_of_ne hne]
      exact hs.counts j
  · refine (hs.phases q).calm ⟨fun j _ => hid j, fun j hj hf => ?_, fun _ _ => id⟩
    have hne : j ≠ i := by
      rintro rfl
      have hle : (s.users q).refs j ≤ ∑ q, (s.users q).refs j :=
        single_le_sum (f := fun q => (s.users q).refs j) (fun _ _ => Nat.zero_le _) (mem_univ q)
      have hone : s.held j + ∑ q, (s.users q).refs j = 1 := hf.2
      omega
    exact (hother j hne).trans hf.2

/-- The invariant is kept by every step. -/
theorem State.Inv.step {l : Event π} (hs : s.Inv) (st : s.step l = some s')
    (hal : IgetAllocated s l s') (hb : s'.Bounded) : s'.Inv := by
  cases l with
  | iget p dev nr =>
    rw [State.step] at st
    split at st
    · cases st
    · exact hs.call st rfl ⟨‹_›, hal p dev nr rfl⟩
  | newInode p dev now => exact hs.call st rfl trivial
  | getPipeInode p page => exact hs.call st rfl trivial
  | syncInode p i => exact hs.call st rfl trivial
  | iput p i =>
    rw [State.step] at st
    split at st
    · cases st
    · rename_i hpos
      obtain ⟨hidle, rfl⟩ := State.call_eq st
      refine hs.hand (p := p) (f := .putWait i .iput) (fun j => ?_) trivial
        (fun q hq => update_of_ne hq _ _) False.elim
      -- the reference moves from the holder to the call
      have hidle' : s.users p = .idle := hidle
      rw [hidle']
      show update s.held i (s.held i - 1) j + (ref (some i) j + 0) = s.held j + 0
      rcases eq_or_ne j i with rfl | hne
      · rw [update_self, ref_self]
        omega
      · rw [update_of_ne hne, ref_of_ne hne]
  | advance p =>
    rw [State.step] at st
    obtain ⟨s'', hadv, rfl⟩ := Option.map_eq_some_iff.1 st
    have hb' : s''.Bounded := hb
    obtain ⟨e, x, ph, hchange⟩ := advance_change hs hb' hadv
    exact hs.change hchange
  | leave p =>
    rw [State.step] at st
    split at st
    · rename_i r hp
      cases st
      refine hs.hand (p := p) (f := .idle) (fun i => ?_) trivial (fun _ _ => rfl) False.elim
      rw [hp]
      rfl
    · cases st
  | share i =>
    rw [State.step] at st
    split at st
    · cases st
    · cases st
      exact hs.share ‹_› (hb i)
  | modify i d atime ctime =>
    rw [State.step] at st
    split at st
    · cases st
    · cases st
      exact hs.modify rfl rfl rfl
  | truncating p d ctime =>
    rw [State.step] at st
    split at st
    · cases st
      exact hs.modify rfl rfl rfl
    · cases st

omit [DecidableEq π] in
/-- It holds at first. -/
lemma State.Inv.initial (h : s.Initial) : s.Inv := by
  have htotal : ∀ i, s.total i = 0 := by
    intro i
    rw [State.total, h.held, sum_eq_zero fun p _ => by rw [h.users p]; rfl]
    rfl
  constructor
  · exact h.maps
  · intro i
    rw [htotal, h.table]
    rfl
  · intro i j dev nr hd hi _
    rw [State.Carries, h.table] at hi
    exact absurd hi.1.symm hd
  · intro i dev nr hd hi
    rw [State.Carries, h.table] at hi
    exact absurd hi.1.symm hd
  · intro p
    rw [h.users]
    trivial
  · intro p hp
    rw [h.users] at hp
    cases hp

omit [DecidableEq π] in
/-- What `iget` returns carries the inode that was asked for. -/
lemma State.Inv.igetReturns (hs : s.Inv) : s.IgetReturns := by
  intro p dev nr i hp
  obtain ⟨_, hc⟩ := hs.ok hp
  refine ⟨hc, fun j => ?_⟩
  rw [hs.ledger p (by rw [hp]; trivial) j, hp]
  show ((ref (some i) j : Nat) : Int) = _
  rcases eq_or_ne j i with rfl | hne
  · rw [ref_self, if_pos rfl]
    rfl
  · rw [ref_of_ne hne, if_neg hne]
    rfl

omit [Fintype π] in
/-- `get_empty_inode` tests the count right before it returns. -/
lemma handsOutFree_advance (h : s.advance p = some s') (hp : (s.users p).InGetEmptyInode) {c e}
    (hgot : s'.users p = .gotEmpty c e) : (s.inodeTable e).iCount = 0 := by
  have at_p : ∀ {ph : Phase} {t : State π}, (t.setUser p ph).users p = ph := by
    intro ph t
    rw [State.setUser_users, update_self]
  rw [State.advance] at h
  split at h
  case h_3 =>
    rw [State.pickEmpty] at h
    split at h
    · cases h
    · cases h
      rw [at_p] at hgot
      cases hgot
  case h_4 =>
    split at h
    · cases h
    cases h
    rw [State.takeEmpty] at hgot
    split at hgot
    · rw [at_p] at hgot
      cases hgot
    split at hgot
    · rw [at_p] at hgot
      cases hgot
    · rw [at_p] at hgot
      cases hgot
      exact not_not.1 ‹_›
  case h_13 =>
    split at h
    · cases h
    · cases h
      rw [at_p] at hgot
      cases hgot
  case h_14 =>
    split at h
    · cases h
    · cases h
      rw [at_p] at hgot
      cases hgot
  case h_15 j i hb =>
    cases h
    rw [at_p] at hgot
    cases j with
    | read | empty | put | sync => cases hgot
  all_goals
    rename_i hu
    rw [hu] at hp
    exact hp.elim

omit [Fintype π] in
/-- A call that begins is no end of `get_empty_inode`. -/
lemma handsOutFree_call {ph : Phase} (h : s.call p ph = some s') {q c e}
    (hq : (s.users q).InGetEmptyInode) (hgot : s'.users q = .gotEmpty c e) : False := by
  obtain ⟨hidle, rfl⟩ := State.call_eq h
  have hne : q ≠ p := by
    rintro rfl
    rw [hidle] at hq
    exact hq
  have hsame : update s.users p ph q = .gotEmpty c e := hgot
  rw [update_of_ne hne] at hsame
  rw [hsame] at hq
  exact hq

/-- `get_empty_inode` hands out free slots only. -/
theorem State.Inv.handsOutFree {l : Event π} (hs : s.Inv) (st : s.step l = some s') (hb : s'.Bounded) :
    HandsOutFree s l s' := by
  intro q c e hq hgot
  have stay : s'.users q = s.users q → (s.inodeTable e).iCount = 0 := by
    intro hsame
    rw [hsame] at hgot
    rw [hgot] at hq
    exact hq.elim
  cases l with
  | iget p dev nr =>
    rw [State.step] at st
    split at st
    · cases st
    · exact (handsOutFree_call st hq hgot).elim
  | newInode p dev now => exact (handsOutFree_call st hq hgot).elim
  | getPipeInode p page => exact (handsOutFree_call st hq hgot).elim
  | syncInode p i => exact (handsOutFree_call st hq hgot).elim
  | iput p i =>
    rw [State.step] at st
    split at st
    · cases st
    · exact (handsOutFree_call st hq hgot).elim
  | advance p =>
    rw [State.step] at st
    obtain ⟨s'', hadv, rfl⟩ := Option.map_eq_some_iff.1 st
    rcases eq_or_ne q p with rfl | hne
    · exact handsOutFree_advance hadv hq hgot
    · -- the step of another process leaves this one where it was
      have hb' : s''.Bounded := hb
      obtain ⟨_, _, ph, hchange⟩ := advance_change hs hb' hadv
      exact stay ((congrFun hchange.users q).trans (update_of_ne hne ph s.users))
  | leave p =>
    rw [State.step] at st
    split at st
    · rename_i r hp
      cases st
      have hne : q ≠ p := by
        rintro rfl
        rw [hp] at hq
        exact hq
      exact stay (update_of_ne hne _ s.users)
    · cases st
  | share i | modify i =>
    rw [State.step] at st
    split at st
    · cases st
    · cases st
      exact stay rfl
  | truncating p =>
    rw [State.step] at st
    split at st
    · cases st
      exact stay rfl
    · cases st

/-- In every run in which no inode gets 65536 references, no two slots stand for one inode, `iget`
    returns the inode it was asked for with its count raised by one, and `get_empty_inode` hands out
    slots only that are not in use. -/
theorem inode_cache_unique {tr} (h0 : s.Initial) (ex : State.inodeSystem.Exec s tr)
    (hal : Along IgetAllocated s tr) (hb : Always State.Bounded s tr) :
    Always (fun s => s.Unique ∧ s.IgetReturns) s tr ∧ Along HandsOutFree s tr := by
  have hc : Along (fun s l s' => IgetAllocated s l s' ∧ s'.Bounded) s tr := by
    have hboth := (always_and_along_iff hb.1).1 ⟨hb, hal⟩
    exact hboth.mono fun _ _ _ h => ⟨h.2, h.1⟩
  have hrun := ex.along_of_inv (I := State.Inv) (Q := HandsOutFree)
    (fun s l s' hs st hc => ⟨hs.step st hc.1 hc.2, hs.handsOutFree st hc.2⟩) (.initial h0) hc
  exact ⟨hrun.1.mono fun s hs => ⟨hs.unique, hs.igetReturns⟩, hrun.2⟩

/-! ## The count starts again from zero -/

/-- A device of which inode 1, the root directory, is allocated. -/
def rootDevice : SuperBlock where
  sDev := 0x301
  sNinodes := 64
  sNzones := 100
  sFirstdatazone := 5
  sImap := sampleMap 2
  sZmap := sampleMap 2

/-- The root directory is in slot 0 and used `n` times, and slot 1 is free. -/
structure RootUsed (n : Nat) (s : State Unit) : Prop where
  carries : s.Carries 0 0x301 1
  count : (s.inodeTable 0).iCount = n
  free : (s.inodeTable 1).iCount = 0
  clean : (s.inodeTable 1).iDirt = false
  lock : ∀ i, s.iLock i = false
  slot : s.lastAllocatedInode = 0 ∨ s.lastAllocatedInode = 1
  super : s.super = rootDevice

variable {n : Nat} {s s' : State Unit}

/-- The first free slot of the sample. -/
lemma RootUsed.emptySlot (h : RootUsed n s) (hn : n ≠ 0) : s.emptySlot = some 1 := by
  have h0 : ¬ (s.inodeTable 0).iCount = 0 := by rwa [h.count]
  have h1 := h.free
  rcases h.slot with hl | hl
  · rw [State.emptySlot, hl, List.finRange_succ, List.finRange_succ]
    simp [h0, h1]
  · rw [State.emptySlot, hl, List.finRange_succ]
    simp [h1]

/-- What the scan finds when it starts with slot 0. -/
lemma scan_zero (h : s.Carries 0 0x301 1) : s.scan 0x301 1 = some 0 := by
  rw [State.scan, List.finRange_succ]
  simp [h]

/-- The step of a call. -/
lemma step_advance {t : State Unit} (h : s.advance () = some t) :
    State.inodeSystem.step s (.advance ()) (t.charge s ()) := by
  show (s.advance ()).map _ = _
  rw [h]
  rfl

/-- The process calls `iget` once more, up to its return. -/
lemma RootUsed.iget (h : RootUsed n s) (hn : n ≠ 0) (hidle : s.users () = .idle) :
    ∃ tr, State.inodeSystem.Exec s tr ∧ Along IgetAllocated s tr ∧
      RootUsed ((n + 1) % 65536) (last s tr) ∧
      (last s tr).users () = .done (.iget 0x301 1 0) ∧
      (last s tr).raised () 0 = ((n + 1) % 65536 : Nat) - n := by
  let c : Caller := .iget 0x301 1
  let s1 : State Unit := { s.setUser () (.getEmptyInode c) with raised := update s.raised () 0 }
  have h1 : State.inodeSystem.step s (.iget () 0x301 1) s1 := by
    show s.call () _ = _
    rw [State.call, hidle]
  have used1 : RootUsed n s1 := ⟨h.1, h.2, h.3, h.4, h.5, h.6, h.7⟩
  let t2 : State Unit := { s1 with lastAllocatedInode := 1 }.setUser () (.emptyWait c 1)
  have h2 : s1.advance () = some t2 := by
    show s1.pickEmpty () c = _
    rw [State.pickEmpty, used1.emptySlot hn]
  -- `get_empty_inode` finds slot 1 behind the last one it handed out
  let s2 := t2.charge s1 ()
  let t3 : State Unit := ((s2.clear 1).setInode 1 { MInode.zero with iCount := 1 }).setUser ()
    (.gotEmpty c 1)
  have h3 : s2.advance () = some t3 := by
    show (if s.iLock 1 then none else some (s2.takeEmpty () c 1)) = _
    rw [h.lock, State.takeEmpty]
    have hd : (s2.inodeTable 1).iDirt = false := h.clean
    have hc : (s2.inodeTable 1).iCount = 0 := h.free
    simp only [hd, hc]
    rfl
  let s3 := t3.charge s2 ()
  let t4 : State Unit := s3.setUser () (.igetWait 0x301 1 1 0)
  have h4 : s3.advance () = some t4 := by
    show some (s3.scanTable () 0x301 1 1) = _
    rw [State.scanTable, scan_zero (s := s3) h.carries]
  -- the root is in slot 0, so the empty slot is put back
  let s4 := t4.charge s3 ()
  let t5 : State Unit := (s4.incCount 0).setUser () (.putWait 1 (.iget 0x301 1 0))
  have h5 : s4.advance () = some t5 := by
    have hc : s4.Carries 0 0x301 1 := h.carries
    have hl : s4.iLock 0 = false := h.lock 0
    show (if s4.iLock 0 then none else if s4.Carries 0 0x301 1 then _ else _) = _
    rw [hl, if_pos hc]
    rfl
  let s5 := t5.charge s4 ()
  let t6 : State Unit := (s5.decCount 1).setUser () (.done (.iget 0x301 1 0))
  have h6 : s5.advance () = some t6 := rfl
  refine ⟨[(_, s1), (_, s2), (_, s3), (_, s4), (_, s5), (_, t6.charge s5 ())],
    .cons h1 (.cons (step_advance h2) (.cons (step_advance h3) (.cons (step_advance h4)
      (.cons (step_advance h5) (.cons (step_advance h6) .nil))))), ?_, ?_, rfl, ?_⟩
  · refine ⟨fun p dev nr e => ?_, fun _ _ _ e => ?_, fun _ _ _ e => ?_, fun _ _ _ e => ?_, fun _ _ _ e => ?_,
      fun _ _ _ e => ?_, trivial⟩
    · cases e
      rw [State.Allocated, h.super]
      exact ⟨rfl, _, rfl, by decide⟩
    all_goals cases e
  · refine ⟨h.carries, ?_, rfl, rfl, fun i => ?_, .inr rfl, h.super⟩
    · show ((s.inodeTable 0).iCount + 1) % 65536 = _
      rw [h.count]
    · show update s.iLock 1 false i = false
      rcases eq_or_ne i 1 with rfl | hne
      · rw [update_self]
      · rw [update_of_ne hne]
        exact h.lock i
  · let k := (s.inodeTable 0).iCount
    let k' := (k + 1) % 65536
    show (0 + (k - k) + (k - k) + (k - k) + (k' - k) + (k' - k') : Int) = _
    have hk : k = n := h.count
    omega

/-- The process takes the reference. -/
lemma RootUsed.leave (h : RootUsed n s) {r : Reply} (hdone : s.users () = .done r) :
    ∃ t, State.inodeSystem.step s (.leave ()) t ∧ RootUsed n t ∧ t.users () = .idle := by
  refine ⟨{ s.setUser () .idle with held := s.held + r.refs }, ?_, ?_, rfl⟩
  · show s.step (.leave ()) = _
    rw [State.step, hdone]
  · exact ⟨h.1, h.2, h.3, h.4, h.5, h.6, h.7⟩

/-- When the kernel has booted; the inodes on the disk have one link. -/
def booted : State Unit where
  inodeTable := fun _ => .zero
  iLock := fun _ => false
  lastAllocatedInode := 0
  super := rootDevice
  firstBlock := 4
  inodeBlocks := fun _ _ _ => { MInode.zero.toDInode with iNlinks := 1 }
  users := fun _ => .idle
  held := 0
  raised := fun _ => 0

/-- The first `iget` of the root directory. -/
def firstGet : List (Event Unit) :=
  [.iget () 0x301 1, .advance (), .advance (), .advance (), .advance (), .advance (), .advance (),
    .leave ()]

/-- The sample is initial. -/
lemma booted_initial : booted.Initial :=
  ⟨fun _ => rfl, fun k hk => if_neg (by omega), fun _ => rfl, rfl⟩

/-- The root inode is got. -/
lemma firstGet_run : ∃ tr, trace State.step booted firstGet = some tr ∧
    RootUsed 1 (last booted tr) ∧ (last booted tr).users () = .idle ∧ Along IgetAllocated booted tr := by
  refine ⟨_, rfl, ⟨⟨rfl, rfl⟩, rfl, rfl, rfl, fun i => ?_, .inl rfl, rfl⟩, rfl, ?_⟩
  · show update (update (update booted.iLock 0 false) 0 true) 0 false i = false
    rcases eq_or_ne i 0 with rfl | hne
    · rw [update_self]
    · rw [update_of_ne hne, update_of_ne hne, update_of_ne hne]
      rfl
  · refine ⟨fun p dev nr e => ?_, nofun, nofun, nofun, nofun, nofun, nofun, nofun, trivial⟩
    cases e
    exact ⟨rfl, _, rfl, by decide⟩

/-- Any number of calls of `iget`, up to the one that wraps. -/
lemma rootUsed_run (k : Nat) (hk : k < 65535) : ∃ tr, State.inodeSystem.Exec booted tr ∧
    Along IgetAllocated booted tr ∧ RootUsed (k + 1) (last booted tr) ∧
    (last booted tr).users () = .idle := by
  induction k with
  | zero =>
    obtain ⟨tr, htr, hused, hidle, hal⟩ := firstGet_run
    exact ⟨tr, System.exec_of_trace (fun _ _ _ => id) htr, hal, hused, hidle⟩
  | succ k ih =>
    obtain ⟨tr, ex, hal, hused, hidle⟩ := ih (by omega)
    obtain ⟨tr', ex', hal', hused', hdone, _⟩ := hused.iget (by omega) hidle
    rw [Nat.mod_eq_of_lt (by omega)] at hused'
    obtain ⟨t, st, hleave, hidle'⟩ := hused'.leave hdone
    refine ⟨tr ++ (tr' ++ [(.leave (), t)]), ex.append (ex'.snoc st), hal.append (hal'.append ?_), ?_, ?_⟩
    · exact ⟨nofun, trivial⟩
    · rw [last_append, last_append]
      exact hleave
    · rw [last_append, last_append]
      exact hidle'

/-- After 65535 calls of `iget` one more leaves the count at zero. -/
theorem iget_wraps : ¬ ∀ (π : Type) [Fintype π] [DecidableEq π] (s : State π) tr, s.Initial →
    State.inodeSystem.Exec s tr → Along IgetAllocated s tr →
    Always (fun s => s.Unique ∧ s.IgetReturns) s tr ∧ Along HandsOutFree s tr := by
  intro h
  obtain ⟨tr, ex, hal, hused, hidle⟩ := rootUsed_run 65534 (by decide)
  obtain ⟨tr', ex', hal', hused', hdone, hraised⟩ := hused.iget (by decide) hidle
  have hall := h Unit booted (tr ++ tr') booted_initial (ex.append ex') (hal.append hal')
  have hret := hall.1.at_last.2
  rw [last_append] at hret
  have hone := (hret () _ _ _ hdone).2 0
  rw [hraised] at hone
  revert hone
  decide

/-- The first `iget` returns the root directory. -/
theorem inode_cache_unique_first : ∃ tr, trace State.step booted firstGet = some tr ∧
    Always (fun s => s.Unique ∧ s.IgetReturns) booted tr ∧ Along HandsOutFree booted tr := by
  refine ⟨_, rfl, inode_cache_unique booted_initial ?_ ?_ ?_⟩
  · have htr : trace State.step booted firstGet = some _ := rfl
    exact System.exec_of_trace (fun _ _ _ => id) htr
  · refine ⟨fun p dev nr e => ?_, nofun, nofun, nofun, nofun, nofun, nofun, nofun, trivial⟩
    cases e
    exact ⟨rfl, _, rfl, by decide⟩
  · refine ⟨?_, ?_, ?_, ?_, ?_, ?_, ?_, ?_, ?_, trivial⟩
    all_goals
      show ∀ i, _ < _
      decide

end OldLinux.Inode
