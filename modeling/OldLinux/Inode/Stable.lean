import OldLinux.Inode.Unique

/-!
# Inodes in use stay where they are

While somebody has a reference to a slot of the inode table, whatever the other processes do, the slot
stands for the same inode, and an `iget` of this inode returns this slot.
-/

namespace OldLinux.Inode
open Lib Fs Bitmap Function

variable {π : Type*} [Fintype π] [DecidableEq π] {s s' : State π} {p : π} {i : Fin 32} {dev nr : Nat}

/-- The step leaves the inodes in use their identities. -/
def KeepsHeld (s : State π) (_ : Event π) (s' : State π) : Prop :=
  ∀ i dev nr, s.held i ≠ 0 → s.Carries i dev nr → s'.Carries i dev nr

/-- Every `iget` of the inode that has finished has found slot `i`. -/
def State.FindsAt (s : State π) (i : Fin 32) (dev nr : Nat) : Prop :=
  ∀ p j, s.users p = .done (.iget dev nr j) → j = i

omit [DecidableEq π] in
/-- A reference that is held is not one of a call. -/
lemma State.refs_lt_total (hheld : s.held i ≠ 0) : (s.users p).refs i < s.total i := by
  have hle : (s.users p).refs i ≤ ∑ q, (s.users q).refs i :=
    Finset.single_le_sum (f := fun q => (s.users q).refs i) (fun _ _ => Nat.zero_le _) (Finset.mem_univ p)
  rw [State.total]
  omega

/-- A slot that somebody holds carries its inode on. -/
lemma Change.carries_held {e : Fin 32} {x : MInode} {ph : Phase} (h : Change s p e x ph s')
    (hheld : s.held i ≠ 0) (hi : s.Carries i dev nr) : s'.Carries i dev nr := by
  rw [State.Carries, h.table]
  rcases eq_or_ne i e with rfl | hne
  · rw [update_self]
    rcases h.identity with ⟨hd, hn⟩ | ⟨hsole, _⟩
    · exact ⟨hd.trans hi.1, hn.trans hi.2⟩
    · -- only a call that has the last reference changes the identity
      have hlt := State.refs_lt_total (p := p) hheld
      omega
  · rwa [update_of_ne hne]

omit [Fintype π] in
/-- A call that begins changes no slot. -/
lemma State.call_carries {ph : Phase} (h : s.call p ph = some s') (hi : s.Carries i dev nr) :
    s'.Carries i dev nr := by
  obtain ⟨_, rfl⟩ := State.call_eq h
  exact hi

omit [Fintype π] [DecidableEq π] in
/-- Fields other than the identity change. -/
lemma State.Carries.setInode {j : Fin 32} {x : MInode} (hi : s.Carries i dev nr)
    (hd : x.iDev = (s.inodeTable j).iDev) (hn : x.iNum = (s.inodeTable j).iNum) :
    (s.setInode j x).Carries i dev nr := by
  rw [State.Carries, State.setInode_inodeTable]
  rcases eq_or_ne i j with rfl | hne
  · rw [update_self]
    exact ⟨hd.trans hi.1, hn.trans hi.2⟩
  · rwa [update_of_ne hne]

/-- What is held is kept. -/
lemma State.Inv.keepsHeld {l : Event π} (hs : s.Inv) (st : s.step l = some s') (hb : s'.Bounded) :
    KeepsHeld s l s' := by
  intro i dev nr hheld hi
  cases l with
  | iget q d n =>
    rw [State.step] at st
    split at st
    · cases st
    · exact State.call_carries st hi
  | newInode q d now => exact State.call_carries st hi
  | getPipeInode q page => exact State.call_carries st hi
  | syncInode q j => exact State.call_carries st hi
  | iput q j =>
    rw [State.step] at st
    split at st
    · cases st
    · exact State.call_carries st hi
  | advance q =>
    rw [State.step] at st
    obtain ⟨s'', hadv, rfl⟩ := Option.map_eq_some_iff.1 st
    have hb' : s''.Bounded := hb
    obtain ⟨e, x, ph, hchange⟩ := advance_change hs hb' hadv
    exact hchange.carries_held hheld hi
  | leave q =>
    rw [State.step] at st
    split at st
    · cases st
      exact hi
    · cases st
  | share j =>
    rw [State.step] at st
    split at st
    · cases st
    · cases st
      exact hi.setInode rfl rfl
  | modify j d atime ctime =>
    rw [State.step] at st
    split at st
    · cases st
    · cases st
      exact hi.setInode rfl rfl
  | truncating q d ctime =>
    rw [State.step] at st
    split at st
    · cases st
      exact hi.setInode rfl rfl
    · cases st

omit [DecidableEq π] in
/-- `iget` finds an inode in the slot that carries it. -/
lemma State.Inv.findsAt (hs : s.Inv) (hd : dev ≠ 0) (hi : s.Carries i dev nr) : s.FindsAt i dev nr := by
  intro p j hp
  obtain ⟨_, hj⟩ := hs.ok hp
  exact hs.unique j i dev nr hd hj hi

omit [Fintype π] [DecidableEq π] in
/-- A slot in use all the time stands for one inode all the time. -/
lemma carries_of_held {tr} (hi : s.Carries i dev nr) (hk : Along KeepsHeld s tr)
    (hheld : Always (fun t => t.held i ≠ 0) s tr) : Always (fun t => t.Carries i dev nr) s tr := by
  induction tr generalizing s with
  | nil => exact always_nil.2 hi
  | cons x tr ih =>
    obtain ⟨h0, hrest⟩ := always_cons.1 hheld
    exact always_cons.2 ⟨hi, ih (hk.1 i dev nr h0 hi) hk.2 hrest⟩

/-- In every run in which no inode gets 65536 references, a slot that is in use from one point of the run on,
    up to the end, stands for the same inode all that time, and every `iget` of this inode that
    returns in that time returns this slot. -/
theorem held_inode_stays {tr tr'} (h0 : s.Initial) (ex : State.inodeSystem.Exec s (tr ++ tr'))
    (hal : Along IgetAllocated s (tr ++ tr')) (hb : Always State.Bounded s (tr ++ tr'))
    (hd : dev ≠ 0) (hi : (last s tr).Carries i dev nr)
    (hheld : Always (fun t => t.held i ≠ 0) (last s tr) tr') :
    Always (fun t => t.Carries i dev nr ∧ t.FindsAt i dev nr) (last s tr) tr' := by
  have hc : Along (fun s l s' => IgetAllocated s l s' ∧ s'.Bounded) s (tr ++ tr') := by
    have hboth := (always_and_along_iff hb.1).1 ⟨hb, hal⟩
    exact hboth.mono fun _ _ _ h => ⟨h.2, h.1⟩
  obtain ⟨hinv, hkeep⟩ := ex.along_of_inv (I := State.Inv) (Q := KeepsHeld)
    (fun s l s' hs st hc => ⟨hs.step st hc.1 hc.2, hs.keepsHeld st hc.2⟩) (.initial h0) hc
  have hinv' := hinv.drop
  have hcar := carries_of_held hi hkeep.drop hheld
  exact (hcar.and hinv').mono fun t ht => ⟨ht.1, ht.2.findsAt hd ht.1⟩

/-- The next `iget` of the root directory, up to its return. -/
def secondGet : List (Event Unit) :=
  [.iget () 0x301 1, .advance (), .advance (), .advance (), .advance (), .advance ()]

/-- The inode that was got is found again. -/
lemma last_firstGet : ∃ tr, trace State.step booted firstGet = some tr ∧
    State.inodeSystem.Exec booted tr ∧ Along IgetAllocated booted tr ∧ Always State.Bounded booted tr ∧
    (last booted tr).Carries 0 0x301 1 ∧
    ∃ tr', trace State.step (last booted tr) secondGet = some tr' ∧
      Along IgetAllocated (last booted tr) tr' ∧ Always State.Bounded (last booted tr) tr' ∧
      Always (fun t => t.held 0 ≠ 0) (last booted tr) tr' := by
  refine ⟨_, rfl, ?_, ?_, ?_, ⟨rfl, rfl⟩, _, rfl, ?_, ?_, ?_⟩
  · have htr : trace State.step booted firstGet = some _ := rfl
    exact System.exec_of_trace (fun _ _ _ => id) htr
  · refine ⟨fun p dev nr e => ?_, nofun, nofun, nofun, nofun, nofun, nofun, nofun, trivial⟩
    cases e
    exact ⟨rfl, _, rfl, by decide⟩
  · refine ⟨?_, ?_, ?_, ?_, ?_, ?_, ?_, ?_, ?_, trivial⟩
    all_goals
      show ∀ i, _ < _
      decide
  · refine ⟨fun p dev nr e => ?_, nofun, nofun, nofun, nofun, nofun, trivial⟩
    cases e
    exact ⟨rfl, _, rfl, by decide⟩
  · refine ⟨?_, ?_, ?_, ?_, ?_, ?_, ?_, trivial⟩
    all_goals
      show ∀ i, _ < _
      decide
  · refine ⟨?_, ?_, ?_, ?_, ?_, ?_, ?_, trivial⟩
    all_goals
      show _ ≠ 0
      decide

/-- The first user of the root directory keeps it, and the second one is given the same slot. -/
theorem held_inode_stays_root : ∃ tr tr', trace State.step booted firstGet = some tr ∧
    trace State.step (last booted tr) secondGet = some tr' ∧
    Always (fun t => t.Carries 0 0x301 1 ∧ t.FindsAt 0 0x301 1) (last booted tr) tr' := by
  obtain ⟨tr, htr, ex, hal, hb, hi, tr', htr', hal', hb', hheld⟩ := last_firstGet
  have ex' := System.exec_of_trace (S := State.inodeSystem) (fun _ _ _ => id) htr'
  exact ⟨tr, tr', htr, htr', held_inode_stays booted_initial (ex.append ex') (hal.append hal')
    ⟨hb.1, hb.2.append hb'.2⟩ (by decide) hi hheld⟩

end OldLinux.Inode
