import OldLinux.Inode.Cache
import OldLinux.Bitmap.Exact
import Mathlib.Algebra.Order.BigOperators.Group.Finset

/-!
# The references to the inodes in memory

`Phase.refs` are the references a call has while it is between two of its steps, and `total` all there
are. What a call may rely on at such a point is `Phase.Ok`; it is about the inodes the call has
references to, and about the bitmap, whose bits the functions only set (`Grows`).

`Inv` holds between all calls as long as no inode gets 65536 references, the number at which `i_count`
starts again from zero. A step changes one slot at most; `Change` says what it may do to it, and
`Inv.change` that the invariant survives that.
-/

namespace OldLinux.Inode
open Lib Fs Bitmap Function Finset

/-! ## What calls rely on -/

/-- The references of a transfer for slot `i`. -/
def Job.refs : Job → Fin 32 → Fin 32 → Nat
  | .read _ _, i => ref (some i)
  | .put r, i => ref (some i) + r.refs
  | .empty _, _ | .sync, _ => 0

/-- The references a call has. -/
def Phase.refs : Phase → Fin 32 → Nat
  | .gotEmpty _ e | .igetWait _ _ e _ => ref (some e)
  | .putWait i r | .putAgain i r | .truncate i r => ref (some i) + r.refs
  | .lockInode j i | .bread j i _ _ | .brelse j i => j.refs i
  | .done r => r.refs
  | .idle | .getEmptyInode _ | .emptyWait _ _ | .syncWait _ => 0

/-- Calls of `iget`. -/
def Caller.IsIget : Caller → Prop
  | .iget _ _ => True
  | _ => False

def Reply.IsIget : Reply → Prop
  | .iget _ _ _ => True
  | _ => False

def Job.IsIget : Job → Prop
  | .read _ _ => True
  | .empty c => c.IsIget
  | .put r => r.IsIget
  | .sync => False

def Phase.IsIget : Phase → Prop
  | .getEmptyInode c | .emptyWait c _ | .gotEmpty c _ => c.IsIget
  | .igetWait _ _ _ _ => True
  | .putWait _ r | .putAgain _ r | .truncate _ r | .done r => r.IsIget
  | .lockInode j _ | .bread j _ _ _ | .brelse j _ => j.IsIget
  | .idle | .syncWait _ => False

variable {π : Type*} [Fintype π]

namespace State

/-- All references to an inode. -/
def total (s : State π) (i : Fin 32) : Nat := s.held i + ∑ p, (s.users p).refs i

/-- No inode has as many references as `i_count` has values. -/
def Bounded (s : State π) : Prop := ∀ i, s.total i < 65536

/-- The bit of an inode number is set. -/
def Allocated (s : State π) (dev nr : Nat) : Prop := s.super.sDev.toNat = dev ∧ MapBit s.super.sImap nr

/-- The slot stands for no inode, and one call only knows it. -/
def Fresh (s : State π) (e : Fin 32) : Prop := (s.inodeTable e).iDev = 0 ∧ s.total e = 1

end State

/-- What a call relies on. -/
def Caller.Ok (s : State π) : Caller → Prop
  | .iget dev nr => dev ≠ 0 ∧ s.Allocated dev nr
  | _ => True

def Reply.Ok (s : State π) : Reply → Prop
  | .iget dev nr i => dev ≠ 0 ∧ s.Carries i dev nr
  | _ => True

def Job.Ok (s : State π) : Job → Fin 32 → Prop
  | .read dev nr, i => dev ≠ 0 ∧ s.Carries i dev nr
  | .empty c, _ => c.Ok s
  | .put r, i => (s.inodeTable i).iDev ≠ 0 ∧ r.Ok s
  | .sync, _ => True

def Phase.Ok (s : State π) : Phase → Prop
  | .getEmptyInode c | .emptyWait c _ => c.Ok s
  | .gotEmpty c e => c.Ok s ∧ s.Fresh e
  | .igetWait dev nr e _ => (Caller.iget dev nr).Ok s ∧ s.Fresh e
  | .putWait _ r | .done r => r.Ok s
  | .putAgain i r | .truncate i r => (s.inodeTable i).iDev ≠ 0 ∧ r.Ok s
  | .lockInode j i | .bread j i _ _ | .brelse j i => j.Ok s i
  | .idle | .syncWait _ => True

/-- Nothing changes that a call with the references `r` relies on. -/
structure Calm (s s' : State π) (r : Fin 32 → Nat) : Prop where
  carries : ∀ i, r i ≠ 0 → (s'.inodeTable i).iDev = (s.inodeTable i).iDev ∧
    (s'.inodeTable i).iNum = (s.inodeTable i).iNum
  fresh : ∀ i, r i ≠ 0 → s.Fresh i → s'.total i = 1
  allocated : ∀ dev nr, s.Allocated dev nr → s'.Allocated dev nr

section
variable {s s' : State π} {r : Fin 32 → Nat}

/-- A step is calm for fewer references too. -/
lemma Calm.subset {r' : Fin 32 → Nat} (h : Calm s s' r) (hr : ∀ i, r' i ≠ 0 → r i ≠ 0) : Calm s s' r' :=
  ⟨fun i hi => h.carries i (hr i hi), fun i hi => h.fresh i (hr i hi), h.allocated⟩

/-- A slot with a reference carries its inode on. -/
lemma Calm.carry {i dev nr} (h : Calm s s' r) (hi : r i ≠ 0) (hc : s.Carries i dev nr) :
    s'.Carries i dev nr := by
  obtain ⟨hdev, hnum⟩ := h.carries i hi
  exact ⟨hdev.trans hc.1, hnum.trans hc.2⟩

/-- A slot with a reference keeps its device. -/
lemma Calm.dev_ne {i} (h : Calm s s' r) (hi : r i ≠ 0) (hd : (s.inodeTable i).iDev ≠ 0) :
    (s'.inodeTable i).iDev ≠ 0 :=
  fun e => hd ((h.carries i hi).1.symm.trans e)

/-- A fresh slot with a reference stays fresh. -/
lemma Calm.stay {e} (h : Calm s s' r) (he : r e ≠ 0) (hf : s.Fresh e) : s'.Fresh e :=
  ⟨(h.carries e he).1.trans hf.1, h.fresh e he hf⟩

/-- A caller that is right stays right in a calm step. -/
lemma Caller.Ok.calm {c : Caller} (hc : c.Ok s) (h : Calm s s' r) : c.Ok s' := by
  cases c with
  | iget dev nr => exact ⟨hc.1, h.allocated dev nr hc.2⟩
  | newInode | pipe => trivial

/-- So does a reply. -/
lemma Reply.Ok.calm {a : Reply} (ha : a.Ok s) (h : Calm s s' a.refs) : a.Ok s' := by
  cases a with
  | iget dev nr i => exact ⟨ha.1, h.carry (by simp [Reply.refs]) ha.2⟩
  | newInode | pipe | iput | sync => trivial

/-- A reference is one to its inode. -/
lemma ref_self_ne (i : Fin 32) : ref (some i) i ≠ 0 := by simp

/-- So does a job. -/
lemma Job.Ok.calm {j : Job} {i : Fin 32} (hj : j.Ok s i) (h : Calm s s' (j.refs i)) : j.Ok s' i := by
  cases j with
  | read dev nr => exact ⟨hj.1, h.carry (ref_self_ne i) hj.2⟩
  | empty c => exact Caller.Ok.calm hj h
  | put a =>
    have hi : (Job.put a).refs i i ≠ 0 := by simp [Job.refs]
    exact ⟨h.dev_ne hi hj.1, hj.2.calm (h.subset fun k hk => by simp [Job.refs, hk])⟩
  | sync => trivial

/-- A call can go on relying on what does not change. -/
lemma Phase.Ok.calm {ph : Phase} (hp : ph.Ok s) (h : Calm s s' ph.refs) : ph.Ok s' := by
  have reply : ∀ (i : Fin 32) (a : Reply), Calm s s' (ref (some i) + a.refs) → a.Ok s → a.Ok s' :=
    fun i a h ha => ha.calm (h.subset fun k hk => by simp [hk])
  cases ph with
  | idle | syncWait => trivial
  | getEmptyInode c | emptyWait c _ => exact Caller.Ok.calm hp h
  | gotEmpty c e | igetWait dev nr e i => exact ⟨hp.1.calm h, h.stay (ref_self_ne e) hp.2⟩
  | putWait i a => exact reply i a h hp
  | putAgain i a | truncate i a =>
    have hi : (ref (some i) + a.refs) i ≠ 0 := by simp
    exact ⟨h.dev_ne hi hp.1, reply i a h hp.2⟩
  | lockInode j i | bread j i _ _ | brelse j i => exact Job.Ok.calm hp h
  | done a => exact Reply.Ok.calm hp h

end

/-! ## The invariant -/

/-- Two slots never stand for one inode. -/
def State.Unique (s : State π) : Prop :=
  ∀ i j dev nr, dev ≠ 0 → s.Carries i dev nr → s.Carries j dev nr → i = j

/-- What holds between the calls. -/
structure State.Inv (s : State π) : Prop where
  maps : ∀ k ≥ 8, s.super.sImap k = none
  counts : ∀ i, (s.inodeTable i).iCount = s.total i
  unique : s.Unique
  bits : ∀ i dev nr, dev ≠ 0 → s.Carries i dev nr → s.Allocated dev nr
  phases : ∀ p, (s.users p).Ok s
  ledger : ∀ p, (s.users p).IsIget → ∀ i, s.raised p i = (s.users p).refs i

/-- The bits of the maps that the functions leave. -/
structure Grows (sb sb' : SuperBlock) : Prop where
  dev : sb'.sDev = sb.sDev
  maps : (∀ k ≥ 8, sb.sImap k = none) → ∀ k ≥ 8, sb'.sImap k = none
  bits : ∀ n < 65536, MapBit sb.sImap n → MapBit sb'.sImap n

/-- Nothing done allocates nothing. -/
lemma Grows.refl (sb : SuperBlock) : Grows sb sb := ⟨rfl, id, fun _ _ => id⟩

section
variable {s s' : State π} {p q : π} {i e : Fin 32}

/-- A call has part of the references. -/
lemma State.refs_le_total : (s.users p).refs i ≤ s.total i :=
  (single_le_sum (f := fun p => (s.users p).refs i) (fun _ _ => Nat.zero_le _) (mem_univ p)).trans
    (Nat.le_add_left _ _)

omit [Fintype π] in
/-- The inodes on the device have numbers that fit in `i_num`. -/
lemma State.Allocated.lt {dev nr} (h : s.Allocated dev nr) (hm : ∀ k ≥ 8, s.super.sImap k = none) :
    dev < 65536 ∧ nr < 65536 := by
  obtain ⟨rfl, bh, hbh, _⟩ := h
  refine ⟨s.super.sDev.isLt, ?_⟩
  by_contra hge
  rw [hm (nr / 8192) (by omega)] at hbh
  cases hbh

omit [Fintype π] in
/-- What is allocated stays allocated. -/
lemma State.Allocated.grows {dev nr} (h : s.Allocated dev nr) (hm : ∀ k ≥ 8, s.super.sImap k = none)
    (hg : Grows s.super s'.super) : s'.Allocated dev nr :=
  ⟨(congrArg BitVec.toNat hg.dev).trans h.1, hg.bits nr (h.lt hm).2 h.2⟩

variable [DecidableEq π]

/-- Two calls have part of the references. -/
lemma State.refs_add_refs_le (hne : q ≠ p) : (s.users p).refs i + (s.users q).refs i ≤ s.total i := by
  have hpair := sum_pair (f := fun p => (s.users p).refs i) hne.symm
  have hsub := sum_le_sum_of_subset (f := fun p => (s.users p).refs i) (subset_univ {p, q})
  rw [hpair] at hsub
  exact hsub.trans (Nat.le_add_left _ _)

/-- The references after a step of `p`. -/
lemma State.total_update {ph : Phase} (hu : s'.users = update s.users p ph) (hh : s'.held = s.held) :
    s'.total i + (s.users p).refs i = s.total i + ph.refs i := by
  have hsum := Lib.total_update s.users (fun ph => ph.refs i) p ph
  rw [State.total, State.total, hu, hh]
  omega

/-- A step of `p` to `ph` that changes slot `e` to `x`. The slot gets another identity only when no
    other call refers to it; a device and a number it gets are those of an allocated inode that is in
    no other slot. -/
structure Change (s : State π) (p : π) (e : Fin 32) (x : MInode) (ph : Phase) (s' : State π) : Prop where
  table : s'.inodeTable = update s.inodeTable e x
  users : s'.users = update s.users p ph
  held : s'.held = s.held
  raised : s'.raised = s.raised
  grows : Grows s.super s'.super
  count : x.iCount + (s.users p).refs e = (s.inodeTable e).iCount + ph.refs e
  others : ∀ i ≠ e, ph.refs i = (s.users p).refs i
  identity : (x.iDev = (s.inodeTable e).iDev ∧ x.iNum = (s.inodeTable e).iNum) ∨
    s.total e = (s.users p).refs e ∧ (x.iDev = 0 ∨
      s'.Allocated x.iDev x.iNum ∧ ∀ i ≠ e, ¬ s.Carries i x.iDev x.iNum)
  acquired : ph.refs e ≤ (s.users p).refs e ∨ s.total e = (s.users p).refs e ∨
    (s.inodeTable e).iDev ≠ 0
  iget : ph.IsIget → (s.users p).IsIget
  ok : ph.Ok s'

variable {x : MInode} {ph : Phase}

/-- The references of the user that goes on are accounted for. -/
lemma Change.total (h : Change s p e x ph s') (i : Fin 32) :
    s'.total i + (s.users p).refs i = s.total i + ph.refs i :=
  State.total_update h.users h.held

/-- The other calls rely on nothing that changes. -/
lemma Change.calm (h : Change s p e x ph s') (hs : s.Inv) (hne : q ≠ p) :
    Calm s s' (s.users q).refs where
  carries i hi := by
    rw [h.table]
    rcases eq_or_ne i e with rfl | hie
    · rw [update_self]
      rcases h.identity with hid | ⟨hsole, _⟩
      · exact hid
      · have hle := State.refs_add_refs_le (s := s) (i := i) hne
        omega
    · rw [update_of_ne hie]
      exact ⟨rfl, rfl⟩
  fresh i hi hf := by
    have hle := State.refs_add_refs_le (s := s) (i := i) hne
    have hone := hf.2
    have htot := h.total i
    have hph : ph.refs i = 0 := by
      rcases eq_or_ne i e with rfl | hie
      · rcases h.acquired with hacq | hsole | hdev
        · omega
        · omega
        · exact absurd hf.1 hdev
      · rw [h.others i hie]
        omega
    omega
  allocated dev nr ha := ha.grows hs.maps h.grows

/-- The invariant survives a step. -/
theorem State.Inv.change (hs : s.Inv) (h : Change s p e x ph s') : (s'.charge s p).Inv := by
  have hcount : ∀ i, (s'.inodeTable i).iCount + (s.users p).refs i =
      (s.inodeTable i).iCount + ph.refs i := by
    intro i
    rw [h.table]
    rcases eq_or_ne i e with rfl | hie
    · rw [update_self]
      exact h.count
    · rw [update_of_ne hie, h.others i hie]
  have hother : ∀ {i dev nr}, i ≠ e → s'.Carries i dev nr → s.Carries i dev nr := by
    intro i dev nr hie hc
    rwa [State.Carries, h.table, update_of_ne hie] at hc
  have hslot : ∀ {dev nr}, s'.Carries e dev nr → x.iDev = dev ∧ x.iNum = nr := by
    intro dev nr hc
    rwa [State.Carries, h.table, update_self] at hc
  -- the slot that has changed stands for an inode for which no other slot stands
  have hnew : ∀ {i dev nr}, dev ≠ 0 → i ≠ e → s'.Carries e dev nr → ¬ s.Carries i dev nr := by
    intro i dev nr hd hie hc hi
    obtain ⟨rfl, rfl⟩ := hslot hc
    rcases h.identity with hid | ⟨_, hzero | ⟨_, hfree⟩⟩
    · exact hie (hs.unique i e _ _ hd hi ⟨hid.1.symm, hid.2.symm⟩)
    · exact hd hzero
    · exact hfree i hie hi
  constructor
  · exact h.grows.maps hs.maps
  · intro i
    have htot := h.total i
    have hi := hcount i
    have hold := hs.counts i
    show (s'.inodeTable i).iCount = s'.total i
    omega
  · intro i j dev nr hd hi hj
    rcases eq_or_ne i e with rfl | hie
    · by_contra hne
      exact hnew hd (Ne.symm hne) hi (hother (Ne.symm hne) hj)
    · rcases eq_or_ne j e with rfl | hje
      · exact absurd (hother hie hi) (hnew hd hie hj)
      · exact hs.unique i j dev nr hd (hother hie hi) (hother hje hj)
  · intro i dev nr hd hi
    rcases eq_or_ne i e with rfl | hie
    · obtain ⟨rfl, rfl⟩ := hslot hi
      rcases h.identity with hid | ⟨_, hzero | ⟨hal, _⟩⟩
      · exact (hs.bits i _ _ hd ⟨hid.1.symm, hid.2.symm⟩).grows hs.maps h.grows
      · exact absurd hzero hd
      · exact hal
    · exact (hs.bits i dev nr hd (hother hie hi)).grows hs.maps h.grows
  · intro q
    have hcharge : ∀ r, Calm s' (s'.charge s p) r := fun r => ⟨fun _ _ => ⟨rfl, rfl⟩,
      fun _ _ hf => hf.2, fun _ _ => id⟩
    refine Phase.Ok.calm ?_ (hcharge _)
    show (s'.users q).Ok s'
    rw [h.users]
    -- the other processes are where they were, and what they rely on has not changed
    rcases eq_or_ne q p with rfl | hqp
    · rw [update_self]
      exact h.ok
    · rw [update_of_ne hqp]
      exact (hs.phases q).calm (h.calm hs hqp)
  · intro q hq i
    have husers : (s'.charge s p).users q = update s.users p ph q := congrFun h.users q
    rw [husers] at hq ⊢
    rcases eq_or_ne q p with rfl | hqp
    · rw [update_self] at hq ⊢
      have hi := hcount i
      have hled := hs.ledger q (h.iget hq) i
      show update s'.raised q _ q i = _
      rw [update_self, h.raised]
      show s.raised q i + ((s'.inodeTable i).iCount - (s.inodeTable i).iCount) = _
      omega
    · rw [update_of_ne hqp] at hq ⊢
      show update s'.raised p _ q i = _
      rw [update_of_ne hqp, h.raised]
      exact hs.ledger q hq i

end

end OldLinux.Inode
