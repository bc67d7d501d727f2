import OldLinux.Files.Resolve

/-!
# Changing an inode

A system call that changes an inode holds a reference to it, sets fields of its slot, and gives the reference
back. What the change is to the inodes is `Coherent.modify`; and since the slot is written before it is used
for another inode, giving the references back changes nothing (`put_walk`).
-/

namespace OldLinux.Files
open Lib Fs Function

variable {μ : Type} {reads : Nat × Nat → Bool} {sv : Services μ} {s s' t : Tables (RootDisk μ)} {i j : Fin 32}
  {nr : Nat} {m : MInode} {k : RootDisk μ}

namespace Tables

/-- The bitmaps and the blocks do not matter to the inodes. -/
lemma Coherent.kernel (h : s.Coherent) (hs : k.super.sDev = s.kernel.super.sDev)
    (hd : k.dinode = s.kernel.dinode) :
    Coherent { s with kernel := k } ∧ ∀ nr, node { s with kernel := k } nr = s.node nr := by
  have hdev : rootDev { s with kernel := k } = s.rootDev := congrArg BitVec.toNat hs
  have hc : ∀ i nr, Caches { s with kernel := k } i nr ↔ s.Caches i nr := fun i nr => by
    rw [Caches, Caches, hdev]
  constructor
  · refine ⟨?_, fun i j nr hi hj => ?_, fun i nr hi => ?_, fun i nr hi => ?_, fun i h0 hdt => ?_⟩
    · rw [hdev]
      exact h.dev
    · exact h.unique i j nr ((hc i nr).1 hi) ((hc j nr).1 hj)
    · exact h.pipe i nr ((hc i nr).1 hi)
    · show ∃ d, k.dinode nr = some d ∧ _
      rw [hd]
      exact h.stored i nr ((hc i nr).1 hi)
    · rw [hdev]
      exact h.dirty i h0 hdt
  · intro nr
    rw [node, node]
    simp only [hc, hd]

/-- The inode in a slot is changed, and has to be written. -/
lemma Coherent.modify (h : s.Coherent) (hi : s.Caches i nr) (hdev : m.iDev = (s.inodeTable i).iDev)
    (hnum : m.iNum = (s.inodeTable i).iNum) (hpipe : m.iPipe = (s.inodeTable i).iPipe) (hdirt : m.iDirt = true) :
    Coherent { s with inodeTable := Function.update s.inodeTable i m } ∧
      (∀ j nr, Caches { s with inodeTable := Function.update s.inodeTable i m } j nr ↔ s.Caches j nr) ∧
      ∀ nr', node { s with inodeTable := Function.update s.inodeTable i m } nr' =
        if nr' = nr then some (attrs m.toDInode) else s.node nr' := by
  have hself : (Function.update s.inodeTable i m) i = m := update_self ..
  have hrest : ∀ j, j ≠ i → (Function.update s.inodeTable i m) j = s.inodeTable j := fun j hj => update_of_ne hj ..
  have hc : ∀ j nr, Caches { s with inodeTable := Function.update s.inodeTable i m } j nr ↔ s.Caches j nr := by
    intro j nr
    obtain rfl | hne := eq_or_ne j i
    · show (Function.update s.inodeTable j m j).iDev = _ ∧ (Function.update s.inodeTable j m j).iNum = _ ↔ _
      rw [hself, hdev, hnum]
      exact Iff.rfl
    · show (Function.update s.inodeTable i m j).iDev = _ ∧ (Function.update s.inodeTable i m j).iNum = _ ↔ _
      rw [hrest j hne]
      exact Iff.rfl
  have hco : Coherent { s with inodeTable := Function.update s.inodeTable i m } := by
    refine ⟨h.dev, fun j j' nr hj hj' => ?_, fun j nr hj => ?_, fun j nr hj => ?_, fun j h0 hdt => ?_⟩
    · exact h.unique j j' nr ((hc j nr).1 hj) ((hc j' nr).1 hj')
    · have hp := h.pipe j nr ((hc j nr).1 hj)
      show (Function.update s.inodeTable i m j).iPipe = false
      obtain rfl | hne := eq_or_ne j i
      · rw [hself, hpipe, hp]
      · rw [hrest j hne, hp]
    · obtain ⟨d, hd, hclean⟩ := h.stored j nr ((hc j nr).1 hj)
      refine ⟨d, hd, ?_⟩
      show (Function.update s.inodeTable i m j).iDirt = false →
        attrs d = attrs (Function.update s.inodeTable i m j).toDInode
      obtain rfl | hne := eq_or_ne j i
      · rw [hself, hdirt]
        exact nofun
      · rw [hrest j hne]
        exact hclean
    · show (Function.update s.inodeTable i m j).iDev = _
      obtain rfl | hne := eq_or_ne j i
      · rw [hself, hdev]
        exact hi.1
      · have h0 : (Function.update s.inodeTable i m j).iCount = 0 := h0
        have hdt : (Function.update s.inodeTable i m j).iDirt = true := hdt
        rw [hrest j hne] at h0 hdt ⊢
        exact h.dirty j h0 hdt
  refine ⟨hco, hc, fun nr' => ?_⟩
  by_cases hnr : nr' = nr
  · subst hnr
    rw [if_pos rfl, hco.node_cached ((hc i _).2 hi)]
    exact congrArg (fun m : MInode => some (attrs m.toDInode)) hself
  rw [if_neg hnr]
  by_cases hex : ∃ j, s.Caches j nr'
  · obtain ⟨j, hj⟩ := hex
    have hne : j ≠ i := fun e => hnr (hj.2.symm.trans ((e ▸ rfl : (s.inodeTable j).iNum = _).trans hi.2))
    rw [hco.node_cached ((hc j _).2 hj), h.node_cached hj]
    exact congrArg (fun m : MInode => some (attrs m.toDInode)) (hrest j hne)
  · rw [node_uncached fun j hj => hex ⟨j, (hc j _).1 hj⟩, node_uncached fun j hj => hex ⟨j, hj⟩]

/-- The state before a reference was taken. -/
def without (s : Tables (RootDisk μ)) (i : Fin 32) : Tables (RootDisk μ) :=
  { s with inodeTable := update s.inodeTable i { s.inodeTable i with iCount := (s.inodeTable i).iCount - 1 } }

end Tables

/-- It goes on to the state with the reference. -/
lemma without_walk {R : Fin 32 → Nat} (h : Walk t R (s.without i)) (hc : (s.inodeTable i).iCount ≠ 0) :
    Walk t (R + ref (some i)) s := by
  have hadd := h.withRef (i := i)
  have hback : update (s.without i).inodeTable i
      { (s.without i).inodeTable i with iCount := ((s.without i).inodeTable i).iCount + 1 } = s.inodeTable := by
    have hself : (s.without i).inodeTable i =
        { s.inodeTable i with iCount := (s.inodeTable i).iCount - 1 } := update_self ..
    have hcount : (s.inodeTable i).iCount - 1 + 1 = (s.inodeTable i).iCount := by omega
    rw [hself]
    dsimp only
    rw [hcount]
    show update (update s.inodeTable i _) i (s.inodeTable i) = _
    rw [update_idem, update_eq_self]
  rw [hback] at hadd
  exact hadd

/-- Without a reference to an inode of the mounted disk, the inodes are the same. -/
lemma without_moved (h : s.Coherent) (hi : s.Caches i nr) : s.Moved (s.without i) :=
  h.set rfl rfl rfl rfl id fun _ _ => hi.1

/-- Before the reference the counts are lower by it. -/
lemma without_count {R : Fin 32 → Nat} (h : ∀ j, (s.inodeTable j).iCount = (R + ref (some i)) j) :
    counts (s.without i) = R := by
  funext j
  show (update s.inodeTable i _ j).iCount = R j
  have hj := h j
  rw [Pi.add_apply] at hj
  obtain rfl | hne := eq_or_ne j i
  · rw [ref_self] at hj
    rw [update_self]
    show (s.inodeTable j).iCount - 1 = R j
    omega
  · rw [ref_of_ne hne, Nat.add_zero] at hj
    rw [update_of_ne hne, hj]

/-- References have been given back; the counts that are left are `R`. -/
structure Put (s : Tables (RootDisk μ)) (R : Fin 32 → Nat) (s' : Tables (RootDisk μ)) : Prop where
  moved : s.Moved s'
  task : s'.task = s.task
  file : s'.fileTable = s.fileTable
  count : ∀ i, (s'.inodeTable i).iCount = R i
  held : ∀ i, R i ≠ 0 → (s'.inodeTable i).iDev = (s.inodeTable i).iDev ∧
    (s'.inodeTable i).iNum = (s.inodeTable i).iNum

/-- Whoever has changed an inode gives it back, unless it has lost its last link and its last reference. -/
lemma putOne {R : Fin 32 → Nat} {a : Int} (h : s.Coherent) (hi : s.Caches i nr)
    (hc : ∀ x, (s.inodeTable x).iCount = (R + ref (some i)) x)
    (hl : R i = 0 → ∃ d, s.node nr = some d ∧ d.iNlinks ≠ 0) :
    Prog.returns (iput (RootDisk.services reads sv) (some i) >>= fun _ => pure a)
      (fun b s' => b = a ∧ Put s R s') s := by
  have hm := without_moved h hi
  have hR : counts (s.without i) = R := without_count hc
  have hused : (s.inodeTable i).iCount ≠ 0 := by
    rw [hc, Pi.add_apply, ref_self]
    omega
  have hw : Walk (s.without i) (counts (s.without i) + ref (some i)) s := without_walk (.start hm.coherent) hused
  have hlinked : Linked (s.without i) i nr := by
    rw [Linked, hR, hm.node]
    exact hl
  refine Prog.returns_bind ((iput_walk hw (fun _ => le_rfl) hi (hlinked.links hw.moved hi)).mono ?_)
  rintro - s' h'
  refine Prog.returns_pure ⟨rfl, hm.trans h'.moved, h'.holds.task, h'.holds.file, ?_, fun x hx => ?_⟩
  · intro x
    rw [h'.holds.exact, hR]
  · have hsame : ((s.without i).inodeTable x).iDev = (s.inodeTable x).iDev ∧
        ((s.without i).inodeTable x).iNum = (s.inodeTable x).iNum := by
      show (update s.inodeTable i _ x).iDev = _ ∧ (update s.inodeTable i _ x).iNum = _
      obtain rfl | hne := eq_or_ne x i
      · rw [update_self]
        exact ⟨rfl, rfl⟩
      · rw [update_of_ne hne]
        exact ⟨rfl, rfl⟩
    rw [← hR] at hx
    rw [← hsame.1, ← hsame.2]
    exact h'.held x hx

/-- Two inodes are given back, and nothing moves. -/
lemma putTwo {R : Fin 32 → Nat} {nr' : Nat} {a : Int} (h : s.Coherent) (hi : s.Caches i nr) (hj : s.Caches j nr')
    (hc : ∀ x, (s.inodeTable x).iCount = (R + ref (some j) + ref (some i)) x)
    (hli : R i = 0 → ∃ d, s.node nr = some d ∧ d.iNlinks ≠ 0)
    (hlj : R j = 0 → ∃ d, s.node nr' = some d ∧ d.iNlinks ≠ 0) :
    Prog.returns (iput (RootDisk.services reads sv) (some i) >>= fun _ =>
      iput (RootDisk.services reads sv) (some j) >>= fun _ => pure a) (fun b s' => b = a ∧ Put s R s') s := by
  have hRi : (R + ref (some j)) i = 0 → ∃ d, s.node nr = some d ∧ d.iNlinks ≠ 0 := fun h0 =>
    hli (Nat.eq_zero_of_add_eq_zero_right h0)
  obtain ⟨_, s₁, hrun, -, h₁⟩ := @putOne _ reads sv s i nr _ (0 : Int) h hi hc hRi
  obtain ⟨_, s₁', hput, hpure⟩ := Prog.bind_ret_iff.1 hrun
  cases hpure
  have hRj : (R + ref (some j)) j ≠ 0 := by
    rw [Pi.add_apply, ref_self]
    omega
  have hj₁ : s₁.Caches j nr' := by
    obtain ⟨hdev, hnum⟩ := h₁.held j hRj
    exact ⟨hdev.trans (hj.1.trans h₁.moved.rootDev.symm), hnum.trans hj.2⟩
  have hl₁ : R j = 0 → ∃ d, s₁.node nr' = some d ∧ d.iNlinks ≠ 0 := by
    rw [h₁.moved.node]
    exact hlj
  rw [Prog.returns, Prog.bind_of_ret hput]
  refine (putOne h₁.moved.coherent hj₁ h₁.count hl₁).mono ?_
  rintro b s₂ ⟨rfl, h₂⟩
  refine ⟨rfl, h₁.moved.trans h₂.moved, h₂.task.trans h₁.task, h₂.file.trans h₁.file, h₂.count, fun x hx => ?_⟩
  obtain ⟨hdev₁, hnum₁⟩ := h₁.held x fun h0 => hx (Nat.eq_zero_of_add_eq_zero_right h0)
  obtain ⟨hdev₂, hnum₂⟩ := h₂.held x hx
  exact ⟨hdev₂.trans hdev₁, hnum₂.trans hnum₁⟩

end OldLinux.Files
