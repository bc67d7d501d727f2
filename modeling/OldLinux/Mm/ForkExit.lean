import OldLinux.Mm.Cow

/-!
# A fork and an exit

`copy_page_tables` counts the pages of a tree once more and `free_page_tables` once less: a child that
exits at once leaves `mem_map` as it was before the fork. A page may be in the tree any number of times;
its count only has to have room for each of them.
-/

namespace OldLinux.Mm
open Lib Function

variable {m : BitVec 64 → Fin 512 → BitVec 64} {s s₁ : Memory} {c nr : Fin 64} {dir n : BitVec 64}

/-- The entries of two tables have the same `PTE_V` and the same page numbers. -/
def SameRow (m m' : BitVec 64 → Fin 512 → BitVec 64) (t t' : BitVec 64) : Prop :=
  ∀ i, valid (m' t' i) = valid (m t i) ∧ pte2va (m' t' i) = pte2va (m t i)

/-- No entry in use of a level-0 table in the lower half of a page directory is writable. -/
def WriteProtected (m : BitVec 64 → Fin 512 → BitVec 64) (dir : BitVec 64) : Prop :=
  ∀ i j, Route m dir i j → ∀ k, valid (m (l0At m dir i j) k) = true →
    writable (m (l0At m dir i j) k) = false

/-- The address space has no free page and reaches only pages that `mem_map` counts, with room for each
    of its references. -/
structure Countable (s : Memory) (dir : BitVec 64) : Prop where
  directory : Managed dir → s.memMap (mapNr dir) ≠ 0
  managed : ∀ x ∈ tree s.mem dir, Managed x
  counted : ∀ x ∈ tree s.mem dir, s.memMap (mapNr x) ≠ 0
  room : ∀ x ∈ tree s.mem dir,
    (s.memMap (mapNr x)).toNat + ((tree s.mem dir).map mapNr).count (mapNr x) < 65536

/-- Only a table that is mapped can be read. -/
lemma readPte_mapped {t : BitVec 64} {i : Fin 512} : Prog.wp (readPte t i) (fun _ _ => Mapped t) s := by
  rw [readPte, Prog.wp_bind, Prog.wp_get]
  split
  · exact fun _ _ _ => ‹Mapped t›
  · exact Prog.wp_fault

/-- `copy_page_tables` reads the page directory. -/
lemma copyPageTables_mapped (hd : s.pgd c = some dir) :
    Prog.wp (copyPageTables c nr) (fun r _ => r = 0 → Mapped dir) s := by
  rw [copyPageTables, Prog.wp_bind, Prog.wp_get, hd]
  show Prog.wp (getFreePage >>= _) _ s
  rw [Prog.wp_bind]
  intro r s₁ _
  cases r with
  | none =>
    rw [Prog.wp_pure]
    intro h
    cases h
  | some n =>
    have hl : lowerHalf = 0 :: lowerHalf.tail := rfl
    show Prog.wp (_ >>= _) _ s₁
    rw [Prog.wp_bind, Prog.wp_modify, Prog.wp_bind, copyPage, Prog.wp_modify, Prog.wp_bind, hl,
      List.forM_cons, Prog.wp_bind, referenceCountOneTable, Prog.wp_bind]
    -- the first entry is read whatever it is
    refine readPte_mapped.mono fun _ _ h => ?_
    exact fun _ _ _ _ _ _ _ _ _ _ => h

/-- What `copy_page_tables` has done when it returns 0. -/
lemma Countable.forks (h : Countable s dir) (hd : s.pgd c = some dir)
    (e : copyPageTables c nr s = .ret (0, s₁)) : ∃ n, Forks nr dir n s s₁ := by
  have hmap := copyPageTables_mapped hd _ _ e rfl
  have hused : ∀ x ∈ dir :: tree s.mem dir, Managed x → s.memMap (mapNr x) ≠ 0 := by
    intro x hx hm
    rcases List.mem_cons.1 hx with rfl | hx
    · exact h.directory hm
    · exact h.counted x hx
  obtain ⟨hr, _⟩ | ⟨_, hf⟩ := (copyPageTables_forks hd hmap h.managed hused).elim e
  · exact absurd rfl hr
  · exact hf

/-- The new page directory is no page of the address space. -/
lemma Countable.fresh (h : Countable s dir) (hf : Forks nr dir n s s₁) :
    n ≠ dir ∧ n ∉ tree s.mem dir := by
  refine ⟨?_, fun hin => h.counted n hin hf.free⟩
  rintro rfl
  exact h.directory hf.managed hf.free

/-- Every entry keeps its valid bit and its page number, and the new page directory has those of the old
    one. -/
lemma Forks.rows_same (hf : Forks nr dir n s s₁) :
    (∀ t, t ≠ n → SameRow s.mem s₁.mem t t) ∧ SameRow s.mem s₁.mem dir n := by
  refine ⟨fun t ht i => ?_, fun i => ?_⟩
  · have ha := hf.alike t i
    rwa [update_of_ne ht] at ha
  · have ha := hf.alike n i
    rwa [update_self] at ha

/-- Page directories with the same entries lead to the same level-0 entries. -/
lemma WriteProtected.congr {dir' : BitVec 64} (h : WriteProtected m dir) (hs : SameRow m m dir dir') :
    WriteProtected m dir' := by
  intro i j r k hv
  obtain ⟨hvi, hpi⟩ := hs i
  have hl1 : l1At m dir' i = l1At m dir i := hpi
  have hl0 : l0At m dir' i j = l0At m dir i j := by rw [l0At, l0At, hl1]
  have hr : Route m dir i j := by
    refine ⟨r.lower, hvi ▸ r.l1, ?_⟩
    rw [← hl1]
    exact r.l0
  rw [hl0] at hv ⊢
  exact h i j hr k hv

/-- The child's pages can be freed: each is counted once for every time it is in the tree. -/
lemma Countable.covered (h : Countable s dir) (hf : Forks nr dir n s s₁) :
    Covered (n :: tree s.mem dir) s₁ := by
  have hne : ∀ x ∈ tree s.mem dir, mapNr x ≠ mapNr n := by
    intro x hx e
    have hcount := h.counted x hx
    rw [e] at hcount
    exact hcount hf.free
  have hnone : ((tree s.mem dir).map mapNr).count (mapNr n) = 0 := by
    refine List.count_eq_zero.2 fun hin => ?_
    obtain ⟨x, hx, e⟩ := List.mem_map.1 hin
    exact hne x hx e
  refine ⟨fun x hx => ?_, fun x hx => ?_⟩
  · rcases List.mem_cons.1 hx with rfl | hx
    · exact hf.managed
    · exact h.managed x hx
  · rw [hf.memMap, addAll]
    rcases List.mem_cons.1 hx with rfl | hx
    · rw [List.map_cons, List.count_cons_self, hnone, update_self]
      decide
    · have hroom := h.room x hx
      rw [List.map_cons, List.count_cons_of_ne (Ne.symm (hne x hx)), update_of_ne (hne x hx),
        BitVec.toNat_add, BitVec.toNat_ofNat]
      omega

/-- Counting a list and freeing it again, with a page taken in between. -/
lemma subAll_addAll {f : Nat → BitVec 16} {l : List (BitVec 64)} (hn : f (mapNr n) = 0) :
    subAll (addAll (update f (mapNr n) 1) l) (n :: l) = f := by
  funext i
  rw [subAll, addAll, List.map_cons]
  rcases eq_or_ne i (mapNr n) with rfl | hi
  · rw [List.count_cons_self, update_self, hn, BitVec.ofNat_add, BitVec.add_comm 1]
    exact BitVec.sub_self _
  · rw [List.count_cons_of_ne (Ne.symm hi), update_of_ne hi, BitVec.add_sub_cancel]

/-- A fork whose child exits at once: in between no page of the two tasks is writable and every entry
    has kept its valid bit and its page number, and afterwards `mem_map` is what it was. -/
theorem fork_exit_restores (hd : s.pgd c = some dir) (hs : Countable s dir) (hc : nr ≠ c) (h0 : nr ≠ 0)
    (hsw : ¬ Managed s.swapperPgDir) (e : copyPageTables c nr s = .ret (0, s₁)) :
    ∃ n s₂, s₁.pgd c = some dir ∧ s₁.pgd nr = some n ∧
      WriteProtected s₁.mem dir ∧ WriteProtected s₁.mem n ∧
      (∀ t, t ≠ n → SameRow s.mem s₁.mem t t) ∧ SameRow s.mem s₁.mem dir n ∧
      freePageTables nr s₁ = .ret ((), s₂) ∧ s₂.memMap = s.memMap := by
  obtain ⟨n, hf⟩ := hs.forks hd e
  obtain ⟨hnd, hnt⟩ := hs.fresh hf
  obtain ⟨hrows, hrow⟩ := hf.rows_same
  have hpn : s₁.pgd nr = some n := by rw [hf.pgd, update_self]
  have hguard : WriteProtected s₁.mem dir := by
    intro i j r k hv
    exact copyPageTables_guards hd _ _ e rfl i r.lower r.l1 j r.l0 k hv
  -- the child has the level-0 tables of its father, so they are protected in both
  have hboth : SameRow s₁.mem s₁.mem dir n := by
    intro i
    obtain ⟨hv, hp⟩ := hrow i
    obtain ⟨hv', hp'⟩ := hrows dir (Ne.symm hnd) i
    exact ⟨hv.trans hv'.symm, hp.trans hp'.symm⟩
  have hspace : s₁.space nr = n :: tree s.mem dir := by
    rw [space_of_some hpn, tree_congr hf.alike, tree_copy hnt]
  have hswap : n ≠ s₁.swapperPgDir := by
    rw [hf.swapper]
    rintro rfl
    exact hsw hf.managed
  have hcov : Covered (s₁.space nr) s₁ := by
    rw [hspace]
    exact hs.covered hf
  obtain ⟨_, s₂, hfree, hfrees⟩ := freePageTables_returns h0 hpn hswap hcov
  refine ⟨n, s₂, ?_, hpn, hguard, hguard.congr hboth, hrows, hrow, hfree, ?_⟩
  · rw [hf.pgd, update_of_ne (Ne.symm hc), hd]
  · rw [hfrees.memMap, hspace, hf.memMap]
    exact subAll_addAll hf.free

/-- The pages of the sample. -/
lemma onePage_tree : tree onePage.mem (pageAddr 2) = [pageAddr 3, pageAddr 4, pageAddr 5] := by
  have hd : onePage.pgd 1 = some (pageAddr 2) := by decide
  have hs := onePage_space 1
  rw [space_of_some hd, if_pos rfl] at hs
  exact List.tail_eq_of_cons_eq hs

/-- They can be counted. -/
lemma onePage_countable : Countable onePage (pageAddr 2) := by
  have hmem : ∀ x ∈ tree onePage.mem (pageAddr 2), x = pageAddr 3 ∨ x = pageAddr 4 ∨ x = pageAddr 5 := by
    intro x hx
    rw [onePage_tree] at hx
    simpa using hx
  have hnr : [pageAddr 3, pageAddr 4, pageAddr 5].map mapNr = [3, 4, 5] := by decide
  refine ⟨fun _ => by decide, fun x hx => ?_, fun x hx => ?_, fun x hx => ?_⟩
  · obtain rfl | rfl | rfl := hmem x hx
    · exact ⟨3, by decide, rfl⟩
    · exact ⟨4, by decide, rfl⟩
    · exact ⟨5, by decide, rfl⟩
  · obtain rfl | rfl | rfl := hmem x hx
    · decide
    · decide
    · decide
  · rw [onePage_tree, hnr]
    obtain rfl | rfl | rfl := hmem x hx
    · decide
    · decide
    · decide

/-- Task 1 forks task 2, which exits. -/
theorem fork_exit_restores_onePage : ∃ n s₂, forked.pgd 2 = some n ∧ WriteProtected forked.mem n ∧
    freePageTables 2 forked = .ret ((), s₂) ∧ s₂.memMap = onePage.memMap := by
  obtain ⟨n, s₂, _, hpn, _, hw, _, _, hfree, hmap⟩ :=
    fork_exit_restores (c := 1) (by decide) onePage_countable (by decide) (by decide)
      onePage_init.1.swapper fork_onePage
  exact ⟨n, s₂, hpn, hw, hfree, hmap⟩

end OldLinux.Mm
