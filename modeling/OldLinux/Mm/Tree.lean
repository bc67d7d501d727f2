import OldLinux.Mm.Memory
import OldLinux.Lib.System
import Mathlib.Data.Fintype.Card

/-!
# Page table trees

The pages that the lower half of a page directory reaches, in the order in which
`reference_count_one_table` meets them (`tree`), and what the loops of `copy_page_tables` and
`free_page_tables` do to the memory in terms of this list: `copy_page_tables` counts each page of the
tree once more, and `free_page_tables` once less. The tree depends only on the `PTE_V` bits and page
numbers of the entries (`Alike`), which setting flags does not change.
-/

namespace OldLinux.Mm
open Lib Function

/-! ## Trees -/

/-- The page that an entry of a level-0 table maps. -/
def leafNodes (pte : BitVec 64) : List (BitVec 64) := if valid pte then [pte2va pte] else []

/-- The level-0 table that an entry of a level-1 table points to, and the pages it maps. -/
def l0Nodes (mem : BitVec 64 → Fin 512 → BitVec 64) (pte : BitVec 64) : List (BitVec 64) :=
  if valid pte then
    pte2va pte :: (List.finRange 512).flatMap fun k => leafNodes (mem (pte2va pte) k)
  else []

/-- The level-1 table that an entry of a page directory points to, and the pages below it. -/
def l1Nodes (mem : BitVec 64 → Fin 512 → BitVec 64) (pte : BitVec 64) : List (BitVec 64) :=
  if valid pte then
    pte2va pte :: (List.finRange 512).flatMap fun j => l0Nodes mem (mem (pte2va pte) j)
  else []

/-- The pages below the lower half of a page directory. -/
def tree (mem : BitVec 64 → Fin 512 → BitVec 64) (dir : BitVec 64) : List (BitVec 64) :=
  lowerHalf.flatMap fun i => l1Nodes mem (mem dir i)

/-- The page directory of a live task and the pages below it. -/
def Memory.space (s : Memory) (t : Fin 64) : List (BitVec 64) :=
  match s.pgd t with
  | none => []
  | some dir => dir :: tree s.mem dir

/-- Memories whose entries differ in flags only. -/
def Alike (m m' : BitVec 64 → Fin 512 → BitVec 64) : Prop :=
  ∀ p i, valid (m' p i) = valid (m p i) ∧ pte2va (m' p i) = pte2va (m p i)

variable {m m' : BitVec 64 → Fin 512 → BitVec 64} {s s' : Memory}

/-- Tables are like themselves. -/
lemma Alike.refl (m : BitVec 64 → Fin 512 → BitVec 64) : Alike m m := fun _ _ => ⟨rfl, rfl⟩

/-- Setting flags of one entry. -/
lemma Alike.write (h : Alike m m') {table : BitVec 64} {i : Fin 512} {pte : BitVec 64}
    (hv : valid pte = valid (m' table i)) (hp : pte2va pte = pte2va (m' table i)) :
    Alike m (update m' table (update (m' table) i pte)) := by
  intro p j
  by_cases hpt : p = table
  · subst hpt
    rw [update_self]
    by_cases hj : j = i
    · subst hj
      rw [update_self]
      exact ⟨hv.trans (h p j).1, hp.trans (h p j).2⟩
    · rw [update_of_ne hj]
      exact h p j
  · rw [update_of_ne hpt]
    exact h p j

/-- A page depends on its entry only. -/
lemma leafNodes_congr {e e' : BitVec 64} (hv : valid e' = valid e) (hp : pte2va e' = pte2va e) :
    leafNodes e' = leafNodes e := by
  rw [leafNodes, leafNodes, hv, hp]

/-- The pages of a table depend on what is alike. -/
lemma l0Nodes_congr (h : Alike m m') {e e' : BitVec 64} (hv : valid e' = valid e)
    (hp : pte2va e' = pte2va e) : l0Nodes m' e' = l0Nodes m e := by
  have hk : (fun k => leafNodes (m' (pte2va e) k)) = fun k => leafNodes (m (pte2va e) k) := by
    funext k
    exact leafNodes_congr (h _ k).1 (h _ k).2
  rw [l0Nodes, l0Nodes, hv, hp, hk]

/-- The pages of an entry of the directory depend on what is alike. -/
lemma l1Nodes_congr (h : Alike m m') {e e' : BitVec 64} (hv : valid e' = valid e)
    (hp : pte2va e' = pte2va e) : l1Nodes m' e' = l1Nodes m e := by
  have hj : (fun j => l0Nodes m' (m' (pte2va e) j)) = fun j => l0Nodes m (m (pte2va e) j) := by
    funext j
    exact l0Nodes_congr h (h _ j).1 (h _ j).2
  rw [l1Nodes, l1Nodes, hv, hp, hj]

/-- Flags do not change a tree. -/
lemma tree_congr (h : Alike m m') (dir : BitVec 64) : tree m' dir = tree m dir := by
  rw [tree, tree]
  apply List.flatMap_congr
  intro i _
  exact l1Nodes_congr h (h _ i).1 (h _ i).2

/-- A page that is not a table of a tree may be written. -/
lemma l0Nodes_update {p e : BitVec 64} {w : Fin 512 → BitVec 64} (h : p ∉ l0Nodes m e) :
    l0Nodes (update m p w) e = l0Nodes m e := by
  rw [l0Nodes] at h ⊢
  rw [l0Nodes]
  split
  · next hv =>
    rw [if_pos hv, List.mem_cons, not_or] at h
    rw [update_of_ne (fun e' => h.1 e'.symm)]
  · rfl

/-- A page that is not among them does not matter. -/
lemma l1Nodes_update {p e : BitVec 64} {w : Fin 512 → BitVec 64} (h : p ∉ l1Nodes m e) :
    l1Nodes (update m p w) e = l1Nodes m e := by
  rw [l1Nodes] at h ⊢
  rw [l1Nodes]
  split
  · next hv =>
    rw [if_pos hv, List.mem_cons, not_or, List.mem_flatMap] at h
    rw [update_of_ne (fun e' => h.1 e'.symm)]
    apply congrArg (List.cons _)
    apply List.flatMap_congr
    intro j hj
    apply l0Nodes_update
    intro hm
    exact h.2 ⟨j, hj, hm⟩
  · rfl

/-- The tree of a page directory, after a page outside of it has been written. -/
lemma tree_update {p dir : BitVec 64} {w : Fin 512 → BitVec 64} (hd : p ≠ dir) (h : p ∉ tree m dir) :
    tree (update m p w) dir = tree m dir := by
  rw [tree, List.mem_flatMap] at h
  rw [tree, tree, update_of_ne (Ne.symm hd)]
  apply List.flatMap_congr
  intro i hi
  apply l1Nodes_update
  intro hm
  exact h ⟨i, hi, hm⟩

/-- The tree of a copy of a page directory. -/
lemma tree_copy {p dir : BitVec 64} (h : p ∉ tree m dir) :
    tree (update m p (m dir)) p = tree m dir := by
  rw [tree, List.mem_flatMap] at h
  rw [tree, tree, update_self]
  apply List.flatMap_congr
  intro i hi
  apply l1Nodes_update
  intro hm
  exact h ⟨i, hi, hm⟩

/-! ## Counting a list of pages -/

/-- The counters after each page of a list has been counted once more. -/
def addAll (f : Nat → BitVec 16) (l : List (BitVec 64)) : Nat → BitVec 16 :=
  fun i => f i + .ofNat 16 ((l.map mapNr).count i)

/-- The counters after each page of a list has been counted once less. -/
def subAll (f : Nat → BitVec 16) (l : List (BitVec 64)) : Nat → BitVec 16 :=
  fun i => f i - .ofNat 16 ((l.map mapNr).count i)

/-- No page is counted up. -/
@[simp] lemma addAll_nil (f : Nat → BitVec 16) : addAll f [] = f := by
  funext i
  simp [addAll]

/-- No page is counted down. -/
@[simp] lemma subAll_nil (f : Nat → BitVec 16) : subAll f [] = f := by
  funext i
  simp [subAll]

/-- Two lists are counted up. -/
lemma addAll_append (f : Nat → BitVec 16) (l l' : List (BitVec 64)) :
    addAll f (l ++ l') = addAll (addAll f l) l' := by
  funext i
  rw [addAll, addAll, addAll, List.map_append, List.count_append, BitVec.ofNat_add, BitVec.add_assoc]

/-- Two lists are counted down. -/
lemma subAll_append (f : Nat → BitVec 16) (l l' : List (BitVec 64)) :
    subAll f (l ++ l') = subAll (subAll f l) l' := by
  funext i
  rw [subAll, subAll, subAll, List.map_append, List.count_append, BitVec.ofNat_add,
    sub_add_eq_sub_sub]

/-- One page is counted up. -/
lemma addAll_singleton (f : Nat → BitVec 16) (a : BitVec 64) :
    addAll f [a] = update f (mapNr a) (f (mapNr a) + 1) := by
  funext i
  by_cases hi : i = mapNr a
  · subst hi
    simp [addAll]
  · rw [update_of_ne hi]
    simp [addAll, Ne.symm hi]

/-- One page is counted down. -/
lemma subAll_singleton (f : Nat → BitVec 16) (a : BitVec 64) :
    subAll f [a] = update f (mapNr a) (f (mapNr a) - 1) := by
  funext i
  by_cases hi : i = mapNr a
  · subst hi
    simp [subAll]
  · rw [update_of_ne hi]
    simp [subAll, Ne.symm hi]

/-- The order of the pages does not matter. -/
lemma subAll_cons (f : Nat → BitVec 16) (a : BitVec 64) (l : List (BitVec 64)) :
    subAll f (a :: l) = subAll (subAll f l) [a] := by
  rw [← subAll_append]
  funext i
  rw [subAll, subAll, List.map_append, List.count_append, List.map_cons, List.map_cons, List.map_nil,
    List.count_cons, List.count_cons, List.count_nil, Nat.zero_add]

/-- In a list without repetitions a page is counted once. -/
lemma count_mapNr {l : List (BitVec 64)} (hl : ∀ x ∈ l, Managed x) (hn : l.Nodup) {a : BitVec 64}
    (ha : Managed a) : (l.map mapNr).count (mapNr a) = if a ∈ l then 1 else 0 := by
  induction l with
  | nil => rfl
  | cons x l ih =>
    obtain ⟨hx, hn⟩ := List.nodup_cons.1 hn
    have ih := ih (fun y hy => hl y (List.mem_cons_of_mem _ hy)) hn
    rw [List.map_cons, List.count_cons, ih]
    by_cases hax : a = x
    · subst hax
      simp [hx]
    · have hne : mapNr x ≠ mapNr a := fun e =>
        hax (ha.eq_of_mapNr (hl x List.mem_cons_self) e.symm)
      simp [hax, hne]

/-! ## The loops of `copy_page_tables` -/

/-- From `s` to `s'` the pages of `l` have been counted, the entries are as in `m` but for flags, and
    only the tables in `P` have been written. -/
structure Shares (m : BitVec 64 → Fin 512 → BitVec 64) (P : BitVec 64 → Prop) (l : List (BitVec 64))
    (s s' : Memory) : Prop where
  alike : Alike m s'.mem
  rows : ∀ t, ¬ P t → s'.mem t = s.mem t
  memMap : s'.memMap = addAll s.memMap l
  pgd : s'.pgd = s.pgd
  swapper : s'.swapperPgDir = s.swapperPgDir

variable {P : BitVec 64 → Prop}

/-- Two lists are shared. -/
lemma Shares.append {s'' : Memory} {l l' : List (BitVec 64)} (h : Shares m P l s s')
    (h' : Shares m P l' s' s'') : Shares m P (l ++ l') s s'' := by
  refine ⟨h'.alike, fun t ht => (h'.rows t ht).trans (h.rows t ht), ?_, h'.pgd.trans h.pgd,
    h'.swapper.trans h.swapper⟩
  rw [h'.memMap, h.memMap, addAll_append]

/-- A page and a list are. -/
lemma Shares.cons {s'' : Memory} {a : BitVec 64} {l : List (BitVec 64)} (h : Shares m P [a] s s')
    (h' : Shares m P l s' s'') : Shares m P (a :: l) s s'' :=
  h.append h'

/-- A loop whose turns count the pages `N a`. -/
lemma forM_shares {ι : Type} {l : List ι} {body : ι → Prog Memory PUnit} {N : ι → List (BitVec 64)}
    (hb : ∀ a ∈ l, ∀ s, Alike m s.mem → Prog.returns (body a) (fun _ => Shares m P (N a) s) s)
    (h : Alike m s.mem) : Prog.returns (forM l body) (fun _ => Shares m P (l.flatMap N) s) s := by
  induction l generalizing s with
  | nil =>
    apply Prog.returns_pure
    exact ⟨h, fun _ _ => rfl, (addAll_nil _).symm, rfl, rfl⟩
  | cons a l ih =>
    rw [List.forM_cons]
    apply Prog.returns_bind
    refine (hb a List.mem_cons_self s h).mono ?_
    intro _ s₁ h₁
    refine (ih (fun a' ha' => hb a' (List.mem_cons_of_mem _ ha')) h₁.alike).mono ?_
    intro _ s₂ h₂
    rw [List.flatMap_cons]
    exact h₁.append h₂

/-- An entry is read. -/
lemma readPte_eq {table : BitVec 64} {i : Fin 512} (h : Mapped table) :
    readPte table i s = .ret (s.mem table i, s) := by
  show (if Mapped table then (pure (s.mem table i) : Prog Memory _) else Prog.fault) s = _
  rw [if_pos h]
  rfl

/-- A count is read. -/
lemma readMap_eq {i : Nat} (h : i < pagingPages) : readMap i s = .ret (s.memMap i, s) := by
  show (if i < pagingPages then (pure (s.memMap i) : Prog Memory _) else Prog.fault) s = _
  rw [if_pos h]
  rfl

/-- Reading an entry changes nothing. -/
lemma readPte_wp {table : BitVec 64} {i : Fin 512} :
    Prog.wp (readPte table i) (fun e s' => e = s.mem table i ∧ s' = s) s := by
  rw [readPte, Prog.wp_bind, Prog.wp_get]
  split
  · rw [Prog.wp_pure]
    exact ⟨rfl, rfl⟩
  · exact Prog.wp_fault

/-- Counting up leaves the pages. -/
lemma addCount_wp {addr : BitVec 64} : Prog.wp (addCount addr) (fun _ s' => s'.mem = s.mem) s := by
  rw [addCount, Prog.wp_bind, readMap, Prog.wp_bind, Prog.wp_get]
  split
  · rw [Prog.wp_pure, writeMap, Prog.wp_modify]
  · exact Prog.wp_fault

/-- Reading an entry returns. -/
lemma readPte_returns {table : BitVec 64} {i : Fin 512} (h : Mapped table) :
    Prog.returns (readPte table i) (fun e s' => e = s.mem table i ∧ s' = s) s := by
  exact ⟨_, _, readPte_eq h, rfl, rfl⟩

/-- So does reading a count. -/
lemma readMap_returns {i : Nat} (h : i < pagingPages) :
    Prog.returns (readMap i) (fun n s' => n = s.memMap i ∧ s' = s) s := by
  exact ⟨_, _, readMap_eq h, rfl, rfl⟩

/-- Counting up shares a page. -/
lemma addCount_returns {addr : BitVec 64} (h : Managed addr) (ha : Alike m s.mem) :
    Prog.returns (addCount addr) (fun _ => Shares m P [addr] s) s := by
  apply Prog.returns_bind
  refine (readMap_returns h.mapNr_lt).mono ?_
  rintro n s₁ ⟨rfl, rfl⟩
  apply Prog.returns_modify
  exact ⟨ha, fun _ _ => rfl, (addAll_singleton _ _).symm, rfl, rfl⟩

/-- An entry of the last level is shared. -/
lemma shareLeaf_returns {l0 : BitVec 64} {k : Fin 512} (ha : Alike m s.mem) (h0 : Mapped l0)
    (hP : P l0) (hm : ∀ x ∈ leafNodes (m l0 k), Managed x) :
    Prog.returns (shareLeaf l0 k) (fun _ => Shares m P (leafNodes (m l0 k)) s) s := by
  have hperm : sharedPerm >>> 10 = 0#64 := by decide
  have hpv : valid sharedPerm = true := by decide
  obtain ⟨hv, hp⟩ := ha l0 k
  apply Prog.returns_bind
  refine (readPte_returns h0).mono ?_
  rintro e s₁ ⟨rfl, rfl⟩
  rw [hv]
  rw [leafNodes] at hm ⊢
  split
  · next hval =>
    rw [if_pos hval] at hm
    have hva : pte2va (setFlags (s₁.mem l0 k) sharedPerm) = pte2va (m l0 k) := by
      rw [pte2va_setFlags hperm, hp]
    apply Prog.returns_bind
    apply Prog.returns_modify
    rw [hva]
    have hw : Alike m (update s₁.mem l0 (update (s₁.mem l0) k (setFlags (s₁.mem l0 k) sharedPerm))) := by
      apply ha.write
      · rw [valid_setFlags hpv, hv, hval]
      · exact pte2va_setFlags hperm
    refine (addCount_returns (P := P) (hm _ (List.mem_singleton_self _)) hw).mono ?_
    intro _ s₂ h₂
    refine ⟨h₂.alike, ?_, h₂.memMap, h₂.pgd, h₂.swapper⟩
    intro t ht
    have hne : t ≠ l0 := fun e => ht (e ▸ hP)
    exact (h₂.rows t ht).trans (update_of_ne hne _ _)
  · apply Prog.returns_pure
    exact ⟨ha, fun _ _ => rfl, (addAll_nil _).symm, rfl, rfl⟩

/-- A table of the last level is shared. -/
lemma shareL0_returns {l1 : BitVec 64} {j : Fin 512} (ha : Alike m s.mem) (h1 : Mapped l1)
    (hP : valid (m l1 j) = true → P (pte2va (m l1 j)))
    (hm : ∀ x ∈ l0Nodes m (m l1 j), Managed x) :
    Prog.returns (shareL0 l1 j) (fun _ => Shares m P (l0Nodes m (m l1 j)) s) s := by
  obtain ⟨hv, hp⟩ := ha l1 j
  apply Prog.returns_bind
  refine (readPte_returns h1).mono ?_
  rintro e s₁ ⟨rfl, rfl⟩
  rw [hv, hp]
  rw [l0Nodes] at hm ⊢
  split
  · next hval =>
    rw [if_pos hval] at hm
    have h0 : Managed (pte2va (m l1 j)) := hm _ List.mem_cons_self
    apply Prog.returns_bind
    refine (addCount_returns (P := P) h0 ha).mono ?_
    intro _ s₂ h₂
    have hloop : Prog.returns (forM (List.finRange 512) (shareLeaf (pte2va (m l1 j))))
        (fun _ => Shares m P
          ((List.finRange 512).flatMap fun k => leafNodes (m (pte2va (m l1 j)) k)) s₂) s₂ := by
      apply forM_shares _ h₂.alike
      intro k hk s₃ h₃
      apply shareLeaf_returns h₃ h0.mapped (hP hval)
      intro x hx
      exact hm x (List.mem_cons_of_mem _ (List.mem_flatMap.2 ⟨k, hk, hx⟩))
    refine hloop.mono ?_
    intro _ s₃ h₃
    exact h₂.cons h₃
  · apply Prog.returns_pure
    exact ⟨ha, fun _ _ => rfl, (addAll_nil _).symm, rfl, rfl⟩

/-- An entry of the directory is shared. -/
lemma referenceCountOneTable_returns {dir : BitVec 64} {i : Fin 512} (ha : Alike m s.mem)
    (hd : Mapped dir)
    (hP : valid (m dir i) = true → ∀ j, valid (m (pte2va (m dir i)) j) = true →
      P (pte2va (m (pte2va (m dir i)) j)))
    (hm : ∀ x ∈ l1Nodes m (m dir i), Managed x) :
    Prog.returns (referenceCountOneTable dir i) (fun _ => Shares m P (l1Nodes m (m dir i)) s) s := by
  obtain ⟨hv, hp⟩ := ha dir i
  apply Prog.returns_bind
  refine (readPte_returns hd).mono ?_
  rintro e s₁ ⟨rfl, rfl⟩
  rw [hv, hp]
  rw [l1Nodes] at hm ⊢
  split
  · next hval =>
    rw [if_pos hval] at hm
    have h1 : Managed (pte2va (m dir i)) := hm _ List.mem_cons_self
    apply Prog.returns_bind
    refine (addCount_returns (P := P) h1 ha).mono ?_
    intro _ s₂ h₂
    have hloop : Prog.returns (forM (List.finRange 512) (shareL0 (pte2va (m dir i))))
        (fun _ => Shares m P
          ((List.finRange 512).flatMap fun j => l0Nodes m (m (pte2va (m dir i)) j)) s₂) s₂ := by
      apply forM_shares _ h₂.alike
      intro j hj s₃ h₃
      apply shareL0_returns h₃ h1.mapped (hP hval j)
      intro x hx
      exact hm x (List.mem_cons_of_mem _ (List.mem_flatMap.2 ⟨j, hj, hx⟩))
    refine hloop.mono ?_
    intro _ s₃ h₃
    exact h₂.cons h₃
  · apply Prog.returns_pure
    exact ⟨ha, fun _ _ => rfl, (addAll_nil _).symm, rfl, rfl⟩

/-- The loop of `copy_page_tables` counts every page of the tree once more. -/
lemma shareTree_returns {dir : BitVec 64} (hd : Mapped dir)
    (hP : ∀ i ∈ lowerHalf, valid (s.mem dir i) = true → ∀ j,
      valid (s.mem (pte2va (s.mem dir i)) j) = true → P (pte2va (s.mem (pte2va (s.mem dir i)) j)))
    (hm : ∀ x ∈ tree s.mem dir, Managed x) :
    Prog.returns (forM lowerHalf (referenceCountOneTable dir))
      (fun _ => Shares s.mem P (tree s.mem dir) s) s := by
  apply forM_shares _ (Alike.refl _)
  intro i hi s₁ h₁
  apply referenceCountOneTable_returns h₁ hd (hP i hi)
  intro x hx
  exact hm x (List.mem_flatMap.2 ⟨i, hi, hx⟩)

/-! ## The loops of `free_page_tables` -/

/-- From `s` to `s'` the pages of `l` have been freed, and nothing else is changed. -/
structure Frees (l : List (BitVec 64)) (s s' : Memory) : Prop where
  mem : s'.mem = s.mem
  memMap : s'.memMap = subAll s.memMap l
  pgd : s'.pgd = s.pgd
  swapper : s'.swapperPgDir = s.swapperPgDir

/-- Two lists are given back. -/
lemma Frees.append {s'' : Memory} {l l' : List (BitVec 64)} (h : Frees l s s') (h' : Frees l' s' s'') :
    Frees (l ++ l') s s'' := by
  refine ⟨h'.mem.trans h.mem, ?_, h'.pgd.trans h.pgd, h'.swapper.trans h.swapper⟩
  rw [h'.memMap, h.memMap, subAll_append]

/-- The pages of a list can all be freed. -/
structure Freeable (l : List (BitVec 64)) (s : Memory) : Prop where
  nodup : l.Nodup
  managed : ∀ x ∈ l, Managed x
  counted : ∀ x ∈ l, s.memMap (mapNr x) ≠ 0

/-- The pages of a list are counted at least as often as they occur in it, so that they can be freed
    one after the other. -/
structure Covered (l : List (BitVec 64)) (s : Memory) : Prop where
  managed : ∀ x ∈ l, Managed x
  counted : ∀ x ∈ l, (l.map mapNr).count (mapNr x) ≤ (s.memMap (mapNr x)).toNat

/-- What can be freed is covered. -/
lemma Freeable.covered {l : List (BitVec 64)} (h : Freeable l s) : Covered l s := by
  refine ⟨h.managed, fun x hx => ?_⟩
  rw [count_mapNr h.managed h.nodup (h.managed x hx), if_pos hx, Nat.one_le_iff_ne_zero]
  intro e
  exact h.counted x hx (BitVec.eq_of_toNat_eq e)

/-- The rest of a list can still be freed after a part of it has been. -/
lemma Covered.rest {l l' : List (BitVec 64)} (h : Covered (l ++ l') s) (hf : Frees l s s') :
    Covered l' s' := by
  refine ⟨fun x hx => h.managed x (List.mem_append_right _ hx), fun x hx => ?_⟩
  have hcount := h.counted x (List.mem_append_right l hx)
  rw [List.map_append, List.count_append] at hcount
  have hlt := (s.memMap (mapNr x)).isLt
  rw [hf.memMap, subAll, BitVec.toNat_sub, BitVec.toNat_ofNat]
  omega

/-- The first list is covered if both are. -/
lemma Covered.left {l l' : List (BitVec 64)} (h : Covered (l ++ l') s) : Covered l s := by
  refine ⟨fun x hx => h.managed x (List.mem_append_left _ hx), fun x hx => ?_⟩
  have hcount := h.counted x (List.mem_append_left l' hx)
  rw [List.map_append, List.count_append] at hcount
  omega

/-- What is covered is so in any order. -/
lemma Covered.perm {l l' : List (BitVec 64)} (h : Covered l s) (hp : l.Perm l') : Covered l' s := by
  refine ⟨fun x hx => h.managed x (hp.mem_iff.2 hx), fun x hx => ?_⟩
  rw [← (hp.map mapNr).count_eq]
  exact h.counted x (hp.mem_iff.2 hx)

/-- A page is given back. -/
lemma freePage_returns {addr : BitVec 64} (h : Covered [addr] s) :
    Prog.returns (freePage addr) (fun _ => Frees [addr] s) s := by
  have hm := h.managed addr (List.mem_singleton_self _)
  have hc : s.memMap (mapNr addr) ≠ 0 := by
    have hcount := h.counted addr (List.mem_singleton_self _)
    rw [List.map_singleton, List.count_singleton_self] at hcount
    rintro e
    rw [e] at hcount
    exact absurd hcount (by decide)
  obtain ⟨hl, hh⟩ := hm.range
  rw [freePage, if_neg (BitVec.not_lt.2 hl), if_neg (BitVec.lt_asymm hh)]
  apply Prog.returns_bind
  refine (readMap_returns hm.mapNr_lt).mono ?_
  rintro n s₁ ⟨rfl, rfl⟩
  apply Prog.returns_bind
  apply Prog.returns_modify
  rw [if_pos hc]
  apply Prog.returns_pure
  exact ⟨rfl, (subAll_singleton _ _).symm, rfl, rfl⟩

/-- A loop whose turns free the pages `N a`. -/
lemma forM_frees {ι : Type} {l : List ι} {body : ι → Prog Memory PUnit} {N : ι → List (BitVec 64)}
    (hb : ∀ a s, s.mem = m → Covered (N a) s → Prog.returns (body a) (fun _ => Frees (N a) s) s)
    (hm : s.mem = m) (h : Covered (l.flatMap N) s) :
    Prog.returns (forM l body) (fun _ => Frees (l.flatMap N) s) s := by
  induction l generalizing s with
  | nil =>
    apply Prog.returns_pure
    exact ⟨rfl, (subAll_nil _).symm, rfl, rfl⟩
  | cons a l ih =>
    rw [List.flatMap_cons] at h ⊢
    rw [List.forM_cons]
    apply Prog.returns_bind
    refine (hb a s hm h.left).mono ?_
    intro _ s₁ h₁
    refine (ih (h₁.mem.trans hm) (h.rest h₁)).mono ?_
    intro _ s₂ h₂
    exact h₁.append h₂

/-- A table is freed after the pages below it. -/
lemma freeTable_returns {table : BitVec 64} {l : List (BitVec 64)} {loop : Prog Memory PUnit}
    (hloop : ∀ {s : Memory}, s.mem = m → Covered l s → Prog.returns loop (fun _ => Frees l s) s)
    (hm : s.mem = m) (h : Covered (table :: l) s) :
    Prog.returns (loop >>= fun _ => freePage table) (fun _ => Frees (table :: l) s) s := by
  have hperm : (l ++ [table]).Perm (table :: l) := List.perm_append_singleton table l
  have h' : Covered (l ++ [table]) s := h.perm hperm.symm
  apply Prog.returns_bind
  refine (hloop hm h'.left).mono ?_
  intro _ s₁ h₁
  refine (freePage_returns (h'.rest h₁)).mono ?_
  intro _ s₂ h₂
  have h₃ := h₁.append h₂
  refine ⟨h₃.mem, ?_, h₃.pgd, h₃.swapper⟩
  rw [h₃.memMap, subAll_append, ← subAll_cons]

/-- An entry of the last level is. -/
lemma freeLeaf_returns {l0 : BitVec 64} {k : Fin 512} (hm : s.mem = m) (h0 : Mapped l0)
    (h : Covered (leafNodes (m l0 k)) s) :
    Prog.returns (freeLeaf l0 k) (fun _ => Frees (leafNodes (m l0 k)) s) s := by
  apply Prog.returns_bind
  refine (readPte_returns h0).mono ?_
  rintro e s₁ ⟨rfl, rfl⟩
  rw [hm]
  rw [leafNodes] at h ⊢
  split
  · next hval =>
    rw [if_pos hval] at h
    exact freePage_returns h
  · apply Prog.returns_pure
    exact ⟨rfl, (subAll_nil _).symm, rfl, rfl⟩

/-- A table of the last level is freed. -/
lemma freeL0_returns {l1 : BitVec 64} {j : Fin 512} (hm : s.mem = m) (h1 : Mapped l1)
    (h : Covered (l0Nodes m (m l1 j)) s) :
    Prog.returns (freeL0 l1 j) (fun _ => Frees (l0Nodes m (m l1 j)) s) s := by
  apply Prog.returns_bind
  refine (readPte_returns h1).mono ?_
  rintro e s₁ ⟨rfl, rfl⟩
  rw [hm]
  rw [l0Nodes] at h ⊢
  split
  · next hval =>
    rw [if_pos hval] at h
    have h0 : Mapped (pte2va (m l1 j)) := (h.managed _ List.mem_cons_self).mapped
    refine freeTable_returns ?_ hm h
    intro s₂ hm₂ hf₂
    refine forM_frees ?_ hm₂ hf₂
    intro k s₃ hm₃ hf₃
    exact freeLeaf_returns hm₃ h0 hf₃
  · apply Prog.returns_pure
    exact ⟨rfl, (subAll_nil _).symm, rfl, rfl⟩

/-- An entry of the directory is freed. -/
lemma freeOneTable_returns {dir : BitVec 64} {i : Fin 512} (hm : s.mem = m) (hd : Mapped dir)
    (h : Covered (l1Nodes m (m dir i)) s) :
    Prog.returns (freeOneTable dir i) (fun _ => Frees (l1Nodes m (m dir i)) s) s := by
  apply Prog.returns_bind
  refine (readPte_returns hd).mono ?_
  rintro e s₁ ⟨rfl, rfl⟩
  rw [hm]
  rw [l1Nodes] at h ⊢
  split
  · next hval =>
    rw [if_pos hval] at h
    have h1 : Mapped (pte2va (m dir i)) := (h.managed _ List.mem_cons_self).mapped
    refine freeTable_returns ?_ hm h
    intro s₂ hm₂ hf₂
    refine forM_frees ?_ hm₂ hf₂
    intro j s₃ hm₃ hf₃
    exact freeL0_returns hm₃ h1 hf₃
  · apply Prog.returns_pure
    exact ⟨rfl, (subAll_nil _).symm, rfl, rfl⟩

/-- `free_page_tables` frees the page directory and every page of the tree. -/
lemma freePageTables_returns {c : Fin 64} {dir : BitVec 64} (hc : c ≠ 0) (hd : s.pgd c = some dir)
    (hs : dir ≠ s.swapperPgDir) (h : Covered (s.space c) s) :
    Prog.returns (freePageTables c) (fun _ => Frees (s.space c) s) s := by
  rw [Memory.space, hd] at h ⊢
  apply Prog.returns_bind
  apply Prog.returns_get
  rw [hd]
  show Prog.returns (if c = 0 then _ else if dir = s.swapperPgDir then _ else _) _ s
  rw [if_neg hc, if_neg hs]
  have hdm : Mapped dir := (h.managed dir List.mem_cons_self).mapped
  refine freeTable_returns ?_ rfl h
  intro s₂ hm₂ hf₂
  refine forM_frees ?_ hm₂ hf₂
  intro i s₃ hm₃ hf₃
  exact freeOneTable_returns hm₃ hdm hf₃

end OldLinux.Mm
