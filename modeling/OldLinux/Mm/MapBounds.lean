import OldLinux.Mm.ClearTables
import OldLinux.Mm.PagingInit

/-!
# The bounds of mem_map

Which calls of `free_page`, `free_two_pages` and `copy_page_tables` use an index outside of `mem_map`.
The guards of the first two let the address behind the last page pass, and `free_two_pages` uses the
entry of the next page as well. `copy_page_tables` has no guard at all, so that the pages of the identity
map below `LOW_MEM` are counted in front of the array.
-/

namespace OldLinux.Mm
open Lib Function

/-- A call of a function that uses `mem_map`. -/
inductive MapCall where
  | freePage (addr : BitVec 64)
  | freeTwoPages (addr : BitVec 64)
  | copyPageTables (c nr : Fin 64)

def MapCall.run : MapCall → Prog Memory Unit
  | .freePage addr => Mm.freePage addr
  | .freeTwoPages addr => Mm.freeTwoPages addr
  | .copyPageTables c nr => do
    let _ ← Mm.copyPageTables c nr
    pure ()

/-- The current task of `copy_page_tables` has a page directory. -/
def MapCall.Ready (s : Memory) : MapCall → Prop
  | .copyPageTables c _ => ∃ dir, s.pgd c = some dir ∧ Mapped dir
  | _ => True

/-- The page is one that `mem_map` counts. -/
def InMap (x : BitVec 64) : Prop := p2v lowMem ≤ x ∧ x < p2v highMemory

/-- The tables after `get_free_page` has cleared the `i`-th page and the page directory has been copied
    there. -/
def copiedTables (s : Memory) (i : Nat) (dir : BitVec 64) : BitVec 64 → Fin 512 → BitVec 64 :=
  let mem := update s.mem (pageAddr i) fun _ => 0
  update mem (pageAddr i) (mem dir)

/-- The addresses and page directories for which all indices are in bounds. -/
def MapCall.InBounds (s : Memory) : MapCall → Prop
  | .freePage addr => addr ≠ p2v highMemory
  | .freeTwoPages addr => ¬ (p2v highMemory - pageSize ≤ addr ∧ addr ≤ p2v highMemory)
  | .copyPageTables c _ => ∀ dir i, s.pgd c = some dir → findFree s.memMap 0 pagingPages = some i →
    ∀ x ∈ tree (copiedTables s i dir) dir, InMap x

variable {m : BitVec 64 → Fin 512 → BitVec 64} {s : Memory} {x addr dir l0 l1 : BitVec 64}
  {i j k : Fin 512} {c nr : Fin 64}

/-- An address has a place in the map exactly if it is in the range. -/
lemma mapNr_lt_iff : mapNr x < pagingPages ↔ InMap x := by
  refine ⟨fun h => ?_, fun h => mapNr_lt h.1 h.2⟩
  have h : mapNr x < 31232 := h
  rw [mapNr, BitVec.toNat_ushiftRight, BitVec.toNat_sub, lowMemory_toNat, Nat.shiftRight_eq_div_pow] at h
  have hx := x.isLt
  rw [InMap, BitVec.le_def, BitVec.lt_def, lowMemory_toNat, highMemory_toNat]
  omega

/-- The map is read in bounds. -/
lemma readMap_wp {i : Nat} : Prog.wp (readMap i) (fun _ s' => i < pagingPages ∧ s' = s) s := by
  rw [readMap, Prog.wp_bind, Prog.wp_get]
  split
  · next h => exact Prog.wp_pure.2 ⟨h, rfl⟩
  · exact Prog.wp_fault

/-- Out of bounds is a fault. -/
lemma readMap_out {i : Nat} (h : ¬ i < pagingPages) : readMap i s = .fault := by
  rw [readMap, Prog.bind_of_ret (t := s) rfl, if_neg h]
  rfl

/-- A fault is the end. -/
lemma fault_bind {α β : Type} {p : Prog Memory α} {f : α → Prog Memory β} (h : p s = .fault) :
    (p >>= f) s = .fault := by
  show Prog.andThen p f s = _
  rw [Prog.andThen, h]

/-! ## Freeing -/

/-- `free_page` is in bounds but for one address. -/
lemma freePage_in_bounds : freePage addr s ≠ .fault ↔ addr ≠ p2v highMemory := by
  constructor
  · rintro h rfl
    apply h
    rw [freePage, if_neg (by decide), if_neg (by decide)]
    exact fault_bind (readMap_out (by decide))
  · intro h
    by_cases hx : addr < p2v highMemory
    · rcases freePage_cases (s := s) hx with ⟨_, e⟩ | ⟨_, msg, e⟩
      · rw [e]
        rintro ⟨⟩
      · rw [e]
        rintro ⟨⟩
    · have hgt : addr > p2v highMemory := by
        rw [gt_iff_lt, BitVec.lt_def]
        rw [BitVec.lt_def] at hx
        rw [Ne, BitVec.toNat_eq] at h
        omega
      have hl : ¬ addr < p2v lowMem := BitVec.lt_asymm (BitVec.lt_trans (by decide) hgt)
      rw [freePage, if_neg hl, if_pos hgt]
      rintro ⟨⟩

/-- `free_two_pages` is but for the last page and the address behind it. -/
lemma freeTwoPages_in_bounds : freeTwoPages addr s ≠ .fault ↔
    ¬ (p2v highMemory - pageSize ≤ addr ∧ addr ≤ p2v highMemory) := by
  have hend : (p2v highMemory - pageSize).toNat = 0xFFFFFFC007DFF000 := by decide
  have hnr : ∀ {i : Nat}, ¬ addr < p2v lowMem →
      (mapNr addr < i ↔ addr.toNat < 0xFFFFFFC000400000 + i * 4096) := by
    intro i hl
    rw [BitVec.lt_def, lowMemory_toNat] at hl
    rw [mapNr, BitVec.toNat_ushiftRight, BitVec.toNat_sub, lowMemory_toNat, Nat.shiftRight_eq_div_pow]
    have := addr.isLt
    omega
  rw [BitVec.le_def, BitVec.le_def, hend, highMemory_toNat]
  by_cases hl : addr < p2v lowMem
  · rw [freeTwoPages, if_pos hl]
    rw [BitVec.lt_def, lowMemory_toNat] at hl
    refine ⟨fun _ => by omega, fun _ e => ?_⟩
    cases e
  by_cases hh : addr > p2v highMemory
  · rw [freeTwoPages, if_neg hl, if_pos hh]
    rw [gt_iff_lt, BitVec.lt_def, highMemory_toNat] at hh
    refine ⟨fun _ => by omega, fun _ e => ?_⟩
    cases e
  rw [freeTwoPages, if_neg hl, if_neg hh]
  rw [gt_iff_lt, BitVec.lt_def, highMemory_toNat] at hh
  have hnr₀ := hnr (i := 31232) hl
  have hnr₁ := hnr (i := 31231) hl
  by_cases h0 : mapNr addr < pagingPages
  · rw [Prog.bind_of_ret (readMap_eq h0), Prog.bind_of_ret (a := ()) rfl]
    by_cases h1 : mapNr addr + 1 < pagingPages
    · have h1' : mapNr addr + 1 < 31232 := h1
      rw [Prog.bind_of_ret (readMap_eq h1), Prog.bind_of_ret (a := ()) rfl]
      refine ⟨fun _ => by omega, fun _ => ?_⟩
      split
      · rintro ⟨⟩
      · rintro ⟨⟩
    · have h1' : ¬ mapNr addr + 1 < 31232 := h1
      refine ⟨fun h => absurd (fault_bind (readMap_out h1)) h, fun h => ?_⟩
      omega
  · have h0' : ¬ mapNr addr < 31232 := h0
    refine ⟨fun h => absurd (fault_bind (readMap_out h0)) h, fun h => ?_⟩
    omega

/-! ## Copying -/

/-- Reading an entry does not panic. -/
lemma readPte_quiet {t : BitVec 64} : Prog.quiet (readPte t i) := by
  refine Prog.quiet_bind Prog.quiet_get fun s => ?_
  split
  · exact Prog.quiet_pure
  · exact Prog.quiet_fault

/-- Counting up does not panic. -/
lemma addCount_quiet : Prog.quiet (addCount x) := by
  refine Prog.quiet_bind (Prog.quiet_bind Prog.quiet_get fun s => ?_) fun _ => Prog.quiet_modify
  split
  · exact Prog.quiet_pure
  · exact Prog.quiet_fault

/-- Sharing a table does not panic. -/
lemma referenceCountOneTable_quiet : Prog.quiet (referenceCountOneTable dir i) := by
  refine Prog.quiet_bind readPte_quiet fun pte => ?_
  split
  · refine Prog.quiet_bind addCount_quiet fun _ => Prog.quiet_forM fun j => ?_
    refine Prog.quiet_bind readPte_quiet fun pte => ?_
    split
    · refine Prog.quiet_bind addCount_quiet fun _ => Prog.quiet_forM fun k => ?_
      refine Prog.quiet_bind readPte_quiet fun pte => ?_
      split
      · exact Prog.quiet_bind Prog.quiet_modify fun _ => addCount_quiet
      · exact Prog.quiet_pure
    · exact Prog.quiet_pure
  · exact Prog.quiet_pure

/-- Counting a page takes an index in bounds. -/
lemma addCount_inMap : Prog.wp (addCount x) (fun _ s' => s'.mem = s.mem ∧ InMap x) s := by
  rw [addCount, Prog.wp_bind]
  refine readMap_wp.mono ?_
  rintro n s₁ ⟨hlt, rfl⟩
  rw [writeMap, Prog.wp_modify]
  exact ⟨rfl, mapNr_lt_iff.1 hlt⟩

/-- A loop whose turns count the pages `N a`. -/
lemma forM_inMap {ι : Type} {l : List ι} {body : ι → Prog Memory PUnit} {N : ι → List (BitVec 64)}
    (hb : ∀ a s, Alike m s.mem → Prog.wp (body a) (fun _ s' => Alike m s'.mem ∧ ∀ x ∈ N a, InMap x) s)
    (h : Alike m s.mem) :
    Prog.wp (forM l body) (fun _ s' => Alike m s'.mem ∧ ∀ x ∈ l.flatMap N, InMap x) s := by
  induction l generalizing s with
  | nil => exact Prog.wp_pure.2 ⟨h, List.forall_mem_nil _⟩
  | cons a l ih =>
    rw [List.forM_cons, Prog.wp_bind]
    refine (hb a s h).mono ?_
    rintro _ s₁ ⟨h₁, hx₁⟩
    refine (ih h₁).mono ?_
    rintro _ s₂ ⟨h₂, hx₂⟩
    refine ⟨h₂, fun x hx => ?_⟩
    rw [List.flatMap_cons] at hx
    cases List.mem_append.1 hx with
    | inl hx => exact hx₁ x hx
    | inr hx => exact hx₂ x hx

/-- A table is counted before the pages below it. -/
lemma countTable_inMap {l : List (BitVec 64)} {loop : Prog Memory PUnit} (h : Alike m s.mem)
    (hloop : ∀ s : Memory, Alike m s.mem →
      Prog.wp loop (fun _ s' => Alike m s'.mem ∧ ∀ x ∈ l, InMap x) s) :
    Prog.wp (addCount x >>= fun _ => loop)
      (fun _ s' => Alike m s'.mem ∧ ∀ y ∈ x :: l, InMap y) s := by
  rw [Prog.wp_bind]
  refine addCount_inMap.mono ?_
  rintro _ s₁ ⟨hm, hx⟩
  refine (hloop s₁ (hm ▸ h)).mono ?_
  rintro _ s₂ ⟨h₂, hl⟩
  exact ⟨h₂, List.forall_mem_cons.2 ⟨hx, hl⟩⟩

/-- Sharing a page stays in the map if the page is in it. -/
lemma shareLeaf_inMap (h : Alike m s.mem) :
    Prog.wp (shareLeaf l0 k) (fun _ s' => Alike m s'.mem ∧ ∀ x ∈ leafNodes (m l0 k), InMap x) s := by
  obtain ⟨hv, hp⟩ := h l0 k
  rw [shareLeaf, Prog.wp_bind]
  refine readPte_wp.mono ?_
  rintro e s₁ ⟨rfl, rfl⟩
  rw [hv, leafNodes]
  split
  · next hval =>
    have hva : pte2va (setFlags (s₁.mem l0 k) sharedPerm) = pte2va (m l0 k) := by
      rw [pte2va_setFlags (by decide), hp]
    rw [Prog.wp_bind, writePte, Prog.wp_modify, hva]
    refine addCount_inMap.mono ?_
    rintro _ s₂ ⟨hm, hx⟩
    refine ⟨?_, List.forall_mem_singleton.2 hx⟩
    rw [hm]
    apply h.write
    · rw [valid_setFlags (by decide), hv, hval]
    · exact pte2va_setFlags (by decide)
  · exact Prog.wp_pure.2 ⟨h, List.forall_mem_nil _⟩

/-- So does sharing a table. -/
lemma shareL0_inMap (h : Alike m s.mem) :
    Prog.wp (shareL0 l1 j) (fun _ s' => Alike m s'.mem ∧ ∀ x ∈ l0Nodes m (m l1 j), InMap x) s := by
  obtain ⟨hv, hp⟩ := h l1 j
  rw [shareL0, Prog.wp_bind]
  refine readPte_wp.mono ?_
  rintro e s₁ ⟨rfl, rfl⟩
  rw [hv, hp, l0Nodes]
  split
  · apply countTable_inMap h
    intro s₂ h₂
    apply forM_inMap _ h₂
    intro k s₃ h₃
    exact shareLeaf_inMap h₃
  · exact Prog.wp_pure.2 ⟨h, List.forall_mem_nil _⟩

/-- Sharing an entry of the directory stays in the map. -/
lemma referenceCountOneTable_inMap (h : Alike m s.mem) :
    Prog.wp (referenceCountOneTable dir i)
      (fun _ s' => Alike m s'.mem ∧ ∀ x ∈ l1Nodes m (m dir i), InMap x) s := by
  obtain ⟨hv, hp⟩ := h dir i
  rw [referenceCountOneTable, Prog.wp_bind]
  refine readPte_wp.mono ?_
  rintro e s₁ ⟨rfl, rfl⟩
  rw [hv, hp, l1Nodes]
  split
  · apply countTable_inMap h
    intro s₂ h₂
    apply forM_inMap _ h₂
    intro j s₃ h₃
    exact shareL0_inMap h₃
  · exact Prog.wp_pure.2 ⟨h, List.forall_mem_nil _⟩

/-- The pages that entries name are aligned. -/
lemma pte2va_managed {pte : BitVec 64} (h : InMap (pte2va pte)) : Managed (pte2va pte) := by
  have ha : (pte2va pte).toNat % 4096 = 0 := by
    rw [pte2va, p2v_toNat, pte2pa, BitVec.toNat_shiftLeft, Nat.shiftLeft_eq]
    omega
  have hh := BitVec.lt_def.1 h.2
  rw [highMemory_toNat] at hh
  refine IsPage.managed ⟨ha, h.1, ?_⟩
  rw [highMemory_toNat]
  omega

/-- A page in the map is managed. -/
lemma leafNodes_managed {pte : BitVec 64} (h : ∀ x ∈ leafNodes pte, InMap x) :
    ∀ x ∈ leafNodes pte, Managed x := by
  rw [leafNodes] at h ⊢
  split
  · rw [if_pos ‹_›] at h
    exact List.forall_mem_singleton.2 (pte2va_managed (h _ (List.mem_singleton_self _)))
  · exact List.forall_mem_nil _

/-- The pages of a table in the map are managed. -/
lemma l0Nodes_managed {pte : BitVec 64} (h : ∀ x ∈ l0Nodes m pte, InMap x) :
    ∀ x ∈ l0Nodes m pte, Managed x := by
  rw [l0Nodes] at h ⊢
  split
  · rw [if_pos ‹_›] at h
    obtain ⟨hhead, htail⟩ := List.forall_mem_cons.1 h
    refine List.forall_mem_cons.2 ⟨pte2va_managed hhead, fun x hx => ?_⟩
    obtain ⟨k, hk, hx⟩ := List.mem_flatMap.1 hx
    exact leafNodes_managed (fun y hy => htail y (List.mem_flatMap.2 ⟨k, hk, hy⟩)) x hx
  · exact List.forall_mem_nil _

/-- The pages of an entry of the directory in the map are managed. -/
lemma l1Nodes_managed {pte : BitVec 64} (h : ∀ x ∈ l1Nodes m pte, InMap x) :
    ∀ x ∈ l1Nodes m pte, Managed x := by
  rw [l1Nodes] at h ⊢
  split
  · rw [if_pos ‹_›] at h
    obtain ⟨hhead, htail⟩ := List.forall_mem_cons.1 h
    refine List.forall_mem_cons.2 ⟨pte2va_managed hhead, fun x hx => ?_⟩
    obtain ⟨j, hj, hx⟩ := List.mem_flatMap.1 hx
    exact l0Nodes_managed (fun y hy => htail y (List.mem_flatMap.2 ⟨j, hj, hy⟩)) x hx
  · exact List.forall_mem_nil _

/-- The pages of a tree in the map are managed. -/
lemma tree_managed (h : ∀ x ∈ tree m dir, InMap x) : ∀ x ∈ tree m dir, Managed x := by
  intro x hx
  obtain ⟨i, hi, hx⟩ := List.mem_flatMap.1 hx
  exact l1Nodes_managed (fun y hy => h y (List.mem_flatMap.2 ⟨i, hi, hy⟩)) x hx

/-- The memory in which `copy_page_tables` counts the pages. -/
def Memory.copyTo (s : Memory) (nr : Fin 64) (i : Nat) (dir : BitVec 64) : Memory :=
  { s with
    mem := copiedTables s i dir
    memMap := update s.memMap i 1
    pgd := update s.pgd nr (some (pageAddr i)) }

/-- Without a free page nothing is copied. -/
lemma copyPageTables_none (hd : s.pgd c = some dir) (h : findFree s.memMap 0 pagingPages = none) :
    copyPageTables c nr s = .ret (-enomem, s) := by
  rw [copyPageTables, Prog.bind_of_ret (t := s) rfl, hd]
  show (getFreePage >>= _) s = _
  rw [Prog.bind_of_ret (getFreePage_none h)]
  rfl

/-- With one the directory is copied and all is shared. -/
lemma copyPageTables_some {n : Nat} (hd : s.pgd c = some dir)
    (h : findFree s.memMap 0 pagingPages = some n) :
    copyPageTables c nr s = (forM lowerHalf (referenceCountOneTable dir) >>= fun _ => pure 0)
      (s.copyTo nr n dir) := by
  rw [copyPageTables, Prog.bind_of_ret (t := s) rfl, hd]
  show (getFreePage >>= _) s = _
  rw [Prog.bind_of_ret (getFreePage_some h)]
  rfl

/-- `copy_page_tables` is in bounds exactly if the pages of the tree are. -/
lemma copyPageTables_in_bounds (hd : s.pgd c = some dir) (hm : Mapped dir) :
    copyPageTables c nr s ≠ .fault ↔ ∀ i, findFree s.memMap 0 pagingPages = some i →
      ∀ x ∈ tree (copiedTables s i dir) dir, InMap x := by
  cases hf : findFree s.memMap 0 pagingPages with
  | none =>
    rw [copyPageTables_none hd hf]
    exact ⟨fun _ => nofun, fun _ => nofun⟩
  | some n =>
    rw [copyPageTables_some hd hf]
    constructor
    · rintro h i ⟨⟩
      have hq : Prog.quiet (forM lowerHalf (referenceCountOneTable dir) >>= fun _ => pure (0 : Int)) :=
        Prog.quiet_bind (Prog.quiet_forM fun _ => referenceCountOneTable_quiet) fun _ => Prog.quiet_pure
      obtain ⟨r, s', e⟩ := hq.returns h
      obtain ⟨_, s₁, e₁, _⟩ := Prog.bind_ret_iff.1 e
      exact (forM_inMap (m := copiedTables s n dir) (fun _ _ h => referenceCountOneTable_inMap h)
        (.refl _) _ _ e₁).2
    · intro h
      obtain ⟨_, s₁, e₁, _⟩ := shareTree_returns (s := s.copyTo nr n dir) (P := fun _ => True) hm
        (fun _ _ _ _ _ => trivial) (tree_managed (h n rfl))
      rw [Prog.bind_of_ret e₁]
      nofun

/-! ## The bounds -/

/-- The result of `copy_page_tables` is not needed. -/
lemma copy_run : (MapCall.copyPageTables c nr).run s ≠ .fault ↔ copyPageTables c nr s ≠ .fault := by
  show Prog.andThen (copyPageTables c nr) _ s ≠ _ ↔ _
  rw [Prog.andThen]
  cases copyPageTables c nr s with
  | ret r => exact ⟨fun _ => nofun, fun _ => nofun⟩
  | panic msg => exact ⟨fun _ => nofun, fun _ => nofun⟩
  | fault => exact ⟨fun h => absurd rfl h, fun h => absurd rfl h⟩

/-- **When all indices are in bounds**: for `free_page` unless the address is the end of the memory, for
    `free_two_pages` unless it is in the last page or the end, and for `copy_page_tables` if every table
    and page of the lower half is one that `mem_map` counts. -/
theorem mem_map_in_bounds {call : MapCall} (h : call.Ready s) :
    call.run s ≠ .fault ↔ call.InBounds s := by
  cases call with
  | freePage addr => exact freePage_in_bounds
  | freeTwoPages addr => exact freeTwoPages_in_bounds
  | copyPageTables c nr =>
    obtain ⟨dir, hd, hm⟩ := h
    rw [copy_run, copyPageTables_in_bounds hd hm]
    constructor
    · rintro hb dir' i hd' hf
      rw [hd] at hd'
      cases hd'
      exact hb i hf
    · exact fun hb i hf => hb dir i hd hf

/-- Task 1 has one page. -/
theorem mem_map_in_bounds_onePage :
    (MapCall.copyPageTables 1 2).run onePage ≠ .fault ↔ (MapCall.copyPageTables 1 2).InBounds onePage :=
  mem_map_in_bounds ⟨pageAddr 2, by decide, by decide⟩

/-- A page at the end of a path is in the tree. -/
lemma mem_tree_of_follow {t : BitVec 64} (hi : i ∈ lowerHalf) (hf : follow m dir [i, j] = some t)
    (hv : valid (m t k) = true) : pte2va (m t k) ∈ tree m dir := by
  rw [follow] at hf
  split at hf
  · next hp =>
    rw [follow] at hf
    split at hf
    · next hp' =>
      obtain rfl := Option.some.inj hf
      refine List.mem_flatMap.2 ⟨i, hi, ?_⟩
      rw [l1Nodes, if_pos (valid_of_pointer hp)]
      refine List.mem_cons_of_mem _ (List.mem_flatMap.2 ⟨j, List.mem_finRange j, ?_⟩)
      rw [l0Nodes, if_pos (valid_of_pointer hp')]
      refine List.mem_cons_of_mem _ (List.mem_flatMap.2 ⟨k, List.mem_finRange k, ?_⟩)
      rw [leafNodes, if_pos hv]
      exact List.mem_singleton_self _
    · cases hf
  · cases hf

/-- `copy_page_tables` of the finished `swapper_pg_dir` meets the first page of the kernel's image. -/
lemma Built.counts_kernel {n : Nat} (h : Built dir highMemory 0x11000#64 0x10002000#64 s)
    (hn : findFree s.memMap 0 pagingPages = some n) :
    p2v paKernel ∈ tree (copiedTables s n dir) dir := by
  obtain ⟨h0, hlt⟩ := findFree_some hn
  rw [Nat.zero_add] at hlt
  have hrow : ∀ u, IsTable s.mem 2 dir u → copiedTables s n dir u = s.mem u := by
    intro u hu
    have hne : u ≠ pageAddr n := h.kernel.tree.ne_free hu ⟨n, hlt, rfl⟩ (by rw [mapNr_pageAddr hlt, h0])
    rw [copiedTables, update_of_ne hne, update_of_ne hne]
  have hentry := h.entries paKernel (by decide) (by decide)
  have hlayout : layout highMemory 0x11000#64 0x10002000#64 paKernel =
      pa2pte paKernel ||| (pteU ||| kernelPerm) := by decide
  rw [entryFor, hlayout] at hentry
  cases hf : follow s.mem dir [px 2 paKernel, px 1 paKernel] with
  | none =>
    rw [entryAt_none hf] at hentry
    exact absurd hentry (by decide)
  | some t =>
    rw [entryAt_some hf, ← hrow t ⟨[px 2 paKernel, px 1 paKernel], Nat.le_refl 2, hf⟩] at hentry
    have hname : pte2va (pa2pte paKernel ||| (pteU ||| kernelPerm)) = p2v paKernel := by decide
    have hin := mem_tree_of_follow (m := copiedTables s n dir) (by decide)
      ((follow_congr (p := [px 2 paKernel, px 1 paKernel]) hrow (Nat.le_refl 2)).trans hf) (by rw [hentry]; decide)
    rwa [hentry, hname] at hin

/-- Indices out of bounds: the end of the memory, the last page as the first of a pair, and the fork of
    task 0 with `swapper_pg_dir` as `paging_init` builds it. -/
theorem mem_map_out_of_bounds : (MapCall.freePage (p2v highMemory)).run blank = .fault ∧
    (MapCall.freeTwoPages (p2v highMemory - pageSize)).run blank = .fault ∧
    ∃ rs s', pagingInit blank = .ret (rs, s') ∧ (MapCall.copyPageTables 0 1).run
      { s' with pgd := update (fun _ => none) 0 (some blank.swapperPgDir) } = .fault := by
  refine ⟨?_, ?_, ?_⟩
  · by_contra h
    exact freePage_in_bounds.1 h rfl
  · by_contra h
    exact freeTwoPages_in_bounds.1 h (by decide)
  · obtain ⟨rs, s', e, _, h⟩ := pagingInit_built (s := blank)
      (.empty (by decide) (fun h => BitVec.not_lt.2 h.range.1 (by decide)) rfl fun _ => rfl)
    refine ⟨rs, s', e, ?_⟩
    cases hf : findFree s'.memMap 0 pagingPages with
    | none =>
      rcases getFreePage_cases (s := s') with ⟨hnone, _⟩ | ⟨page, _, _, e'⟩
      · exact absurd hnone (h.kernel.has_free (by decide))
      · rw [getFreePage_none hf] at e'
        cases e'
    | some n =>
      by_contra hne
      have hd : (⟨s'.mem, s'.memMap, update (fun _ => none) 0 (some blank.swapperPgDir),
          s'.swapperPgDir⟩ : Memory).pgd 0 = some blank.swapperPgDir := rfl
      have hin := (copyPageTables_in_bounds hd (by decide)).1 (copy_run.1 hne) n hf _ (h.counts_kernel hf)
      exact absurd hin.1 (by decide)

end OldLinux.Mm
