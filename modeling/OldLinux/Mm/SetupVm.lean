import OldLinux.Mm.PagingInit

/-!
# The first page tables

Model of `setup_vm` and `load_root_page_table` (`mm/memory.c`) and of the values that `relocate_enable_mmu`
(`boot/head.S`) writes to `satp`. `setup_vm` runs with the MMU off, so that the tables are named by their physical
addresses. Its two tables map the memory by pages of 2 MiB; the kernel runs on them until `paging_init` is done.
-/

namespace OldLinux.Mm
open Lib Function

/-- `PMD_SIZE`. -/
def pmdSize : BitVec 64 := pageSize <<< 9

/-- The loop of `setup_vm` from `i` on, with `n` turns to go. -/
def setupLeaves (trampolinePgL2pte paEnd : BitVec 64) (i : Nat) (paStart : BitVec 64) : Nat → Prog Memory Unit
  | 0 => pure ()
  | n + 1 =>
    if paStart < paEnd then do
      writePte (p2v trampolinePgL2pte) (Fin.ofNat 512 i) (pa2pte paStart ||| kernelPerm)
      setupLeaves trampolinePgL2pte paEnd (i + 1) (paStart + pmdSize) n
    else pure ()

/-- `setup_vm(dtb_pa)`. The value is what is stored in `dtb_va`. -/
def setupVm (trampolinePgDir trampolinePgL2pte dtbPa : BitVec 64) : Prog Memory (BitVec 64) := do
  let paEnd := (highMemory + pmdSize - 1) &&& ~~~(pmdSize - 1)
  let start := (px 1 vaKernel).val
  writePte (p2v trampolinePgDir) (px 2 vaKernel) (pa2pte trampolinePgL2pte ||| pteV)
  setupLeaves trampolinePgL2pte paEnd start paKernel (512 - start)
  pure (p2v dtbPa)

/-! ## satp -/

/-- `SATP_MODE_39`. -/
def satpMode39 : BitVec 64 := 0x8000000000000000#64

/-- What `relocate_enable_mmu` writes to `satp` for the table in `a0`. -/
def relocateEnableMmu (pgDir : BitVec 64) : BitVec 64 := (pgDir >>> 12) ||| satpMode39

/-- What `load_root_page_table(satp_mode, root_page_table)` writes to `satp`. -/
def loadRootPageTable (satpMode rootPageTable : BitVec 64) : BitVec 64 := satpMode ||| (v2p rootPageTable >>> 12)

/-- The root page table of a `satp`. -/
def satpRoot (satp : BitVec 64) : BitVec 64 := (satp &&& 0xFFFFFFFFFFF#64) <<< 12

/-- The size of a page at a level. -/
def sizeAt (level : Nat) : Nat := 2 ^ (12 + 9 * level)

/-- The physical address and the flags that an address has under a `satp` of Sv39; a large page has to be aligned
    to its size. -/
def mmu (m : BitVec 64 → Fin 512 → BitVec 64) (satp va : BitVec 64) : Option (BitVec 64 × BitVec 64) :=
  (sv39 m (p2v (satpRoot satp)) va).bind fun leaf =>
    if leaf.page.toNat % sizeAt leaf.level = 0 then
      some (leaf.page + .ofNat 64 (va.toNat % sizeAt leaf.level), leaf.flags)
    else none

/-- A page of the kernel's image. -/
def ImagePage (pa : BitVec 64) : Prop := Aligned pa ∧ paKernel ≤ pa ∧ pa < lowMem

instance (pa : BitVec 64) : Decidable (ImagePage pa) := inferInstanceAs (Decidable (_ ∧ _))

/-- The memory before `setup_vm`: the three tables are empty pages of the kernel's image, and no page is in use. -/
structure Image (dir l2pte : BitVec 64) (s : Memory) : Prop where
  root : ImagePage dir
  leaves : ImagePage l2pte
  swapper : ImagePage (v2p s.swapperPgDir)
  distinct : dir ≠ l2pte
  beside : s.swapperPgDir ≠ p2v dir ∧ s.swapperPgDir ≠ p2v l2pte
  empty : ∀ t ∈ [p2v dir, p2v l2pte, s.swapperPgDir], s.mem t = fun _ => 0
  free : ∀ k, s.memMap k = 0

variable {m : BitVec 64 → Fin 512 → BitVec 64} {s s' : Memory} {dir l2pte pa va va' : BitVec 64} {i n : Nat}

/-! ## The two tables -/

/-- The leaf of entry `k`. -/
def pmdAddr (k : Nat) : BitVec 64 := paKernel + .ofNat 64 (k * 0x200000)

/-- The address of a large page. -/
lemma pmdAddr_toNat (h : i ≤ 63) : (pmdAddr i).toNat = 0x80200000 + i * 0x200000 := by
  have hk : paKernel.toNat = 0x80200000 := rfl
  rw [pmdAddr, BitVec.toNat_add, BitVec.toNat_ofNat, hk]
  omega

/-- They follow one another. -/
lemma pmdAddr_succ (h : i < 63) : pmdAddr i + pmdSize = pmdAddr (i + 1) := by
  have hp : pmdSize.toNat = 0x200000 := rfl
  apply BitVec.eq_of_toNat_eq
  rw [BitVec.toNat_add, hp, pmdAddr_toNat h.le, pmdAddr_toNat h]
  omega

/-- The tables when `setup_vm` is done. -/
structure Trampoline (dir l2pte : BitVec 64) (m : BitVec 64 → Fin 512 → BitVec 64) : Prop where
  root : ∀ k, m (p2v dir) k = if k = 256 then pa2pte l2pte ||| pteV else 0
  leaves : ∀ k, m (p2v l2pte) k = if k.val < 63 then pa2pte (pmdAddr k) ||| kernelPerm else 0

/-- A turn of the loop writes one leaf. -/
lemma leaves_next (hi : i < 63) :
    update (update m (p2v l2pte) (update (m (p2v l2pte)) (Fin.ofNat 512 i) (pa2pte (pmdAddr i) ||| kernelPerm)))
      (p2v l2pte) (fun k => if i + 1 ≤ k.val ∧ k.val < 63 then pa2pte (pmdAddr k) ||| kernelPerm
        else update m (p2v l2pte) (update (m (p2v l2pte)) (Fin.ofNat 512 i)
          (pa2pte (pmdAddr i) ||| kernelPerm)) (p2v l2pte) k) =
    update m (p2v l2pte) fun k =>
      if i ≤ k.val ∧ k.val < 63 then pa2pte (pmdAddr k) ||| kernelPerm else m (p2v l2pte) k := by
  have hval : (Fin.ofNat 512 i).val = i := Nat.mod_eq_of_lt (by omega)
  rw [update_idem, update_self]
  congr 1
  funext k
  by_cases hk : k = Fin.ofNat 512 i
  · have hki : k.val = i := by rw [hk, hval]
    rw [if_neg (by omega), hk, update_self, hval, if_pos ⟨le_rfl, hi⟩]
  · have hki : k.val ≠ i := fun h => hk (Fin.ext (h.trans hval.symm))
    have hiff : (i + 1 ≤ k.val ∧ k.val < 63) ↔ i ≤ k.val ∧ k.val < 63 := by omega
    rw [update_of_ne hk]
    simp only [hiff]

/-- The rest of the loop writes the rest of the leaves. -/
lemma setupLeaves_returns (hi : i ≤ 63) (hn : i + n = 512) :
    Prog.returns (setupLeaves l2pte highMemory i (pmdAddr i) n)
      (fun _ s' => s' = { s with mem := update s.mem (p2v l2pte) fun k =>
        if i ≤ k.val ∧ k.val < 63 then pa2pte (pmdAddr k) ||| kernelPerm else s.mem (p2v l2pte) k }) s := by
  induction n generalizing i s with
  | zero => omega
  | succ n ih =>
    have hh : highMemory.toNat = 0x88000000 := rfl
    have ha := pmdAddr_toNat hi
    rw [setupLeaves]
    split
    · next hlt =>
      rw [BitVec.lt_def, ha, hh] at hlt
      have hi' : i < 63 := by omega
      rw [writePte]
      apply Prog.returns_bind
      apply Prog.returns_modify
      rw [pmdAddr_succ hi']
      refine (ih hi' (by omega)).mono ?_
      rintro _ s' rfl
      dsimp only
      exact congrArg (fun m => ({ s with mem := m } : Memory)) (leaves_next hi')
    · next hge =>
      rw [BitVec.lt_def, ha, hh] at hge
      apply Prog.returns_pure
      have hnone : (fun k : Fin 512 => if i ≤ k.val ∧ k.val < 63 then pa2pte (pmdAddr k) ||| kernelPerm
          else s.mem (p2v l2pte) k) = s.mem (p2v l2pte) := by
        funext k
        exact if_neg (by omega)
      rw [hnone, update_eq_self]

/-- Different physical addresses have different virtual ones. -/
lemma p2v_inj {a b : BitVec 64} (h : p2v a = p2v b) : a = b := by
  rw [← v2p_p2v (a := a), h, v2p_p2v]

/-- `setup_vm` writes the two tables and nothing else. -/
lemma setupVm_returns (h : Image dir l2pte s) (dtbPa : BitVec 64) :
    Prog.returns (setupVm dir l2pte dtbPa) (fun dtbVa s' => dtbVa = p2v dtbPa ∧
      Trampoline dir l2pte s'.mem ∧ (∀ t, t ≠ p2v dir → t ≠ p2v l2pte → s'.mem t = s.mem t) ∧
      s'.memMap = s.memMap ∧ s'.swapperPgDir = s.swapperPgDir) s := by
  have hend : (highMemory + pmdSize - 1) &&& ~~~(pmdSize - 1) = highMemory := by decide
  have hstart : (px 1 vaKernel).val = 0 := by decide
  have h256 : px 2 vaKernel = 256 := by decide
  have h0 : paKernel = pmdAddr 0 := by decide
  have hne : p2v l2pte ≠ p2v dir := fun e => h.distinct (p2v_inj e).symm
  have hdir := h.empty (p2v dir) (.head _)
  have hl2 := h.empty (p2v l2pte) (.tail _ (.head _))
  rw [setupVm, hend, hstart, h256, h0, writePte]
  apply Prog.returns_bind
  apply Prog.returns_modify
  apply Prog.returns_bind
  refine (setupLeaves_returns (Nat.zero_le _) rfl).mono ?_
  rintro _ s' rfl
  apply Prog.returns_pure
  refine ⟨rfl, ⟨fun k => ?_, fun k => ?_⟩, fun t ht ht' => ?_, rfl, rfl⟩
  · dsimp only
    rw [update_of_ne hne.symm, update_self, hdir, update_apply]
  · dsimp only
    rw [update_self, update_of_ne hne, hl2]
    simp only [Nat.zero_le, true_and]
  · dsimp only
    rw [update_of_ne ht', update_of_ne ht]

/-! ## The early map -/

/-- The entries of the two tables. -/
lemma trampoline_link (h : ImagePage l2pte) : pointer (pa2pte l2pte ||| pteV) = true ∧
    pte2va (pa2pte l2pte ||| pteV) = p2v l2pte := by
  have hflags : (pa2pte l2pte ||| pteV) &&& 0x3FF#64 = pteV := pte_flags (by decide)
  have hlow : l2pte.toNat < 0x80600000 := BitVec.lt_def.1 h.2.2
  have hv : valid (pa2pte l2pte ||| pteV) = true := by
    rw [valid, BitVec.getLsbD_or]
    simp [pteV]
  have hrwx : (pa2pte l2pte ||| pteV) &&& (pteR ||| pteW ||| pteX) = 0 := by
    have hsub : (pteR ||| pteW ||| pteX) = 0x3FF#64 &&& (pteR ||| pteW ||| pteX) := by decide
    rw [hsub, ← BitVec.and_assoc, hflags]
    decide
  constructor
  · rw [pointer, hv, hrwx]
    rfl
  · rw [pte2va, pte_page h.1 (by omega) (by decide)]

/-- An entry of the trampoline is a large page. -/
lemma trampoline_leaf (hi : i < 63) : valid (pa2pte (pmdAddr i) ||| kernelPerm) = true ∧
    pointer (pa2pte (pmdAddr i) ||| kernelPerm) = false ∧
    leafOf 1 (pa2pte (pmdAddr i) ||| kernelPerm) = some ⟨1, pmdAddr i, kernelPerm⟩ := by
  have ha := pmdAddr_toNat hi.le
  have hal : Aligned (pmdAddr i) := by
    rw [Aligned, ha]
    omega
  have hflags : (pa2pte (pmdAddr i) ||| kernelPerm) &&& 0x3FF#64 = kernelPerm := pte_flags (by decide)
  have hv : valid (pa2pte (pmdAddr i) ||| kernelPerm) = true := by
    rw [valid, BitVec.getLsbD_or]
    simp [kernelPerm, pteX, pteW, pteR, pteV]
  have hsub : (pteR ||| pteW ||| pteX) = 0x3FF#64 &&& (pteR ||| pteW ||| pteX) := by decide
  refine ⟨hv, ?_, ?_⟩
  · rw [pointer, hv, hsub, ← BitVec.and_assoc, hflags]
    decide
  · rw [leafOf_flags, hflags, pte_page hal (by omega) (by decide)]
    exact if_pos (by decide)

/-- What the trampoline maps. -/
lemma Trampoline.sv39_eq (h : Trampoline dir l2pte m) (hl : ImagePage l2pte) (hc : Canonical va) :
    sv39 m (p2v dir) va = if px 2 va = 256 ∧ (px 1 va).val < 63 then
      some ⟨1, pmdAddr (px 1 va).val, kernelPerm⟩ else none := by
  have hz2 : px (0 + (1 + 1)) va = px 2 va := rfl
  have hz1 : px (0 + (0 + 1)) va = px 1 va := rfl
  have hroot := h.root (px 2 va)
  have hleaf := h.leaves (px 1 va)
  rw [sv39, if_pos hc]
  by_cases h2 : px 2 va = 256
  · rw [if_pos h2] at hroot
    obtain ⟨hp, hto⟩ := trampoline_link hl
    have hw : tableWalk m va 0 2 (p2v dir) = tableWalk m va 0 1 (p2v l2pte) := by
      rw [tableWalk_pointer (n := 1) (by rw [hz2, hroot, hp]), hz2, hroot, hto]
    rw [hw]
    by_cases h1 : (px 1 va).val < 63
    · rw [if_pos h1] at hleaf
      obtain ⟨hv, hnp, hlf⟩ := trampoline_leaf h1
      rw [if_pos ⟨h2, h1⟩, tableWalk]
      simp only [hz1, hleaf, hv, hnp, Bool.true_eq_false, Bool.false_eq_true, if_false]
      exact hlf
    · rw [if_neg h1] at hleaf
      rw [if_neg fun hn => h1 hn.2, tableWalk_missing (n := 0) (by rw [hz1, hleaf, valid_zero])]
      rfl
  · rw [if_neg h2] at hroot
    rw [if_neg fun hn => h2 hn.1, tableWalk_missing (n := 1) (by rw [hz2, hroot, valid_zero])]
    rfl

/-- The physical addresses of the memory from the kernel's image on. -/
def InRam (pa : BitVec 64) : Prop := paKernel ≤ pa ∧ pa < highMemory

instance (pa : BitVec 64) : Decidable (InRam pa) := inferInstanceAs (Decidable (_ ∧ _))

/-- The range of the memory. -/
lemma inRam_iff : InRam pa ↔ 0x80200000 ≤ pa.toNat ∧ pa.toNat < 0x88000000 := Iff.rfl

/-- The addresses that the trampoline maps. -/
lemma direct_iff : (Canonical va ∧ px 2 va = 256 ∧ (px 1 va).val < 63) ↔ InRam (v2p va) := by
  have hlt := va.isLt
  have h2 : px 2 va = 256 ↔ (px 2 va).val = 256 := Fin.ext_iff
  have hc : Canonical va ↔ va.toNat / 2 ^ 38 = 0 ∨ va.toNat / 2 ^ 38 = 0x3FFFFFF := by
    rw [Canonical, BitVec.toNat_eq, BitVec.toNat_eq, BitVec.toNat_ushiftRight, Nat.shiftRight_eq_div_pow]
    rfl
  rw [hc, h2, inRam_iff, px_val, px_val, v2p_toNat]
  omega

/-- The root in `satp`. -/
lemma satpRoot_or (ha : Aligned pa) (hpa : pa.toNat < 2 ^ 56) : satpRoot ((pa >>> 12) ||| satpMode39) = pa := by
  have hmode : satpMode39 &&& 0xFFFFFFFFFFF#64 = 0#64 := by decide
  have hmask : (0xFFFFFFFFFFF#64).toNat = 2 ^ 44 - 1 := by decide
  have hkeep : (pa >>> 12) &&& 0xFFFFFFFFFFF#64 = pa >>> 12 := by
    apply BitVec.eq_of_toNat_eq
    rw [BitVec.toNat_and, hmask, Nat.and_two_pow_sub_one_eq_mod, BitVec.toNat_ushiftRight,
      Nat.shiftRight_eq_div_pow]
    omega
  have hor : ((pa >>> 12) ||| satpMode39) &&& 0xFFFFFFFFFFF#64 = pa >>> 12 := by
    rw [BitVec.and_comm, BitVec.and_or_distrib_left, BitVec.and_comm, hkeep, BitVec.and_comm, hmode,
      BitVec.or_zero]
  rw [Aligned] at ha
  apply BitVec.eq_of_toNat_eq
  rw [satpRoot, hor, BitVec.toNat_shiftLeft, BitVec.toNat_ushiftRight, Nat.shiftRight_eq_div_pow,
    Nat.shiftLeft_eq]
  omega

/-- The trampoline maps the memory at its addresses in the direct map, and nothing else. -/
lemma Trampoline.mmu_eq (h : Trampoline dir l2pte m) (hd : ImagePage dir) (hl : ImagePage l2pte) :
    mmu m (relocateEnableMmu dir) va = if InRam (v2p va) then some (v2p va, kernelPerm) else none := by
  have hlow : dir.toNat < 0x80600000 := BitVec.lt_def.1 hd.2.2
  have hsize : sizeAt 1 = 0x200000 := by decide
  rw [mmu, relocateEnableMmu, satpRoot_or hd.1 (by omega)]
  by_cases hr : InRam (v2p va)
  · obtain ⟨hc, h2, h1⟩ := direct_iff.2 hr
    have ha := pmdAddr_toNat h1.le
    have hal : (pmdAddr (px 1 va).val).toNat % 0x200000 = 0 := by
      rw [ha]
      omega
    have hpa : pmdAddr (px 1 va).val + .ofNat 64 (va.toNat % 0x200000) = v2p va := by
      have h2' := congrArg Fin.val h2
      obtain ⟨hlo, hhi⟩ := inRam_iff.1 hr
      rw [px_val] at h2' ha
      rw [v2p_toNat] at hlo hhi
      apply BitVec.eq_of_toNat_eq
      rw [BitVec.toNat_add, BitVec.toNat_ofNat, px_val, ha, v2p_toNat]
      omega
    rw [h.sv39_eq hl hc, if_pos ⟨h2, h1⟩, if_pos hr, Option.bind_some]
    dsimp only
    rw [hsize, if_pos hal, hpa]
  · have hnone : sv39 m (p2v dir) va = none := by
      by_cases hc : Canonical va
      · rw [h.sv39_eq hl hc, if_neg fun hn => hr (direct_iff.1 ⟨hc, hn⟩)]
      · rw [sv39, if_neg hc]
    rw [hnone, if_neg hr, Option.bind_none]

/-- The walk of an address is that of its page. -/
lemma sv39_congr (hc : Canonical va' ↔ Canonical va) (hp : ∀ level, level ≤ 2 → px level va' = px level va) :
    sv39 m dir va' = sv39 m dir va := by
  have hw : ∀ n, n ≤ 2 → ∀ table, tableWalk m va' 0 n table = tableWalk m va 0 n table := by
    intro n
    induction n with
    | zero => exact fun _ table => by rw [tableWalk, tableWalk, hp 0 (Nat.zero_le _)]
    | succ n ih =>
      intro hn table
      rw [tableWalk, tableWalk, Nat.zero_add, hp (n + 1) hn]
      simp only [ih (Nat.le_of_succ_le hn)]
  rw [sv39, sv39, hw 2 le_rfl]
  simp only [hc]

/-- The page of an address of the memory. -/
lemma InRam.page (h : InRam (v2p va)) : ∃ page, RamPage page ∧
    page + .ofNat 64 (va.toNat % 4096) = v2p va ∧ ∀ level, level ≤ 2 → px level va = px level (p2v page) := by
  obtain ⟨hlo, hhi⟩ := inRam_iff.1 h
  have hva := va.isLt
  have hv := @v2p_toNat va
  refine ⟨v2p va - .ofNat 64 (va.toNat % 4096), ?_⟩
  have hpage : (v2p va - .ofNat 64 (va.toNat % 4096)).toNat = (v2p va).toNat - (v2p va).toNat % 4096 := by
    rw [BitVec.toNat_sub, BitVec.toNat_ofNat]
    omega
  refine ⟨⟨?_, BitVec.le_def.2 ?_, BitVec.lt_def.2 ?_⟩, BitVec.sub_add_cancel _ _, fun level hle => ?_⟩
  · rw [Aligned, hpage]
    omega
  · show 0x80200000 ≤ _
    rw [hpage]
    omega
  · show _ < 0x88000000
    rw [hpage]
    omega
  · apply Fin.ext
    rw [px_val, px_val, p2v_toNat, hpage]
    obtain rfl | rfl | rfl : level = 0 ∨ level = 1 ∨ level = 2 := by omega
    all_goals omega

/-- `paging_init` maps the direct map as the trampoline does. -/
lemma KernelMap.mmu_direct (h : KernelMap m (p2v dir)) (ha : Aligned dir) (hlt : dir.toNat < 2 ^ 56)
    (hr : InRam (v2p va)) : mmu m (loadRootPageTable satpMode39 (p2v dir)) va = some (v2p va, kernelPerm) := by
  have hsize : sizeAt 0 = 4096 := by decide
  obtain ⟨hc, -, -⟩ := direct_iff.2 hr
  obtain ⟨page, hram, hadd, hpx⟩ := hr.page
  have hal : page.toNat % 4096 = 0 := hram.1
  rw [mmu, loadRootPageTable, v2p_p2v, BitVec.or_comm, satpRoot_or ha hlt,
    sv39_congr (iff_of_true hc hram.direct.2) hpx, h.direct page hram, Option.bind_some]
  dsimp only
  rw [hsize, if_pos hal, hadd]

/-! ## The trampoline while `paging_init` runs -/

/-- The tables below the page directory are pages that `mem_map` counts, and the other rows are as at first. -/
structure Beside (m : BitVec 64 → Fin 512 → BitVec 64) (dir : BitVec 64) (s : Memory) : Prop where
  below : ∀ {p t}, p ≠ [] → p.length ≤ 2 → follow s.mem dir p = some t → Managed t
  rows : ∀ t, t ≠ dir → ¬ Managed t → s.mem t = m t

variable {K : Finset (Fin 512)} {t page pte perm : BitVec 64} {p : List (Fin 512)} {k : Fin 512}

/-- What is beside the tables is none of them. -/
lemma Beside.changed (h : Beside m dir s) (hf : follow s.mem dir p = some t) (hl : p.length ≤ 2)
    {u : BitVec 64} (hu : u ≠ dir) (hm : ¬ Managed u) : u ≠ t := by
  rintro rfl
  by_cases hp : p = []
  · rw [hp, follow] at hf
    exact hu (Option.some.inj hf).symm
  · exact hm (h.below hp hl hf)

/-- A new table is beside it. -/
lemma Beside.linked (h : Beside m dir s) (hk : Kernel K dir s) (hf : follow s.mem dir p = some t)
    (hl : p.length < 2) (hv : valid (s.mem t k) = false) (hm : Managed page) (h0 : s.memMap (mapNr page) = 0) :
    Beside m dir (s.linked t k page) where
  below := by
    intro q u hq hql hfq
    have hp : pointer (s.mem t k) = false := by
      rw [pointer, hv, Bool.false_and]
    rw [follow_linked hk.tree hf hl hp hm h0 hql] at hfq
    split at hfq
    · exact Option.some.inj hfq ▸ hm
    · exact h.below hq hql hfq
  rows u hu hmu := by
    have hpage : u ≠ page := by
      rintro rfl
      exact hmu hm
    rw [linked_other (h.changed hf hl.le hu hmu) hpage]
    exact h.rows u hu hmu

/-- A new entry leaves what is beside the tree. -/
lemma Beside.written (h : Beside m dir s) (hk : Kernel K dir s) (hf : follow s.mem dir p = some t)
    (hl : p.length = 2) : Beside m dir (s.written t k pte) where
  below hq hql hfq := h.below hq hql ((follow_written hk.tree hf hl hql).symm.trans hfq)
  rows u hu hmu := (written_other (h.changed hf hl.le hu hmu)).trans (h.rows u hu hmu)

/-- One level of the walk of `map_page`. -/
lemma mapPageWalk_beside (va : BitVec 64) (pteRecord : Nat → BitVec 64) (h : Kernel K dir s) (hb : Beside m dir s)
    (hK : K.card * 513 < pagingPages) (hf : follow s.mem dir p = some t) (hl : p.length + (n + 1) = 2)
    (hr : ∀ j r, p ++ [px (n + 1) va] = j :: r → j ∈ K) :
    ∃ s₁ t₁ r₁, mapPageWalk va 2 0 (n + 1) t pteRecord s = mapPageWalk va 2 0 n t₁ r₁ s₁ ∧
      Kernel K dir s₁ ∧ Beside m dir s₁ ∧ follow s₁.mem dir (p ++ [px (n + 1) va]) = some t₁ := by
  have hlt : p.length < 2 := by omega
  have hmap : Mapped t := h.mapped ⟨p, hlt.le, hf⟩
  have hz : 0 + (n + 1) = n + 1 := Nat.zero_add _
  cases hv : valid (s.mem t (px (n + 1) va)) with
  | true =>
    have hp := h.pointers _ hlt hf hv
    refine ⟨s, _, pteRecord, mapPageWalk_found hmap (by rwa [hz]), h, hb, ?_⟩
    rw [follow_concat, hf, hz]
    exact if_pos hp
  | false =>
    have hp : pointer (s.mem t (px (n + 1) va)) = false := by
      rw [pointer, hv, Bool.false_and]
    rcases getFreePage_cases (s := s) with ⟨hnone, _⟩ | ⟨page, hm, h0, e⟩
    · exact absurd hnone (h.has_free hK)
    · refine ⟨_, _, _, mapPageWalk_add hmap (by rwa [hz]) hm e, ?_, ?_, ?_⟩
      · rw [hz]
        exact h.linked hf hlt hv hm h0 hr
      · rw [hz]
        exact hb.linked h hf hlt hv hm h0
      · rw [hz, follow_linked h.tree hf hlt hp hm h0 (by rw [List.length_append]; exact hlt), if_pos rfl]

/-- `map_page` leaves what is beside its tables. -/
lemma mapPage_beside (h : Kernel K dir s) (hb : Beside m dir s) (hK : K.card * 513 < pagingPages)
    (hr : px 2 va ∈ K) :
    Prog.returns (mapPage dir va pa perm 2 0) (fun r s' => r = 0 ∧ Kernel K dir s' ∧ Beside m dir s') s := by
  obtain ⟨s₁, t₁, r₁, e₁, h₁, hb₁, hf₁⟩ := mapPageWalk_beside (p := []) (n := 1) va
    (fun _ => 0) h hb hK rfl rfl fun j r e => (List.cons.inj e).1 ▸ hr
  obtain ⟨s₂, t₂, r₂, e₂, h₂, hb₂, hf₂⟩ := mapPageWalk_beside (n := 0) va r₁ h₁ hb₁ hK hf₁ rfl
    fun j r e => (List.cons.inj e).1 ▸ hr
  have hwalk : mapPageWalk va 2 0 (2 - 0) dir (fun _ => 0) s = .ret (some t₂, s₂) := e₁.trans e₂
  refine ⟨0, s₂.written t₂ (px 0 va) (pa2pte pa ||| perm), ?_, rfl, h₂.written hf₂ rfl, hb₂.written h₂ hf₂ rfl⟩
  rw [mapPage, Prog.bind_of_ret hwalk]
  rfl

/-- So does mapping a page of the memory. -/
lemma mapRam_beside {a : BitVec 64} (ha : RamPage a) (h : Kernel kernelRoots dir s) (hb : Beside m dir s) :
    Prog.returns (mapRam dir a) (fun rs s' => (∀ r ∈ rs, r = 0) ∧ Kernel kernelRoots dir s' ∧ Beside m dir s') s := by
  obtain ⟨hrv, hra⟩ := ha.roots
  apply Prog.returns_bind
  refine (mapPage_beside h hb (by decide) hrv).mono ?_
  rintro r s₁ ⟨rfl, h₁, hb₁⟩
  apply Prog.returns_bind
  refine (mapPage_beside h₁ hb₁ (by decide) hra).mono ?_
  rintro r s₂ ⟨rfl, h₂, hb₂⟩
  apply Prog.returns_pure
  refine ⟨fun r hr => ?_, h₂, hb₂⟩
  simpa using hr

/-- Mapping a page of a device leaves what is beside the tree. -/
lemma mapDevice_beside {a : BitVec 64} (ha : DevicePage a) (h : Kernel kernelRoots dir s) (hb : Beside m dir s) :
    Prog.returns (mapDevice dir a) (fun rs s' => (∀ r ∈ rs, r = 0) ∧ Kernel kernelRoots dir s' ∧ Beside m dir s')
      s := by
  apply Prog.returns_bind
  refine (mapPage_beside h hb (by decide) ha.root).mono ?_
  rintro r s₁ ⟨rfl, h₁, hb₁⟩
  apply Prog.returns_pure
  exact ⟨fun r hr => List.mem_singleton.1 hr, h₁, hb₁⟩

/-- `paging_init` changes the page directory and pages that were free. -/
lemma pagingInit_beside (h : Kernel kernelRoots s.swapperPgDir s) (hb : Beside m s.swapperPgDir s) :
    Prog.returns pagingInit (fun _ s' => Beside m s.swapperPgDir s') s := by
  apply Prog.returns_bind
  apply Prog.returns_get
  apply Prog.returns_bind
  refine (whileBelow_returns (I := fun _ s' => Kernel kernelRoots s.swapperPgDir s' ∧ Beside m s.swapperPgDir s')
    paKernel (by decide) (by decide) (fun a _ ha hl hh hI => mapRam_beside ⟨ha, hl, hh⟩ hI.1 hI.2)
    (by decide) (BitVec.le_refl _) (by decide) (by decide) ⟨h, hb⟩).mono ?_
  rintro rs₁ s₁ ⟨-, h₁⟩
  apply Prog.returns_bind
  refine (whileBelow_returns (I := fun _ s' => Kernel kernelRoots s.swapperPgDir s' ∧ Beside m s.swapperPgDir s')
    0x10000#64 (by decide) (by decide)
    (fun a _ ha hl hh hI => mapDevice_beside (.inl (rtc_page ha hl hh)) hI.1 hI.2)
    (by decide) (BitVec.le_refl _) (by decide) (by decide) h₁).mono ?_
  rintro rs₂ s₂ ⟨-, h₂⟩
  apply Prog.returns_bind
  refine (whileBelow_returns (I := fun _ s' => Kernel kernelRoots s.swapperPgDir s' ∧ Beside m s.swapperPgDir s')
    0xC000000#64 (by decide) (by decide) (fun a _ ha hl hh hI => mapDevice_beside (.inr ⟨ha, hl, hh⟩) hI.1 hI.2)
    (by decide) (BitVec.le_refl _) (by decide) (by decide) h₂).mono ?_
  rintro rs₃ s₃ ⟨-, -, hb₃⟩
  exact Prog.returns_pure hb₃

/-! ## From one map to the next -/

/-- A page of the kernel image is in its range. -/
lemma ImagePage.range (h : ImagePage pa) : pa.toNat % 4096 = 0 ∧ 0x80200000 ≤ pa.toNat ∧ pa.toNat < 0x80600000 :=
  ⟨h.1, BitVec.le_def.1 h.2.1, BitVec.lt_def.1 h.2.2⟩

/-- A page of the kernel's image is in the direct map, below the pages that `mem_map` counts. -/
lemma ImagePage.mapped (h : ImagePage pa) : p2v paKernel ≤ p2v pa ∧ p2v pa < p2v lowMem := by
  obtain ⟨-, hlo, hhi⟩ := h.range
  have hk : (p2v paKernel).toNat = 0xFFFFFFC000000000 := by decide
  constructor
  · rw [BitVec.le_def, hk, p2v_toNat]
    omega
  · rw [BitVec.lt_def, lowMemory_toNat, p2v_toNat]
    omega

/-- It is not in the pool. -/
lemma ImagePage.not_managed (h : ImagePage pa) : ¬ Managed (p2v pa) :=
  fun hm => BitVec.not_lt.2 hm.range.1 h.mapped.2

/-- From the trampoline in `s` to the map of `paging_init` in `s'`, with `now` and `last` in `satp`. -/
structure Boots (now last : BitVec 64) (s s' : Memory) : Prop where
  early : ∀ va, mmu s.mem now va = if InRam (v2p va) then some (v2p va, kernelPerm) else none
  jump : ∀ pc, InRam pc → mmu s.mem now pc = none ∧ mmu s.mem now (p2v pc) = some (pc, kernelPerm)
  running : ∀ va, mmu s'.mem now va = mmu s.mem now va
  kept : ∀ va x, mmu s.mem now va = some x → mmu s'.mem last va = some x
  kernelMap : KernelMap s'.mem s.swapperPgDir

/-- **The kernel keeps its addresses from the first instruction on**: under the tables of `setup_vm` the physical
    addresses of the image trap and those of the direct map lead to the memory, nothing else is mapped, `paging_init`
    does not touch these tables, and it maps again whatever they map. -/
theorem setup_vm_boots (h : Image dir l2pte s) (dtbPa : BitVec 64) :
    Prog.returns (setupVm dir l2pte dtbPa) (fun dtbVa s₁ => dtbVa = p2v dtbPa ∧
      Prog.returns pagingInit (fun rs s₂ => (∀ r ∈ rs, r = 0) ∧
        Boots (relocateEnableMmu dir) (loadRootPageTable satpMode39 s.swapperPgDir) s₁ s₂) s₁) s := by
  refine (setupVm_returns h dtbPa).mono ?_
  rintro dtbVa s₁ ⟨rfl, htr, hrows, hmap, hsw⟩
  refine ⟨rfl, ?_⟩
  have hsv : p2v (v2p s.swapperPgDir) = s.swapperPgDir := p2v_v2p
  obtain ⟨hlo, hhi⟩ := h.swapper.mapped
  have hn := h.swapper.not_managed
  rw [hsv] at hlo hhi hn
  have hempty : s₁.mem s₁.swapperPgDir = fun _ => 0 := by
    rw [hsw, hrows _ h.beside.1 h.beside.2]
    exact h.empty _ (.tail _ (.tail _ (.head _)))
  have h0 : ∀ k, s₁.memMap k = 0 := fun k => by rw [hmap, h.free]
  have hbuilt : Built s₁.swapperPgDir paKernel 0x10000#64 0xC000000#64 s₁ := by
    refine .empty ?_ ?_ hempty h0
    · rw [hsw]
      exact ⟨hlo, BitVec.lt_trans hhi (by decide)⟩
    · rwa [hsw]
  have hbeside : Beside s₁.mem s₁.swapperPgDir s₁ :=
    ⟨fun hp _ hf => absurd (follow_empty hempty hf).1 hp, fun _ _ _ => rfl⟩
  obtain ⟨rs, s₂, hret, hzero, hdone⟩ := pagingInit_built hbuilt
  have hkept := (pagingInit_beside hbuilt.kernel hbeside).elim hret
  have hrow : ∀ {pa}, ImagePage pa → s.swapperPgDir ≠ p2v pa → s₂.mem (p2v pa) = s₁.mem (p2v pa) :=
    fun hp hne => hkept.rows _ (by rw [hsw]; exact hne.symm) hp.not_managed
  have htr₂ : Trampoline dir l2pte s₂.mem := by
    refine ⟨fun k => ?_, fun k => ?_⟩
    · rw [hrow h.root h.beside.1, htr.root]
    · rw [hrow h.leaves h.beside.2, htr.leaves]
  have hearly : ∀ va, mmu s₁.mem (relocateEnableMmu dir) va =
      if InRam (v2p va) then some (v2p va, kernelPerm) else none := fun va => htr.mmu_eq h.root h.leaves
  have hmaps : KernelMap s₂.mem s.swapperPgDir := hsw ▸ hdone.kernelMap
  refine ⟨rs, s₂, hret, hzero, hearly, fun pc hpc => ⟨?_, ?_⟩, fun va => ?_, fun va x hx => ?_, hdone.kernelMap⟩
  · rw [hearly, if_neg]
    obtain ⟨hlo, hhi⟩ := inRam_iff.1 hpc
    rw [inRam_iff, v2p_toNat]
    omega
  · rw [hearly, v2p_p2v, if_pos hpc]
  · rw [htr₂.mmu_eq h.root h.leaves, hearly]
  · rw [hearly] at hx
    split at hx
    · next hr =>
      obtain ⟨hal, -, hlow⟩ := h.swapper.range
      rw [← hsv] at hmaps ⊢
      rw [hmaps.mmu_direct hal (by omega) hr, hx]
    · cases hx

/-- The tables on the pages `0x80210000` to `0x80212000`. -/
theorem setup_vm_boots_blank :
    Prog.returns (setupVm 0x80211000#64 0x80212000#64 0x87E00000#64) (fun dtbVa s₁ => dtbVa = p2v 0x87E00000#64 ∧
      Prog.returns pagingInit (fun rs s₂ => (∀ r ∈ rs, r = 0) ∧
        Boots (relocateEnableMmu 0x80211000#64) (loadRootPageTable satpMode39 blank.swapperPgDir) s₁ s₂) s₁) blank :=
  setup_vm_boots ⟨by decide, by decide, by decide, by decide, by decide, fun _ _ => rfl, fun _ => rfl⟩ _

end OldLinux.Mm
