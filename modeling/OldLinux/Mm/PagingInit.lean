import OldLinux.Mm.KernelTree

/-!
# The kernel's page directory

Model of `paging_init` (`mm/memory.c`), which builds `swapper_pg_dir` with four ranges of addresses: the
direct map of the memory, its identity map, and the pages of two groups of devices. `layout` is the map
when the loops have come to given addresses; every call of `map_page` extends it by one page.
-/

namespace OldLinux.Mm
open Lib Function

/-- `D_P2V_WO(a)`. -/
def dP2v (a : BitVec 64) : BitVec 64 := a + 0xFFFFFFFF80000000#64

/-- The `perm` of `paging_init`. -/
def kernelPerm : BitVec 64 := pteX ||| pteW ||| pteR ||| pteV

/-- `while (ram_start < ram_end) { body; ram_start += PAGE_SIZE; }`, with at most as many turns as there
    are pages below `ram_end`. -/
def whileBelow (ramEnd : BitVec 64) (body : BitVec 64 → Prog Memory (List Int)) :
    Nat → BitVec 64 → Prog Memory (List Int)
  | 0, _ => Prog.fault
  | n + 1, ramStart =>
    if ramStart < ramEnd then do
      let results ← body ramStart
      let rest ← whileBelow ramEnd body n (ramStart + pageSize)
      pure (results ++ rest)
    else pure []

def mapRange (ramStart ramEnd : BitVec 64) (body : BitVec 64 → Prog Memory (List Int)) :
    Prog Memory (List Int) :=
  whileBelow ramEnd body (ramEnd.toNat / 4096 + 1) ramStart

/-- The body of the first loop. -/
def mapRam (swapperPgDir ramStart : BitVec 64) : Prog Memory (List Int) := do
  let r ← mapPage swapperPgDir (p2v ramStart) ramStart kernelPerm 2 0
  let r' ← mapPage swapperPgDir ramStart ramStart (pteU ||| kernelPerm) 2 0
  pure [r, r']

/-- The body of the loops for the devices. -/
def mapDevice (swapperPgDir ramStart : BitVec 64) : Prog Memory (List Int) := do
  let r ← mapPage swapperPgDir (dP2v ramStart) ramStart kernelPerm 2 0
  pure [r]

/-- `paging_init()`, up to the load of `satp`. The value is the list of what the calls of `map_page`
    return, which the code does not look at. -/
def pagingInit : Prog Memory (List Int) := do
  let s ← Prog.get
  let ram ← mapRange paKernel highMemory (mapRam s.swapperPgDir)
  let rtc ← mapRange 0x10000#64 (0x10000#64 + pageSize) (mapDevice s.swapperPgDir)
  let plic ← mapRange 0xC000000#64 (0x10000000#64 + pageSize * 2) (mapDevice s.swapperPgDir)
  pure (ram ++ rtc ++ plic)

/-! ## Sv39 -/

/-- The bits above bit 38 are copies of it. -/
def Canonical (va : BitVec 64) : Prop := va >>> 38 = 0#64 ∨ va >>> 38 = 0x3FFFFFF#64

instance (va : BitVec 64) : Decidable (Canonical va) := inferInstanceAs (Decidable (_ ∨ _))

/-- A leaf of the walk: the level it is found at, the page it names, and its flags. -/
structure Leaf where
  level : Nat
  page : BitVec 64
  flags : BitVec 64
deriving DecidableEq

/-- The leaf that an entry is, unless it is not valid or points to a table. -/
def leafOf (level : Nat) (pte : BitVec 64) : Option Leaf :=
  if valid pte ∧ pte &&& (pteR ||| pteW ||| pteX) ≠ 0 then some ⟨level, pte2pa pte, pte &&& 0x3FF#64⟩
  else none

def Found.leaf : Found → Option Leaf
  | .missing _ => none
  | .entry level pte => leafOf level pte

/-- The Sv39 walk of an address. -/
def sv39 (m : BitVec 64 → Fin 512 → BitVec 64) (dir va : BitVec 64) : Option Leaf :=
  if Canonical va then (tableWalk m va 0 2 dir).leaf else none

def Aligned (a : BitVec 64) : Prop := a.toNat % 4096 = 0

instance (a : BitVec 64) : Decidable (Aligned a) := inferInstanceAs (Decidable (_ = _))

/-- A page from the kernel's image to the end of the memory. -/
def RamPage (pa : BitVec 64) : Prop := Aligned pa ∧ paKernel ≤ pa ∧ pa < highMemory

/-- The page of the clock, or one from the interrupt controller to the last disk. -/
def DevicePage (pa : BitVec 64) : Prop :=
  pa = 0x10000#64 ∨ Aligned pa ∧ 0xC000000#64 ≤ pa ∧ pa < 0x10002000#64

/-- The map that `paging_init` is for. -/
structure KernelMap (m : BitVec 64 → Fin 512 → BitVec 64) (dir : BitVec 64) : Prop where
  direct : ∀ pa, RamPage pa → sv39 m dir (p2v pa) = some ⟨0, pa, kernelPerm⟩
  identity : ∀ pa, RamPage pa → sv39 m dir pa = some ⟨0, pa, pteU ||| kernelPerm⟩
  device : ∀ pa, DevicePage pa → sv39 m dir (dP2v pa) = some ⟨0, pa, kernelPerm⟩
  nothing : ∀ va, Aligned va → (∀ pa, RamPage pa → va ≠ p2v pa ∧ va ≠ pa) →
    (∀ pa, DevicePage pa → va ≠ dP2v pa) → sv39 m dir va = none

variable {m : BitVec 64 → Fin 512 → BitVec 64} {s : Memory} {dir va pa perm pte a ramEnd : BitVec 64}

/-! ## Entries -/

/-- The flags of an entry. -/
lemma pte_flags (hf : perm &&& 0x3FF#64 = perm) : (pa2pte pa ||| perm) &&& 0x3FF#64 = perm := by
  rw [BitVec.and_comm, BitVec.and_or_distrib_left, BitVec.and_comm, pa2pte_flags, BitVec.zero_or,
    BitVec.and_comm, hf]

/-- The page of an entry. -/
lemma pte_page (ha : Aligned pa) (hpa : pa.toNat < 2 ^ 56) (hp : perm >>> 10 = 0#64) :
    pte2pa (pa2pte pa ||| perm) = pa := by
  rw [pte2pa_or hp, pte2pa_pa2pte ha hpa]

/-- What an entry is depends on its flags. -/
lemma leafOf_flags {level : Nat} : leafOf level pte =
    if valid (pte &&& 0x3FF#64) ∧ (pte &&& 0x3FF#64) &&& (pteR ||| pteW ||| pteX) ≠ 0 then
      some ⟨level, pte2pa pte, pte &&& 0x3FF#64⟩
    else none := by
  have hv : valid (pte &&& 0x3FF#64) = valid pte := by
    rw [valid, valid, BitVec.getLsbD_and]
    simp
  have hr : (pte &&& 0x3FF#64) &&& (pteR ||| pteW ||| pteX) = pte &&& (pteR ||| pteW ||| pteX) := by
    rw [BitVec.and_assoc]
    rfl
  rw [leafOf, hv, hr]

/-- The two kinds of entries of the kernel's map. -/
lemma leafOf_pte (ha : Aligned pa) (hpa : pa.toNat < 2 ^ 56)
    (hp : perm = kernelPerm ∨ perm = pteU ||| kernelPerm) :
    leafOf 0 (pa2pte pa ||| perm) = some ⟨0, pa, perm⟩ := by
  have hsmall : perm &&& 0x3FF#64 = perm ∧ perm >>> 10 = 0#64 ∧ valid perm = true ∧
      perm &&& (pteR ||| pteW ||| pteX) ≠ 0 := by
    obtain rfl | rfl := hp
    · decide
    · decide
  obtain ⟨hf, hs, hv, hr⟩ := hsmall
  rw [leafOf_flags, pte_flags hf, pte_page ha hpa hs, if_pos ⟨hv, hr⟩]

/-- The entry of an address, 0 where a table is missing. -/
def entryFor (m : BitVec 64 → Fin 512 → BitVec 64) (dir va : BitVec 64) : BitVec 64 :=
  entryAt m dir [px 2 va, px 1 va] (px 0 va)

/-- In the kernel's tree the walk ends at the entry. -/
lemma Kernel.sv39_eq {K : Finset (Fin 512)} (h : Kernel K dir s) (hc : Canonical va) :
    sv39 s.mem dir va = leafOf 0 (entryFor s.mem dir va) := by
  have hzero : leafOf 0 0 = none := by decide
  have hz2 : px (0 + (1 + 1)) va = px 2 va := rfl
  have hz1 : px (0 + (0 + 1)) va = px 1 va := rfl
  rw [sv39, if_pos hc, entryFor]
  cases hv : valid (s.mem dir (px 2 va)) with
  | false =>
    have hp : pointer (s.mem dir (px 2 va)) = false := by
      rw [pointer, hv, Bool.false_and]
    have hnone : follow s.mem dir [px 2 va, px 1 va] = none := by
      rw [follow, hp]
      rfl
    have hw : tableWalk s.mem va 0 2 dir = .missing 2 := tableWalk_missing (n := 1) (by rw [hz2, hv])
    rw [entryAt_none hnone, hzero, hw]
    rfl
  | true =>
    have hp := h.pointers (p := []) _ (by decide) rfl hv
    have hf₁ : follow s.mem dir [px 2 va] = some (pte2va (s.mem dir (px 2 va))) := by
      rw [follow, if_pos hp, follow]
    have hw : tableWalk s.mem va 0 2 dir = tableWalk s.mem va 0 1 (pte2va (s.mem dir (px 2 va))) :=
      tableWalk_pointer (n := 1) (by rw [hz2, hp])
    rw [hw]
    cases hv' : valid (s.mem (pte2va (s.mem dir (px 2 va))) (px 1 va)) with
    | false =>
      have hp' : pointer (s.mem (pte2va (s.mem dir (px 2 va))) (px 1 va)) = false := by
        rw [pointer, hv', Bool.false_and]
      have hnone : follow s.mem dir [px 2 va, px 1 va] = none := by
        rw [follow_cons hp, follow, hp']
        rfl
      have hw' : tableWalk s.mem va 0 1 (pte2va (s.mem dir (px 2 va))) = .missing 1 :=
        tableWalk_missing (n := 0) (by rw [hz1, hv'])
      rw [entryAt_none hnone, hzero, hw']
      rfl
    | true =>
      have hp' := h.pointers (p := [px 2 va]) _ (Nat.lt_succ_self 1) hf₁ hv'
      have hf : follow s.mem dir [px 2 va, px 1 va] =
          some (pte2va (s.mem (pte2va (s.mem dir (px 2 va))) (px 1 va))) := by
        rw [follow_cons hp, follow_cons hp', follow]
      have hw' : tableWalk s.mem va 0 1 (pte2va (s.mem dir (px 2 va))) = tableWalk s.mem va 0 0
          (pte2va (s.mem (pte2va (s.mem dir (px 2 va))) (px 1 va))) :=
        tableWalk_pointer (n := 0) (by rw [hz1, hp'])
      rw [hw', entryAt_some hf]
      rfl

/-- Pages with the same indices are the same. -/
lemma eq_of_px {va' : BitVec 64} (hc : Canonical va) (hc' : Canonical va') (ha : Aligned va)
    (ha' : Aligned va') (h2 : px 2 va' = px 2 va) (h1 : px 1 va' = px 1 va) (h0 : px 0 va' = px 0 va) :
    va' = va := by
  have hrange : ∀ {x : BitVec 64}, Canonical x → x.toNat < 2 ^ 38 ∨ 2 ^ 64 - 2 ^ 38 ≤ x.toNat := by
    intro x hx
    cases hx with
    | inl h =>
      have e := congrArg BitVec.toNat h
      rw [BitVec.toNat_ushiftRight, Nat.shiftRight_eq_div_pow] at e
      simp at e
      omega
    | inr h =>
      have e := congrArg BitVec.toNat h
      rw [BitVec.toNat_ushiftRight, Nat.shiftRight_eq_div_pow] at e
      simp at e
      omega
  have hr := hrange hc
  have hr' := hrange hc'
  have e2 := congrArg Fin.val h2
  have e1 := congrArg Fin.val h1
  have e0 := congrArg Fin.val h0
  rw [px_val, px_val] at e2 e1 e0
  rw [Aligned] at ha ha'
  have hlt := va.isLt
  have hlt' := va'.isLt
  apply BitVec.eq_of_toNat_eq
  omega

/-! ## The layout -/

/-- `D_V2P_WO(a)`. -/
def dV2p (a : BitVec 64) : BitVec 64 := a - 0xFFFFFFFF80000000#64

/-- The entries when the loops have come to `ram`, `rtc` and `plic`. -/
def layout (ram rtc plic va : BitVec 64) : BitVec 64 :=
  if paKernel ≤ va ∧ va < ram then pa2pte va ||| (pteU ||| kernelPerm)
  else if paKernel ≤ v2p va ∧ v2p va < ram then pa2pte (v2p va) ||| kernelPerm
  else if 0x10000#64 ≤ dV2p va ∧ dV2p va < rtc ∨ 0xC000000#64 ≤ dV2p va ∧ dV2p va < plic then
    pa2pte (dV2p va) ||| kernelPerm
  else 0

/-- The virtual address and back. -/
lemma v2p_p2v : v2p (p2v a) = a := BitVec.add_sub_cancel _ _

/-- The same for devices. -/
lemma dV2p_dP2v : dV2p (dP2v a) = a := BitVec.add_sub_cancel _ _

/-- The translations of devices are inverse to one another. -/
lemma dP2v_dV2p : dP2v (dV2p a) = a := BitVec.sub_add_cancel _ _

/-- The virtual address as a number. -/
lemma p2v_toNat : (p2v a).toNat = (a.toNat + 0xFFFFFFBF7FE00000) % 2 ^ 64 := by
  have hd : (vaKernel - paKernel).toNat = 0xFFFFFFBF7FE00000 := by decide
  rw [p2v, BitVec.toNat_add, hd]

/-- The physical address of a device as a number. -/
lemma dV2p_toNat : (dV2p a).toNat = (a.toNat + 0x80000000) % 2 ^ 64 := by
  rw [dV2p, BitVec.toNat_sub, BitVec.toNat_ofNat]
  omega

/-- The virtual address of a device as a number. -/
lemma dP2v_toNat : (dP2v a).toNat = (a.toNat + 0xFFFFFFFF80000000) % 2 ^ 64 := by
  rw [dP2v, BitVec.toNat_add, BitVec.toNat_ofNat]

/-- The physical address of a page is aligned. -/
lemma Aligned.v2p (h : Aligned a) : Aligned (v2p a) := by
  rw [Aligned] at h ⊢
  rw [v2p_toNat]
  omega

/-- That of a device too. -/
lemma Aligned.dV2p (h : Aligned a) : Aligned (dV2p a) := by
  rw [Aligned] at h ⊢
  rw [dV2p_toNat]
  omega

/-- The next page. -/
lemma next_toNat (h : a.toNat < 2 ^ 63) : (a + pageSize).toNat = a.toNat + 4096 := by
  have hp : pageSize.toNat = 4096 := rfl
  rw [BitVec.toNat_add, hp]
  omega

/-- The pages below the next page. -/
lemma lt_next (hva : Aligned va) (ha : Aligned a) (h : a.toNat < 2 ^ 63) :
    va < a + pageSize ↔ va < a ∨ va = a := by
  rw [Aligned] at hva ha
  rw [BitVec.lt_def, BitVec.lt_def, BitVec.toNat_eq, next_toNat h]
  omega

/-- The entries of `swapper_pg_dir` that are used. -/
def kernelRoots : Finset (Fin 512) := {2, 256, 510}

/-- A page of the memory is in its range. -/
lemma RamPage.range (h : RamPage a) : a.toNat % 4096 = 0 ∧ 0x80200000 ≤ a.toNat ∧ a.toNat < 0x88000000 := by
  obtain ⟨ha, hl, hh⟩ := h
  exact ⟨ha, BitVec.le_def.1 hl, BitVec.lt_def.1 hh⟩

/-- Its address can be translated. -/
lemma RamPage.canonical (h : RamPage a) : Canonical a := by
  obtain ⟨_, _, hh⟩ := h.range
  refine .inl (BitVec.eq_of_toNat_eq ?_)
  rw [BitVec.toNat_ushiftRight, Nat.shiftRight_eq_div_pow, BitVec.toNat_ofNat]
  omega

/-- The address of a page in the direct mapping can be translated. -/
lemma RamPage.direct (h : RamPage a) : Aligned (p2v a) ∧ Canonical (p2v a) := by
  obtain ⟨ha, hl, hh⟩ := h.range
  constructor
  · rw [Aligned, p2v_toNat]
    omega
  · refine .inr (BitVec.eq_of_toNat_eq ?_)
    rw [BitVec.toNat_ushiftRight, p2v_toNat, Nat.shiftRight_eq_div_pow, BitVec.toNat_ofNat]
    omega

/-- Both are below the kernel's entries of the root. -/
lemma RamPage.roots (h : RamPage a) : px 2 (p2v a) ∈ kernelRoots ∧ px 2 a ∈ kernelRoots := by
  obtain ⟨_, hl, hh⟩ := h.range
  have e : px 2 (p2v a) = 256 := by
    apply Fin.ext
    rw [px_val, p2v_toNat]
    show _ = 256
    omega
  have e' : px 2 a = 2 := by
    apply Fin.ext
    rw [px_val]
    show _ = 2
    omega
  rw [e, e']
  decide

/-- A page of a device is in one of its ranges. -/
lemma DevicePage.range (h : DevicePage a) : a.toNat % 4096 = 0 ∧ 0x10000 ≤ a.toNat ∧
    a.toNat < 0x10002000 := by
  rcases h with rfl | ⟨ha, hl, hh⟩
  · decide
  · have hl' : 0xC000000 ≤ a.toNat := BitVec.le_def.1 hl
    exact ⟨ha, by omega, BitVec.lt_def.1 hh⟩

/-- Its address can be translated. -/
lemma DevicePage.address (h : DevicePage a) : Aligned (dP2v a) ∧ Canonical (dP2v a) := by
  obtain ⟨ha, hl, hh⟩ := h.range
  constructor
  · rw [Aligned, dP2v_toNat]
    omega
  · refine .inr (BitVec.eq_of_toNat_eq ?_)
    rw [BitVec.toNat_ushiftRight, dP2v_toNat, Nat.shiftRight_eq_div_pow, BitVec.toNat_ofNat]
    omega

/-- It is below the kernel's entries of the root. -/
lemma DevicePage.root (h : DevicePage a) : px 2 (dP2v a) ∈ kernelRoots := by
  obtain ⟨_, hl, hh⟩ := h.range
  have e : px 2 (dP2v a) = 510 := by
    apply Fin.ext
    rw [px_val, dP2v_toNat]
    show _ = 510
    omega
  rw [e]
  decide

variable {ram rtc plic : BitVec 64}

/-- A turn of the first loop adds two pages. -/
lemma layout_ram (ha : RamPage a) (hva : Aligned va) :
    layout (a + pageSize) rtc plic va = if va = a then pa2pte a ||| (pteU ||| kernelPerm)
      else if va = p2v a then pa2pte a ||| kernelPerm else layout a rtc plic va := by
  obtain ⟨_, hln, hhn⟩ := ha.range
  have h63 : a.toNat < 2 ^ 63 := by omega
  rw [layout]
  simp only [lt_next hva ha.1 h63, lt_next hva.v2p ha.1 h63]
  by_cases h : va = a
  · rw [if_pos ⟨h ▸ ha.2.1, .inr h⟩, if_pos h, h]
  by_cases h' : va = p2v a
  · have hnot : ¬ (va < a ∨ va = a) := by
      rw [h', BitVec.lt_def, BitVec.toNat_eq, p2v_toNat]
      omega
    have he : v2p va = a := by rw [h', v2p_p2v]
    rw [if_neg fun hn => hnot hn.2, if_pos ⟨he ▸ ha.2.1, .inr he⟩, if_neg h, if_pos h', he]
  · have he : v2p va ≠ a := by
      rintro rfl
      exact h' p2v_v2p.symm
    rw [if_neg h, if_neg h', layout]
    simp only [h, he, or_false]

/-- A page that is not of the direct map or the identity map. -/
lemma layout_device_part (hva : ∀ pa, RamPage pa → va ≠ p2v pa ∧ va ≠ pa) (ha : Aligned va) :
    layout highMemory rtc plic va =
      if 0x10000#64 ≤ dV2p va ∧ dV2p va < rtc ∨ 0xC000000#64 ≤ dV2p va ∧ dV2p va < plic then
        pa2pte (dV2p va) ||| kernelPerm
      else 0 := by
  rw [layout, if_neg, if_neg]
  · exact fun h => (hva _ ⟨ha.v2p, h⟩).1 p2v_v2p.symm
  · exact fun h => (hva va ⟨ha, h⟩).2 rfl

/-- Device pages are outside of the two maps of the memory. -/
lemma dP2v_not_ram (h : DevicePage a) : ∀ pa, RamPage pa → dP2v a ≠ p2v pa ∧ dP2v a ≠ pa := by
  intro pa hpa
  obtain ⟨_, _, hh⟩ := hpa.range
  obtain ⟨_, _, ha⟩ := h.range
  rw [Ne, Ne, BitVec.toNat_eq, BitVec.toNat_eq, dP2v_toNat, p2v_toNat]
  omega

/-- A turn of the loops for the devices adds one page. -/
lemma layout_rtc (ha : DevicePage a) (hl : 0x10000#64 ≤ a) (hva : Aligned va) :
    layout highMemory (a + pageSize) plic va =
      if va = dP2v a then pa2pte a ||| kernelPerm else layout highMemory a plic va := by
  obtain ⟨hal, _, hh⟩ := ha.range
  have h63 : a.toNat < 2 ^ 63 := by omega
  by_cases h : va = dP2v a
  · have he : dV2p va = a := by rw [h, dV2p_dP2v]
    rw [if_pos h, layout_device_part (h ▸ dP2v_not_ram ha) hva, he, if_pos]
    exact .inl ⟨hl, (lt_next hal hal h63).2 (.inr rfl)⟩
  · have he : dV2p va ≠ a := by
      rintro rfl
      exact h dP2v_dV2p.symm
    rw [if_neg h, layout, layout]
    simp only [lt_next hva.dV2p hal h63, he, or_false]

/-- One more page of the interrupt controller. -/
lemma layout_plic (ha : DevicePage a) (hl : 0xC000000#64 ≤ a) (hva : Aligned va) :
    layout highMemory rtc (a + pageSize) va =
      if va = dP2v a then pa2pte a ||| kernelPerm else layout highMemory rtc a va := by
  obtain ⟨hal, _, hh⟩ := ha.range
  have h63 : a.toNat < 2 ^ 63 := by omega
  by_cases h : va = dP2v a
  · have he : dV2p va = a := by rw [h, dV2p_dP2v]
    rw [if_pos h, layout_device_part (h ▸ dP2v_not_ram ha) hva, he, if_pos]
    exact .inr ⟨hl, (lt_next hal hal h63).2 (.inr rfl)⟩
  · have he : dV2p va ≠ a := by
      rintro rfl
      exact h dP2v_dV2p.symm
    rw [if_neg h, layout, layout]
    simp only [lt_next hva.dV2p hal h63, he, or_false]

/-! ## The loops -/

/-- `swapper_pg_dir` when the loops have come to `ram`, `rtc` and `plic`. -/
structure Built (dir ram rtc plic : BitVec 64) (s : Memory) : Prop where
  kernel : Kernel kernelRoots dir s
  entries : ∀ va, Canonical va → Aligned va → entryFor s.mem dir va = layout ram rtc plic va

/-- `map_page` for the kernel maps one page and no other. -/
lemma mapPage_entry (h : Kernel kernelRoots dir s) (hr : px 2 va ∈ kernelRoots) (hc : Canonical va)
    (ha : Aligned va) :
    Prog.returns (mapPage dir va pa perm 2 0) (fun r s' => r = 0 ∧ Kernel kernelRoots dir s' ∧
      ∀ va', Canonical va' → Aligned va' → entryFor s'.mem dir va' =
        if va' = va then pa2pte pa ||| perm else entryFor s.mem dir va') s := by
  refine (mapPage_kernel h (by decide) hr).mono ?_
  rintro r s' ⟨hr, h', he⟩
  refine ⟨hr, h', fun va' hc' ha' => ?_⟩
  rw [entryFor, he _ _ rfl, entryFor]
  by_cases heq : va' = va
  · rw [if_pos heq, heq, if_pos ⟨rfl, rfl⟩]
  · rw [if_neg heq, if_neg]
    rintro ⟨hlist, h0⟩
    obtain ⟨h2, hrest⟩ := List.cons.inj hlist
    exact heq (eq_of_px hc hc' ha ha' h2 (List.cons.inj hrest).1 h0)

/-- The loop ends at `ram_end` if its turns keep an invariant. -/
lemma whileBelow_returns {I : BitVec 64 → Memory → Prop} {body : BitVec 64 → Prog Memory (List Int)}
    (lo : BitVec 64) (he : Aligned ramEnd) (h63 : ramEnd.toNat < 2 ^ 63)
    (hb : ∀ a s, Aligned a → lo ≤ a → a < ramEnd → I a s →
      Prog.returns (body a) (fun rs s' => (∀ r ∈ rs, r = 0) ∧ I (a + pageSize) s') s)
    {n : Nat} (ha : Aligned a) (hlo : lo ≤ a) (hle : a ≤ ramEnd)
    (hn : ramEnd.toNat < a.toNat + n * 4096) (hI : I a s) :
    Prog.returns (whileBelow ramEnd body n a) (fun rs s' => (∀ r ∈ rs, r = 0) ∧ I ramEnd s') s := by
  induction n generalizing a s with
  | zero =>
    rw [BitVec.le_def] at hle
    omega
  | succ n ih =>
    rw [whileBelow]
    split
    · next hlt =>
      have ha' := ha
      have he' := he
      rw [Aligned] at ha' he'
      have hltn := BitVec.lt_def.1 hlt
      have hnext := next_toNat (a := a) (by omega)
      apply Prog.returns_bind
      refine (hb a s ha hlo hlt hI).mono ?_
      rintro rs s₁ ⟨hrs, hI₁⟩
      have haligned : Aligned (a + pageSize) := by
        rw [Aligned, hnext]
        omega
      have hlo' : lo ≤ a + pageSize := by
        rw [BitVec.le_def] at hlo ⊢
        omega
      have hle' : a + pageSize ≤ ramEnd := by
        rw [BitVec.le_def, hnext]
        omega
      have hn' : ramEnd.toNat < (a + pageSize).toNat + n * 4096 := by
        rw [hnext]
        omega
      apply Prog.returns_bind
      refine (ih haligned hlo' hle' hn' hI₁).mono ?_
      rintro rs' s₂ ⟨hrs', hI₂⟩
      apply Prog.returns_pure
      refine ⟨fun r hr => ?_, hI₂⟩
      cases List.mem_append.1 hr with
      | inl hr => exact hrs r hr
      | inr hr => exact hrs' r hr
    · next hlt =>
      obtain rfl : a = ramEnd := BitVec.le_antisymm hle (BitVec.not_lt.1 hlt)
      exact Prog.returns_pure ⟨List.forall_mem_nil _, hI⟩

/-- A page of the memory is mapped twice. -/
lemma mapRam_built (ha : RamPage a) (h : Built dir a rtc plic s) :
    Prog.returns (mapRam dir a) (fun rs s' => (∀ r ∈ rs, r = 0) ∧ Built dir (a + pageSize) rtc plic s')
      s := by
  obtain ⟨hav, hcv⟩ := ha.direct
  obtain ⟨hrv, hra⟩ := ha.roots
  apply Prog.returns_bind
  refine (mapPage_entry h.kernel hrv hcv hav).mono ?_
  rintro r s₁ ⟨rfl, h₁, e₁⟩
  apply Prog.returns_bind
  refine (mapPage_entry h₁ hra ha.canonical ha.1).mono ?_
  rintro r s₂ ⟨rfl, h₂, e₂⟩
  apply Prog.returns_pure
  refine ⟨fun r hr => ?_, h₂, fun va hc hva => ?_⟩
  · simpa using hr
  · rw [e₂ va hc hva, e₁ va hc hva, layout_ram ha hva, h.entries va hc hva]

/-- The two loops for the devices have the same body. -/
lemma mapDevice_entry (h : Kernel kernelRoots dir s) (ha : DevicePage a) :
    Prog.returns (mapDevice dir a) (fun rs s' => (∀ r ∈ rs, r = 0) ∧ Kernel kernelRoots dir s' ∧
      ∀ va, Canonical va → Aligned va → entryFor s'.mem dir va =
        if va = dP2v a then pa2pte a ||| kernelPerm else entryFor s.mem dir va) s := by
  obtain ⟨hav, hcv⟩ := ha.address
  apply Prog.returns_bind
  refine (mapPage_entry h ha.root hcv hav).mono ?_
  rintro r s₁ ⟨rfl, h₁, e₁⟩
  apply Prog.returns_pure
  exact ⟨fun r hr => List.mem_singleton.1 hr, h₁, e₁⟩

/-- The loop for the clock has one turn. -/
lemma rtc_page (ha : Aligned a) (hl : 0x10000#64 ≤ a) (hh : a < 0x10000#64 + pageSize) :
    a = 0x10000#64 := by
  have hl' : 0x10000 ≤ a.toNat := BitVec.le_def.1 hl
  have hh' : a.toNat < 0x11000 := BitVec.lt_def.1 hh
  rw [Aligned] at ha
  apply BitVec.eq_of_toNat_eq
  rw [BitVec.toNat_ofNat]
  omega

/-- An empty page directory outside of the pages that `mem_map` counts. -/
lemma Built.empty (hm : Mapped dir) (hn : ¬ Managed dir) (he : s.mem dir = fun _ => 0)
    (h0 : ∀ k, s.memMap k = 0) : Built dir paKernel 0x10000#64 0xC000000#64 s := by
  have hpath : ∀ {p t}, follow s.mem dir p = some t → p = [] ∧ t = dir := follow_empty he
  refine ⟨⟨⟨?_, ?_⟩, ?_, ?_, ?_, ?_⟩, ?_⟩
  · intro p q t _ _ hf hf'
    rw [(hpath hf).1, (hpath hf').1]
  · rintro t ⟨p, _, hf⟩ hmt
    exact absurd ((hpath hf).2 ▸ hmt) hn
  · rintro t ⟨p, _, hf⟩
    exact (hpath hf).2 ▸ hm
  · intro x _ hused
    exact absurd (h0 _) hused
  · intro p t i _ hf
    rw [(hpath hf).2, he, valid_zero]
    nofun
  · intro i p t _ hf
    exact absurd (hpath hf).1 (List.cons_ne_nil _ _)
  · intro va _ _
    have hnone : follow s.mem dir [px 2 va, px 1 va] = none := by
      cases hf : follow s.mem dir [px 2 va, px 1 va] with
      | none => rfl
      | some t => exact absurd (hpath hf).1 (List.cons_ne_nil _ _)
    have hempty : ∀ {lo x : BitVec 64}, ¬ (lo ≤ x ∧ x < lo) :=
      fun h => BitVec.not_lt.2 h.1 h.2
    rw [entryFor, entryAt_none hnone, layout, if_neg hempty, if_neg hempty,
      if_neg (not_or.2 ⟨hempty, hempty⟩)]

/-- What `paging_init` builds. -/
lemma pagingInit_built (h : Built s.swapperPgDir paKernel 0x10000#64 0xC000000#64 s) :
    Prog.returns pagingInit (fun rs s' => (∀ r ∈ rs, r = 0) ∧
      Built s.swapperPgDir highMemory 0x11000#64 0x10002000#64 s') s := by
  apply Prog.returns_bind
  apply Prog.returns_get
  apply Prog.returns_bind
  refine (whileBelow_returns (I := fun a => Built s.swapperPgDir a 0x10000#64 0xC000000#64)
    paKernel (by decide) (by decide) (fun a s ha hl hh hI => mapRam_built ⟨ha, hl, hh⟩ hI)
    (by decide) (BitVec.le_refl _) (by decide) (by decide) h).mono ?_
  rintro rs₁ s₁ ⟨hrs₁, h₁⟩
  apply Prog.returns_bind
  refine (whileBelow_returns (I := fun a => Built s.swapperPgDir highMemory a 0xC000000#64)
    0x10000#64 (by decide) (by decide) (fun a s ha hl hh hI => ?_)
    (by decide) (BitVec.le_refl _) (by decide) (by decide) h₁).mono ?_
  · have hpage : DevicePage a := .inl (rtc_page ha hl hh)
    refine (mapDevice_entry hI.kernel hpage).mono ?_
    rintro rs s' ⟨hrs, hk, e⟩
    refine ⟨hrs, hk, fun va hc hva => ?_⟩
    rw [e va hc hva, layout_rtc hpage hl hva, hI.entries va hc hva]
  rintro rs₂ s₂ ⟨hrs₂, h₂⟩
  apply Prog.returns_bind
  refine (whileBelow_returns (I := fun a => Built s.swapperPgDir highMemory 0x11000#64 a)
    0xC000000#64 (by decide) (by decide) (fun a s ha hl hh hI => ?_)
    (by decide) (BitVec.le_refl _) (by decide) (by decide) h₂).mono ?_
  · have hpage : DevicePage a := .inr ⟨ha, hl, hh⟩
    refine (mapDevice_entry hI.kernel hpage).mono ?_
    rintro rs s' ⟨hrs, hk, e⟩
    refine ⟨hrs, hk, fun va hc hva => ?_⟩
    rw [e va hc hva, layout_plic hpage hl hva, hI.entries va hc hva]
  rintro rs₃ s₃ ⟨hrs₃, h₃⟩
  apply Prog.returns_pure
  refine ⟨fun r hr => ?_, h₃⟩
  rcases List.mem_append.1 hr with hr | hr
  · cases List.mem_append.1 hr with
    | inl hr => exact hrs₁ r hr
    | inr hr => exact hrs₂ r hr
  · exact hrs₃ r hr

/-- The finished tree is the kernel's map. -/
lemma Built.kernelMap (h : Built dir highMemory 0x11000#64 0x10002000#64 s) : KernelMap s.mem dir := by
  have hleaf : ∀ {va}, Canonical va → Aligned va →
      sv39 s.mem dir va = leafOf 0 (layout highMemory 0x11000#64 0x10002000#64 va) := by
    intro va hc ha
    rw [h.kernel.sv39_eq hc, h.entries va hc ha]
  refine ⟨fun pa hpa => ?_, fun pa hpa => ?_, fun pa hpa => ?_, fun va ha hram hdev => ?_⟩
  · obtain ⟨_, hl, hh⟩ := hpa.range
    obtain ⟨hav, hcv⟩ := hpa.direct
    have hnot : ¬ (paKernel ≤ p2v pa ∧ p2v pa < highMemory) := by
      rintro ⟨_, hlt⟩
      have hlt' : (p2v pa).toNat < 0x88000000 := BitVec.lt_def.1 hlt
      rw [p2v_toNat] at hlt'
      omega
    rw [hleaf hcv hav, layout, v2p_p2v, if_neg hnot, if_pos hpa.2]
    exact leafOf_pte hpa.1 (by omega) (.inl rfl)
  · obtain ⟨_, _, hh⟩ := hpa.range
    rw [hleaf hpa.canonical hpa.1, layout, if_pos hpa.2]
    exact leafOf_pte hpa.1 (by omega) (.inr rfl)
  · obtain ⟨ha, _, hh⟩ := hpa.range
    obtain ⟨hav, hcv⟩ := hpa.address
    rw [hleaf hcv hav, layout_device_part (dP2v_not_ram hpa) hav, dV2p_dP2v, if_pos]
    · exact leafOf_pte ha (by omega) (.inl rfl)
    · rcases hpa with rfl | ⟨_, hl, hlt⟩
      · exact .inl (by decide)
      · exact .inr ⟨hl, hlt⟩
  · by_cases hc : Canonical va
    · have hnone : leafOf 0 0 = none := by decide
      rw [hleaf hc ha, layout_device_part hram ha, if_neg, hnone]
      rintro (⟨hl, hh⟩ | ⟨hl, hh⟩)
      · exact hdev _ (.inl (rtc_page ha.dV2p hl hh)) dP2v_dV2p.symm
      · exact hdev _ (.inr ⟨ha.dV2p, hl, hh⟩) dP2v_dV2p.symm
    · rw [sv39, if_neg hc]

/-- **`paging_init` builds the kernel's map**: from an empty `swapper_pg_dir` in the kernel's image and an
    empty `mem_map` it returns, no call of `map_page` fails, and the walks are as intended. -/
theorem paging_init_maps (hl : p2v paKernel ≤ s.swapperPgDir) (hh : s.swapperPgDir < p2v lowMem)
    (he : s.mem s.swapperPgDir = fun _ => 0) (h0 : ∀ k, s.memMap k = 0) :
    Prog.returns pagingInit (fun rs s' => (∀ r ∈ rs, r = 0) ∧ KernelMap s'.mem s.swapperPgDir) s := by
  have hm : Mapped s.swapperPgDir := ⟨hl, BitVec.lt_trans hh (by decide)⟩
  have hn : ¬ Managed s.swapperPgDir := fun h => BitVec.not_lt.2 h.range.1 hh
  refine (pagingInit_built (.empty hm hn he h0)).mono ?_
  rintro rs s' ⟨hrs, h⟩
  exact ⟨hrs, h.kernelMap⟩

/-- The memory at the start, with `swapper_pg_dir` at the physical address `0x80210000`. -/
def blank : Memory := ⟨fun _ _ => 0, fun _ => 0, fun _ => none, p2v 0x80210000#64⟩

/-- The sample is mapped. -/
theorem paging_init_maps_blank :
    Prog.returns pagingInit (fun rs s' => (∀ r ∈ rs, r = 0) ∧ KernelMap s'.mem blank.swapperPgDir) blank :=
  paging_init_maps (by decide) (by decide) rfl fun _ => rfl

end OldLinux.Mm
