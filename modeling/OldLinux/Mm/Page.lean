import OldLinux.Lib.Numerals
import OldLinux.Lib.Program
import Mathlib.Data.BitVec
import Mathlib.Data.List.FinRange

/-!
# Pages and page table entries

Model of the address macros of `include/linux/config.h` and `include/linux/mm.h` and of
`get_free_page`, `free_page`, `get_two_free_pages` and `free_two_pages` (`mm/memory.c`). As in the
code, a page is named by its address in the kernel's direct map; the memory is the 512 words of every
page. `mem_map` has a counter for each of the `PAGING_PAGES` pages from `LOW_MEM` on, and an index
outside of it traps.
-/

namespace OldLinux.Mm
open Lib Function

/-! ## Addresses -/

def vaKernel : BitVec 64 := 0xFFFFFFC000000000#64

def paKernel : BitVec 64 := 0x80200000#64

/-- `BUFFER_END`. -/
def lowMem : BitVec 64 := 0x80600000#64

def highMemory : BitVec 64 := 0x88000000#64

def taskSize : BitVec 64 := 0x3FFFFFFFFF#64

def pageSize : BitVec 64 := 0x1000#64

/-- `PAGING_PAGES`. -/
def pagingPages : Nat := 31232

/-- `P2V(a)`. -/
def p2v (a : BitVec 64) : BitVec 64 := a + (vaKernel - paKernel)

/-- `V2P(a)`. -/
def v2p (a : BitVec 64) : BitVec 64 := a - (vaKernel - paKernel)

/-- `MAP_NR(addr)`. -/
def mapNr (addr : BitVec 64) : Nat := ((addr - p2v lowMem) >>> 12).toNat

/-- `P2V(LOW_MEM) + i * PAGE_SIZE`. -/
def pageAddr (i : Nat) : BitVec 64 := p2v lowMem + .ofNat 64 (i * 4096)

/-- The addresses of the direct map. -/
def Mapped (addr : BitVec 64) : Prop := p2v paKernel ≤ addr ∧ addr < p2v highMemory

instance (addr : BitVec 64) : Decidable (Mapped addr) := inferInstanceAs (Decidable (_ ∧ _))

/-- The pages that `mem_map` counts. -/
def Managed (addr : BitVec 64) : Prop := ∃ i < pagingPages, addr = pageAddr i

/-! ## Page table entries -/

def pteV : BitVec 64 := 1#64

def pteR : BitVec 64 := 2#64

def pteW : BitVec 64 := 4#64

def pteX : BitVec 64 := 8#64

def pteU : BitVec 64 := 16#64

/-- `PA2PTE(pa)`. -/
def pa2pte (pa : BitVec 64) : BitVec 64 := (pa >>> 12) <<< 10

/-- `VA2PTE(va)`. -/
def va2pte (va : BitVec 64) : BitVec 64 := pa2pte (v2p va)

/-- `PTE2PA(pte)`. -/
def pte2pa (pte : BitVec 64) : BitVec 64 := (pte >>> 10) <<< 12

/-- `PTE2VA(pte)`. -/
def pte2va (pte : BitVec 64) : BitVec 64 := p2v (pte2pa pte)

/-- `PX(level, va)`. -/
def px (level : Nat) (va : BitVec 64) : Fin 512 := Fin.ofNat 512 (va >>> (12 + 9 * level)).toNat

/-- `pte & PTE_V`. -/
def valid (pte : BitVec 64) : Bool := pte.getLsbD 0

/-- `pte & ~0x3FFUL | perm`. -/
def setFlags (pte perm : BitVec 64) : BitVec 64 := (pte &&& ~~~0x3FF#64) ||| perm

/-! ## Memory -/

/-- The memory: the words of the pages, `mem_map`, and the page directories of the live tasks. -/
structure Memory where
  mem : BitVec 64 → Fin 512 → BitVec 64
  memMap : Nat → BitVec 16
  pgd : Fin 64 → Option (BitVec 64)
  swapperPgDir : BitVec 64

/-- `table[i]`. -/
def readPte (table : BitVec 64) (i : Fin 512) : Prog Memory (BitVec 64) := do
  let s ← Prog.get
  if Mapped table then pure (s.mem table i) else Prog.fault

/-- `table[i] = pte`. -/
def writePte (table : BitVec 64) (i : Fin 512) (pte : BitVec 64) : Prog Memory Unit :=
  Prog.modify fun s => { s with mem := update s.mem table (update (s.mem table) i pte) }

/-- `memcpy(dst, src, PAGE_SIZE)`. -/
def copyPage (dst src : BitVec 64) : Prog Memory Unit :=
  Prog.modify fun s => { s with mem := update s.mem dst (s.mem src) }

/-- `mem_map[i]`. -/
def readMap (i : Nat) : Prog Memory (BitVec 16) := do
  let s ← Prog.get
  if i < pagingPages then pure (s.memMap i) else Prog.fault

/-- `mem_map[i] = n`. -/
def writeMap (i : Nat) (n : BitVec 16) : Prog Memory Unit :=
  Prog.modify fun s => { s with memMap := update s.memMap i n }

/-- The search loop of `get_free_page` from entry `i` on, with `n` turns to go. -/
def findFree (memMap : Nat → BitVec 16) (i : Nat) : Nat → Option Nat
  | 0 => none
  | n + 1 => if memMap i = 0 then some i else findFree memMap (i + 1) n

/-- `get_free_page()`. -/
def getFreePage : Prog Memory (Option (BitVec 64)) := do
  let s ← Prog.get
  match findFree s.memMap 0 pagingPages with
  | none => pure none
  | some i =>
    Prog.modify fun s =>
      { s with memMap := update s.memMap i 1, mem := update s.mem (pageAddr i) fun _ => 0 }
    pure (some (pageAddr i))

/-- `free_page(addr)`. -/
def freePage (addr : BitVec 64) : Prog Memory Unit := do
  if addr < p2v lowMem then pure ()
  else if addr > p2v highMemory then Prog.panic "trying to free nonexistent page"
  else
    let n ← readMap (mapNr addr)
    writeMap (mapNr addr) (n - 1)
    if n ≠ 0 then pure ()
    else do
      writeMap (mapNr addr) 0
      Prog.panic "trying to free free page"

/-- The search loop of `get_two_free_pages`, with the entries from `i - 1` down to go. -/
def findTwoFree (memMap : Nat → BitVec 16) : Nat → Option Nat
  | 0 => none
  | i + 1 => if memMap i = 0 ∧ memMap (i + 1) = 0 then some i else findTwoFree memMap i

/-- `get_two_free_pages()`. -/
def getTwoFreePages : Prog Memory (Option (BitVec 64)) := do
  let s ← Prog.get
  match findTwoFree s.memMap (pagingPages - 1) with
  | none => pure none
  | some i =>
    Prog.modify fun s =>
      { s with
        memMap := update (update s.memMap i 1) (i + 1) 1
        mem := update (update s.mem (pageAddr i) fun _ => 0) (pageAddr (i + 1)) fun _ => 0 }
    pure (some (pageAddr i))

/-- `free_two_pages(addr)`. -/
def freeTwoPages (addr : BitVec 64) : Prog Memory Unit := do
  if addr < p2v lowMem then pure ()
  else if addr > p2v highMemory then Prog.panic "trying to free nonexistent page"
  else
    let p1 ← readMap (mapNr addr)
    writeMap (mapNr addr) (p1 - 1)
    let p2 ← readMap (mapNr addr + 1)
    writeMap (mapNr addr + 1) (p2 - 1)
    if p1 ≠ 0 ∧ p2 ≠ 0 then pure ()
    else do
      writeMap (mapNr addr) 0
      writeMap (mapNr addr + 1) 0
      Prog.panic "trying to free free page"

/-! ## Facts about addresses -/

/-- Where the pool begins. -/
lemma lowMemory_toNat : (p2v lowMem).toNat = 0xFFFFFFC000400000 := by decide

/-- Where the pool ends. -/
lemma highMemory_toNat : (p2v highMemory).toNat = 0xFFFFFFC007E00000 := by decide

/-- The address of a page of the pool. -/
lemma pageAddr_toNat {i : Nat} (h : i < pagingPages) :
    (pageAddr i).toNat = (p2v lowMem).toNat + i * 4096 := by
  have hi : i < 31232 := h
  rw [pageAddr, BitVec.toNat_add, BitVec.toNat_ofNat, lowMemory_toNat]
  omega

/-- A page has its own place in the map. -/
lemma mapNr_pageAddr {i : Nat} (h : i < pagingPages) : mapNr (pageAddr i) = i := by
  have hi : i < 31232 := h
  rw [mapNr, pageAddr, BitVec.add_comm, BitVec.add_sub_cancel, BitVec.toNat_ushiftRight,
    BitVec.toNat_ofNat, Nat.shiftRight_eq_div_pow]
  omega

/-- A managed page has a place in the map. -/
lemma Managed.mapNr_lt {addr : BitVec 64} (h : Managed addr) : mapNr addr < pagingPages := by
  obtain ⟨i, hi, rfl⟩ := h
  rwa [mapNr_pageAddr hi]

/-- Pages with the same counter are the same. -/
lemma Managed.eq_of_mapNr {a b : BitVec 64} (ha : Managed a) (hb : Managed b) (h : mapNr a = mapNr b) :
    a = b := by
  obtain ⟨i, hi, rfl⟩ := ha
  obtain ⟨j, hj, rfl⟩ := hb
  rw [mapNr_pageAddr hi, mapNr_pageAddr hj] at h
  rw [h]

/-- It is in the pool. -/
lemma Managed.range {addr : BitVec 64} (h : Managed addr) :
    p2v lowMem ≤ addr ∧ addr < p2v highMemory := by
  obtain ⟨i, hi, rfl⟩ := h
  have h31 : i < 31232 := hi
  rw [BitVec.le_def, BitVec.lt_def, pageAddr_toNat hi, lowMemory_toNat, highMemory_toNat]
  omega

/-- A page of the pool is mapped. -/
lemma Managed.mapped {addr : BitVec 64} (h : Managed addr) : Mapped addr := by
  obtain ⟨hl, hh⟩ := h.range
  exact ⟨BitVec.le_trans (by decide) hl, hh⟩

/-- The physical address and back. -/
lemma p2v_v2p {a : BitVec 64} : p2v (v2p a) = a := BitVec.sub_add_cancel _ _

/-- The physical address as a number. -/
lemma v2p_toNat {a : BitVec 64} : (v2p a).toNat = (a.toNat + 0x4080200000) % 2 ^ 64 := by
  have hd : (vaKernel - paKernel).toNat = 0xFFFFFFBF7FE00000 := by decide
  rw [v2p, BitVec.toNat_sub, hd]
  omega

/-! ## The search loops -/

/-- The page that is found is free. -/
lemma findFree_some {f : Nat → BitVec 16} {i n k : Nat} (h : findFree f i n = some k) :
    f k = 0 ∧ k < i + n := by
  induction n generalizing i with
  | zero => cases h
  | succ n ih =>
    rw [findFree] at h
    split at h
    · next h0 =>
      cases h
      exact ⟨h0, by omega⟩
    · obtain ⟨hk, hlt⟩ := ih h
      exact ⟨hk, by omega⟩

/-- Where none is found all are in use. -/
lemma findFree_none {f : Nat → BitVec 16} {i n k : Nat} (h : findFree f i n = none) (hi : i ≤ k)
    (hk : k < i + n) : f k ≠ 0 := by
  induction n generalizing i with
  | zero => omega
  | succ n ih =>
    rw [findFree] at h
    split at h
    · cases h
    · next h0 =>
      by_cases e : k = i
      · subst e
        exact h0
      · exact ih h (by omega) (by omega)

/-- Without a free page there is none. -/
lemma getFreePage_none {s : Memory} (h : findFree s.memMap 0 pagingPages = none) :
    getFreePage s = .ret (none, s) := by
  show (match findFree s.memMap 0 pagingPages with
    | none => (pure none : Prog Memory _)
    | some i => _) s = _
  rw [h]
  rfl

/-- The page that is found is cleared and counted. -/
lemma getFreePage_some {s : Memory} {i : Nat} (h : findFree s.memMap 0 pagingPages = some i) :
    getFreePage s = .ret (some (pageAddr i),
      { s with memMap := update s.memMap i 1, mem := update s.mem (pageAddr i) fun _ => 0 }) := by
  show (match findFree s.memMap 0 pagingPages with
    | none => (pure none : Prog Memory _)
    | some i => _) s = _
  rw [h]
  rfl

section
variable {s : Memory} {t u : BitVec 64}

/-- The memory after `get_free_page` has returned `page`. -/
def Memory.taken (s : Memory) (page : BitVec 64) : Memory :=
  { s with memMap := update s.memMap (mapNr page) 1, mem := update s.mem page fun _ => 0 }

/-- The page that is taken is clear. -/
lemma taken_row : (s.taken t).mem t = fun _ => 0 :=
  update_self _ _ _

/-- The others are as they were. -/
lemma taken_other (h : u ≠ t) : (s.taken t).mem u = s.mem u :=
  update_of_ne h _ _

/-- It is counted once. -/
lemma taken_memMap (ht : Managed t) (hu : Managed u) :
    (s.taken t).memMap (mapNr u) = if u = t then 1 else s.memMap (mapNr u) := by
  show update s.memMap (mapNr t) 1 (mapNr u) = _
  split
  · next h =>
    rw [h, update_self]
  · next h => exact update_of_ne (fun e => h (hu.eq_of_mapNr ht e)) _ _

/-- `get_free_page` fails when no page is free, and takes a free page otherwise. -/
lemma getFreePage_taken :
    Prog.returns getFreePage (fun r m => (r = none ∧ m = s ∧ ∀ x, Managed x → s.memMap (mapNr x) ≠ 0) ∨
      ∃ page, r = some page ∧ Managed page ∧ s.memMap (mapNr page) = 0 ∧ m = s.taken page) s := by
  cases hf : findFree s.memMap 0 pagingPages with
  | none =>
    refine ⟨none, s, getFreePage_none hf, .inl ⟨rfl, rfl, fun x hx => ?_⟩⟩
    exact findFree_none hf (Nat.zero_le _) ((Nat.zero_add pagingPages).symm ▸ hx.mapNr_lt)
  | some k =>
    obtain ⟨h0, hlt⟩ := findFree_some hf
    rw [Nat.zero_add] at hlt
    have hnr := mapNr_pageAddr hlt
    refine ⟨_, _, getFreePage_some hf, .inr ⟨_, rfl, ⟨k, hlt, rfl⟩, ?_, ?_⟩⟩
    · rw [hnr, h0]
    · rw [Memory.taken, hnr]

end

/-- Both pages that are found are free. -/
lemma findTwoFree_some {f : Nat → BitVec 16} {n k : Nat} (h : findTwoFree f n = some k) :
    f k = 0 ∧ f (k + 1) = 0 ∧ k < n := by
  induction n with
  | zero => cases h
  | succ n ih =>
    rw [findTwoFree] at h
    split at h
    · next h0 =>
      cases h
      exact ⟨h0.1, h0.2, Nat.lt_succ_self _⟩
    · obtain ⟨hk, hk', hlt⟩ := ih h
      exact ⟨hk, hk', Nat.lt_succ_of_lt hlt⟩

/-- Where none are found no two are free in a row. -/
lemma findTwoFree_none {f : Nat → BitVec 16} {n k : Nat} (h : findTwoFree f n = none) (hk : k < n) :
    ¬ (f k = 0 ∧ f (k + 1) = 0) := by
  induction n with
  | zero => omega
  | succ n ih =>
    rw [findTwoFree] at h
    split at h
    · cases h
    · next h0 =>
      by_cases e : k = n
      · subst e
        exact h0
      · exact ih h (by omega)

/-- Without two free pages there are none. -/
lemma getTwoFreePages_none {s : Memory} (h : findTwoFree s.memMap (pagingPages - 1) = none) :
    getTwoFreePages s = .ret (none, s) := by
  show (match findTwoFree s.memMap (pagingPages - 1) with
    | none => (pure none : Prog Memory _)
    | some i => _) s = _
  rw [h]
  rfl

/-- The two that are found are cleared and counted. -/
lemma getTwoFreePages_some {s : Memory} {i : Nat}
    (h : findTwoFree s.memMap (pagingPages - 1) = some i) :
    getTwoFreePages s = .ret (some (pageAddr i),
      { s with
        memMap := update (update s.memMap i 1) (i + 1) 1
        mem := update (update s.mem (pageAddr i) fun _ => 0) (pageAddr (i + 1)) fun _ => 0 }) := by
  show (match findTwoFree s.memMap (pagingPages - 1) with
    | none => (pure none : Prog Memory _)
    | some i => _) s = _
  rw [h]
  rfl

/-! ## Facts about entries -/

/-- Flags leave the address. -/
lemma pte2pa_or {pte perm : BitVec 64} (h : perm >>> 10 = 0#64) :
    pte2pa (pte ||| perm) = pte2pa pte := by
  rw [pte2pa, pte2pa, BitVec.ushiftRight_or_distrib, h, BitVec.or_zero]

/-- Flags do not change what an entry points to. -/
lemma pte2va_or {pte perm : BitVec 64} (h : perm >>> 10 = 0#64) :
    pte2va (pte ||| perm) = pte2va pte := by
  rw [pte2va, pte2va, pte2pa_or h]

/-- The flags are the ten low bits. -/
lemma flags_getLsbD {k : Nat} (h : 10 ≤ k) : (0x3FF#64).getLsbD k = false := by
  rw [BitVec.getLsbD_ofNat, Nat.testBit_lt_two_pow, Bool.and_false]
  calc 0x3FF < 2 ^ 10 := by decide
    _ ≤ 2 ^ k := Nat.pow_le_pow_right (by decide) h

/-- The flags of an entry are below its page number. -/
lemma clearFlags_shiftRight (pte : BitVec 64) : (pte &&& ~~~0x3FF#64) >>> 10 = pte >>> 10 := by
  apply BitVec.eq_of_getLsbD_eq
  intro k hk
  rw [BitVec.getLsbD_ushiftRight, BitVec.getLsbD_ushiftRight, BitVec.getLsbD_and, BitVec.getLsbD_not,
    flags_getLsbD (Nat.le_add_right 10 k)]
  by_cases h : 10 + k < 64
  · simp [h]
  · have hout : pte.getLsbD (10 + k) = false := BitVec.getLsbD_of_ge _ _ (by omega)
    rw [hout, Bool.false_and]

/-- An address gives no flags. -/
lemma pa2pte_flags {pa : BitVec 64} : pa2pte pa &&& 0x3FF#64 = 0#64 := by
  apply BitVec.eq_of_getLsbD_eq
  intro b hb
  rw [pa2pte, BitVec.getLsbD_and, BitVec.getLsbD_shiftLeft]
  by_cases h10 : b < 10
  · simp [h10]
  · rw [flags_getLsbD (Nat.le_of_not_lt h10), Bool.and_false, BitVec.getLsbD_zero]

/-- An entry holds 44 bits of the page's number. -/
lemma pte2pa_pa2pte {pa : BitVec 64} (ha : pa.toNat % 4096 = 0) (hpa : pa.toNat < 2 ^ 56) :
    pte2pa (pa2pte pa) = pa := by
  apply BitVec.eq_of_toNat_eq
  rw [pa2pte, pte2pa]
  simp only [BitVec.toNat_shiftLeft, BitVec.toNat_ushiftRight, Nat.shiftRight_eq_div_pow,
    Nat.shiftLeft_eq]
  omega

/-- Setting the flags leaves the address. -/
lemma pte2va_setFlags {pte perm : BitVec 64} (h : perm >>> 10 = 0#64) :
    pte2va (setFlags pte perm) = pte2va pte := by
  rw [setFlags, pte2va_or h, pte2va, pte2va, pte2pa, pte2pa, clearFlags_shiftRight]

/-- Other flags leave the entry valid. -/
lemma valid_or {pte perm : BitVec 64} (h : valid perm = false) : valid (pte ||| perm) = valid pte := by
  rw [valid] at h ⊢
  rw [BitVec.getLsbD_or, h, Bool.or_false]
  rfl

/-- So does setting it valid. -/
lemma valid_setFlags {pte perm : BitVec 64} (h : valid perm = true) :
    valid (setFlags pte perm) = true := by
  rw [valid] at h ⊢
  rw [setFlags, BitVec.getLsbD_or, h, Bool.or_true]

end OldLinux.Mm
