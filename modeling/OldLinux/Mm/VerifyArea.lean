import OldLinux.Lib.Turns
import OldLinux.Mm.DemandPaging

/-!
# Checks of user areas

`verify_area` (`kernel/fork.c`) and `write_verify` (`mm/memory.c`), which the kernel calls before it stores
into an area of the current task. `verify_area` calls `write_verify` for the pages of the area in turn
(`verifyArea_calls`). The test of `write_verify` for a page that is present and not writable is
`(*table_entry | PTE_W | PTE_V) == PTE_V`, which is never true, so that `do_wp_page` is not called and
nothing is made writable (`verify_area_iff`).

A call that ends in `do_exit` does not come back: the program ends with no value.
-/

namespace OldLinux.Mm
open Lib Function

/-! ## The code -/

/-- `size -= 4096` does not overflow. -/
lemma sub_page_toInt {size : BitVec 64} (h : 0 < size.toInt) : (size - 4096).toInt = size.toInt - 4096 := by
  have hlt := size.isLt
  have hsub : (size - 4096).toNat = (2 ^ 64 - 4096 + size.toNat) % 2 ^ 64 := BitVec.toNat_sub ..
  rw [BitVec.toInt_eq_toNat_cond] at h
  rw [BitVec.toInt_eq_toNat_cond, BitVec.toInt_eq_toNat_cond, hsub]
  split_ifs at h ⊢ <;> omega

/-- One turn after the other of `verify_area`, with its variables `start` and `size`. -/
def verifyLoop {σ : Type} (writeVerify : BitVec 64 → Turns σ Unit) (start size : BitVec 64) : Turns σ Unit :=
  if 0 < size.toInt then do
    writeVerify start
    verifyLoop writeVerify (start + 4096) (size - 4096)
  else pure ()
termination_by size.toInt.toNat
decreasing_by
  rw [sub_page_toInt ‹_›]
  omega

/-- `verify_area(addr, size)`. -/
def verifyArea {σ : Type} (writeVerify : BitVec 64 → Turns σ Unit) (addr size : BitVec 64) : Turns σ Unit :=
  let size := size + (addr &&& 0xFFF#64)
  let start := addr &&& ~~~0xFFF#64
  verifyLoop writeVerify start size

/-- `do_exit(code)` of the current task. -/
def exitTask (c : Fin 64) : Turns Memory Unit := do
  Turns.lift (doExit c)
  failure

/-- `write_verify(address)`. -/
def writeVerify (c : Fin 64) (address : BitVec 64) : Turns Memory Unit := do
  let address := address &&& ~~~0xFFF#64
  if address < pageSize ∨ taskSize ≤ address then exitTask c
  else
    let s ← Turns.get
    match s.pgd c with
    | none => Turns.fault
    | some dir =>
      match getPte s.mem dir address with
      | .null => pure ()
      | .trap => exitTask c
      | .entry table i =>
        if Mapped table then
          if s.mem table i ||| pteW ||| pteV = pteV then
            Turns.lift (doWpPage c dir address table i)
            -- `do_wp_page` may have called `do_exit`
            let s ← Turns.get
            if s.pgd c = none then failure else pure ()
          else pure ()
        else exitTask c

/-! ## What is expected -/

/-- The page at `p` overlaps the `size` bytes at `addr`. -/
def PageOf (addr size p : BitVec 64) : Prop :=
  p.toNat % 4096 = 0 ∧ p.toNat < addr.toNat + size.toNat ∧ addr.toNat < p.toNat + 4096

/-- The page that was at `va` in the table of the task is writable now, with a frame of its own and what
was on it before. -/
def MadeWritable (c : Fin 64) (va : BitVec 64) (s s' : Memory) : Prop :=
  ∀ dir pte, s.pgd c = some dir → walk s.mem va 2 dir = some pte → valid pte = true →
    ∃ dir' pte', s'.pgd c = some dir' ∧ walk s'.mem va 2 dir' = some pte' ∧ valid pte' = true ∧
      writable pte' = true ∧ (∀ t, t ≠ c → pte2va pte' ∉ s'.space t) ∧
      s'.mem (pte2va pte') = s.mem (pte2va pte)

/-- `verify_area` calls `write_verify` for the pages of the area, one after the other, and when it returns
they are writable. -/
structure VerifiesArea (c : Fin 64) (addr size : BitVec 64) (s : Memory) : Prop where
  calls : ∃ l : List (BitVec 64), l.Pairwise (· < ·) ∧ (∀ p, p ∈ l ↔ PageOf addr size p) ∧
    ∀ (σ : Type) (writeVerify : BitVec 64 → Turns σ Unit), verifyArea writeVerify addr size = forM l writeVerify
  writable : ∀ s', (verifyArea (writeVerify c) addr size).run s = .ret (some (), s') →
    ∀ p, PageOf addr size p → MadeWritable c p s s'

/-- The bytes lie between `PAGE_SIZE` and `TASK_SIZE`. -/
structure UserArea (addr size : BitVec 64) : Prop where
  low : pageSize ≤ addr
  pos : 0 < size.toInt
  high : addr.toNat + size.toNat ≤ taskSize.toNat

/-- `get_pte` comes to an entry for the page without a trap. -/
def Reaches (c : Fin 64) (va : BitVec 64) (s : Memory) : Prop :=
  ∃ dir table i, s.pgd c = some dir ∧ getPte s.mem dir va = .entry table i ∧ Mapped table

/-- The page is not present, or it is writable and no other task has it. -/
def Private (c : Fin 64) (va : BitVec 64) (s : Memory) : Prop :=
  ∀ dir pte, s.pgd c = some dir → walk s.mem va 2 dir = some pte → valid pte = true →
    Mm.writable pte = true ∧ ∀ t, t ≠ c → pte2va pte ∉ s.space t

/-! ## The loop -/

variable {σ : Type} {f : BitVec 64 → Turns σ Unit} {start size addr p : BitVec 64} {n : Nat}

/-- `n` pages from `start` on. -/
def pagesFrom (start : BitVec 64) (n : Nat) : List (BitVec 64) :=
  (List.range n).map fun i => start + .ofNat 64 (4096 * i)

/-- A page and those behind it. -/
lemma pagesFrom_succ : pagesFrom start (n + 1) = start :: pagesFrom (start + 4096) n := by
  rw [pagesFrom, List.range_succ_eq_map, List.map_cons, List.map_map, Nat.mul_zero, BitVec.add_zero, pagesFrom]
  refine congrArg (List.cons start) (List.map_congr_left fun i _ => ?_)
  rw [comp_apply, Nat.mul_succ, Nat.add_comm, BitVec.ofNat_add, BitVec.add_assoc]
  rfl

/-- The loop runs for as many pages as begin before `size` bytes are over. -/
lemma verifyLoop_eq (hlo : 4096 * (n : Int) < size.toInt + 4096) (hhi : size.toInt ≤ 4096 * n) :
    verifyLoop f start size = forM (pagesFrom start n) f := by
  induction n generalizing start size with
  | zero =>
    rw [verifyLoop, if_neg (by omega)]
    rfl
  | succ n ih =>
    have hpos : 0 < size.toInt := by omega
    have hsub := sub_page_toInt hpos
    rw [verifyLoop, if_pos hpos, pagesFrom_succ, List.forM_cons, ih (by omega) (by omega)]

/-- The number of pages that `size` bytes at `addr` overlap. -/
def pageCount (addr size : BitVec 64) : Nat := (size.toNat + addr.toNat % 4096 + 4095) / 4096

/-- The offset in the page. -/
lemma offset_toNat : (addr &&& 0xFFF#64).toNat = addr.toNat % 4096 := by
  rw [BitVec.toNat_and]
  exact Nat.and_two_pow_sub_one_eq_mod addr.toNat 12

namespace UserArea

/-- The pages of an area of the user, in the order in which `verify_area` comes to them. -/
def pages (addr size : BitVec 64) : List (BitVec 64) :=
  pagesFrom (addr &&& ~~~0xFFF#64) (pageCount addr size)

/-- The size is not negative. -/
lemma size_toInt (h : UserArea addr size) : size.toInt = size.toNat := by
  have hhigh : _ ≤ 0x3FFFFFFFFF := h.high
  exact BitVec.toInt_eq_toNat_of_lt (by omega)

/-- `verify_area` visits the pages of the area. -/
lemma verifyArea_eq (h : UserArea addr size) : verifyArea f addr size = forM (pages addr size) f := by
  have hhigh : _ ≤ 0x3FFFFFFFFF := h.high
  have htotal : (size + (addr &&& 0xFFF#64)).toNat = size.toNat + addr.toNat % 4096 := by
    rw [BitVec.toNat_add, offset_toNat]
    omega
  have hint : (size + (addr &&& 0xFFF#64)).toInt = (size.toNat + addr.toNat % 4096 : Nat) := by
    rw [BitVec.toInt_eq_toNat_of_lt (by omega), htotal]
  refine verifyLoop_eq ?_ ?_
  · rw [hint, pageCount]
    omega
  · rw [hint, pageCount]
    omega

/-- The address of one of them. -/
lemma page_toNat {i : Nat} (h : UserArea addr size) (hi : i < pageCount addr size) :
    ((addr &&& ~~~0xFFF#64) + .ofNat 64 (4096 * i)).toNat = addr.toNat / 4096 * 4096 + 4096 * i := by
  have hhigh : _ ≤ 0x3FFFFFFFFF := h.high
  rw [pageCount] at hi
  rw [BitVec.toNat_add, Mm.page_toNat, BitVec.toNat_ofNat]
  omega

/-- They are those the area has bytes in. -/
lemma mem_pages (h : UserArea addr size) : p ∈ pages addr size ↔ PageOf addr size p := by
  have hpos := h.pos
  rw [h.size_toInt] at hpos
  rw [pages, pagesFrom, List.mem_map]
  constructor
  · rintro ⟨i, hi, rfl⟩
    have hi := List.mem_range.1 hi
    rw [PageOf, h.page_toNat hi]
    rw [pageCount] at hi
    omega
  · rintro ⟨hal, hlt, hgt⟩
    have hi : (p.toNat - addr.toNat / 4096 * 4096) / 4096 < pageCount addr size := by
      rw [pageCount]
      omega
    refine ⟨_, List.mem_range.2 hi, BitVec.eq_of_toNat_eq ?_⟩
    rw [h.page_toNat hi]
    omega

/-- The pages of an area are in ascending order. -/
lemma ascending (h : UserArea addr size) : (pages addr size).Pairwise (· < ·) := by
  refine List.pairwise_map.2 (List.pairwise_lt_range.imp_of_mem fun {i j} hi hj hij => ?_)
  rw [BitVec.lt_def, h.page_toNat (List.mem_range.1 hi), h.page_toNat (List.mem_range.1 hj)]
  omega

/-- `write_verify` takes the pages for what they are. -/
lemma page_range (h : UserArea addr size) (hp : PageOf addr size p) :
    p &&& ~~~0xFFF#64 = p ∧ ¬ (p < pageSize ∨ taskSize ≤ p) := by
  obtain ⟨hal, hlt, hgt⟩ := hp
  have hhigh : _ ≤ 0x3FFFFFFFFF := h.high
  have hlow : 4096 ≤ addr.toNat := h.low
  refine ⟨BitVec.eq_of_toNat_eq ?_, ?_⟩
  · rw [Mm.page_toNat]
    omega
  · rw [BitVec.lt_def, BitVec.le_def]
    show ¬ (p.toNat < 4096 ∨ 0x3FFFFFFFFF ≤ p.toNat)
    omega

end UserArea

/-! ## One page -/

variable {c : Fin 64} {s s' : Memory} {dir va : BitVec 64} {l : List (BitVec 64)}

/-- The test of `write_verify` for a page that is present and not writable. -/
lemma writeVerify_test (pte : BitVec 64) : pte ||| pteW ||| pteV ≠ pteV := by
  intro h
  have hb := congrArg (fun b : BitVec 64 => b.getLsbD 2) h
  simp [pteW, pteV] at hb

/-- Nothing comes behind the end of the task. -/
lemma wp_exitTask {Q : Unit → Memory → Prop} : (exitTask c).wp Q s :=
  Turns.wp_bind fun _ _ _ _ _ => Turns.wp_failure

/-- If `write_verify` comes back, it has done nothing. -/
lemma writeVerify_spec : (writeVerify c va).wp (fun _ s' => s' = s ∧ Reaches c (va &&& ~~~0xFFF#64) s) s := by
  rw [writeVerify]
  split
  · exact wp_exitTask
  refine Turns.wp_bind (Turns.wp_get ?_)
  cases hd : s.pgd c with
  | none => exact Turns.wp_fault
  | some dir =>
    dsimp only
    cases hg : getPte s.mem dir (va &&& ~~~0xFFF#64) with
    | null => exact absurd hg getPteWalk_ne_null
    | trap => exact wp_exitTask
    | entry table i =>
      dsimp only
      split
      · next hm =>
        rw [if_neg (writeVerify_test _)]
        exact Turns.wp_pure ⟨rfl, dir, table, i, hd, hg, hm⟩
      · exact wp_exitTask

/-- It comes back from a page of the user for which `get_pte` does not trap. -/
lemma writeVerify_ends (hp : va &&& ~~~0xFFF#64 = va) (hu : ¬ (va < pageSize ∨ taskSize ≤ va))
    (h : Reaches c va s) : (writeVerify c va).ends s := by
  obtain ⟨dir, table, i, hd, hg, hm⟩ := h
  rw [writeVerify, hp, if_neg hu]
  refine Turns.ends_get ?_
  rw [hd]
  dsimp only
  rw [hg]
  dsimp only
  rw [if_pos hm, if_neg (writeVerify_test _)]
  exact Turns.ends_pure

/-! ## The pages of an area -/

/-- If `write_verify` comes back from all pages, nothing has changed. -/
lemma writeVerify_all_spec (hl : ∀ p ∈ l, p &&& ~~~0xFFF#64 = p) :
    Turns.wp (forM l (writeVerify c)) (fun _ s' => s' = s ∧ ∀ p ∈ l, Reaches c p s) s := by
  induction l with
  | nil => exact Turns.wp_pure ⟨rfl, nofun⟩
  | cons p l ih =>
    obtain ⟨hp, hl⟩ := List.forall_mem_cons.1 hl
    rw [List.forM_cons]
    refine Turns.wp_bind (writeVerify_spec.mono fun _ s' h => ?_)
    obtain ⟨rfl, hr⟩ := h
    refine (ih hl).mono fun _ s'' h => ⟨h.1, List.forall_mem_cons.2 ⟨hp ▸ hr, h.2⟩⟩

/-- The visits end. -/
lemma writeVerify_all_ends
    (hl : ∀ p ∈ l, p &&& ~~~0xFFF#64 = p ∧ ¬ (p < pageSize ∨ taskSize ≤ p) ∧ Reaches c p s) :
    Turns.ends (forM l (writeVerify c)) s := by
  induction l with
  | nil => exact Turns.ends_pure
  | cons p l ih =>
    obtain ⟨⟨hp, hu, hr⟩, hl⟩ := List.forall_mem_cons.1 hl
    rw [List.forM_cons]
    refine Turns.ends_bind (writeVerify_ends hp hu hr) writeVerify_spec fun _ s' h => ?_
    rw [h.1]
    exact ih hl

/-- What `verify_area` comes to: it returns exactly if `get_pte` traps for no page, and has done nothing. -/
lemma verifyArea_run (h : UserArea addr size) :
    (verifyArea (writeVerify c) addr size).run s = .ret (some (), s') ↔
      s' = s ∧ ∀ p, PageOf addr size p → Reaches c p s := by
  rw [h.verifyArea_eq]
  have hspec := writeVerify_all_spec (c := c) (s := s) (l := UserArea.pages addr size)
    fun p hp => (h.page_range (h.mem_pages.1 hp)).1
  constructor
  · intro e
    obtain ⟨rfl, hr⟩ := hspec _ _ e () rfl
    exact ⟨rfl, fun p hp => hr p (h.mem_pages.2 hp)⟩
  · rintro ⟨rfl, hr⟩
    obtain ⟨⟨⟩, s', e⟩ := writeVerify_all_ends (c := c) (s := s') (l := UserArea.pages addr size) fun p hp => by
      have hp := h.mem_pages.1 hp
      exact ⟨(h.page_range hp).1, (h.page_range hp).2, hr p hp⟩
    obtain ⟨rfl, -⟩ := hspec _ _ e () rfl
    exact e

/-- Where nothing is done, the pages are writable afterwards if they were before. -/
lemma madeWritable_self : MadeWritable c va s s ↔ Private c va s := by
  constructor
  · intro h dir pte hd hw hv
    obtain ⟨dir', pte', hd', hw', -, hwr, ht, -⟩ := h dir pte hd hw hv
    cases hd.symm.trans hd'
    cases hw.symm.trans hw'
    exact ⟨hwr, ht⟩
  · intro h dir pte hd hw hv
    exact ⟨dir, pte, hd, hw, hv, (h dir pte hd hw hv).1, (h dir pte hd hw hv).2, rfl⟩

/-- **When `verify_area` does its work**: exactly if it does not return, or there is nothing to do. -/
theorem verify_area_iff (h : UserArea addr size) : VerifiesArea c addr size s ↔
    ((∀ p, PageOf addr size p → Reaches c p s) → ∀ p, PageOf addr size p → Private c p s) := by
  constructor
  · intro hv hr p hp
    exact madeWritable_self.1 (hv.writable s ((verifyArea_run h).2 ⟨rfl, hr⟩) p hp)
  · intro hpriv
    refine ⟨⟨_, h.ascending, fun p => h.mem_pages, fun _ _ => h.verifyArea_eq⟩, fun s' e p hp => ?_⟩
    obtain ⟨rfl, hr⟩ := (verifyArea_run h).1 e
    exact madeWritable_self.2 (hpriv hr p hp)

/-! ## A page before and after a fork -/

/-- The area of the sample. -/
lemma parent_area : UserArea 0x87000123#64 4#64 := ⟨by decide, by decide, by decide⟩

/-- It has one page. -/
lemma parent_pageOf (hp : PageOf 0x87000123#64 4#64 p) : p = 0x87000000#64 := by
  obtain ⟨hal, hlt, hgt⟩ := hp
  have hlt : p.toNat < 0x87000123 + 4 := hlt
  have hgt : 0x87000123 < p.toNat + 4096 := hgt
  apply BitVec.eq_of_toNat_eq
  show p.toNat = 0x87000000
  omega

/-- After the fork the parent's page is shared and write-protected, and `verify_area` leaves it so. -/
theorem verify_area_forked : ¬ VerifiesArea 1 0x87000123#64 4#64 forked := by
  intro hv
  have hd : forked.pgd 1 = some (pageAddr 2) := by decide
  have hg : getPte forked.mem (pageAddr 2) 0x87000000#64 = .entry (pageAddr 4) 0 := by decide
  have hw : walk forked.mem 0x87000000#64 2 (pageAddr 2) = some (forked.mem (pageAddr 4) 0) := by
    decide
  have hvalid : valid (forked.mem (pageAddr 4) 0) = true := by decide
  have hprot : writable (forked.mem (pageAddr 4) 0) = false := by decide
  have hrun := (verifyArea_run (c := 1) (s := forked) parent_area).2 ⟨rfl, fun p hp =>
    parent_pageOf hp ▸ ⟨_, _, _, hd, hg, by decide⟩⟩
  have hpage : PageOf 0x87000123#64 4#64 0x87000000#64 := ⟨by decide, by decide, by decide⟩
  have hwr := (madeWritable_self.1 (hv.writable _ hrun _ hpage) _ _ hd hw hvalid).1
  rw [hprot] at hwr
  cases hwr

/-- Which is verified. -/
theorem verify_area_alone : UserArea 0x87000123#64 4#64 ∧ VerifiesArea 1 0x87000123#64 4#64 onePage := by
  refine ⟨parent_area, (verify_area_iff parent_area).2 fun _ p hp => ?_⟩
  rw [parent_pageOf hp]
  have hd : onePage.pgd 1 = some (pageAddr 2) := by decide
  have hw : walk onePage.mem 0x87000000#64 2 (pageAddr 2) = some (onePage.mem (pageAddr 4) 0) := by
    decide
  have hprot : writable (onePage.mem (pageAddr 4) 0) = true := by decide
  have hleaf : pte2va (onePage.mem (pageAddr 4) 0) = pageAddr 5 := by decide
  intro dir pte hdir hpte _
  cases hd.symm.trans hdir
  cases hw.symm.trans hpte
  refine ⟨hprot, fun t ht => ?_⟩
  rw [hleaf, onePage_space, if_neg ht]
  decide

end OldLinux.Mm
